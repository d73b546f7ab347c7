import XhrKeywords.Proofs.Syntax.Form
import XhrKeywords.Syntax.Printer

/-!
# Every tree of the grammar prints

Printing fails on trees of kinds without a form of their own and on trees that lack children. A
tree that fits the grammar is neither: whatever the level of indentation, it has a text.
-/

namespace XhrKeywords.Syntax

/-- Whether a computation answers. -/
def Answers {ε α : Type} (x : Except ε α) : Prop := ∃ a, x = .ok a

section Answers

variable {ε α β : Type}

theorem answers_ok (a : α) : Answers (.ok a : Except ε α) := ⟨a, rfl⟩

theorem answers_pure (a : α) : Answers (pure a : Except ε α) := ⟨a, rfl⟩

/-- A computation answers if its first step does and what follows does whatever the step answers. -/
theorem Answers.bind {x : Except ε α} {f : α → Except ε β} (hx : Answers x)
    (hf : ∀ a, Answers (f a)) : Answers (x >>= f) := by
  obtain ⟨a, rfl⟩ := hx
  exact hf a

end Answers

namespace Printer

-- The equations of `print` are made here, once for all the proofs below.
attribute [local simp] print

/-- What printing a node of a form means: the node has a text by itself or, where it stands among
others of its form, the others have a text together with it if they have one without it. -/
def Prints : Form → Node → Prop
  | .clause, n => ∀ level others, Answers (printClauseList level others) →
      Answers (printClauseList level (n :: others))
  | .choice, n => ∀ level others, others ≠ [] → Answers (printCases level others) →
      Answers (printCases level (n :: others))
  | .parameter, n => ∀ level plain shadow others,
      (∀ plain shadow, Answers (printParameters level plain shadow others)) →
      Answers (printParameters level plain shadow (n :: others))
  | .signature, n => ∀ opener closer level, Answers (printSignature opener closer level n)
  | .statements, n => ∀ level, Answers (print level n) ∧ Answers (printFirstStatement level n) ∧
      Answers (printAllStatements level n)
  | _, n => ∀ level, Answers (print level n)

variable {level : Int} {nodes : List Node}

/-- Values are printed one by one. -/
theorem answers_printAll (h : ∀ n ∈ nodes, Prints .value n) : Answers (printAll level nodes) := by
  induction nodes with
  | nil => exact answers_ok _
  | cons n others ih =>
    rw [printAll]
    refine (h n List.mem_cons_self level).bind fun text => ?_
    exact (ih fun m hm => h m (List.mem_cons_of_mem n hm)).bind fun texts => answers_pure _

/-- The first of several values is printed, if there is one. -/
theorem answers_printFirst (h : ∀ n ∈ nodes, Prints .value n) :
    Answers (printFirst level nodes) := by
  cases nodes with
  | nil => exact answers_ok _
  | cons n others => exact h n List.mem_cons_self level

/-- Statements are printed one by one. -/
theorem answers_printStatements (h : ∀ n ∈ nodes, Prints .value n) :
    Answers (printStatements level nodes) := by
  induction nodes with
  | nil => exact answers_ok _
  | cons n others ih =>
    rw [printStatements]
    refine (h n List.mem_cons_self level).bind fun text => ?_
    exact (ih fun m hm => h m (List.mem_cons_of_mem n hm)).bind fun texts => answers_pure _

/-- Parameters are printed, whatever has been listed before. -/
theorem answers_printParameters {plain shadow : List String}
    (h : ∀ n ∈ nodes, Prints .parameter n) :
    Answers (printParameters level plain shadow nodes) := by
  induction nodes generalizing plain shadow with
  | nil => exact answers_ok _
  | cons n others ih =>
    exact h n List.mem_cons_self level plain shadow others
      fun _ _ => ih fun m hm => h m (List.mem_cons_of_mem n hm)

/-- The clauses of a body are printed one by one. -/
theorem answers_printClauseList (h : ∀ n ∈ nodes, Prints .clause n) :
    Answers (printClauseList level nodes) := by
  induction nodes with
  | nil => exact answers_ok _
  | cons n others ih =>
    exact h n List.mem_cons_self level others (ih fun m hm => h m (List.mem_cons_of_mem n hm))

/-- Pairs that print in braces print without them. -/
theorem answers_pairs {span : Option Span} {pair : Node} {pairs : List Node}
    (h : Answers (print level (.tree .hash span (pair :: pairs)))) :
    Answers (print level pair) ∧ Answers (printAll level pairs) := by
  obtain ⟨text, h⟩ := h
  simp only [print, List.isEmpty_cons, Bool.false_eq_true, if_false, printAll, bind, Except.bind,
    pure, Except.pure] at h
  cases hp : print level pair with
  | error e => simp [hp] at h
  | ok first =>
    cases hps : printAll level pairs with
    | error e => simp [hp, hps] at h
    | ok rest => exact ⟨⟨first, rfl⟩, ⟨rest, rfl⟩⟩

/-- Arguments are printed, whichever of them loses its braces. -/
theorem answers_printArguments (h : ∀ n ∈ nodes, Prints .value n) :
    Answers (printArguments level nodes) := by
  induction nodes with
  | nil => exact answers_ok _
  | cons n others ih =>
    have hothers := ih fun m hm => h m (List.mem_cons_of_mem n hm)
    have hn : Answers (print level n) := h n List.mem_cons_self level
    rw [printArguments.eq_def]
    split
    · exact answers_ok _
    · rename_i span pair pairs tail heq
      obtain ⟨rfl, rfl⟩ := List.cons.inj heq
      obtain ⟨hpair, hpairs⟩ := answers_pairs hn
      refine hpair.bind fun first => hpairs.bind fun rest => ?_
      exact hothers.bind fun texts => answers_pure _
    · rename_i tail _ heq
      obtain ⟨rfl, rfl⟩ := List.cons.inj heq
      exact hn.bind fun text => hothers.bind fun texts => answers_pure _

/-- A tree that is a series of values is printed. -/
theorem prints_series {kind : Kind} {span : Option Span} (series : kind.isSeries)
    (h : ∀ n ∈ nodes, Prints .value n) : Prints .value (.tree kind span nodes) := by
  intro level
  have hall : Answers (printAll level nodes) := answers_printAll h
  have harguments : Answers (printArguments level nodes) := answers_printArguments h
  cases kind <;> first | contradiction | rw [print]
  case splat | blockPass => exact (answers_printFirst h).bind fun text => answers_pure _
  case dstr | paren | array | mlhs => exact hall.bind fun texts => answers_pure _
  case hash =>
    split
    · exact answers_ok _
    · exact hall.bind fun texts => answers_pure _
  case returnStmt | breakStmt | nextStmt | yieldCall | superCall =>
    split
    · exact answers_ok _
    · exact harguments.bind fun texts => answers_pure _

/-- A call is printed with or without parentheses. -/
theorem answers_printCall {dot : String} {parens : Bool} {receiver : Node} {name : Leaf}
    (hreceiver : Prints .optional receiver) (h : ∀ n ∈ nodes, Prints .value n) :
    Answers (printCall dot parens level (receiver :: .leaf name :: nodes)) := by
  rw [printCall]
  refine (hreceiver level).bind fun object => ?_
  split
  · exact (answers_printFirst h).bind fun text => answers_pure _
  · dsimp only
    split
    · exact answers_pure _
    · exact (answers_printArguments h).bind fun texts => answers_pure _

/-- A pair is printed with a label or an arrow. -/
theorem prints_pair {span : Option Span} {key value : Node} (hkey : Prints .value key)
    (hvalue : Prints .value value) : Prints .value (.tree .pair span [key, value]) := by
  intro level
  rw [print, printPair]
  split
  · exact (hvalue level).bind fun text => answers_pure _
  · exact (hkey level).bind fun key => (hvalue level).bind fun text => answers_pure _

/-- A call has a text in either style. -/
theorem answers_print_call {span : Option Span} {receiver : Node} {name : Leaf}
    (hreceiver : Prints .optional receiver) (h : ∀ n ∈ nodes, Prints .value n) (command : Bool) :
    Answers ((Node.tree .call span (receiver :: .leaf name :: nodes)).print command) := by
  rw [Node.print.eq_def]
  cases command with
  | true => exact answers_printCall hreceiver h
  | false =>
    change Answers (Printer.print 0 (.tree .call span (receiver :: .leaf name :: nodes)))
    rw [print]
    exact answers_printCall hreceiver h

/-- A block is printed; in braces only if its body has no clauses. -/
theorem answers_printBlock {call bound inner : Node} {style : Leaf} (hcall : Prints .value call)
    (hbound : Prints .signature bound) (hinner : Prints .suite inner)
    (hbraces : style.text = "\x7b" → Prints .statements inner) :
    Answers (printBlock level [call, bound, inner, .leaf style]) := by
  rw [printBlock]
  refine (hcall level).bind fun head => (hbound _ _ level).bind fun bars => ?_
  split
  · rename_i hstyle
    obtain ⟨-, hfirst, -⟩ := hbraces hstyle level
    split
    · exact answers_pure _
    · exact hfirst.bind fun text => answers_pure _
    · exact (hinner (level + 1)).bind fun text => answers_pure _
  · exact (hinner (level + 1)).bind fun text => answers_pure _

/-- A lambda is printed; in braces only if its body has no clauses. -/
theorem answers_printLambda {bound inner : Node} {style : Leaf}
    (hbound : Prints .signature bound) (hinner : Prints .suite inner)
    (hbraces : style.text = "\x7b" → Prints .statements inner) :
    Answers (printLambda level [bound, inner, .leaf style]) := by
  rw [printLambda]
  refine (hbound _ _ level).bind fun signature => ?_
  split
  · rename_i hstyle
    obtain ⟨-, -, hall⟩ := hbraces hstyle level
    refine hall.bind fun texts => ?_
    split
    · exact answers_pure _
    · exact answers_pure _
  · exact (hinner (level + 1)).bind fun text => answers_pure _

/-- The elements of an array or a list of targets that prints between marks print without them. -/
theorem answers_elements {kind : Kind} {span : Option Span} (hkind : kind = .array ∨ kind = .mlhs)
    (h : Answers (print level (.tree kind span nodes))) : Answers (printAll level nodes) := by
  obtain ⟨text, h⟩ := h
  cases hall : printAll level nodes with
  | error e => rcases hkind with rfl | rfl <;> simp [print, hall, bind, Except.bind] at h
  | ok texts => exact answers_ok texts

/-- An assignment to several targets is printed. -/
theorem answers_printTuple {tuple : Option Span} {targets : List Node} {value : Node}
    (htargets : ∀ n ∈ targets, Prints .value n) (hvalue : Prints .value value) :
    Answers (printTuple level [.tree .mlhs tuple targets, value]) := by
  rw [printTuple.eq_def]
  split
  · rename_i span values heq
    simp only [List.cons.injEq, Node.tree.injEq, and_true] at heq
    obtain ⟨⟨-, -, rfl⟩, rfl⟩ := heq
    refine (answers_printAll htargets).bind fun left => ?_
    refine (answers_elements (.inl rfl) (hvalue level)).bind fun right => ?_
    dsimp only
    split
    · exact answers_pure _
    · exact answers_pure _
  · rename_i heq
    simp only [List.cons.injEq, Node.tree.injEq, and_true] at heq
    obtain ⟨⟨-, -, rfl⟩, rfl⟩ := heq
    refine (answers_printAll htargets).bind fun left => ?_
    exact (hvalue level).bind fun right => answers_pure _
  · rename_i h
    exact absurd rfl (h .mlhs tuple targets value)

/-- An `alias` is printed, with symbols or with names. -/
theorem answers_printAlias {new old : Node} (hnew : Prints .value new)
    (hold : Prints .value old) : Answers (printAlias [new, old]) := by
  rw [printAlias]
  split
  · split
    · exact answers_pure _
    · exact (hold 0).bind fun second => answers_pure _
  · refine (hnew 0).bind fun first => ?_
    dsimp only
    split
    · exact answers_pure _
    · exact (hold 0).bind fun second => answers_pure _

/-- A `for` loop is printed. -/
theorem answers_printFor {bound collection inner : Node} (hbound : Prints .value bound)
    (hcollection : Prints .value collection) (hinner : Prints .suite inner) :
    Answers (printFor level [bound, collection, inner]) := by
  rw [printFor.eq_def]
  split
  case h_1 heq =>
    simp only [List.cons.injEq, and_true] at heq
    obtain ⟨rfl, rfl, rfl⟩ := heq
    refine (answers_elements (.inr rfl) (hbound level)).bind fun names => ?_
    refine (hcollection level).bind fun text => ?_
    exact (hinner (level + 1)).bind fun text => answers_pure _
  case h_2 heq =>
    simp only [List.cons.injEq, and_true] at heq
    obtain ⟨rfl, rfl, rfl⟩ := heq
    refine (hbound level).bind fun name => (hcollection level).bind fun text => ?_
    exact (hinner (level + 1)).bind fun text => answers_pure _
  case h_3 h => exact absurd rfl (h bound collection inner)

/-- Whether branches print does not depend on their keyword. -/
theorem answers_printBranches_keyword (first second : Option String)
    (h : Answers (printBranches first level nodes)) :
    Answers (printBranches second level nodes) := by
  obtain ⟨text, h⟩ := h
  rw [printBranches.eq_def] at h ⊢
  split at h
  case h_1 own test inner span children =>
    simp only [bind, Except.bind] at h
    cases ht : print level test with
    | error e => simp [ht] at h
    | ok condition =>
      cases hi : print (level + 1) inner with
      | error e => simp [ht, hi] at h
      | ok body =>
        cases ho : printBranches (some "elsif") level children with
        | error e => simp [ht, hi, ho] at h
        | ok others => exact answers_pure _
  case h_2 own test inner other hother =>
    simp only [bind, Except.bind] at h
    cases ht : print level test with
    | error e => simp [ht] at h
    | ok condition =>
      cases hi : print (level + 1) inner with
      | error e => simp [ht, hi] at h
      | ok body =>
        cases ho : print (level + 1) other with
        | error e => simp [ht, hi, ho] at h
        | ok otherwise => exact answers_pure _
  case h_3 => cases h

/-- A condition is printed under either keyword. -/
theorem answers_printBranches {keyword : Option String} {own : Leaf} {test inner other : Node}
    (htest : Prints .value test) (hinner : Prints .suite inner)
    (hother : Prints .otherwise other) :
    Answers (printBranches keyword level [.leaf own, test, inner, other]) := by
  rw [printBranches.eq_def]
  split
  case h_1 heq =>
    simp only [List.cons.injEq, Node.leaf.injEq, and_true] at heq
    obtain ⟨rfl, rfl, rfl, rfl⟩ := heq
    refine (htest level).bind fun condition => (hinner (level + 1)).bind fun body => ?_
    obtain ⟨text, hprint⟩ := hother level
    refine Answers.bind ?_ fun others => answers_pure _
    refine answers_printBranches_keyword none _ ?_
    simp only [print, bind, Except.bind] at hprint
    split at hprint
    · cases hprint
    · exact ⟨_, by assumption⟩
  case h_2 heq =>
    simp only [List.cons.injEq, Node.leaf.injEq, and_true] at heq
    obtain ⟨rfl, rfl, rfl, rfl⟩ := heq
    refine (htest level).bind fun condition => (hinner (level + 1)).bind fun body => ?_
    exact (hother (level + 1)).bind fun text => answers_pure _
  case h_3 h =>
    exact absurd rfl (h own test inner other)

/-- The clauses of a `case` and its `else` are printed. -/
theorem answers_printCases {clauses : List Node} {other : Node}
    (hclauses : ∀ n ∈ clauses, Prints .choice n) (hother : Prints .otherwise other) :
    Answers (printCases level (clauses ++ [other])) := by
  induction clauses with
  | nil =>
    rw [List.nil_append]
    by_cases hnothing : other = .absent
    · subst hnothing
      exact answers_ok _
    · rw [printCases.eq_3 _ _ hnothing]
      exact (hother (level + 1)).bind fun text => answers_pure _
  | cons n others ih =>
    refine hclauses n List.mem_cons_self level (others ++ [other]) (by simp) ?_
    exact ih fun m hm => hclauses m (List.mem_cons_of_mem n hm)

/-- A `case` with a clause is printed. -/
theorem answers_printCase {subject other : Node} {clauses : List Node}
    (hsubject : Prints .optional subject) (some : clauses ≠ [])
    (hclauses : ∀ n ∈ clauses, Prints .choice n) (hother : Prints .otherwise other) :
    Answers (printCase level (subject :: clauses ++ [other])) := by
  cases clauses with
  | nil => exact absurd rfl some
  | cons clause others =>
    rw [List.cons_append, List.cons_append, printCase]
    refine (hsubject level).bind fun value => ?_
    exact (answers_printCases hclauses hother).bind fun texts => answers_pure _

/-- A `when` is printed behind the values listed already. -/
theorem answers_printWhen {listed : List String} {inner : Node}
    (hvalues : ∀ n ∈ nodes, Prints .value n) (hinner : Prints .suite inner) :
    Answers (printWhen level listed (nodes ++ [inner])) := by
  induction nodes generalizing listed with
  | nil =>
    rw [List.nil_append, printWhen]
    exact (hinner (level + 1)).bind fun text => answers_pure _
  | cons n others ih =>
    rw [List.cons_append, printWhen]
    · refine (hvalues n List.mem_cons_self level).bind fun text => ?_
      exact ih fun m hm => hvalues m (List.mem_cons_of_mem n hm)
    · simp

/-- A `when` is printed as a choice. -/
theorem prints_when {span : Option Span} {inner : Node} (hvalues : ∀ n ∈ nodes, Prints .value n)
    (hinner : Prints .suite inner) :
    Prints .choice (.tree .whenClause span (nodes ++ [inner])) := by
  intro level others hne hothers
  rw [printCases.eq_4 _ _ _ _ _ hne]
  exact (answers_printWhen hvalues hinner).bind fun clause => hothers.bind fun texts =>
    answers_pure _

/-- A `rescue` is printed as a clause. -/
theorem prints_rescueClause {span listed : Option Span} {classes : List Node}
    {bound handler : Node} (hclasses : ∀ n ∈ classes, Prints .value n)
    (hbound : Prints .optional bound) (hhandler : Prints .suite handler) :
    Prints .clause (.tree .resBody span [.tree .excList listed classes, bound, handler]) := by
  intro level others hothers
  rw [printClauseList, printRescueClause]
  refine Answers.bind ?_ fun clause => hothers.bind fun texts => answers_pure _
  refine (answers_printAll hclasses).bind fun listed => (hbound level).bind fun target => ?_
  exact (hhandler (level + 1)).bind fun text => answers_pure _

/-- An `else` or `ensure` is printed as a clause. -/
theorem prints_bodyClause {kind : Kind} {span : Option Span} {inner : Node}
    (bodyClause : kind = .elseClause ∨ kind = .ensureClause) (hinner : Prints .suite inner) :
    Prints .clause (.tree kind span [inner]) := by
  intro level others hothers
  rcases bodyClause with rfl | rfl
  · rw [printClauseList, printBodyClause]
    refine Answers.bind ?_ fun clause => hothers.bind fun texts => answers_pure _
    exact (hinner (level + 1)).bind fun text => answers_pure _
  · rw [printClauseList, printBodyClause]
    refine Answers.bind ?_ fun clause => hothers.bind fun texts => answers_pure _
    exact (hinner (level + 1)).bind fun text => answers_pure _

/-- A parameter without a default is printed, with a name or without. -/
theorem prints_plainParameter {kind : Kind} {span : Option Span} {children : List Node}
    (plain : kind.isPlainParameter) : Prints .parameter (.tree kind span children) := by
  intro level plain shadow others hothers
  cases kind <;> first | contradiction | (rw [printParameters]; exact hothers _ _)

/-- A parameter with a default is printed. -/
theorem prints_defaultParameter {kind : Kind} {span : Option Span} {name : Leaf} {value : Node}
    (withDefault : kind = .optArg ∨ kind = .kwOptArg) (hvalue : Prints .value value) :
    Prints .parameter (.tree kind span [.leaf name, value]) := by
  intro level plain shadow others hothers
  rcases withDefault with rfl | rfl
  · rw [printParameters, printSecond]
    exact (hvalue level).bind fun text => hothers _ _
  · rw [printParameters, printSecond]
    exact (hvalue level).bind fun text => hothers _ _

/-- Parameters in parentheses are printed. -/
theorem prints_parameterGroup {span : Option Span} (h : ∀ n ∈ nodes, Prints .parameter n) :
    Prints .parameter (.tree .mlhs span nodes) := by
  intro level plain shadow others hothers
  rw [printParameters]
  exact (answers_printParameters h).bind fun inner => hothers _ _

/-- A list of values is printed as statements. -/
theorem prints_statements {span : Option Span} (h : ∀ n ∈ nodes, Prints .value n) :
    Prints .statements (.tree .body span nodes) := by
  intro level
  refine ⟨?_, ?_, answers_printAll h⟩
  · rw [print]
    exact (answers_printStatements h).bind fun texts => answers_pure _
  · cases nodes with
    | nil => exact answers_ok _
    | cons n others => exact h n List.mem_cons_self level

/-- A body with clauses is printed as a suite. -/
theorem prints_bodyStatement {span : Option Span} {main : Node} {clauses : List Node}
    (hmain : Prints .suite main) (hclauses : ∀ n ∈ clauses, Prints .clause n) :
    Prints .suite (.tree .bodyStmt span (main :: clauses)) := by
  intro level
  rw [print, printClauses]
  refine Answers.bind ?_ fun text => answers_pure _
  refine (hmain (level - 1 + 1)).bind fun text => ?_
  exact (answers_printClauseList hclauses).bind fun texts => answers_pure _

/-- The clauses of a body that prints print one level further out. -/
theorem answers_clauses {span : Option Span}
    (h : Answers (print (level + 1) (.tree .bodyStmt span nodes))) :
    Answers (printClauses level nodes) := by
  obtain ⟨text, h⟩ := h
  simp only [print, Int.add_sub_cancel, bind, Except.bind] at h
  cases hc : printClauses level nodes with
  | error e => simp [hc] at h
  | ok texts => exact answers_ok texts

/-- A `begin` is printed as a value. -/
theorem prints_beginBlock {span : Option Span} {inner : Node} (hinner : Prints .suite inner) :
    Prints .value (.tree .kwBegin span [inner]) := by
  intro level
  rw [print, printBegin.eq_def]
  split
  case h_1 heq =>
    obtain ⟨rfl, -⟩ := List.cons.inj heq
    exact (answers_clauses (hinner (level + 1))).bind fun texts => answers_pure _
  case h_2 heq =>
    obtain ⟨rfl, -⟩ := List.cons.inj heq
    exact (hinner (level + 1)).bind fun text => answers_pure _
  case h_3 heq => cases heq

end Printer

open Printer in
/-- A node that fits the grammar prints as its form demands. -/
theorem Fits.prints {ok : Kind → Option Span → Prop} {form : Form} {n : Node}
    (h : Fits ok form n) : Prints form n := by
  -- A case for each form of a tree; the parts have been printed when the text around them is.
  induction h with
  | literal literal fit content =>
    intro level
    rename_i kind span
    cases kind <;> first | contradiction | exact answers_ok _
  | word word fit =>
    intro level
    rename_i kind span
    cases kind <;> first | contradiction | exact answers_ok _
  | series series fit all ih => exact prints_series series ih
  | single single fit hinner ih =>
    intro level
    rcases single with rfl | rfl
    · rw [print, printSingle]
      exact (ih level).bind fun text => answers_pure _
    · rw [print, printSingle]
      exact (ih level).bind fun text => answers_pure _
  | couple couple fit hfirst hsecond ihfirst ihsecond =>
    intro level
    rcases couple with rfl | rfl | rfl
    · exact prints_pair ihfirst ihsecond level
    · rw [print]
      exact answers_printAlias ihfirst ihsecond
    · rw [print, printRescue]
      exact (ihfirst level).bind fun before => (ihsecond level).bind fun text => answers_pure _
  | operation operation fit hleft operator hright ihleft ihright =>
    intro level
    rcases operation with rfl | rfl
    · rw [print, printBinary]
      exact (ihleft level).bind fun before => (ihright level).bind fun text => answers_pure _
    · rw [print, printBinary]
      exact (ihleft level).bind fun before => (ihright level).bind fun text => answers_pure _
  | range fit hlower operator hupper ihlower ihupper =>
    intro level
    rw [print, printBinary]
    exact (ihlower level).bind fun before => (ihupper level).bind fun text => answers_pure _
  | unop fit operator hinner ih =>
    intro level
    rw [print, printUnary]
    exact (ih level).bind fun text => answers_pure _
  | ternary fit htest hfirst hother ihtest ihfirst ihother =>
    intro level
    rw [print, printChoice]
    refine (ihtest level).bind fun before => (ihfirst level).bind fun chosen => ?_
    exact (ihother level).bind fun text => answers_pure _
  | masgn fit htuple htargets hvalue ihtargets ihvalue =>
    intro level
    rw [print]
    exact answers_printTuple ihtargets ihvalue
  | const fit hscope name ih =>
    intro level
    rw [print, printConstant.eq_def]
    split
    case h_1 => exact answers_ok _
    case h_2 heq =>
      simp only [List.cons.injEq, Node.leaf.injEq, and_true] at heq
      obtain ⟨rfl, rfl⟩ := heq
      exact (ih level).bind fun text => answers_pure _
    case h_3 h => exact absurd rfl (h _ name)
  | modifier modifier fit keyword hinner htest ihinner ihtest =>
    intro level
    rcases modifier with rfl | rfl
    · rw [print, printModifier]
      exact (ihinner level).bind fun before => (ihtest level).bind fun text => answers_pure _
    · rw [print, printModifier]
      exact (ihinner level).bind fun before => (ihtest level).bind fun text => answers_pure _
  | call call fit hreceiver name harguments ihreceiver iharguments =>
    intro level
    rcases call with rfl | rfl
    · rw [print]
      exact answers_printCall ihreceiver iharguments
    · rw [print]
      exact answers_printCall ihreceiver iharguments
  | index fit hreceiver harguments ihreceiver iharguments =>
    intro level
    rw [print, printIndex]
    refine (ihreceiver level).bind fun head => ?_
    exact (answers_printArguments iharguments).bind fun texts => answers_pure _
  | block fit hcall hbound hinner style braces ihcall ihbound ihinner ihbraces =>
    intro level
    rw [print]
    exact answers_printBlock ihcall ihbound ihinner ihbraces
  | lambda fit hbound hinner style braces ihbound ihinner ihbraces =>
    intro level
    rw [print]
    exact answers_printLambda ihbound ihinner ihbraces
  | definition fit howner name hlisted hargs hinner ihowner ihargs ihinner =>
    intro level
    rw [print, printDefinition]
    refine (ihowner level).bind fun object => (answers_printParameters ihargs).bind fun listed => ?_
    exact (ihinner (level + 1)).bind fun text => answers_pure _
  | classDefinition fit hpath hparent hinner ihpath ihparent ihinner =>
    intro level
    rw [print, printClass]
    refine (ihpath level).bind fun name => (ihparent level).bind fun above => ?_
    exact (ihinner (level + 1)).bind fun text => answers_pure _
  | named named fit hname hinner ihname ihinner =>
    intro level
    rcases named with rfl | rfl
    · rw [print, printNamed]
      exact (ihname level).bind fun head => (ihinner (level + 1)).bind fun text => answers_pure _
    · rw [print, printNamed]
      exact (ihname level).bind fun head => (ihinner (level + 1)).bind fun text => answers_pure _
  | condition fit keyword htest hinner hother ihtest ihinner ihother =>
    intro level
    rw [print]
    exact (answers_printBranches ihtest ihinner ihother).bind fun text => answers_pure _
  | whileLoop fit keyword htest hinner ihtest ihinner =>
    intro level
    rw [print, printWhile]
    refine (ihtest level).bind fun condition => ?_
    exact (ihinner (level + 1)).bind fun text => answers_pure _
  | forLoop fit hbound hcollection hinner ihbound ihcollection ihinner =>
    intro level
    rw [print]
    exact answers_printFor ihbound ihcollection ihinner
  | caseChoice fit hsubject some hclauses hother ihsubject ihclauses ihother =>
    intro level
    rw [print]
    exact answers_printCase ihsubject some ihclauses ihother
  | beginBlock fit hinner ih => exact prints_beginBlock ih
  | absent => exact fun level => answers_ok _
  | present hn ih => exact ih
  | body fit all ih => exact prints_statements ih
  | plain hn ih => exact fun level => (ih level).1
  | bodyStatement fit hmain hclauses ihmain ihclauses => exact prints_bodyStatement ihmain ihclauses
  | nothing => exact fun level => answers_ok _
  | branch hn ih => exact ih
  | conditional condition hn ih => exact ih
  | rescueClause fit hlisted hclasses hbound hhandler ihclasses ihbound ihhandler =>
    exact prints_rescueClause ihclasses ihbound ihhandler
  | bodyClause bodyClause fit hinner ih => exact prints_bodyClause bodyClause ih
  | whenClause fit hvalues hinner ihvalues ihinner => exact prints_when ihvalues ihinner
  | plainParameter plain fit all => exact prints_plainParameter plain
  | defaultParameter withDefault fit name hvalue ih => exact prints_defaultParameter withDefault ih
  | parameterGroup fit all ih => exact prints_parameterGroup ih
  | noSignature => exact fun opener closer level => answers_ok _
  | parameters fit all ih =>
    intro opener closer level
    exact (answers_printParameters ih).bind fun text => answers_pure _

end XhrKeywords.Syntax
