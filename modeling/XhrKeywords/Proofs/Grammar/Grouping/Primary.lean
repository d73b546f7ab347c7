import XhrKeywords.Grammar.Primary
import XhrKeywords.Proofs.Grammar.Grouping.Body

/-!
# Blocks, calls, definitions and primaries are grouped

A call without parentheses keeps a `do` for itself while its arguments are read, and a block between
`do` and `end` is read only where no call keeps it. Constructions with a body of their own count
from zero again. Every primary is an operand.
-/

namespace XhrKeywords.Grammar

open Syntax hiding Kind
open Token (Kind)

variable {tokens : List Token} {blocked : Nat} {g : Rules} {s t : State} {found : List Node}
  {n : Node}

/-- A construction with a body of its own is an operand. -/
theorem groups_reopening {kind : Syntax.Kind} {children : List Node} {start : Mark}
    (h : AllGrouped tokens 0 children) (hkind : kind.isUniform)
    (hreopens : ∀ span, Node.reopens tokens (.tree kind span children))
    (hoperand : ∀ span, (Node.tree kind span children).isOperand = true) :
    GroupsAs tokens blocked (Whole tokens blocked) (build kind children start) :=
  upholds_build fun span => ⟨h.body hkind hreopens span, hoperand span⟩

/-- Another span makes no difference to an operand. -/
theorem mapSpan_whole (change : Span → Span) (h : Whole tokens blocked n) :
    Whole tokens blocked (mapSpan change n) := by
  refine ⟨mapSpan_grouped change h.1, ?_⟩
  have hsame : (mapSpan change n).isOperand = n.isOperand := by
    cases n with
    | absent | leaf _ => rfl
    | tree kind span children =>
      cases kind <;> first | rfl | (cases children <;> rfl)
  rw [hsame]
  exact h.2

/-- The parameters of a block between bars, if there are any. -/
theorem groups_blockParameters (hg : g.Groups tokens) :
    GroupsAs tokens blocked (Grouped tokens blocked) (blockParameters g) := by
  refine (maintains_sees .orOr).bind fun _ _ =>
    .ite ((groups_bare rfl fun _ _ => rfl).mono fun _ => And.left) ?_
  refine (maintains_sees .pipe).bind fun _ _ => .ite ?_ (upholds_pure .absent)
  exact maintains_advance.bind fun _ _ => (groups_parameters hg _ true).bind fun _ hfound =>
    (maintains_expectCloser .pipe _ _).bind fun _ _ => groups_build hfound rfl

/-- A body in braces, read where as many calls keep a `do` as in front of the brace. -/
theorem groups_bracedBody (hg : g.Groups tokens) (construction : String) :
    GroupsAs tokens blocked (Grouped tokens blocked) (bracedBody g construction) :=
  (groups_body hg _).bind fun _ hinner => (maintains_expectCloser .rbrace _ _).bind fun _ _ =>
    upholds_pure hinner

/-- A body up to its `end`, read where as many calls keep a `do` as in front of it. -/
theorem groups_closedBody (hg : g.Groups tokens) (construction : String) :
    GroupsAs tokens blocked (Grouped tokens blocked) (closedBody g construction) :=
  (groups_bodyStatement hg).bind fun _ hinner => (maintains_expectEnd _).bind fun _ _ =>
    upholds_pure hinner

/-- Inside a body that counts as a bracket, a call takes its own `do` again. -/
theorem groups_bracketedBody (hg : g.Groups tokens) (construction : String) :
    GroupsAs tokens blocked (Grouped tokens 0) (bracketedBody g construction) :=
  (groups_bracketed (groups_bodyStatement hg)).bind fun _ hinner =>
    (maintains_expectEnd construction).bind fun _ _ => upholds_pure hinner

/-- The parameters and the body of a block. -/
theorem groups_blockParts (hg : g.Groups tokens) (braces : Bool) :
    GroupsAs tokens blocked
      (fun parts => Grouped tokens blocked parts.1 ∧ Grouped tokens blocked parts.2)
      (blockParts g braces) := by
  refine (groups_blockParameters hg).bind fun bound hbound => .ite ?_ ?_
  · exact (groups_bracedBody hg _).bind fun _ hinner => upholds_pure ⟨hbound, hinner⟩
  · exact (groups_closedBody hg _).bind fun _ hinner => upholds_pure ⟨hbound, hinner⟩

/-- A block between `do` and `end` is read where no call keeps its `do`. -/
theorem groups_block (hg : g.Groups tokens) {call : Node} (hcall : Grouped tokens blocked call)
    (hs : s.Grouping tokens blocked) (hdo : s.current.kind = .kwDo → blocked = 0)
    (h : block g call s = .ok (n, t)) : t.Grouping tokens blocked ∧ Whole tokens blocked n := by
  rw [block, advance_bind] at h
  refine (?_ : GroupsAs tokens blocked (Whole tokens blocked) _) (Steady.advance hs) h
  refine Upholds.bind (P := fun parts => Grouped tokens 0 parts.1 ∧ Grouped tokens 0 parts.2)
    (groups_bracketed (groups_inScope (groups_blockParts hg _) true)) fun parts hparts =>
      upholds_build fun span => ?_
  have hblock : Node.isDoBlock (.tree .block span
      [call, parts.1, parts.2, styleLeaf (s.current.kind != .kwDo)]) = true → blocked = 0 := by
    by_cases hkind : s.current.kind = .kwDo
    · exact fun _ => hdo hkind
    · rw [bne_iff_ne.mpr hkind]
      exact fun hstyle => absurd (show ("\x7b" == "do") = true from hstyle) (by decide)
  have hchildren : AllGrouped tokens 0
      [call, parts.1, parts.2, styleLeaf (s.current.kind != .kwDo)] :=
    .cons (hcall.weaken (Nat.zero_le _)) (.cons hparts.1 (.two hparts.2 (.leaf _)))
  exact ⟨.reopening nofun rfl hblock hchildren, rfl⟩

/-- The parameters of a lambda, in parentheses or without. -/
theorem groups_lambdaParameters (hg : g.Groups tokens) :
    GroupsAs tokens blocked (Grouped tokens blocked) (lambdaParameters g) := by
  refine (maintains_sees .lpar).bind fun _ _ => .ite ?_ ?_
  · exact maintains_advance.bind fun _ _ => (groups_parameters hg _ false).bind fun _ hfound =>
      (groups_build hfound rfl).bind fun _ hargs => (maintains_expect .rpar).bind fun _ _ =>
        upholds_pure (mapSpan_grouped _ hargs)
  · refine (maintains_seesAny _).bind fun _ _ => .ite ?_ (upholds_pure .absent)
    exact maintains_current.bind fun _ _ => (groups_parameters hg _ false).bind fun _ hfound =>
      groups_build hfound rfl

/-- The body of a lambda is read where as many calls keep a `do` as around it. -/
theorem groups_lambdaBody (hg : g.Groups tokens) :
    GroupsAs tokens blocked (fun parts => Grouped tokens blocked parts.1) (lambdaBody g) := by
  refine (maintains_accept .lbrace).bind fun _ _ => .ite ?_ ?_
  · exact (groups_bracedBody hg _).bind fun _ hinner => upholds_pure hinner
  · exact (maintains_expectOr .kwDo _).bind fun _ _ => (groups_closedBody hg _).bind fun _ hinner =>
      upholds_pure hinner

/-- The parameters and the body of a lambda. -/
theorem groups_lambdaParts (hg : g.Groups tokens) :
    GroupsAs tokens blocked (fun parts => Grouped tokens 0 parts.1 ∧ Grouped tokens 0 parts.2.1)
      (lambdaParts g) :=
  (groups_lambdaParameters hg).bind fun _ hbound => (groups_bracketed (groups_lambdaBody hg)).bind
    fun _ hinner => upholds_pure ⟨hbound.weaken (Nat.zero_le _), hinner⟩

/-- A lambda stands as an operand. -/
theorem groups_lambda (hg : g.Groups tokens) :
    GroupsAs tokens blocked (Whole tokens blocked) (lambda g) :=
  (maintains_expect .arrow).bind fun _ _ => (groups_inScope (groups_lambdaParts hg) true).bind
    fun _ hparts => groups_reopening (.cons hparts.1 (.two hparts.2 (.leaf _))) rfl
      (fun _ => rfl) fun _ => rfl

/-- What may stand in front of the arguments of a call: with any arguments it is an operand, without
parentheses it keeps a `do` for itself, and in parentheses no call does. -/
structure CallHead (tokens : List Token) (blocked : Nat) (kind : Syntax.Kind) (head : List Node) :
    Prop where
  operand (span : Option Span) (arguments : List Node) :
    (Node.tree kind span (head ++ arguments)).isOperand = true
  command {arguments : List Node} (h : AllGrouped tokens (blocked + 1) arguments)
    (span : Option Span) : Grouped tokens blocked (.tree kind span (head ++ arguments))
  delimited {arguments : List Node} (h : AllGrouped tokens 0 arguments)
    (hopens : arguments = [] ∨ Token.opens tokens .lpar arguments = true) (span : Option Span) :
    Grouped tokens blocked (.tree kind span (head ++ arguments))

/-- A receiver and a name. -/
theorem CallHead.call {receiver : Node} (hreceiver : Grouped tokens blocked receiver) (name : Leaf)
    {kind : Syntax.Kind} (hkind : kind = .call ∨ kind = .csend) :
    CallHead tokens blocked kind [receiver, .leaf name] where
  operand span arguments := by rcases hkind with rfl | rfl <;> rfl
  command h span := .command hkind hreceiver name h
  delimited h hopens span := by
    rcases hopens with rfl | hopens
    · exact grouped_bare hkind hreceiver name span
    · have hchildren := AllGrouped.cons (hreceiver.weaken (Nat.zero_le _)) (.cons (.leaf name) h)
      rcases hkind with rfl | rfl
      · exact .reopening nofun hopens nofun hchildren
      · exact .reopening nofun hopens nofun hchildren

/-- A call of the overridden method has neither. -/
theorem CallHead.superCall : CallHead tokens blocked .superCall [] where
  operand _ _ := rfl
  command h := AllGrouped.tree (fun n hn => (h n hn).weaken (Nat.le_succ _)) rfl
  delimited h hopens := h.opened rfl (hopens.imp_right fun h _ => h)

variable {kind : Syntax.Kind} {head : List Node}

/-- The arguments of a call in command style leave a `do` to that call. -/
theorem groups_command (hg : g.Groups tokens) (hhead : CallHead tokens blocked kind head)
    (start : Mark) :
    GroupsAs tokens blocked (Whole tokens blocked) (command g kind head start) := by
  intro s n t hs h
  obtain ⟨found, u, hfound, h⟩ := of_bind h
  obtain ⟨hu, hall⟩ := groups_keepingDo (groups_arguments hg none) hs hfound
  rw [build_bind, doBinds_bind, sees_bind] at h
  split at h
  · rename_i hbinds
    simp only [Bool.and_eq_true, beq_iff_eq] at hbinds
    exact groups_block hg (hhead.command hall _) hu (fun _ => hu.count.symm.trans hbinds.1) h
  · cases h
    exact ⟨hu, hhead.command hall _, hhead.operand _ _⟩

/-- What is read with arguments in parentheses may take them for granted. -/
theorem groups_inParentheses {α : Type} {P : α → Prop} {rest : List Node → Parser α} {a : α}
    (hg : g.Groups tokens) (hs : s.Grouping tokens blocked) (hkind : s.current.kind = .lpar)
    (hrest : ∀ found, AllGrouped tokens 0 found →
      found = [] ∨ Token.opens tokens .lpar found = true → GroupsAs tokens blocked P (rest found))
    (h : (delimitedArguments g .rpar >>= rest) s = .ok (a, t)) :
    t.Grouping tokens blocked ∧ P a := by
  obtain ⟨found, u, hfound, h⟩ := of_bind h
  obtain ⟨hu, hall⟩ := groups_delimitedArguments hg .rpar hs hfound
  have hnewline : s.current.kind ≠ .newline := by
    rw [hkind]
    decide
  have hopens := opens_delimitedArguments hg hs (hkind ▸ rfl) hnewline hfound
  rw [hkind] at hopens
  exact hrest found hall hopens hu h

/-- Arguments in parentheses may take a `do`, those in command style leave it to the call. -/
theorem groups_callArguments (hg : g.Groups tokens) (hhead : CallHead tokens blocked kind head)
    (start : Mark) :
    GroupsAs tokens blocked (Whole tokens blocked) (callArguments g kind head start) := by
  intro s n t hs h
  rw [callArguments, seesGlued_bind] at h
  split at h
  · rename_i hglued
    simp only [Bool.and_eq_true, beq_iff_eq] at hglued
    exact groups_inParentheses hg hs hglued.1 (fun found hfound hopens => upholds_build fun span =>
      ⟨hhead.delimited hfound hopens span, hhead.operand span found⟩) h
  · refine (maintains_commandStart.bind fun _ _ => .ite (groups_command hg hhead start) ?_ :
      GroupsAs tokens blocked (Whole tokens blocked) _) hs h
    refine upholds_build fun span => ?_
    rw [← List.append_nil head]
    exact ⟨hhead.delimited .nil (.inl rfl) span, hhead.operand span []⟩

/-- A call on a receiver that is grouped. -/
theorem groups_methodCall (hg : g.Groups tokens) {receiver : Node}
    (hreceiver : Grouped tokens blocked receiver) (operator : Kind) :
    GroupsAs tokens blocked (Whole tokens blocked) (methodCall g receiver operator) := by
  refine upholds_methodName.bind fun name hname => ?_
  obtain ⟨content, rfl⟩ := hname
  refine groups_callArguments hg (.call hreceiver content ?_) _
  split
  · exact .inr rfl
  · exact .inl rfl

/-- A bare name is a variable or the head of a call. -/
theorem groups_identifier (hg : g.Groups tokens) :
    GroupsAs tokens blocked (Whole tokens blocked) (identifier g) :=
  maintains_advance.bind fun _ _ => (maintains_isLocal _).bind fun _ _ =>
    (maintains_seesGlued .lpar).bind fun _ _ =>
      .ite (groups_uniform (.one (.leaf _)) rfl fun _ => rfl)
        (groups_callArguments hg (.call .absent _ (.inl rfl)) _)

/-- In a branch no call outside the condition keeps a `do`. -/
theorem groups_branch (hg : g.Groups tokens) (stops : List Kind) :
    GroupsAs tokens blocked (Grouped tokens 0) (branch g stops) :=
  groups_bracketed (groups_body hg stops)

/-- The statements behind `else`, if there is one. -/
theorem groups_otherwiseBranch (hg : g.Groups tokens) :
    GroupsAs tokens blocked (Grouped tokens 0) (otherwiseBranch g) :=
  (maintains_accept .kwElse).bind fun _ _ => .ite (groups_branch hg _) (upholds_pure .absent)

/-- What follows a branch is read in the same condition. -/
theorem groups_nextBranch (hg : g.Groups tokens) (keyword : Token) :
    GroupsAs tokens blocked (Grouped tokens 0) (nextBranch g keyword) := by
  refine (maintains_sees .kwElsif).bind fun _ _ => .ite ?_ (groups_otherwiseBranch hg)
  exact maintains_advance.bind fun next _ =>
    (hg.read (.conditional next) blocked).mono fun _ hn => hn.weaken (Nat.zero_le _)

/-- The parts of a condition are read as in brackets, so no call around it keeps a `do` there. -/
theorem groups_conditional (hg : g.Groups tokens) {test : Parser Node}
    (htest : GroupsAs tokens 0 (Grouped tokens 0) test) (keyword : Token) :
    GroupsAs tokens blocked (Whole tokens blocked) (conditional g test keyword) :=
  (groups_bracketed htest).bind fun _ hcondition => maintains_separator.bind fun _ _ =>
    (groups_branch hg _).bind fun _ hinner => (groups_nextBranch hg keyword).bind
      fun _ hotherwise => groups_reopening
        (.cons (.leaf _) (.cons hcondition (.two hinner hotherwise))) rfl (fun _ => rfl)
        fun _ => rfl

/-- `if` and `unless` differ in the order of their branches only. -/
theorem groups_condition (hg : g.Groups tokens) :
    GroupsAs tokens blocked (Whole tokens blocked) (condition g) :=
  maintains_advance.bind fun keyword _ => (groups_conditional hg (hg.read .sequence 0) keyword).bind
    fun _ hn => (maintains_expectEnd _).bind fun _ _ => upholds_pure (mapSpan_whole _ hn)

/-- In the body of a loop a `do` may be taken again. -/
theorem groups_loopBody (hg : g.Groups tokens) (construction : String) :
    GroupsAs tokens blocked (Grouped tokens 0) (loopBody g construction) :=
  maintains_loopOpener.bind fun _ _ => (groups_branch hg _).bind fun _ hinner =>
    (maintains_expectEnd _).bind fun _ _ => upholds_pure hinner

/-- What stands in front of the body of a loop is read where the loop keeps a `do` for itself. -/
theorem groups_loopHead (hg : g.Groups tokens) :
    GroupsAs tokens blocked (Grouped tokens 0) (keepingDo (g.read .sequence)) :=
  (groups_keepingDo (hg.read .sequence _)).mono fun _ h => h.weaken (Nat.zero_le _)

/-- The test of a loop leaves the `do` to the loop. -/
theorem groups_whileLoop (hg : g.Groups tokens) :
    GroupsAs tokens blocked (Whole tokens blocked) (whileLoop g) :=
  maintains_advance.bind fun keyword _ => (groups_loopHead hg).bind fun _ htest =>
    (groups_loopBody hg keyword.text).bind fun _ hinner =>
      groups_reopening (.cons (.leaf _) (.two htest hinner)) rfl (fun _ => rfl) fun _ => rfl

/-- A variable of a `for` loop has nothing to group. -/
theorem groups_loopVariable : GroupsAs tokens blocked (Grouped tokens 0) loopVariable :=
  (maintains_expectOr .ident _).bind fun name _ => (maintains_declare name.text).bind fun _ _ =>
    groups_build (.one (.leaf _)) rfl

/-- One round of the variables of a `for` loop. -/
theorem groups_loopVariableRound (hfound : AllGrouped tokens 0 found) :
    GroupsAs tokens blocked (Round.All (AllGrouped tokens 0) (AllGrouped tokens 0))
      (loopVariableRound found) :=
  groups_loopVariable.bind fun _ hn => upholds_commaRound (hfound.concat hn)

/-- Several variables are put under one node. -/
theorem groups_loopTarget (start : Token) {targets : List Node}
    (h : AllGrouped tokens 0 targets) :
    GroupsAs tokens blocked (Grouped tokens 0) (loopTarget start targets) := by
  match targets, h with
  | [only], h => exact upholds_pure (h only List.mem_cons_self)
  | [], h | _ :: _ :: _, h => exact groups_build h rfl

/-- What a `for` loop goes through leaves the `do` to the loop. -/
theorem groups_forLoop (hg : g.Groups tokens) :
    GroupsAs tokens blocked (Whole tokens blocked) (forLoop g) := by
  refine (maintains_expect .kwFor).bind fun start _ =>
    (upholds_rounds g.limit (fun _ => groups_loopVariableRound) AllGrouped.nil).bind
      fun targets htargets => (groups_loopTarget start htargets).bind fun bound hbound => ?_
  exact (maintains_expectOr .kwIn _).bind fun _ _ => (groups_loopHead hg).bind
    fun _ hcollection => (groups_loopBody hg _).bind fun _ hinner =>
      groups_reopening (.cons hbound (.two hcollection hinner)) rfl (fun _ => rfl) fun _ => rfl

/-- The values of a `when` and its statements, inside the `case`. -/
theorem groups_whenClause (hg : g.Groups tokens) :
    GroupsAs tokens blocked (Grouped tokens 0) (whenClause g) :=
  maintains_advance.bind fun _ _ =>
    (groups_elements (groups_splatOr (hg.read .choice blocked))).bind fun _ hvalues =>
      maintains_separator.bind fun _ _ => (groups_branch hg _).bind fun _ hinner =>
        groups_build (hvalues.weaken.concat hinner) rfl

/-- One round of the `when` clauses. -/
theorem groups_whenRound (hg : g.Groups tokens) (hfound : AllGrouped tokens 0 found) :
    GroupsAs tokens blocked (Round.All (AllGrouped tokens 0) (AllGrouped tokens 0))
      (whenRound g found) :=
  (maintains_sees .kwWhen).bind fun _ _ =>
    .ite ((groups_whenClause hg).againWith fun _ => hfound.concat) (upholds_pure hfound)

/-- The first `when` must be there, the others may. -/
theorem groups_whenClauses (hg : g.Groups tokens) :
    GroupsAs tokens blocked (AllGrouped tokens 0) (whenClauses g) :=
  (upholds_rounds g.limit (fun _ => groups_whenRound hg) AllGrouped.nil).bind fun _ hclauses =>
    (maintains_sees .kwIn).bind fun _ _ =>
      .ite (upholds_fail _) (.ite (upholds_fail _) (upholds_pure hclauses))

/-- The value a `case` looks at is read inside it. -/
theorem groups_caseSubject (hg : g.Groups tokens) :
    GroupsAs tokens blocked (Grouped tokens 0) (caseSubject g) :=
  (maintains_seesClass _).bind fun _ _ => .ite (upholds_pure .absent)
    ((hg.read .sequence blocked).mono fun _ hn => hn.weaken (Nat.zero_le _))

/-- A `case` is closed by its `end`. -/
theorem groups_caseChoice (hg : g.Groups tokens) :
    GroupsAs tokens blocked (Whole tokens blocked) (caseChoice g) := by
  refine (maintains_expect .kwCase).bind fun start _ => (groups_caseSubject hg).bind
    fun subject hsubject => maintains_skipSeparators.bind fun _ _ => ?_
  exact (groups_whenClauses hg).bind fun _ hclauses => (groups_otherwiseBranch hg).bind
    fun _ hotherwise => (maintains_expectEnd _).bind fun _ _ =>
      groups_reopening (.cons hsubject (hclauses.concat hotherwise)) rfl (fun _ => rfl)
        fun _ => rfl

/-- The owner of a singleton method is a single token. -/
theorem groups_singletonOwner (t : Token) :
    GroupsAs tokens blocked (Grouped tokens 0) (singletonOwner t) := by
  refine .ite ((groups_bare rfl fun _ _ => rfl).mono fun _ => And.left) (.ite ?_
    ((groups_single rfl fun _ _ => rfl).mono fun _ => And.left))
  exact maintains_advance.bind fun _ _ => groups_build (.two .absent (.leaf _)) rfl

/-- The owner and its dot in front of the name of a method. -/
theorem groups_singleton : GroupsAs tokens blocked (Grouped tokens 0) singleton :=
  maintains_current.bind fun t _ => maintains_second.bind fun _ _ =>
    .ite ((groups_singletonOwner t).bind fun _ hn => maintains_advance.bind fun _ _ =>
      upholds_pure hn) (upholds_pure .absent)

/-- The name of a method that is defined has nothing to group. -/
theorem groups_plainName : GroupsAs tokens blocked (Grouped tokens 0) plainName :=
  maintains_advance.bind fun _ _ => maintains_second.bind fun _ _ =>
    (maintains_seesGlued .assign).bind fun _ _ =>
      .ite (maintains_advance.bind fun _ _ => upholds_pure (.leaf _)) (upholds_pure (.leaf _))

/-- The names `[]` and `[]=` have nothing to group. -/
theorem groups_indexName : GroupsAs tokens blocked (Grouped tokens 0) indexName :=
  maintains_advance.bind fun _ _ => (maintains_expect .rbrack).bind fun _ _ =>
    (maintains_seesGlued .assign).bind fun _ _ =>
      .ite (maintains_advance.bind fun _ _ => upholds_pure (.leaf _)) (upholds_pure (.leaf _))

/-- The name of a method that is defined is a leaf. -/
theorem groups_definedName : GroupsAs tokens blocked (Grouped tokens 0) definedName := by
  refine maintains_current.bind fun t _ => ?_
  split
  · exact groups_plainName
  · exact groups_plainName
  · exact groups_indexName
  · exact .ite (maintains_advance.bind fun _ _ => upholds_pure (.leaf _)) (upholds_fail _)

/-- A further constant of a path encloses what has been read of it. -/
theorem groups_pathRound (start : Token) {scope : Node} (hscope : Grouped tokens 0 scope) :
    GroupsAs tokens blocked (Round.All (Grouped tokens 0) (Grouped tokens 0))
      (pathRound start scope) := by
  refine (maintains_accept .colon2).bind fun _ _ => .ite ?_ (upholds_pure hscope)
  exact (maintains_expect .const).bind fun _ _ => (groups_build (.two hscope (.leaf _)) rfl).again

/-- The first constant of a path may follow `::`. -/
theorem groups_pathBase (start : Token) :
    GroupsAs tokens blocked (Grouped tokens 0) (pathBase start) :=
  (maintains_accept .colon2).bind fun _ _ =>
    .ite (groups_build .nil rfl) (upholds_pure .absent)

/-- The name of a class or module. -/
theorem groups_constantPath (g : Rules) :
    GroupsAs tokens blocked (Grouped tokens 0) (constantPath g) :=
  maintains_current.bind fun start _ => (groups_pathBase start).bind fun _ hbase =>
    (maintains_expectOr .const _).bind fun _ _ =>
      (groups_build (.two hbase (.leaf _)) rfl).bind fun _ hfirst =>
        upholds_rounds g.limit (fun _ => groups_pathRound start) hfirst

/-- The parameters of a method, in parentheses or up to the line end. -/
theorem groups_definedParameters (hg : g.Groups tokens) :
    GroupsAs tokens blocked (Grouped tokens blocked) (definedParameters g) := by
  refine maintains_current.bind fun start _ => (maintains_accept .lpar).bind fun _ _ => .ite ?_ ?_
  · exact (groups_parameters hg _ false).bind fun _ hfound => maintains_skipNewlines.bind fun _ _ =>
      (maintains_expectCloser .rpar _ _).bind fun _ _ => groups_build hfound rfl
  · refine (maintains_seesAny _).bind fun _ _ => .ite (groups_build .nil rfl) ?_
    exact (groups_parameters hg _ false).bind fun _ hfound => groups_build hfound rfl

/-- The body of a method is read without the calls around the definition. -/
theorem groups_definedBody (hg : g.Groups tokens) :
    GroupsAs tokens blocked (Grouped tokens 0) (definedBody g) := by
  refine groups_bracketed ((maintains_accept .assign).bind fun _ _ => .ite ?_ ?_)
  · exact maintains_skipNewlines.bind fun _ _ => (hg.read .statement 0).bind fun _ hn =>
      groups_build (.one hn) rfl
  · exact groups_closedBody hg _

/-- The parameters and the body of a method. -/
theorem groups_definedParts (hg : g.Groups tokens) :
    GroupsAs tokens blocked (fun parts => Grouped tokens 0 parts.1 ∧ Grouped tokens 0 parts.2)
      (definedParts g) :=
  (groups_definedParameters hg).bind fun _ hargs => (groups_definedBody hg).bind
    fun _ hinner => upholds_pure ⟨hargs.weaken (Nat.zero_le _), hinner⟩

/-- A definition of a method stands as an operand. -/
theorem groups_definition (hg : g.Groups tokens) :
    GroupsAs tokens blocked (Whole tokens blocked) (definition g) :=
  (maintains_expect .kwDef).bind fun _ _ => groups_singleton.bind fun _ howner =>
    groups_definedName.bind fun _ hname => (groups_inScope (groups_definedParts hg) false).bind
      fun _ hparts => groups_reopening (.cons howner (.cons hname (.two hparts.1 hparts.2))) rfl
        (fun _ => rfl) fun _ => rfl

/-- The body of a class or module is read without the calls around it. -/
theorem groups_enclosedBody (hg : g.Groups tokens) (construction : String) :
    GroupsAs tokens blocked (Grouped tokens 0) (enclosedBody g construction) :=
  groups_inScope (groups_bracketedBody hg construction) false

/-- The superclass may be left out. -/
theorem groups_superclass (hg : g.Groups tokens) :
    GroupsAs tokens blocked (Grouped tokens 0) (superclass g) :=
  (maintains_accept .lt).bind fun _ _ =>
    .ite ((hg.read .choice blocked).mono fun _ hn => hn.weaken (Nat.zero_le _))
      (upholds_pure .absent)

/-- A class, or the singleton class of a value, is closed by its `end`. -/
theorem groups_classDefinition (hg : g.Groups tokens) :
    GroupsAs tokens blocked (Whole tokens blocked) (classDefinition g) := by
  refine (maintains_expect .kwClass).bind fun start _ => (maintains_accept .lshift).bind fun _ _ =>
    .ite ?_ ?_
  · exact (hg.read .sequence blocked).bind fun _ htarget => (groups_enclosedBody hg _).bind
      fun _ hinner => groups_reopening (.two (htarget.weaken (Nat.zero_le _)) hinner) rfl
        (fun _ => rfl) fun _ => rfl
  · exact (groups_constantPath g).bind fun _ hpath => (groups_superclass hg).bind fun _ hparent =>
      (groups_enclosedBody hg _).bind fun _ hinner =>
        groups_reopening (.cons hpath (.two hparent hinner)) rfl (fun _ => rfl) fun _ => rfl

/-- A module is closed by its `end`. -/
theorem groups_moduleDefinition (hg : g.Groups tokens) :
    GroupsAs tokens blocked (Whole tokens blocked) (moduleDefinition g) :=
  (maintains_expect .kwModule).bind fun _ _ => (groups_constantPath g).bind fun _ hpath =>
    (groups_enclosedBody hg _).bind fun _ hinner =>
      groups_reopening (.two hpath hinner) rfl (fun _ => rfl) fun _ => rfl

/-- A capitalised name is a call only if parentheses touch it. -/
theorem groups_constant (hg : g.Groups tokens) :
    GroupsAs tokens blocked (Whole tokens blocked) (constant g) := by
  intro s n t hs h
  rw [constant, advance_bind, seesGlued_bind] at h
  split at h
  · rename_i hglued
    simp only [Bool.and_eq_true, beq_iff_eq] at hglued
    have hhead (name : Leaf) : CallHead tokens blocked .call [.absent, .leaf name] :=
      .call .absent name (.inl rfl)
    exact groups_inParentheses hg (Steady.advance hs) hglued.1 (fun found hfound hopens =>
      upholds_build fun span =>
        ⟨(hhead _).delimited hfound hopens span, (hhead _).operand span found⟩) h
  · exact groups_uniform (.two .absent (.leaf _)) rfl (fun _ => rfl) (Steady.advance hs) h

/-- A constant behind `::`. -/
theorem groups_rootConstant : GroupsAs tokens blocked (Whole tokens blocked) rootConstant :=
  maintains_advance.bind fun _ _ => (groups_build .nil rfl).bind fun _ hbase =>
    (maintains_expect .const).bind fun _ _ =>
      groups_uniform (.two hbase (.leaf _)) rfl fun _ => rfl

/-- In an array literal a `do` may be taken again. -/
theorem groups_array (hg : g.Groups tokens) :
    GroupsAs tokens blocked (Whole tokens blocked) (array g) :=
  maintains_current.bind fun _ _ => (groups_delimitedArguments hg .rbrack).bind fun _ hfound =>
    groups_reopening hfound rfl (fun _ => rfl) fun _ => rfl

/-- In parentheses a `do` may be taken again. -/
theorem groups_parenthesized (hg : g.Groups tokens) :
    GroupsAs tokens blocked (Whole tokens blocked) (parenthesized g) :=
  maintains_advance.bind fun _ _ => (groups_bracketed (groups_statements hg _)).bind
    fun _ hfound => (maintains_expect .rpar).bind fun _ _ =>
      groups_reopening hfound rfl (fun _ => rfl) fun _ => rfl

/-- A range without a lower bound. -/
theorem groups_openRange (hg : g.Groups tokens) :
    GroupsAs tokens blocked (Whole tokens blocked) (openRange g) :=
  maintains_advance.bind fun _ _ => (hg.read .operation blocked).bind fun _ hupper =>
    groups_uniform (.cons .absent (.two (.leaf _) hupper)) rfl fun _ => rfl

/-- `!` in front of an operand. -/
theorem groups_negatedOperand (hg : g.Groups tokens) :
    GroupsAs tokens blocked (Whole tokens blocked) (negatedOperand g) :=
  maintains_advance.bind fun _ _ => (hg.read .assignment blocked).bind fun _ hn =>
    groups_uniform (.two (.leaf _) hn) rfl fun _ => rfl

/-- The values of a jump are read as arguments. -/
theorem groups_jumpValues (hg : g.Groups tokens) :
    GroupsAs tokens blocked (AllGrouped tokens blocked) (jumpValues g) :=
  (maintains_seesClass _).bind fun _ _ => .ite (upholds_pure .nil) (groups_arguments hg none)

/-- `return`, `break` and `next` with their values. -/
theorem groups_jump (hg : g.Groups tokens) (hkind : kind.isUniform)
    (hoperand : ∀ span children, (Node.tree kind span children).isOperand = true) :
    GroupsAs tokens blocked (Whole tokens blocked) (jump g kind) :=
  maintains_advance.bind fun _ _ => (groups_jumpValues hg).bind fun _ hvalues =>
    groups_uniform hvalues hkind fun _ => hoperand _ _

/-- The values that a block is called with make an operand: the parenthesis in front of them gives a
`do` back, and without one a call is uniform. -/
theorem groups_yieldValues (hg : g.Groups tokens) :
    GroupsAs tokens blocked
      (fun values => ∀ span, Grouped tokens blocked (.tree .yieldCall span values))
      (yieldValues g) := by
  intro s values t hs h
  rw [yieldValues, seesGlued_bind] at h
  split at h
  · rename_i hglued
    simp only [Bool.and_eq_true, beq_iff_eq] at hglued
    have hopened (found : List Node) (hfound : AllGrouped tokens 0 found)
        (hopens : found = [] ∨ Token.opens tokens .lpar found = true) (span : Option Span) :
        Grouped tokens blocked (.tree .yieldCall span found) :=
      hfound.opened rfl (hopens.imp_right fun h _ => h) span
    rw [← bind_pure (delimitedArguments g .rpar)] at h
    exact groups_inParentheses hg hs hglued.1
      (fun found hfound hopens => upholds_pure (hopened found hfound hopens)) h
  · have huniform (found : List Node) (hfound : AllGrouped tokens blocked found)
        (span : Option Span) : Grouped tokens blocked (.tree .yieldCall span found) :=
      hfound.tree rfl span
    exact (maintains_commandStart.bind fun _ _ =>
      .ite ((groups_arguments hg none).mono huniform) (upholds_pure (huniform [] .nil)) :
      GroupsAs tokens blocked
        (fun values => ∀ span, Grouped tokens blocked (.tree .yieldCall span values)) _) hs h

/-- A `yield` with its values. -/
theorem groups_yieldCall (hg : g.Groups tokens) :
    GroupsAs tokens blocked (Whole tokens blocked) (yieldCall g) :=
  maintains_advance.bind fun _ _ => (groups_yieldValues hg).bind fun _ hvalues =>
    upholds_build fun span => ⟨hvalues span, rfl⟩

/-- A `super` with or without arguments. -/
theorem groups_superCall (hg : g.Groups tokens) :
    GroupsAs tokens blocked (Whole tokens blocked) (superCall g) := by
  intro s n t hs h
  have hs := Steady.advance hs
  rw [superCall, advance_bind, seesGlued_bind] at h
  split at h
  · rename_i hglued
    simp only [Bool.and_eq_true, beq_iff_eq] at hglued
    exact groups_inParentheses hg hs hglued.1 (fun found hfound hopens => upholds_build fun span =>
      ⟨CallHead.superCall.delimited hfound hopens span, rfl⟩) h
  · exact (maintains_commandStart.bind fun _ _ => .ite (groups_command hg .superCall _)
      (groups_uniform .nil rfl fun _ => rfl) :
      GroupsAs tokens blocked (Whole tokens blocked) _) hs h

/-- An `alias` takes two names. -/
theorem groups_aliasStatement : GroupsAs tokens blocked (Whole tokens blocked) aliasStatement :=
  maintains_advance.bind fun _ _ => groups_aliasName.bind fun _ hnew => groups_aliasName.bind
    fun _ hold => groups_uniform (.two hnew hold) rfl fun _ => rfl

/-- `begin` with its body and clauses. -/
theorem groups_beginBlock (hg : g.Groups tokens) :
    GroupsAs tokens blocked (Whole tokens blocked) (beginBlock g) :=
  maintains_advance.bind fun _ _ => (groups_bracketedBody hg _).bind fun _ hinner =>
    groups_reopening (.one hinner) rfl (fun _ => rfl) fun _ => rfl

/-- Every primary is an operand. -/
theorem groups_primary (hg : g.Groups tokens) :
    GroupsAs tokens blocked (Whole tokens blocked) (primary g) := by
  refine maintains_current.bind fun t _ => ?_
  split
  case h_3 => exact groups_strings
  case h_7 | h_8 => exact groups_singleAs rfl (fun _ _ => rfl) _
  case h_9 | h_10 | h_11 | h_12 | h_29 | h_30 => exact groups_bare rfl fun _ _ => rfl
  case h_16 => exact groups_identifier hg
  case h_17 => exact groups_constant hg
  case h_18 => exact groups_rootConstant
  case h_19 => exact groups_array hg
  case h_20 => exact groups_hash hg
  case h_21 => exact groups_parenthesized hg
  case h_22 | h_23 => exact groups_openRange hg
  case h_24 => exact groups_lambda hg
  case h_25 => exact groups_negatedOperand hg
  case h_26 | h_27 | h_28 => exact groups_jump hg rfl fun _ _ => rfl
  case h_31 => exact groups_yieldCall hg
  case h_32 => exact groups_superCall hg
  case h_33 => exact groups_aliasStatement
  case h_34 => exact groups_definition hg
  case h_35 => exact groups_classDefinition hg
  case h_36 => exact groups_moduleDefinition hg
  case h_37 | h_38 => exact groups_condition hg
  case h_39 | h_40 => exact groups_whileLoop hg
  case h_41 => exact groups_forLoop hg
  case h_42 => exact groups_caseChoice hg
  case h_43 => exact groups_beginBlock hg
  case h_44 => exact upholds_fail _
  all_goals exact groups_single rfl fun _ _ => rfl

end XhrKeywords.Grammar
