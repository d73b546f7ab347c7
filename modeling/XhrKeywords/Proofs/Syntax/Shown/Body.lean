import XhrKeywords.Proofs.Syntax.Shown.Value

/-!
# Constructions with bodies show their words

Blocks, definitions, branches and loops, the bodies in them with their clauses, and parameters.
-/

namespace XhrKeywords.Syntax.Printer

open Node (wordsAll)

variable {level : Int} {nodes : List Node}

/-- A block shows its call, its parameters and its body, in either style. -/
theorem shows_printBlock {call bound inner : Node} {style : Leaf} (role : style.role = .style)
    (hcall : ShowsValue call) (hbound : Shows .signature bound) (hinner : ShowsSuite inner)
    (hbraces : style.text = "\x7b" → ShowsStatements inner) :
    Gives (Occurs (wordsAll [call, bound, inner, .leaf style]))
      (printBlock level [call, bound, inner, .leaf style]) := by
  have hwords : wordsAll [call, bound, inner, .leaf style] =
      call.words ++ bound.words ++ inner.words := by
    simp [Node.words_mark (show style.role.isContent = false by rw [role]; rfl)]
  rw [hwords, printBlock]
  refine (hcall.text level).bind fun head hhead => (hbound _ _ level).bind fun bars hbars => ?_
  split
  · rename_i hstyle
    have hopened := (hhead.before " \x7b").append hbars
    split
    · rename_i hnone
      rw [(hbraces hstyle).none hnone, List.append_nil]
      exact gives_pure (hopened.before " \x7d")
    · rename_i hsole
      refine ((hbraces hstyle).first hsole level).bind fun text htext => gives_pure ?_
      exact ((hopened.before " ").append htext).before " \x7d"
    · exact (hinner.lines (level + 1)).bind fun text htext => gives_pure (hopened.enclosed htext)
  · have hopened := (hhead.before " do").append hbars
    exact (hinner.lines (level + 1)).bind fun text htext => gives_pure (hopened.enclosed htext)

/-- A lambda shows its parameters and its body, in either style. -/
theorem shows_printLambda {bound inner : Node} {style : Leaf} (role : style.role = .style)
    (hbound : Shows .signature bound) (hinner : ShowsSuite inner)
    (hbraces : style.text = "\x7b" → ShowsStatements inner) :
    Gives (Occurs (wordsAll [bound, inner, .leaf style]))
      (printLambda level [bound, inner, .leaf style]) := by
  have hwords : wordsAll [bound, inner, .leaf style] = bound.words ++ inner.words := by
    simp [Node.words_mark (show style.role.isContent = false by rw [role]; rfl)]
  rw [hwords, printLambda]
  refine (hbound _ _ level).bind fun signature hsignature => ?_
  replace hsignature := hsignature.behind "->"
  split
  · rename_i hstyle
    refine ((hbraces hstyle).all level).bind fun texts htexts => ?_
    split
    · rw [htexts.words_eq_nil, List.append_nil]
      exact gives_pure (hsignature.before " \x7b \x7d")
    · exact gives_pure (((hsignature.before " \x7b ").append (htexts.joined "; ")).before " \x7d")
  · refine (hinner.lines (level + 1)).bind fun text htext => gives_pure ?_
    exact (hsignature.before " do").enclosed htext

/-- A definition shows the owner, the name, the parameters and the body. -/
theorem shows_printDefinition {owner inner : Node} {name : Leaf} {listed : Option Span}
    {args : List Node} (howner : Gives (Occurs owner.words) (print level owner))
    (hargs : ∀ n ∈ args, Shows .parameter n) (hinner : ShowsSuite inner) :
    Gives (Occurs (wordsAll [owner, .leaf name, .tree .args listed args, inner]))
      (printDefinition level [owner, .leaf name, .tree .args listed args, inner]) := by
  rw [printDefinition]
  refine howner.bind fun object hobject => ?_
  refine (shows_printParameters hargs .nil).bind fun text htext => ?_
  refine (hinner.lines (level + 1)).bind fun body hbody => gives_pure ?_
  have howner := occurs_unless_absent (hobject.before ".")
  have hparameters := occurs_unless_empty ((htext.behind "(").before ")")
  have hhead := ((howner.behind "def ").append (.leaf name)).append hparameters
  simpa using hhead.enclosed hbody

/-- A class shows its path, its superclass and its body. -/
theorem shows_printClass {path parent inner : Node} (hpath : ShowsValue path)
    (hparent : Gives (Occurs parent.words) (print level parent)) (hinner : ShowsSuite inner) :
    Gives (Occurs (wordsAll [path, parent, inner])) (printClass level [path, parent, inner]) := by
  rw [printClass]
  refine (hpath.text level).bind fun name hname => hparent.bind fun above habove => ?_
  refine (hinner.lines (level + 1)).bind fun body hbody => gives_pure ?_
  have hparent := occurs_unless_absent (habove.behind " < ")
  simpa using ((hname.behind "class ").append hparent).enclosed hbody

/-- A module or a singleton class shows its name and its body. -/
theorem shows_printNamed {kind : Kind} {heading : String} {name inner : Node}
    (hname : ShowsValue name) (hinner : ShowsSuite inner) :
    Gives (Occurs (wordsAll [name, inner])) (printNamed kind heading level [name, inner]) := by
  rw [Node.wordsAll_pair, printNamed]
  refine (hname.text level).bind fun head hhead => ?_
  refine (hinner.lines (level + 1)).bind fun body hbody => gives_pure ?_
  exact (hhead.behind heading).enclosed hbody

/-- A condition shows its test and its branches, under either keyword. -/
theorem shows_printBranches {keyword : Option String} {own : Leaf} {test inner other : Node}
    (role : own.role = .keyword) (htest : ShowsValue test) (hinner : ShowsSuite inner)
    (hother : ShowsOtherwise other) :
    Gives (Occurs (wordsAll [.leaf own, test, inner, other]))
      (printBranches keyword level [.leaf own, test, inner, other]) := by
  have hwords : wordsAll [.leaf own, test, inner, other] =
      test.words ++ inner.words ++ other.words := by
    simp [Node.words_mark (show own.role.isContent = false by rw [role]; rfl)]
  rw [hwords, printBranches.eq_def]
  split
  case h_1 heq =>
    simp only [List.cons.injEq, Node.leaf.injEq, and_true] at heq
    obtain ⟨rfl, rfl, rfl, rfl⟩ := heq
    refine (htest.text level).bind fun condition hcondition => ?_
    refine (hinner.lines (level + 1)).bind fun body hbody => ?_
    refine (hother.branches rfl _ level).bind fun others hothers => gives_pure ?_
    exact ((hcondition.branch hbody).before _).append hothers
  case h_2 heq =>
    simp only [List.cons.injEq, Node.leaf.injEq, and_true] at heq
    obtain ⟨rfl, rfl, rfl, rfl⟩ := heq
    refine (htest.text level).bind fun condition hcondition => ?_
    refine (hinner.lines (level + 1)).bind fun body hbody => ?_
    refine (hother.lines (level + 1)).bind fun text htext => gives_pure ?_
    have hotherwise := occurs_unless_absent (htext.behind (indent level ++ "else\n"))
    exact (hcondition.branch hbody).append hotherwise
  case h_3 h => exact absurd rfl (h own test inner other)

/-- A condition is shown as a value. -/
theorem showsValue_condition {span : Option Span} {own : Leaf} {test inner other : Node}
    (role : own.role = .keyword) (htest : ShowsValue test) (hinner : ShowsSuite inner)
    (hother : ShowsOtherwise other) :
    ShowsValue (.tree .ifStmt span [.leaf own, test, inner, other]) := by
  refine ⟨fun level => ?_, ?_, ?_⟩
  · rw [Node.words_tree, print]
    refine (shows_printBranches role htest hinner hother).bind fun text htext => gives_pure ?_
    exact (htext.before _).before _
  · rintro _ _ _ ⟨⟩ series
    cases series
  · rintro _ _ ⟨⟩ keyword level
    rw [Node.words_tree]
    exact shows_printBranches role htest hinner hother

/-- A loop shows its test and its body; its keyword is no word of its own. -/
theorem shows_printWhile {keyword : Leaf} {test inner : Node} (htest : ShowsValue test)
    (hinner : ShowsSuite inner) :
    Gives (Occurs (wordsAll [.leaf keyword, test, inner]))
      (printWhile level [.leaf keyword, test, inner]) := by
  rw [printWhile]
  refine (htest.text level).bind fun condition hcondition => ?_
  refine (hinner.lines (level + 1)).bind fun body hbody => gives_pure ?_
  have hloop := (((Occurs.leaf keyword).before " ").append (hcondition.before "\n")).append hbody
  simpa [branch, String.append_assoc] using hloop.before (indent level ++ "end")

/-- A `for` loop shows its variables, what it goes through and its body. -/
theorem shows_printFor {bound collection inner : Node} (hbound : ShowsValue bound)
    (hcollection : ShowsValue collection) (hinner : ShowsSuite inner) :
    Gives (Occurs (wordsAll [bound, collection, inner]))
      (printFor level [bound, collection, inner]) := by
  have hwords : wordsAll [bound, collection, inner] =
      bound.words ++ collection.words ++ inner.words := by
    simp
  rw [hwords, printFor.eq_def]
  split
  case h_1 heq =>
    simp only [List.cons.injEq, and_true] at heq
    obtain ⟨rfl, rfl, rfl⟩ := heq
    refine (hbound.elements rfl rfl level).bind fun names hnames => ?_
    refine (hcollection.text level).bind fun text htext => ?_
    refine (hinner.lines (level + 1)).bind fun body hbody => gives_pure ?_
    exact ((((hnames.joined ", ").behind "for ").before " in ").append htext).enclosed hbody
  case h_2 heq =>
    simp only [List.cons.injEq, and_true] at heq
    obtain ⟨rfl, rfl, rfl⟩ := heq
    refine (hbound.text level).bind fun name hname => ?_
    refine (hcollection.text level).bind fun text htext => ?_
    refine (hinner.lines (level + 1)).bind fun body hbody => gives_pure ?_
    exact (((hname.behind "for ").before " in ").append htext).enclosed hbody
  case h_3 h => exact absurd rfl (h bound collection inner)

/-- A `case` shows its clauses and its `else`. -/
theorem shows_printCases {clauses : List Node} {other : Node}
    (hclauses : ∀ n ∈ clauses, Shows .choice n) (hother : ShowsOtherwise other) :
    Gives (Occurs (wordsAll (clauses ++ [other]))) (printCases level (clauses ++ [other])) := by
  induction clauses with
  | nil =>
    rw [List.nil_append, Node.wordsAll_singleton]
    by_cases hnothing : other = .absent
    · subst hnothing
      exact gives_ok (.nil _)
    · rw [printCases.eq_3 _ _ hnothing]
      exact (hother.lines (level + 1)).bind fun text htext => gives_pure (htext.behind _)
  | cons n others ih =>
    obtain ⟨hn, hothers⟩ := List.forall_mem_cons.mp hclauses
    rw [List.cons_append, Node.wordsAll_cons]
    exact hn level (others ++ [other]) _ (by simp) (ih hothers)

/-- A `case` shows what it looks at and its clauses. -/
theorem shows_printCase {subject other : Node} {clauses : List Node}
    (hsubject : Gives (Occurs subject.words) (print level subject)) (some : clauses ≠ [])
    (hclauses : ∀ n ∈ clauses, Shows .choice n) (hother : ShowsOtherwise other) :
    Gives (Occurs (wordsAll (subject :: (clauses ++ [other]))))
      (printCase level (subject :: (clauses ++ [other]))) := by
  have hcases : Gives (Occurs (wordsAll (clauses ++ [other])))
      (printCases level (clauses ++ [other])) := shows_printCases hclauses hother
  cases clauses with
  | nil => exact absurd rfl some
  | cons clause others =>
    rw [Node.wordsAll_cons]
    rw [List.cons_append] at hcases ⊢
    rw [printCase]
    refine hsubject.bind fun value hvalue => hcases.bind fun texts htexts => gives_pure ?_
    have hhead := occurs_unless_absent (hvalue.behind " ")
    exact ((((hhead.behind "case").before "\n").append htexts).before _).before _

/-- A `when` shows its values behind those listed already, and then its statements. -/
theorem shows_printWhen {listed words : List String} {inner : Node}
    (hvalues : ∀ n ∈ nodes, ShowsValue n) (hinner : ShowsSuite inner)
    (hlisted : Series words listed) :
    Gives (Occurs (words ++ wordsAll (nodes ++ [inner])))
      (printWhen level listed (nodes ++ [inner])) := by
  induction nodes generalizing listed words with
  | nil =>
    rw [List.nil_append, Node.wordsAll_singleton, printWhen]
    refine (hinner.lines (level + 1)).bind fun text htext => gives_pure ?_
    exact (((hlisted.joined ", ").behind _).before "\n").append htext
  | cons n others ih =>
    obtain ⟨hn, hothers⟩ := List.forall_mem_cons.mp hvalues
    rw [List.cons_append, printWhen, Node.wordsAll_cons, ← List.append_assoc]
    · exact (hn.text level).bind fun text htext => ih hothers (hlisted.snoc htext)
    · simp

/-- A `when` is shown as a choice. -/
theorem shows_when {span : Option Span} {inner : Node} (hvalues : ∀ n ∈ nodes, ShowsValue n)
    (hinner : ShowsSuite inner) : Shows .choice (.tree .whenClause span (nodes ++ [inner])) := by
  intro level others words hne hothers
  rw [printCases.eq_4 _ _ _ _ _ hne, Node.words_tree]
  refine (shows_printWhen hvalues hinner .nil).bind fun clause hclause => ?_
  exact hothers.bind fun texts htexts => gives_pure (hclause.append htexts)

/-- A `rescue` shows its classes, its variable and its statements. -/
theorem shows_printRescueClause {listed : Option Span} {classes : List Node}
    {bound handler : Node} (hclasses : ∀ n ∈ classes, ShowsValue n)
    (hbound : Gives (Occurs bound.words) (print level bound)) (hhandler : ShowsSuite handler) :
    Gives (Occurs (wordsAll [.tree .excList listed classes, bound, handler]))
      (printRescueClause level [.tree .excList listed classes, bound, handler]) := by
  have hwords : wordsAll [.tree .excList listed classes, bound, handler] =
      wordsAll classes ++ bound.words ++ handler.words := by
    simp
  rw [hwords, printRescueClause]
  refine (shows_printAll hclasses).bind fun listed hlisted => hbound.bind fun target htarget => ?_
  refine (hhandler.lines (level + 1)).bind fun text htext => gives_pure ?_
  have hclassList := occurs_unless_empty ((hlisted.joined ", ").behind " ")
  replace htarget := occurs_unless_absent (htarget.behind " => ")
  exact ((((hclassList.behind "rescue").append htarget).behind _).before "\n").append htext

/-- An `else` or `ensure` shows its statements. -/
theorem shows_printBodyClause {keyword : String} {kind : Kind} {inner : Node}
    (hinner : ShowsSuite inner) :
    Gives (Occurs (wordsAll [inner])) (printBodyClause keyword kind level [inner]) := by
  rw [Node.wordsAll_singleton, printBodyClause]
  exact (hinner.lines (level + 1)).bind fun text htext => gives_pure (htext.behind _)

/-- A `rescue` is shown as a clause. -/
theorem shows_rescueClause {span listed : Option Span} {classes : List Node}
    {bound handler : Node} (hclasses : ∀ n ∈ classes, ShowsValue n)
    (hbound : ∀ level, Gives (Occurs bound.words) (print level bound))
    (hhandler : ShowsSuite handler) :
    Shows .clause (.tree .resBody span [.tree .excList listed classes, bound, handler]) := by
  intro level others words hothers
  rw [printClauseList, Node.words_tree]
  refine (shows_printRescueClause hclasses (hbound level) hhandler).bind fun clause hclause => ?_
  exact hothers.bind fun texts htexts => gives_pure (hclause.append htexts)

/-- An `else` or `ensure` is shown as a clause. -/
theorem shows_bodyClause {kind : Kind} {span : Option Span} {inner : Node}
    (bodyClause : kind = .elseClause ∨ kind = .ensureClause) (hinner : ShowsSuite inner) :
    Shows .clause (.tree kind span [inner]) := by
  intro level others words hothers
  rw [Node.words_tree]
  rcases bodyClause with rfl | rfl
  · rw [printClauseList]
    refine (shows_printBodyClause hinner).bind fun clause hclause => ?_
    exact hothers.bind fun texts htexts => gives_pure (hclause.append htexts)
  · rw [printClauseList]
    refine (shows_printBodyClause hinner).bind fun clause hclause => ?_
    exact hothers.bind fun texts htexts => gives_pure (hclause.append htexts)

/-- A body shows its statements and then its clauses. -/
theorem shows_printClauses {main : Node} (hmain : ShowsSuite main)
    (hclauses : ∀ n ∈ nodes, Shows .clause n) :
    Gives (Occurs (wordsAll (main :: nodes))) (printClauses level (main :: nodes)) := by
  rw [Node.wordsAll_cons, printClauses]
  refine (hmain.lines (level + 1)).bind fun text htext => ?_
  refine (shows_printClauseList hclauses).bind fun texts htexts => gives_pure ?_
  exact htext.append htexts

/-- A list of values is shown as statements. -/
theorem showsStatements_body {span : Option Span} (h : ∀ n ∈ nodes, ShowsValue n) :
    ShowsStatements (.tree .body span nodes) := by
  refine ⟨fun level => ?_, fun hnone => ?_, fun hsole level => ?_, fun level => ?_⟩
  · rw [Node.words_tree, print]
    exact (shows_printStatements h).bind fun texts htexts => gives_pure (htexts.joined "\n")
  · obtain rfl : nodes = [] := List.length_eq_zero_iff.mp hnone
    rw [Node.words_tree, Node.wordsAll_nil]
  · obtain ⟨n, rfl⟩ := List.length_eq_one_iff.mp hsole
    rw [Node.words_tree, Node.wordsAll_singleton]
    exact (h n List.mem_cons_self).text level
  · rw [Node.words_tree]
    exact shows_printAll h

/-- The line feeds at the end of a body with clauses are taken off, but no words are. -/
theorem showsSuite_bodyStatement {span : Option Span} {main : Node}
    (trim : ∀ word ∈ wordsAll (main :: nodes), IsTrim word) (hmain : ShowsSuite main)
    (hclauses : ∀ n ∈ nodes, Shows .clause n) :
    ShowsSuite (.tree .bodyStmt span (main :: nodes)) := by
  constructor
  · intro level
    rw [Node.words_tree, print]
    refine (shows_printClauses hmain hclauses).bind fun text htext => gives_pure ?_
    exact htext.asLine_dropFinalNewlines trim
  · rintro _ _ ⟨⟩ level
    rw [Node.words_tree]
    exact shows_printClauses hmain hclauses

/-- A `begin` shows its body. -/
theorem shows_printBegin {inner : Node} (hinner : ShowsSuite inner) :
    Gives (Occurs (wordsAll [inner])) (printBegin level [inner]) := by
  rw [Node.wordsAll_singleton, printBegin.eq_def]
  split
  case h_1 heq =>
    obtain ⟨rfl, -⟩ := List.cons.inj heq
    refine (hinner.clauses rfl level).bind fun text htext => gives_pure ?_
    exact ((htext.behind "begin\n").before _).before _
  case h_2 heq =>
    obtain ⟨rfl, -⟩ := List.cons.inj heq
    refine (hinner.lines (level + 1)).bind fun text htext => gives_pure ?_
    exact ((htext.behind "begin\n").before _).before _
  case h_3 heq => cases heq

/-- A parameter without a default shows its name. -/
theorem shows_plainParameter {kind : Kind} {span : Option Span} (plain : kind.isPlainParameter)
    (hkind : kind ≠ .shadowArg) (all : ∀ n ∈ nodes, n.isLeaf) (sole : nodes.length ≤ 1) :
    Shows .parameter (.tree kind span nodes) := by
  have hname : Occurs (wordsAll nodes) (parameterName nodes) := by
    match nodes with
    | [] => exact .nil _
    | [.leaf content] =>
      rw [Node.wordsAll_singleton]
      exact .leaf content
    | [.absent] | [.tree ..] => simp [Node.isLeaf] at all
    | _ :: _ :: _ => simp at sole
  intro level plain others words behind hplain hothers
  rw [Node.words_tree, ← List.append_assoc]
  cases kind <;> first | contradiction | rw [printParameters]
  case arg => exact hothers _ _ (hplain.snoc hname)
  case restArg | kwRestArg | blockArg => exact hothers _ _ (hplain.snoc (hname.behind _))
  case kwArg => exact hothers _ _ (hplain.snoc (hname.before _))

/-- A parameter with a default shows its name and the default. -/
theorem shows_defaultParameter {kind : Kind} {span : Option Span} {name : Leaf} {value : Node}
    (withDefault : kind = .optArg ∨ kind = .kwOptArg) (hvalue : ShowsValue value) :
    Shows .parameter (.tree kind span [.leaf name, value]) := by
  intro level plain others words behind hplain hothers
  have hwords : (Node.tree kind span [.leaf name, value]).words =
      (Node.leaf name).words ++ value.words := by
    simp
  rw [hwords, ← List.append_assoc]
  rcases withDefault with rfl | rfl
  · rw [printParameters, printSecond]
    refine (hvalue.text level).bind fun text htext => hothers _ _ (hplain.snoc ?_)
    exact ((Occurs.leaf name).before " = ").append htext
  · rw [printParameters, printSecond]
    refine (hvalue.text level).bind fun text htext => hothers _ _ (hplain.snoc ?_)
    exact ((Occurs.leaf name).before ": ").append htext

/-- Parameters in parentheses are shown one after another. -/
theorem shows_parameterGroup {span : Option Span} (h : ∀ n ∈ nodes, Shows .parameter n) :
    Shows .parameter (.tree .mlhs span nodes) := by
  intro level plain others words behind hplain hothers
  rw [printParameters, Node.words_tree, ← List.append_assoc]
  refine (shows_printParameters h .nil).bind fun inner hshown => hothers _ _ (hplain.snoc ?_)
  exact (hshown.behind "(").before ")"

end XhrKeywords.Syntax.Printer
