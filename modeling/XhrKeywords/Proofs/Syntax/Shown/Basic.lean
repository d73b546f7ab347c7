import XhrKeywords.Proofs.Syntax.Exposed
import XhrKeywords.Syntax.Printer

/-!
# What printing shows

The words of a tree occur in its text one behind the other. Kinds that print through their parents
have their share in the texts of these: for every form there is a statement about what a node of
that form adds to the text that it stands in, and every list of nodes collects it.
-/

namespace XhrKeywords.Syntax

/-- A computation answers, and a condition holds of its answer. -/
def Gives {ε α : Type} (P : α → Prop) (x : Except ε α) : Prop := ∃ a, x = .ok a ∧ P a

section Gives

variable {ε α β : Type} {P : α → Prop} {Q : β → Prop}

theorem gives_ok {a : α} (h : P a) : Gives P (.ok a : Except ε α) := ⟨a, rfl, h⟩

theorem gives_pure {a : α} (h : P a) : Gives P (pure a : Except ε α) := ⟨a, rfl, h⟩

/-- What follows a computation may rely on what is known of its answer. -/
theorem Gives.bind {x : Except ε α} {f : α → Except ε β} (hx : Gives P x)
    (hf : ∀ a, P a → Gives Q (f a)) : Gives Q (x >>= f) := by
  obtain ⟨a, rfl, ha⟩ := hx
  exact hf a ha

end Gives

/-- An exposed node without block-local variables. -/
structure Clear (n : Node) : Prop where
  exposed : Exposed n
  unshadowed : ∀ t ∈ n.subtrees, t.isKind .shadowArg = false

theorem Clear.children {kind : Kind} {span : Option Span} {nodes : List Node}
    (h : Clear (.tree kind span nodes)) : ∀ n ∈ nodes, Clear n := by
  intro n hn
  refine ⟨h.exposed.children n hn, fun t ht => h.unshadowed t ?_⟩
  rw [Node.subtrees]
  exact List.mem_cons_of_mem _ (Node.mem_subtreesAll.mpr ⟨n, hn, ht⟩)

theorem Clear.kind_ne {kind : Kind} {span : Option Span} {nodes : List Node}
    (h : Clear (.tree kind span nodes)) : kind ≠ .shadowArg := by
  rintro rfl
  have := h.unshadowed _ (by rw [Node.subtrees]; exact List.mem_cons_self)
  cases this

namespace Printer

open Node (wordsAll)

-- The equations of `print` are made here, once for all the proofs below.
attribute [local simp] print

/-- The words of a value occur in its text; those of a series fall into groups for its elements, and
those of a condition occur in its branches under any keyword. -/
structure ShowsValue (n : Node) : Prop where
  text (level : Int) : Gives (Occurs n.words) (print level n)
  elements {kind span children} (eq : n = .tree kind span children) (series : kind.isSeries)
    (level : Int) : Gives (Series n.words) (printAll level children)
  branches {span children} (eq : n = .tree .ifStmt span children) (keyword : Option String)
    (level : Int) : Gives (Occurs n.words) (printBranches keyword level children)

/-- The words of a statement list occur in its text, and in those of its statements. -/
structure ShowsStatements (n : Node) : Prop where
  text (level : Int) : Gives (Occurs n.words) (print level n)
  none (hnone : n.children.length = 0) : n.words = []
  first (sole : n.children.length = 1) (level : Int) :
    Gives (Occurs n.words) (printFirstStatement level n)
  all (level : Int) : Gives (Series n.words) (printAllStatements level n)

/-- The words of a body occur in its text where that takes lines of its own, and those of a body
with clauses in the text that its parts make. -/
structure ShowsSuite (n : Node) : Prop where
  lines (level : Int) : Gives (fun text => Occurs n.words (asLine text)) (print level n)
  clauses {span children} (eq : n = .tree .bodyStmt span children) (level : Int) :
    Gives (Occurs n.words) (printClauses level children)

/-- The words of what stands behind `else` occur in its lines, and those of a condition in its
branches. -/
structure ShowsOtherwise (n : Node) : Prop where
  lines (level : Int) : Gives (fun text => Occurs n.words (asLine text)) (print level n)
  branches {span children} (eq : n = .tree .ifStmt span children) (keyword : Option String)
    (level : Int) : Gives (Occurs n.words) (printBranches keyword level children)

/-- What printing a node of a form shows: its words by itself or, where it stands among others of
its form, its words in front of those that the others show. -/
def Shows : Form → Node → Prop
  | .clause, n => ∀ level others words, Gives (Occurs words) (printClauseList level others) →
      Gives (Occurs (n.words ++ words)) (printClauseList level (n :: others))
  | .choice, n => ∀ level others words, others ≠ [] →
      Gives (Occurs words) (printCases level others) →
      Gives (Occurs (n.words ++ words)) (printCases level (n :: others))
  | .parameter, n => ∀ level plain others words behind, Series words plain →
      (∀ plain words, Series words plain →
        Gives (Occurs (words ++ behind)) (printParameters level plain [] others)) →
      Gives (Occurs (words ++ (n.words ++ behind))) (printParameters level plain [] (n :: others))
  | .signature, n => ∀ opener closer level,
      Gives (Occurs n.words) (printSignature opener closer level n)
  | .optional, n => ∀ level, Gives (Occurs n.words) (print level n)
  | .statements, n => ShowsStatements n
  | .suite, n => ShowsSuite n
  | .otherwise, n => ShowsOtherwise n
  | .value, n => ShowsValue n

/-- A value that is neither a series nor a condition is shown by its text. -/
theorem showsValue_of_text {kind : Kind} {span : Option Span} {children : List Node}
    (series : kind.isSeries = false) (condition : kind ≠ .ifStmt)
    (text : ∀ level, Gives (Occurs (wordsAll children)) (print level (.tree kind span children))) :
    ShowsValue (.tree kind span children) := by
  refine ⟨fun level => by rw [Node.words_tree]; exact text level, ?_, ?_⟩
  · rintro _ _ _ ⟨⟩ hseries
    rw [series] at hseries
    cases hseries
  · rintro _ _ ⟨⟩
    exact absurd rfl condition

variable {level : Int} {nodes : List Node}

theorem shows_printAll (h : ∀ n ∈ nodes, ShowsValue n) :
    Gives (Series (wordsAll nodes)) (printAll level nodes) := by
  induction nodes with
  | nil => exact gives_ok .nil
  | cons n others ih =>
    obtain ⟨hn, hothers⟩ := List.forall_mem_cons.mp h
    rw [printAll, Node.wordsAll_cons]
    refine (hn.text level).bind fun text htext => ?_
    exact (ih hothers).bind fun texts htexts => gives_pure (.cons htext htexts)

/-- Where there is one node at most, the first one shows all words. -/
theorem shows_printFirst (h : ∀ n ∈ nodes, ShowsValue n) (sole : nodes.length ≤ 1) :
    Gives (Occurs (wordsAll nodes)) (printFirst level nodes) := by
  match nodes with
  | [] => exact gives_ok (.nil _)
  | [n] =>
    rw [printFirst, Node.wordsAll_singleton]
    exact (h n List.mem_cons_self).text level
  | _ :: _ :: _ => simp at sole

theorem shows_printStatements (h : ∀ n ∈ nodes, ShowsValue n) :
    Gives (Series (wordsAll nodes)) (printStatements level nodes) := by
  induction nodes with
  | nil => exact gives_ok .nil
  | cons n others ih =>
    obtain ⟨hn, hothers⟩ := List.forall_mem_cons.mp h
    rw [printStatements, Node.wordsAll_cons]
    refine (hn.text level).bind fun text htext => ?_
    exact (ih hothers).bind fun texts htexts => gives_pure (.cons (htext.behind _) htexts)

/-- An argument shows its words as it stands, and a hash without its braces as well. -/
theorem shows_printArguments (h : ∀ n ∈ nodes, ShowsValue n) :
    Gives (Series (wordsAll nodes)) (printArguments level nodes) := by
  induction nodes with
  | nil => exact gives_ok .nil
  | cons n others ih =>
    obtain ⟨hn, hothers⟩ := List.forall_mem_cons.mp h
    replace ih := ih hothers
    rw [printArguments.eq_def, Node.wordsAll_cons]
    split
    · rename_i heq
      cases heq
    · rename_i span pair pairs tail heq
      obtain ⟨rfl, rfl⟩ := List.cons.inj heq
      obtain ⟨texts, hprint, htexts⟩ := hn.elements rfl rfl level
      rw [printAll] at hprint
      obtain ⟨first, hfirst, hprint⟩ := bind_eq_ok_iff.mp hprint
      obtain ⟨rest, hrest, hprint⟩ := bind_eq_ok_iff.mp hprint
      cases hprint
      rw [hfirst, hrest]
      have hlisted := htexts.joined ", "
      refine ih.bind fun texts htexts => gives_pure (.cons ?_ htexts)
      split
      · exact hlisted
      · exact (hlisted.behind "\x7b ").before " \x7d"
    · rename_i tail _ heq
      obtain ⟨rfl, rfl⟩ := List.cons.inj heq
      refine (hn.text level).bind fun text htext => ?_
      exact ih.bind fun texts htexts => gives_pure (.cons htext htexts)

theorem shows_printParameters {plain words : List String} (h : ∀ n ∈ nodes, Shows .parameter n)
    (hplain : Series words plain) :
    Gives (Occurs (words ++ wordsAll nodes)) (printParameters level plain [] nodes) := by
  induction nodes generalizing plain words with
  | nil =>
    rw [printParameters, Node.wordsAll_nil, List.append_nil]
    refine gives_ok ?_
    rw [parameterText]
    exact (hplain.joined ", ").before _
  | cons n others ih =>
    obtain ⟨hn, hothers⟩ := List.forall_mem_cons.mp h
    rw [Node.wordsAll_cons]
    exact hn level plain others words (wordsAll others) hplain fun _ _ h => ih hothers h

theorem shows_printClauseList (h : ∀ n ∈ nodes, Shows .clause n) :
    Gives (Occurs (wordsAll nodes)) (printClauseList level nodes) := by
  induction nodes with
  | nil => exact gives_ok (.nil _)
  | cons n others ih =>
    obtain ⟨hn, hothers⟩ := List.forall_mem_cons.mp h
    rw [Node.wordsAll_cons]
    exact hn level others _ (ih hothers)

end Printer

end XhrKeywords.Syntax
