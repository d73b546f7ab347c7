import XhrKeywords.Proofs.Grammar.Exposed
import XhrKeywords.Proofs.Grammar.Printable
import XhrKeywords.Proofs.Syntax.Shown.Tree

/-!
# Whatever is parsed is printed in full

The trees of a source are exposed and fit the grammar, so printing shows their words. The statements
of a source stand in programs, bodies and parentheses; each of them shows its words, as a statement
and as a command.
-/

namespace XhrKeywords

open Syntax Grammar

namespace Syntax

variable {ok : Kind → Option Span → Prop} {n : Node}

/-- The trees in a clear node are clear. -/
theorem Clear.of_mem_subtrees (h : Clear n) {t : Node} (ht : t ∈ n.subtrees) : Clear t where
  exposed := h.exposed.of_mem_subtrees ht
  unshadowed := fun _ hm => h.unshadowed _ (Node.mem_subtrees_trans hm ht)

/-- A clear call shows its words, whatever stands between its parts. -/
theorem Fits.shows_printCall {kind : Kind} {span : Option Span} {children : List Node}
    (h : Fits ok .value (.tree kind span children)) (call : kind = .call ∨ kind = .csend)
    (hclear : Clear (.tree kind span children)) (dot : String) (parens : Bool) (level : Int) :
    Gives (Occurs (Node.wordsAll children)) (Printer.printCall dot parens level children) := by
  obtain ⟨-, receiver, name, arguments, rfl, hreceiver, harguments⟩ := h.parts_of_call call
  obtain ⟨hclearReceiver, -, hclearArguments⟩ : _ ∧ _ ∧ _ := by simpa using hclear.children
  obtain ⟨-, setter⟩ := hclear.exposed.bares.setter_of_call call
  exact Printer.shows_printCall (hreceiver.shows hclearReceiver level) setter fun n hn =>
    (harguments n hn).shows (hclearArguments n hn)

/-- A clear value shows its words in either style. -/
theorem Fits.shows_print (h : Fits ok .value n) (hclear : Clear n) (command : Bool) :
    Gives (Occurs n.words) (n.print command) := by
  have hprint : Gives (Occurs n.words) (Printer.print 0 n) := (h.shows hclear).text 0
  unfold Node.print
  split
  · rw [Node.words_tree]
    exact h.shows_printCall (.inl rfl) hclear _ _ _
  · rw [Node.words_tree]
    exact h.shows_printCall (.inr rfl) hclear _ _ _
  · exact hprint

/-- What stands in a program, in a list of statements or in parentheses are values. -/
theorem Fits.values_of_list {form : Form} (h : Fits ok form n)
    (list : n.isKind .program ∨ n.isKind .body ∨ n.isKind .paren) :
    ∀ m ∈ n.children, Fits ok .value m := by
  induction h with
  | series _ _ all | body _ all => exact all
  | present _ ih | plain _ ih | branch _ ih | conditional _ _ ih => exact ih list
  | literal hkind | word hkind | plainParameter hkind =>
    simp only [Node.isKind, Node.kind?, beq_iff_eq, Option.some.injEq] at list
    rcases list with rfl | rfl | rfl <;> cases hkind
  | single hkind | couple hkind | operation hkind | modifier hkind | call hkind | named hkind
  | bodyClause hkind | defaultParameter hkind =>
    simp only [Node.isKind, Node.kind?, beq_iff_eq, Option.some.injEq] at list
    rcases list with rfl | rfl | rfl <;> simp at hkind
  | range | unop | ternary | masgn | const | index | block | lambda | definition | classDefinition
  | condition | whileLoop | forLoop | caseChoice | beginBlock | absent | bodyStatement | nothing
  | rescueClause | whenClause | parameterGroup | noSignature | parameters =>
    simp [Node.isKind, Node.kind?] at list

end Syntax

/-- If a parsed source has no block-local variables, then every statement in it has a text in either
style, and the words of the statement occur in that text one behind the other. -/
theorem shown_of_parse {source : String} {tree : Node} (h : parse source = .ok tree)
    (unshadowed : ∀ t ∈ tree.subtrees, t.isKind .shadowArg = false) :
    ∀ list ∈ tree.subtrees, list.isKind .program ∨ list.isKind .body ∨ list.isKind .paren →
      ∀ n ∈ list.children, ∀ command : Bool,
        ∃ text, n.print command = .ok text ∧ Occurs n.words text := by
  obtain ⟨⟨span, statements, rfl, hstatements⟩, -⟩ := prints_of_parse h
  have hclear : Clear (.tree .program span statements) := ⟨exposed_of_parse h, unshadowed⟩
  intro list hlist hkind n hn command
  have hvalue : Fits (Inside (Token.reach source.toList)) .value n := by
    rw [Node.subtrees] at hlist
    rcases List.mem_cons.mp hlist with rfl | hlist
    · exact hstatements n hn
    · obtain ⟨statement, hstatement, hlist⟩ := Node.mem_subtreesAll.mp hlist
      rcases (hstatements statement hstatement).conforms list hlist with hclasses | ⟨form, hfits⟩
      · rcases hkind with hkind | hkind | hkind <;> simp_all [Node.isKind]
      · exact hfits.values_of_list hkind n hn
  have hplain : Clear n := by
    have hlist := hclear.of_mem_subtrees hlist
    cases list with
    | absent | leaf _ => cases hn
    | tree kind own children => exact hlist.children n hn
  exact hvalue.shows_print hplain command

/-- A method with a default, a block in parentheses under a modifier, and a `rescue` clause. -/
theorem shown_method :
    ∃ tree, parse "def f(x = 'a')\n  (g x do |y| @z = y end) if x\nrescue E => e\n  w\nend" = .ok tree ∧
      (∀ t ∈ tree.subtrees, t.isKind .shadowArg = false) ∧
      ∀ list ∈ tree.subtrees, list.isKind .program ∨ list.isKind .body ∨ list.isKind .paren →
        ∀ n ∈ list.children, ∀ command : Bool,
          ∃ text, n.print command = .ok text ∧ Occurs n.words text := by
  have hread : (parse
      "def f(x = 'a')\n  (g x do |y| @z = y end) if x\nrescue E => e\n  w\nend").toOption.any
      (fun tree => tree.subtrees.all fun t => !t.isKind .shadowArg) = true := by
    decide +kernel
  obtain ⟨tree, htree, hall⟩ := (Option.any_eq_true _ _).mp hread
  have unshadowed : ∀ t ∈ tree.subtrees, t.isKind .shadowArg = false := by simpa using hall
  have hparse := eq_ok_of_toOption htree
  exact ⟨tree, hparse, unshadowed, shown_of_parse hparse unshadowed⟩

end XhrKeywords
