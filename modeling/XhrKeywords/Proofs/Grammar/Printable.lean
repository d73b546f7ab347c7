import XhrKeywords.Proofs.Grammar.Fit
import XhrKeywords.Proofs.Syntax.Descent
import XhrKeywords.Proofs.Syntax.Printable
import XhrKeywords.Proofs.Token.Placement

/-!
# Whatever is parsed prints

The productions build trees of the grammar only, and the printer has a text for each of these. So
a parsed program prints, its statements print as statements and as commands, and so does every
call anywhere in it.
-/

namespace XhrKeywords

open Syntax Grammar

namespace Syntax

variable {ok : Kind → Option Span → Prop}

/-- A value prints in either style. -/
theorem Fits.answers_print {n : Node} (h : Fits ok .value n) (command : Bool) :
    Answers (n.print command) := by
  have hprint : Answers (Printer.print 0 n) := h.prints 0
  unfold Node.print
  split
  · obtain ⟨-, receiver, name, arguments, rfl, hreceiver, harguments⟩ := h.call_parts
    exact Printer.answers_printCall hreceiver.prints fun n hn => (harguments n hn).prints
  · obtain ⟨-, receiver, name, arguments, rfl, hreceiver, harguments⟩ := h.parts_of_call (.inr rfl)
    exact Printer.answers_printCall hreceiver.prints fun n hn => (harguments n hn).prints
  · exact hprint

/-- A program of values prints. -/
theorem answers_print_program {span : Option Span} {statements : List Node}
    (h : ∀ n ∈ statements, Fits ok .value n) (command : Bool) :
    Answers ((Node.tree .program span statements).print command) := by
  have hprint : Answers (Printer.print 0 (.tree .program span statements)) := by
    rw [Printer.print]
    exact (Printer.answers_printStatements fun n hn => (h n hn).prints).bind fun texts =>
      answers_pure _
  cases command with
  | false => exact hprint
  | true => exact hprint

end Syntax

/-- A parsed source is a program of statements that fit the grammar of trees. It has a text, its
statements have texts in both styles, and so have all calls in it. -/
theorem prints_of_parse {source : String} {tree : Node} (h : parse source = .ok tree) :
    (∃ span statements, tree = .tree .program span statements ∧
      ∀ n ∈ statements, Fits (Inside (Token.reach source.toList)) .value n) ∧
    (∀ command, Answers (tree.print command)) ∧
    (∀ n ∈ tree.children, ∀ command, Answers (n.print command)) ∧
    ∀ c ∈ tree.subtrees, c.isKind .call ∨ c.isKind .csend →
      ∀ command, Answers (c.print command) := by
  obtain ⟨tokens, htokens, htree⟩ := bind_eq_ok_iff.mp h
  rw [mapError_eq_ok_iff] at htokens htree
  obtain ⟨span, statements, rfl, hstatements⟩ :=
    program_of_parseTokens (Token.tokens_placed htokens) htree
  refine ⟨⟨span, statements, rfl, hstatements⟩, answers_print_program hstatements, ?_, ?_⟩
  · intro n hn command
    exact (hstatements n hn).answers_print command
  · intro c hc hkind command
    cases c with
    | absent | leaf _ => simp [Node.isKind, Node.kind?] at hkind
    | tree kind own children =>
      replace hkind : kind = .call ∨ kind = .csend := by
        simpa [Node.isKind, Node.kind?] using hkind
      rw [Node.subtrees] at hc
      rcases List.mem_cons.mp hc with heq | hc
      · cases heq
        simp at hkind
      · obtain ⟨n, hn, hc⟩ := Node.mem_subtreesAll.mp hc
        rcases (hstatements n hn).conforms _ hc with hlist | ⟨form, hfits⟩
        · rcases hkind with rfl | rfl <;> cases hlist
        · exact (hfits.value_of_call hkind).answers_print command

/-- A method with a default, a block in braces and a call with keywords in it. -/
theorem prints_method :
    ∃ tree, parse "def f(x = a)\n  x.each { |y| g y, k: 1 }\nend" = .ok tree ∧
      (∀ command, Answers (tree.print command)) ∧
      ∀ c ∈ tree.subtrees, c.isKind .call ∨ c.isKind .csend →
        ∀ command, Answers (c.print command) := by
  have hread : (parse "def f(x = a)\n  x.each { |y| g y, k: 1 }\nend").toOption.isSome = true := by
    decide +kernel
  obtain ⟨tree, htree⟩ := Option.isSome_iff_exists.mp hread
  have hparse := eq_ok_of_toOption htree
  obtain ⟨-, hprogram, -, hcalls⟩ := prints_of_parse hparse
  exact ⟨tree, hparse, hprogram, hcalls⟩

end XhrKeywords
