import XhrKeywords.Proofs.Syntax.Leaves
import XhrKeywords.Proofs.Token.Ending

/-!
# Words in a text

The words of a node are the texts of its literals and names, and of whatever else is neither an
operator, a keyword nor the delimiter of a block. They occur in a text when they are found in it one
behind the other. The joints of printing keep that up: texts put together, lists of texts, and a
text that takes lines of its own.
-/

namespace XhrKeywords.Syntax

/-- Operators, keywords and delimiters are marks around what a tree says. -/
def Role.isContent : Role → Bool
  | operator | keyword | style => false
  | token _ | other _ => true

namespace Node

/-- The texts of the leaves of several nodes, those of marks left out. -/
def wordsAll (nodes : List Node) : List String :=
  ((leavesAll nodes).filter (·.role.isContent)).map (·.text)

/-- The texts of the leaves of a node from left to right, those of marks left out. -/
def words (n : Node) : List String :=
  (n.leaves.filter (·.role.isContent)).map (·.text)

@[simp] theorem words_absent : absent.words = [] := by
  simp [words]

@[simp] theorem words_tree (kind : Kind) (span : Option Span) (children : List Node) :
    (tree kind span children).words = wordsAll children := by
  simp [words, wordsAll]

theorem words_mark {content : Leaf} (h : content.role.isContent = false) :
    (leaf content).words = [] := by
  simp [words, h]

theorem words_leaf_cases (content : Leaf) :
    (leaf content).words = [] ∨ (leaf content).words = [content.text] := by
  cases h : content.role.isContent with
  | false => exact Or.inl (words_mark h)
  | true => exact Or.inr (by simp [words, h])

@[simp] theorem wordsAll_nil : wordsAll [] = [] := by
  simp [wordsAll]

@[simp] theorem wordsAll_cons (n : Node) (others : List Node) :
    wordsAll (n :: others) = n.words ++ wordsAll others := by
  simp [words, wordsAll]

theorem wordsAll_singleton (n : Node) : wordsAll [n] = n.words := by
  simp

theorem wordsAll_pair (first second : Node) :
    wordsAll [first, second] = first.words ++ second.words := by
  simp

/-- What holds of the words of several nodes holds of those of each. -/
theorem forall_mem_wordsAll {p : String → Prop} {nodes : List Node} :
    (∀ word ∈ wordsAll nodes, p word) ↔ ∀ n ∈ nodes, ∀ word ∈ n.words, p word := by
  induction nodes with
  | nil => simp
  | cons n nodes ih => simp [or_imp, forall_and, ih]

end Node

/-- `Occurs words text` says that the words are found in the text one behind the other, none of them
reaching into the next. -/
inductive Occurs : List String → String → Prop
  | nil (text : String) : Occurs [] text
  | cons {words rest} (gap word : String) (h : Occurs words rest) :
      Occurs (word :: words) (gap ++ word ++ rest)

namespace Occurs

variable {word front back text : String} {words others : List String}

/-- Words that occur in a text occur behind another text in front of it. -/
theorem behind (front : String) (h : Occurs words text) : Occurs words (front ++ text) := by
  cases h with
  | nil => exact .nil _
  | cons gap word h =>
    rw [← String.append_assoc, ← String.append_assoc]
    exact .cons (front ++ gap) word h

/-- Words that occur in a text occur in front of another text behind it. -/
theorem before (h : Occurs words text) (back : String) : Occurs words (text ++ back) := by
  induction h with
  | nil => exact .nil _
  | cons gap word _ ih =>
    rw [String.append_assoc]
    exact .cons gap word ih

/-- Words of two texts occur one after the other where the texts stand one after the other. -/
theorem append (h : Occurs words front) (hothers : Occurs others back) :
    Occurs (words ++ others) (front ++ back) := by
  induction h with
  | nil text => exact hothers.behind text
  | cons gap word _ ih =>
    rw [String.append_assoc]
    exact .cons gap word ih

/-- A text occurs in itself. -/
theorem single (word : String) : Occurs [word] word := by
  have h := Occurs.cons "" word (.nil "")
  rwa [String.append_empty, String.empty_append] at h

/-- A leaf occurs in its text, whatever its role. -/
theorem leaf (content : Leaf) : Occurs (Node.leaf content).words content.text := by
  rcases Node.words_leaf_cases content with h | h
  · exact h ▸ .nil _
  · exact h ▸ single _

/-- Empty words occur anywhere. -/
theorem of_empty (h : ∀ word ∈ words, word = "") (text : String) : Occurs words text := by
  induction words with
  | nil => exact .nil text
  | cons word words ih =>
    obtain ⟨rfl, hwords⟩ := List.forall_mem_cons.mp h
    have := Occurs.cons "" "" (ih hwords)
    rwa [String.append_empty, String.empty_append] at this

end Occurs

/-- `Series words texts` says that the words fall into groups, one for each of the texts, which
occur in their texts. -/
inductive Series : List String → List String → Prop
  | nil : Series [] []
  | cons {words others text texts} (h : Occurs words text) (hothers : Series others texts) :
      Series (words ++ others) (text :: texts)

namespace Series

variable {words others texts more : List String}

theorem append (h : Series words texts) (hmore : Series others more) :
    Series (words ++ others) (texts ++ more) := by
  induction h with
  | nil => exact hmore
  | cons h _ ih =>
    rw [List.append_assoc]
    exact .cons h ih

/-- Without texts there are no words. -/
theorem words_eq_nil (h : Series words []) : words = [] := by
  cases h
  rfl

/-- One more text with its words behind the others. -/
theorem snoc {text : String} (h : Series words texts) (htext : Occurs others text) :
    Series (words ++ others) (texts ++ [text]) := by
  have := h.append (.cons htext .nil)
  rwa [List.append_nil] at this

/-- Words of texts occur in these with a separator between them. -/
theorem joined (separator : String) (h : Series words texts) :
    Occurs words (Printer.joined separator texts) := by
  induction h with
  | nil => exact .nil _
  | @cons _ _ text texts h hothers ih =>
    rw [Printer.joined] at ih ⊢
    cases texts with
    | nil =>
      cases hothers
      rw [String.intercalate_singleton, List.append_nil]
      exact h
    | cons next texts =>
      rw [String.intercalate_cons_cons, String.append_assoc]
      exact h.append (ih.behind separator)

end Series

namespace Printer

theorem asLine_of_ne {text : String} (h : text ≠ "") : asLine text = text ++ "\n" := by
  rw [asLine, if_neg (by simpa using h)]

/-- What stays of two texts is what stays of the second with the first in front, or else what stays
of the first. -/
theorem dropFinalNewlines_append (front back : String) :
    dropFinalNewlines (front ++ back) =
      if dropFinalNewlines back = "" then dropFinalNewlines front
      else front ++ dropFinalNewlines back := by
  unfold dropFinalNewlines
  rw [String.toList_append, List.reverse_append, List.dropWhile_append]
  cases back.toList.reverse.dropWhile (· == '\n') with
  | nil => simp
  | cons c rest => simp [String.ofList_append]

/-- Nothing is taken off a text that ends in something else than a line feed. -/
theorem dropFinalNewlines_eq_self {text : String} (h : text.toList.getLast? ≠ some '\n') :
    dropFinalNewlines text = text := by
  rw [dropFinalNewlines]
  rw [← List.head?_reverse] at h
  cases heq : text.toList.reverse with
  | nil =>
    rw [List.reverse_eq_nil_iff, String.toList_eq_nil_iff] at heq
    rw [heq]
    rfl
  | cons c rest =>
    have hc : c ≠ '\n' := by simpa [heq] using h
    rw [List.dropWhile_cons_of_neg (by simpa using hc), ← heq, List.reverse_reverse,
      String.ofList_toList]

/-- Nothing stays of line feeds only. -/
theorem eq_lineFeed_of_dropFinalNewlines {text : String} (h : dropFinalNewlines text = "")
    {c : Char} (hc : c ∈ text.toList) : c = '\n' := by
  rw [dropFinalNewlines, String.ofList_eq_empty_iff, List.reverse_eq_nil_iff,
    List.dropWhile_eq_nil_iff] at h
  exact beq_iff_eq.mp (h c (List.mem_reverse.mpr hc))

end Printer

namespace Occurs

open Printer

variable {word text : String} {words : List String}

/-- Among line feeds no words occur that are not empty. -/
theorem eq_empty_of_lineFeeds (h : Occurs words text) (trim : ∀ word ∈ words, IsTrim word)
    (hfeeds : ∀ c ∈ text.toList, c = '\n') : ∀ word ∈ words, word = "" := by
  induction h with
  | nil => nofun
  | @cons words rest gap word _ ih =>
    simp only [String.toList_append, List.mem_append] at hfeeds
    obtain ⟨hword, hwords⟩ := List.forall_mem_cons.mp trim
    refine List.forall_mem_cons.mpr ⟨?_, ih hwords fun c hc => hfeeds c (Or.inr hc)⟩
    by_contra hne
    have hlast := List.getLast?_eq_some_getLast (mt String.toList_eq_nil_iff.mp hne)
    have hfeed := hfeeds _ (Or.inl (Or.inr (List.mem_of_getLast? hlast)))
    rw [hfeed] at hlast
    have hmark : '?' ∈ word.toList := by
      rw [hword hlast]
      decide
    exact absurd (hfeeds '?' (Or.inl (Or.inr hmark))) (by decide)

/-- A text that takes lines of its own holds the words that it held before the line feeds at its end
were taken off. -/
theorem asLine_dropFinalNewlines (h : Occurs words text) (trim : ∀ word ∈ words, IsTrim word) :
    Occurs words (asLine (dropFinalNewlines text)) := by
  induction h with
  | nil => exact .nil _
  | @cons words rest gap word hrest ih =>
    obtain ⟨hword, hwords⟩ := List.forall_mem_cons.mp trim
    rw [dropFinalNewlines_append]
    split
    · rename_i hnone
      have hempty := hrest.eq_empty_of_lineFeeds hwords
        fun c hc => eq_lineFeed_of_dropFinalNewlines hnone hc
      rw [dropFinalNewlines_append]
      by_cases hlast : word.toList.getLast? = some '\n'
      · -- One line feed is taken off the word and put back.
        rw [hword hlast]
        have hstays : dropFinalNewlines "?\\\n" = "?\\" := by decide
        rw [hstays, if_neg (by decide), asLine_of_ne (by simp), String.append_assoc]
        have := Occurs.cons gap "?\\\n" (of_empty hempty "")
        rwa [String.append_empty] at this
      · rw [dropFinalNewlines_eq_self hlast]
        split
        · rename_i hnothing
          exact of_empty (List.forall_mem_cons.mpr ⟨hnothing, hempty⟩) _
        · rw [asLine_of_ne (by simp_all)]
          exact .cons gap word (of_empty hempty "\n")
    · rename_i hsome
      rw [asLine_of_ne hsome] at ih
      rw [asLine_of_ne (by simp_all), String.append_assoc]
      exact .cons gap word (ih hwords)

/-- Words that occur in a text occur in it as a line of its own. -/
theorem asLine (h : Occurs words text) : Occurs words (Printer.asLine text) := by
  rw [Printer.asLine]
  split
  · rename_i hnone
    rwa [String.isEmpty_iff.mp hnone] at h
  · exact h.before "\n"

/-- The words of a heading and of the body below it occur one after the other. -/
theorem enclosed {level : Int} {heading body closer : String} {others : List String}
    (hheading : Occurs words heading) (hbody : Occurs others (Printer.asLine body)) :
    Occurs (words ++ others) (Printer.enclosed level heading body closer) := by
  rw [Printer.enclosed, String.append_assoc, String.append_assoc]
  exact (hheading.before "\n").append (hbody.before _)

/-- The words of a condition behind its keyword and of the body below it occur one after the
other. -/
theorem branch {keyword condition body : String} {others : List String}
    (hcondition : Occurs words condition) (hbody : Occurs others (Printer.asLine body)) :
    Occurs (words ++ others) (Printer.branch keyword condition body) := by
  rw [Printer.branch]
  exact ((hcondition.behind (keyword ++ " ")).before "\n").append hbody

end Occurs

end XhrKeywords.Syntax
