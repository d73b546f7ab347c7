import XhrKeywords.Proofs.Syntax.Descent
import XhrKeywords.Proofs.Syntax.Occurs

/-!
# Trees that hide nothing

Some trees print without a part of what they may hold: a splat without all but its first child, a
setter without the equals sign of its name, a block without the leaf that tells its delimiters. In
an exposed tree what is left out is no word, and the words of it can be told from the line feeds
behind them.
-/

namespace XhrKeywords.Syntax

namespace Kind

/-- The kinds of trees of which the first child alone is printed. -/
def isMarked : Kind → Bool
  | splat | blockPass | arg | restArg | kwArg | kwRestArg | blockArg | shadowArg => true
  | _ => false

/-- The kinds of trees that start with a keyword, which need not be printed as it is. -/
def isKeyworded : Kind → Bool
  | ifMod | whileMod | ifStmt => true
  | _ => false

/-- The kinds of trees that print all of their children, whatever these are. -/
def isOpen : Kind → Bool
  | splat | blockPass | arg | restArg | kwArg | kwRestArg | blockArg | shadowArg | ifMod | whileMod
  | ifStmt | block | lambda | call | csend => false
  | _ => true

end Kind

/-- What is left out when a tree of a kind with these children is printed is no word. -/
inductive Bares : Kind → List Node → Prop
  | all {kind children} (h : kind.isOpen) : Bares kind children
  | first {kind children} (h : kind.isMarked) (sole : children.length ≤ 1) : Bares kind children
  | keyword {kind content rest} (h : kind.isKeyworded) (role : content.role = .keyword) :
      Bares kind (.leaf content :: rest)
  | block {call bound inner style} (role : style.role = .style) :
      Bares .block [call, bound, inner, .leaf style]
  | lambda {bound inner style} (role : style.role = .style) :
      Bares .lambda [bound, inner, .leaf style]
  | call {kind receiver name arguments} (h : kind = .call ∨ kind = .csend)
      (trim : IsTrim name.text)
      (setter : receiver.isAbsent ∨ Printer.setterName? name.text = none) :
      Bares kind (receiver :: .leaf name :: arguments)

/-- Nodes of which no word is left out in print or confused with the line feeds behind it. -/
inductive Exposed : Node → Prop
  | absent : Exposed .absent
  | leaf {content} (h : content.role.isContent → IsTrim content.text) : Exposed (.leaf content)
  | tree {kind span children} (bares : Bares kind children) (all : ∀ n ∈ children, Exposed n) :
      Exposed (.tree kind span children)

namespace Bares

variable {kind : Kind} {children arguments : List Node} {call bound inner receiver : Node}
  {content style name : Leaf}

theorem length_le (h : Bares kind children) (marked : kind.isMarked) : children.length ≤ 1 := by
  cases h with
  | first _ sole => exact sole
  | all h => cases kind <;> contradiction
  | keyword h => cases kind <;> contradiction
  | block | lambda => cases marked
  | call h =>
    rcases h with rfl | rfl
    · cases marked
    · cases marked

theorem role_eq (h : Bares kind (.leaf content :: arguments)) (keyworded : kind.isKeyworded) :
    content.role = .keyword := by
  cases h with
  | keyword _ role => exact role
  | all h => cases kind <;> contradiction
  | first h => cases kind <;> contradiction
  | block | lambda => cases keyworded
  | call h =>
    rcases h with rfl | rfl
    · cases keyworded
    · cases keyworded

theorem style_of_block (h : Bares .block [call, bound, inner, .leaf style]) :
    style.role = .style := by
  cases h with
  | block role => exact role
  | all h | first h | keyword h => cases h
  | call h => rcases h with h | h <;> cases h

theorem style_of_lambda (h : Bares .lambda [bound, inner, .leaf style]) :
    style.role = .style := by
  cases h with
  | lambda role => exact role
  | all h | first h | keyword h => cases h
  | call h => rcases h with h | h <;> cases h

theorem setter_of_call (h : Bares kind (receiver :: .leaf name :: arguments))
    (call : kind = .call ∨ kind = .csend) :
    IsTrim name.text ∧ (receiver.isAbsent ∨ Printer.setterName? name.text = none) := by
  cases h with
  | call _ trim setter => exact ⟨trim, setter⟩
  | all h | first h | keyword h =>
    rcases call with rfl | rfl
    · cases h
    · cases h
  | block | lambda => simp at call

end Bares

namespace Exposed

variable {kind : Kind} {span : Option Span} {nodes : List Node} {n : Node}

theorem children (h : Exposed (.tree kind span nodes)) : ∀ n ∈ nodes, Exposed n := by
  cases h with
  | tree _ all => exact all

theorem bares (h : Exposed (.tree kind span nodes)) : Bares kind nodes := by
  cases h with
  | tree bares _ => exact bares

/-- The trees in an exposed node are exposed. -/
theorem of_mem_subtrees (h : Exposed n) {m : Node} (hm : m ∈ n.subtrees) : Exposed m := by
  induction h with
  | absent => cases hm
  | leaf h => cases hm
  | tree bares all ih =>
    rw [Node.subtrees] at hm
    rcases List.mem_cons.mp hm with rfl | hm
    · exact .tree bares all
    · obtain ⟨n, hn, hm⟩ := Node.mem_subtreesAll.mp hm
      exact ih n hn hm

/-- No word of an exposed node ends in a line feed, the literal of an escaped one aside. -/
theorem isTrim (h : Exposed n) : ∀ word ∈ n.words, IsTrim word := by
  induction h with
  | absent => simp
  | @leaf content h =>
    intro word hword
    cases hrole : content.role.isContent with
    | false => simp [Node.words_mark hrole] at hword
    | true =>
      rcases Node.words_leaf_cases content with heq | heq
      · simp [heq] at hword
      · rw [heq, List.mem_singleton] at hword
        exact hword ▸ h hrole
  | tree bares all ih =>
    rw [Node.words_tree]
    exact Node.forall_mem_wordsAll.mpr ih

end Exposed

end XhrKeywords.Syntax
