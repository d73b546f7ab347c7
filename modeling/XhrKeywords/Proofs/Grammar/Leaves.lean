import XhrKeywords.Proofs.Grammar.Nest.Program
import XhrKeywords.Proofs.Syntax.Accounted

/-!
# The leaves of a source are its literals and names

The grammar loses, doubles and moves nothing. A program keeps the literals and names among its
tokens, so that the leaves made of these come in the order of the source, and the texts of each
token can be told from its neighbours and from the trees that it stands in.
-/

namespace XhrKeywords

open Syntax Grammar

/-- The leaves of a parsed source that start with a literal or a name start one no later than the
next. A literal or a name has one leaf, with its text, apart from a label without a value, which has
two, and a `self` that a method is defined on, which has none; the text of a number has a minus sign
in front when the sign belongs to the number, and the name of a setter has the equals sign behind
it. -/
theorem leaves_of_parse {source : String} {tree : Node} (h : parse source = .ok tree) :
    ∃ tokens, Token.tokenize source = .ok tokens ∧
      (tree.leaves.filter (·.isAtomOf tokens)).Pairwise Leaf.StartsNoLater ∧
      ∀ before t behind, tokens = before ++ t :: behind → t.kind.isAtom →
        Leaf.textsAt tree.leaves t.start = leafTexts (tree.isRemarked · t.start) t behind := by
  obtain ⟨tokens, htokens, htree⟩ := bind_eq_ok_iff.mp h
  rw [mapError_eq_ok_iff] at htokens htree
  have hinOrder := Token.tokens_inOrder htokens
  obtain ⟨hi, hkept, hhi⟩ := kept_of_parseTokens hinOrder htree
  have haccounted := hkept.accounted hinOrder
  have hleaves : Node.leavesAll [tree] = tree.leaves := by simp
  have hremarked : Node.isRemarkedIn [tree] = tree.isRemarked := by simp
  rw [hleaves, hremarked] at haccounted
  refine ⟨tokens, htokens, haccounted.ordered, fun before t behind hsplit hatom => ?_⟩
  have hmem : t ∈ tokens := by simp [hsplit]
  exact haccounted.texts before t behind hsplit hatom (Nat.zero_le _) (hhi t hmem hatom)

/-- A setter of an object with a label without a value and a negative number in it. -/
theorem leaves_setter :
    ∃ tokens tree, Token.tokenize "def self.x=(v)\n  f k:, n: -1\nend" = .ok tokens ∧
      parse "def self.x=(v)\n  f k:, n: -1\nend" = .ok tree ∧
      (∀ before t behind, tokens = before ++ t :: behind → t.kind.isAtom →
        Leaf.textsAt tree.leaves t.start = leafTexts (tree.isRemarked · t.start) t behind) ∧
      (tokens.filter (·.kind.isAtom)).map (fun t => Leaf.textsAt tree.leaves t.start) =
        [[], ["x="], ["v"], ["f"], ["k", "k"], ["n"], ["-1"]] := by
  have hread : (parse "def self.x=(v)\n  f k:, n: -1\nend").toOption.isSome = true := by
    decide +kernel
  have htexts : (do
      let tokens ← (Token.tokenize "def self.x=(v)\n  f k:, n: -1\nend").toOption
      let tree ← (parse "def self.x=(v)\n  f k:, n: -1\nend").toOption
      return (tokens.filter (·.kind.isAtom)).map fun t => Leaf.textsAt tree.leaves t.start) =
        some [[], ["x="], ["v"], ["f"], ["k", "k"], ["n"], ["-1"]] := by
    decide +kernel
  obtain ⟨tree, htree⟩ := Option.isSome_iff_exists.mp hread
  have hparse := eq_ok_of_toOption htree
  obtain ⟨tokens, htokens, -, hleaves⟩ := leaves_of_parse hparse
  refine ⟨tokens, tree, htokens, hparse, hleaves, ?_⟩
  rw [htokens, hparse] at htexts
  exact Option.some.inj htexts

end XhrKeywords
