/-!
# Classes of characters as boundaries

A class of code points is kept as the increasing list of the code points at which membership
changes, starting outside the class. A code point belongs to the class when an odd number of
boundaries lie at or below it. The tables of this folder use it above the ASCII range; inside
that range every class is stated by its characters.
-/

namespace XhrKeywords.Unicode

/-- The code points at which membership in a class changes, in increasing order. -/
structure Boundaries where
  /-- The first entry enters the class, the second leaves it, and so on. -/
  changes : List Nat
  deriving DecidableEq, Repr

/-- A code point is in the class when the number of changes up to it is odd. -/
def Boundaries.contains (b : Boundaries) (code : Nat) : Bool :=
  b.changes.countP (· ≤ code) % 2 == 1

/-- Code points below every boundary lie outside the class. -/
theorem Boundaries.contains_eq_false_of_lt {b : Boundaries} {code : Nat}
    (h : ∀ change ∈ b.changes, code < change) : b.contains code = false := by
  have hz : b.changes.countP (· ≤ code) = 0 := by
    rw [List.countP_eq_zero]
    intro change hc
    have := h change hc
    simp only [decide_eq_true_eq]
    omega
  simp [contains, hz]

end XhrKeywords.Unicode
