/-!
# Common stretches

The longest stretch of lines that two lists share, the first one in the first list and then in the
second one among several. In a second list of two hundred lines or more, a line that makes up more
than a hundredth of it is too frequent to start a stretch; it may still extend one.
-/

namespace XhrKeywords.Diff

/-- A stretch of equal lines: its places in both lists and its length. -/
structure Stretch where
  old : Nat
  new : Nat
  length : Nat
  deriving DecidableEq, Repr

/-- The length of the common beginning of two lists. -/
def commonLength : List String → List String → Nat
  | a :: as, b :: bs => if a = b then commonLength as bs + 1 else 0
  | _, _ => 0

/-- Whether a line is too frequent among the lines to be matched. -/
def isFrequent (lines : List String) (line : String) : Bool :=
  200 ≤ lines.length && lines.length / 100 + 1 < lines.count line

/-- The lengths of the stretches that end at a line of the first list and at each line of the
second one, from those that end one line earlier. -/
def endingAt (matched : String → Bool) (line : String) : List String → List Nat → List Nat
  | b :: bs, before :: others =>
    (if matched b && b = line then before + 1 else 0) :: endingAt matched line bs others
  | _, _ => []

/-- The longest stretch so far, after the stretches that end at line `old` of the first list and at
the lines from `new` on of the second one. -/
def improve (old : Nat) (best : Stretch) (new : Nat) : List Nat → Stretch
  | [] => best
  | length :: others =>
    let better : Stretch :=
      if best.length < length then ⟨old + 1 - length, new + 1 - length, length⟩ else best
    improve old better (new + 1) others

/-- The longest stretch after the lines from `old` on, given the lengths for the line before. -/
def searchFrom (matched : String → Bool) (bs : List String) (old : Nat) (best : Stretch)
    (before : List Nat) : List String → Stretch
  | [] => best
  | a :: as =>
    let lengths := endingAt matched a bs (0 :: before)
    searchFrom matched bs (old + 1) (improve old best 0 lengths) lengths as

/-- Extends a stretch over equal lines on both sides. -/
def extend (as bs : List String) (s : Stretch) : Stretch :=
  let back := commonLength (as.take s.old).reverse (bs.take s.new).reverse
  let ahead := commonLength (as.drop (s.old + s.length)) (bs.drop (s.new + s.length))
  ⟨s.old - back, s.new - back, back + s.length + ahead⟩

/-- The longest common stretch of two lists of lines, `matched` telling which lines count. -/
def longest (matched : String → Bool) (as bs : List String) : Stretch :=
  extend as bs (searchFrom matched bs 0 ⟨0, 0, 0⟩ (bs.map fun _ => 0) as)

end XhrKeywords.Diff
