import XhrKeywords.Diff.Stretch

/-!
# Edits

Two lists of lines are compared by their longest common stretch and then by the lines in front of
it and behind it. The result is a sequence of kept and changed stretches.
-/

namespace XhrKeywords.Diff

/-- A step from the old lines to the new ones. -/
inductive Edit
  /-- Lines that both lists have. -/
  | keep (lines : List String)
  /-- Old lines and the new ones in their place; one side may be empty. -/
  | change (old new : List String)
  deriving DecidableEq, Repr

namespace Edit

/-- The old lines of an edit. -/
def old : Edit → List String
  | keep lines => lines
  | change old _ => old

/-- The new lines of an edit. -/
def new : Edit → List String
  | keep lines => lines
  | change _ new => new

/-- Whether an edit keeps its lines. -/
def isKeep : Edit → Bool
  | keep _ => true
  | change _ _ => false

end Edit

/-- Puts an edit in front of others; kept stretches that touch become one. -/
def prepend (e : Edit) (others : List Edit) : List Edit :=
  match e, others with
  | .keep lines, .keep more :: rest => .keep (lines ++ more) :: rest
  | e, others => e :: others

/-- The edits between two lists of lines, before touching stretches are joined. Every stretch takes
lines from both lists, so the length of the old list bounds the depth. -/
def compare (matched : String → Bool) : Nat → List String → List String → List Edit
  | 0, as, bs => if as.isEmpty && bs.isEmpty then [] else [.change as bs]
  | depth + 1, as, bs =>
    let s := longest matched as bs
    if s.length = 0 then if as.isEmpty && bs.isEmpty then [] else [.change as bs]
    else
      compare matched depth (as.take s.old) (bs.take s.new)
        ++ .keep ((as.drop s.old).take s.length)
        :: compare matched depth (as.drop (s.old + s.length)) (bs.drop (s.new + s.length))

/-- The edits from old lines to new ones. -/
def edits (as bs : List String) : List Edit :=
  (compare (fun line => !isFrequent bs line) as.length as bs).foldr prepend []

end XhrKeywords.Diff
