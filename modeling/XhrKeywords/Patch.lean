/-!
# Patches

A patch replaces a stretch of a text. Patches address the text as it was before any of them, so
their order does not matter: they are sorted by their stretches and the text is put together from
left to right. Two patches may touch and must not overlap.
-/

namespace XhrKeywords

/-- A stretch of a text and what stands there instead. -/
structure Patch where
  start : Nat
  /-- Behind the last replaced character. -/
  stop : Nat
  text : String
  start_le_stop : start ≤ stop
  deriving DecidableEq, Repr

namespace Patch

/-- Why patches cannot be applied. -/
inductive Error
  /-- A stretch that ends before it starts, or starts before the text. -/
  | invalid (start stop : Int)
  /-- A stretch that ends behind the text. -/
  | outside (start stop : Nat)
  /-- A stretch that starts before the end of another one; `replaced` is the text in it. -/
  | overlap (start stop reached : Nat) (replaced : String)
  deriving DecidableEq, Repr

/-- The report of an error, the replaced text aside. -/
def Error.message : Error → String
  | invalid start stop => s!"Invalid patch span {start}..{stop}"
  | outside start stop => s!"Patch span {start}..{stop} is outside the buffer"
  | overlap start stop reached _ =>
    s!"Replacement at {start}..{stop} overlaps a previous one ending at {reached}"

/-- The patch for a stretch that is one. -/
def ofSpan (start stop : Int) (text : String) : Except Error Patch :=
  if h : 0 ≤ start ∧ start ≤ stop then .ok ⟨start.toNat, stop.toNat, text, by omega⟩
  else .error (.invalid start stop)

/-- Patches are sorted by their starts and, at one start, by their ends. -/
def precedes (p q : Patch) : Bool :=
  p.start < q.start || (p.start == q.start && p.stop ≤ q.stop)

/-- Puts a patch in front of the first one that it precedes. -/
def insert (p : Patch) : List Patch → List Patch
  | [] => [p]
  | q :: others => if p.precedes q then p :: q :: others else q :: insert p others

/-- Sorts patches; those of one stretch keep their order. -/
def sort (patches : List Patch) : List Patch :=
  patches.foldr insert []

/-- The stretch from one offset to another, as far as the text reaches. -/
def slice (text : List Char) (start stop : Nat) : List Char :=
  (text.drop start).take (stop - start)

/-- Puts the text together from the offset `reached` on, given sorted patches. -/
def splice (text : List Char) (reached : Nat) : List Patch → Except Error (List Char)
  | [] => .ok (text.drop reached)
  | p :: others =>
    if p.start < reached then
      .error (.overlap p.start p.stop reached (.ofList (slice text p.start p.stop)))
    else if text.length < p.stop then .error (.outside p.start p.stop)
    else do
      let behind ← splice text p.stop others
      return slice text reached p.start ++ p.text.toList ++ behind

/-- The text with all patches applied. -/
def apply (text : String) (patches : List Patch) : Except Error String :=
  return .ofList (← splice text.toList 0 (sort patches))

end Patch

end XhrKeywords
