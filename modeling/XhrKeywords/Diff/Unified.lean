import XhrKeywords.Diff.Edit
import XhrKeywords.Text.Lines

/-!
# Unified diffs

A unified diff shows the changes of a text in hunks with three lines of context. Hunks whose
contexts would touch or overlap are one. Lines are written with the ends that they have.
-/

namespace XhrKeywords.Diff

/-- The number of kept lines shown around a change. -/
def context : Nat := 3

/-- Edits that are shown together. -/
structure Hunk where
  /-- The number of old lines in front of the hunk. -/
  oldStart : Nat
  /-- The number of new lines in front of the hunk. -/
  newStart : Nat
  edits : List Edit
  deriving DecidableEq, Repr

namespace Hunk

/-- The old lines of a hunk. -/
def old (h : Hunk) : List String := h.edits.flatMap Edit.old

/-- The new lines of a hunk. -/
def new (h : Hunk) : List String := h.edits.flatMap Edit.new

/-- A hunk with one more edit. -/
def push (h : Hunk) (e : Edit) : Hunk := { h with edits := h.edits ++ [e] }

/-- The hunks of an end: one that changes nothing is not shown. -/
def close (h : Hunk) : List Hunk := if h.edits.all Edit.isKeep then [] else [h]

/-- The hunk that starts with the last lines of a kept stretch. -/
def ofContext (oldStart newStart : Nat) (lines : List String) : Hunk :=
  let skipped := lines.length - context
  ⟨oldStart + skipped, newStart + skipped, [.keep (lines.drop skipped)]⟩

end Hunk

/-- The hunks of edits behind an open hunk; `oldAt` and `newAt` count the lines in front. A long
kept stretch ends the hunk and starts the next one. -/
def hunksFrom (oldAt newAt : Nat) (h : Hunk) : List Edit → List Hunk
  | [] => h.close
  | [.keep lines] => (h.push (.keep (lines.take context))).close
  | .keep lines :: others =>
    if 2 * context < lines.length then
      h.push (.keep (lines.take context))
        :: hunksFrom (oldAt + lines.length) (newAt + lines.length)
          (.ofContext oldAt newAt lines) others
    else
      hunksFrom (oldAt + lines.length) (newAt + lines.length) (h.push (.keep lines)) others
  | .change old new :: others =>
    hunksFrom (oldAt + old.length) (newAt + new.length) (h.push (.change old new)) others

/-- The hunks of edits; a kept stretch in front shows its last lines. -/
def hunks : List Edit → List Hunk
  | .keep lines :: [] => (Hunk.ofContext 0 0 lines).close
  | .keep lines :: others =>
    hunksFrom lines.length lines.length (.ofContext 0 0 lines) others
  | edits => hunksFrom 0 0 ⟨0, 0, []⟩ edits

/-- A range of lines: its first line and, unless it is one, its length. An empty range is shown
by the line in front of it. -/
def range (start length : Nat) : String :=
  if length = 1 then s!"{start + 1}"
  else if length = 0 then s!"{start},0"
  else s!"{start + 1},{length}"

/-- Lines behind a mark. -/
def marked (mark : String) (lines : List String) : List String :=
  lines.map (mark ++ ·)

/-- The lines of an edit behind their marks. -/
def Edit.render : Edit → List String
  | .keep lines => marked " " lines
  | .change old new => marked "-" old ++ marked "+" new

/-- The lines of a hunk behind its heading. -/
def Hunk.render (h : Hunk) : List String :=
  s!"@@ -{range h.oldStart h.old.length} +{range h.newStart h.new.length} @@\n"
    :: h.edits.flatMap Edit.render

/-- The lines of the diff of two lists of lines under the names of their texts. -/
def render (oldName newName : String) (as bs : List String) : List String :=
  match hunks (edits as bs) with
  | [] => []
  | shown =>
    ("--- " ++ oldName ++ "\n") :: ("+++ " ++ newName ++ "\n") :: shown.flatMap Hunk.render

/-- The unified diff of two texts; equal texts have none. -/
def unified (oldName newName old new : String) : String :=
  String.join (render oldName newName (Text.lines old) (Text.lines new))

end XhrKeywords.Diff
