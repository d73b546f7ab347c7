import Mathlib.Data.Nat.Digits.Lemmas
import XhrKeywords.Proofs.Diff.Edit
import XhrKeywords.Proofs.Text.Feed

/-!
# Reading a unified diff

Below its two headings a unified diff is a text of lines behind marks. It is read as lines that line
feeds end, while the lines of the texts end with any line end, or at the end of a text. Whatever is
read starts with a mark. A removed or added line is read as such unless the line in front of it has
no line feed, for then it is read as a part of that line.
-/

namespace XhrKeywords.Diff

open Text

/-- The lines that the diff of two texts shows below its headings. -/
def shown (old new : String) : List String :=
  (hunks (edits (lines old) (lines new))).flatMap Hunk.render

/-- The number of old lines that the diff of two texts removes. -/
def removals (old new : String) : Nat :=
  ((edits (lines old) (lines new)).flatMap Edit.removed).length

/-- The number of new lines that the diff of two texts adds. -/
def additions (old new : String) : Nat :=
  ((edits (lines old) (lines new)).flatMap Edit.added).length

/-- What a text shows below its headings, put together. -/
def body (old new : String) : String := .join (shown old new)

/-- Whether a line starts with a mark. -/
def bears (mark : Char) (line : List Char) : Bool := line.head? == some mark

/-- The marks of the lines of a hunk. -/
def marks : List Char := ['@', ' ', '-', '+']

/-- Different texts have the diff with both headings. -/
theorem unified_of_ne {old new : String} (h : old ≠ new) (oldName newName : String) :
    unified oldName newName old new =
      "--- " ++ oldName ++ "\n" ++ ("+++ " ++ newName ++ "\n") ++ body old new := by
  have hhunks : hunks (edits (lines old) (lines new)) ≠ [] :=
    hunks_edits_ne_nil fun hlines => h (lines_injective hlines)
  have hrender : render oldName newName (lines old) (lines new) =
      ("--- " ++ oldName ++ "\n") :: ("+++ " ++ newName ++ "\n") :: shown old new := by
    rw [render]
    split
    · rename_i hnone
      exact absurd hnone hhunks
    · rfl
  rw [unified, hrender, body, ← String.toList_inj]
  simp [String.toList_join]

/-- Different texts have a diff. -/
theorem unified_ne_empty {old new : String} (h : old ≠ new) (oldName newName : String) :
    unified oldName newName old new ≠ "" := by
  rw [unified_of_ne h, ← String.toList_inj.ne]
  simp

theorem toList_heading (h : Hunk) :
    ∃ ranges, (s!"@@ -{range h.oldStart h.old.length} +{range h.newStart h.new.length} @@\n").toList =
      '@' :: (ranges ++ ['\n']) ∧ '\n' ∉ ranges := by
  have hdigits (n : Nat) : '\n' ∉ Nat.toDigits 10 n := by
    intro hfeed
    cases Nat.isDigit_of_mem_toDigits (by decide) (by decide) hfeed
  have hrange (start length : Nat) : '\n' ∉ (range start length).toList := by
    rw [range]
    split_ifs <;> simp [hdigits, toString]
  refine ⟨"@ -".toList ++ ((range h.oldStart h.old.length).toList ++ (" +".toList ++
    ((range h.newStart h.new.length).toList ++ " @@".toList))), ?_, ?_⟩
  · simp [toString]
  · simp [hrange]

theorem toList_marked (c : Char) (line : String) :
    (String.singleton c ++ line).toList = c :: line.toList := by
  simp

/-- The lines of a hunk are its heading and the lines of its edits behind their marks. -/
theorem mem_render {h : Hunk} {line : String} (hline : line ∈ h.render) :
    (∃ ranges, line.toList = '@' :: (ranges ++ ['\n']) ∧ '\n' ∉ ranges) ∨
      ∃ e ∈ h.edits, ∃ mark ∈ [' ', '-', '+'], ∃ inner, (inner ∈ e.old ∨ inner ∈ e.new) ∧
        line.toList = mark :: inner.toList := by
  rw [Hunk.render, List.mem_cons] at hline
  rcases hline with rfl | hline
  · exact .inl (toList_heading h)
  · obtain ⟨e, he, hline⟩ := List.mem_flatMap.mp hline
    refine .inr ⟨e, he, ?_⟩
    cases e with
    | keep lines =>
      obtain ⟨inner, hinner, rfl⟩ := List.mem_map.mp hline
      exact ⟨' ', by simp, inner, .inl hinner, toList_marked ' ' inner⟩
    | change old new =>
      rcases List.mem_append.mp hline with hline | hline
      · obtain ⟨inner, hinner, rfl⟩ := List.mem_map.mp hline
        exact ⟨'-', by simp, inner, .inl hinner, toList_marked '-' inner⟩
      · obtain ⟨inner, hinner, rfl⟩ := List.mem_map.mp hline
        exact ⟨'+', by simp, inner, .inr hinner, toList_marked '+' inner⟩

/-- Every shown line can make at most one line, and starts with a mark. -/
theorem isPiece_of_shown {old new line : String} (h : line ∈ shown old new) :
    IsPiece line.toList ∧ ∃ mark ∈ marks, line.toList.head? = some mark := by
  obtain ⟨k, hk, hline⟩ := List.mem_flatMap.mp h
  rcases mem_render hline with ⟨ranges, hranges, hfeed⟩ | ⟨e, he, mark, hmark, inner, hinner, heq⟩
  · rw [hranges, ← List.cons_append]
    refine ⟨⟨by simp, ?_⟩, '@', by decide, rfl⟩
    rw [List.dropLast_concat]
    simpa using hfeed
  · have hpieces : e.All fun line => IsPiece line.toList :=
      all_hunks (all_edits (fun _ => isPiece_of_lines) fun _ => isPiece_of_lines) e
        (List.mem_flatMap.mpr ⟨k, hk, he⟩)
    have hpiece : IsPiece inner.toList := hinner.elim (hpieces.1 inner) (hpieces.2 inner)
    have hfeed : mark ≠ '\n' := by
      rintro rfl
      revert hmark
      decide
    rw [heq]
    exact ⟨hpiece.cons hfeed, mark, List.mem_cons_of_mem _ hmark, rfl⟩

theorem countP_marked (mark c : Char) (lines : List String) :
    ((marked (.singleton c) lines).map String.toList).countP (bears mark) =
      if c = mark then lines.length else 0 := by
  induction lines with
  | nil => simp [marked]
  | cons line others ih =>
    rw [marked, List.map_cons, List.map_cons, List.countP_cons, toList_marked]
    rw [marked] at ih
    rw [ih]
    by_cases hmark : c = mark <;> simp [bears, hmark]

/-- Behind their marks stand the lines that an edit removes, and those that it adds. -/
theorem countP_edit (e : Edit) :
    (e.render.map String.toList).countP (bears '-') = e.removed.length ∧
      (e.render.map String.toList).countP (bears '+') = e.added.length := by
  cases e with
  | keep lines => exact ⟨countP_marked '-' ' ' lines, countP_marked '+' ' ' lines⟩
  | change old new =>
    have hboth (mark : Char) :
        ((Edit.change old new).render.map String.toList).countP (bears mark) =
        (if '-' = mark then old.length else 0) + if '+' = mark then new.length else 0 := by
      rw [Edit.render, List.map_append, List.countP_append]
      exact congrArg₂ _ (countP_marked mark '-' old) (countP_marked mark '+' new)
    exact ⟨hboth '-', (hboth '+').trans (Nat.zero_add _)⟩

/-- The lines of hunks that are counted are those of their edits. -/
theorem countP_render {mark : Char} {counted : Edit → List String} (hmark : '@' ≠ mark)
    (h : ∀ e : Edit, (e.render.map String.toList).countP (bears mark) = (counted e).length)
    (found : List Hunk) :
    ((found.flatMap Hunk.render).map String.toList).countP (bears mark) =
      ((shownEdits found).flatMap counted).length := by
  induction found with
  | nil => rfl
  | cons k others ih =>
    obtain ⟨ranges, hranges, -⟩ := toList_heading k
    have hheading : bears mark ('@' :: (ranges ++ ['\n'])) = false := by simp [bears, hmark]
    rw [List.flatMap_cons, List.map_append, List.countP_append, ih, shownEdits_cons,
      List.flatMap_append, List.length_append, Hunk.render, List.map_cons, hranges,
      List.countP_cons_of_neg (by simp [hheading]), List.map_flatMap, List.countP_flatMap]
    simp only [List.length_flatMap, Function.comp_def, h]

theorem countP_shown (old new : String) :
    ((shown old new).map String.toList).countP (bears '-') = removals old new ∧
      ((shown old new).map String.toList).countP (bears '+') = additions old new := by
  rw [shown, countP_render (by decide) fun e => (countP_edit e).1,
    countP_render (by decide) fun e => (countP_edit e).2, flatMap_hunks fun _ => rfl,
    flatMap_hunks fun _ => rfl]
  exact ⟨rfl, rfl⟩

/-- The lines of the body as line feeds end them. -/
def bodyLines (old new : String) : List (List Char) := feedLines (body old new).toList

theorem map_head?_bodyLines (old new : String) :
    (bodyLines old new).map List.head? =
      (leading true ((shown old new).map String.toList)).map List.head? := by
  rw [bodyLines, body, String.toList_join, List.flatMap_def]
  refine map_head?_feedLines fun piece hpiece => ?_
  obtain ⟨line, hline, rfl⟩ := List.mem_map.mp hpiece
  exact (isPiece_of_shown hline).1

/-- Every line that is read starts with a mark. -/
theorem exists_mark_of_bodyLines {old new : String} {line : List Char}
    (h : line ∈ bodyLines old new) : ∃ mark ∈ marks, line.head? = some mark := by
  have hhead := List.mem_map_of_mem (f := List.head?) h
  rw [map_head?_bodyLines] at hhead
  obtain ⟨piece, hpiece, hsame⟩ := List.mem_map.mp hhead
  obtain ⟨other, hother, rfl⟩ := List.mem_map.mp ((leading_sublist _ _).subset hpiece)
  rw [← hsame]
  exact (isPiece_of_shown hother).2

/-- The shown lines behind a mark are all read as lines exactly when each of them starts a line. -/
theorem countP_bodyLines (old new : String) (mark : Char) :
    (bodyLines old new).countP (bears mark) =
        ((shown old new).map String.toList).countP (bears mark) ↔
      EachLeads (bears mark) ((shown old new).map String.toList) := by
  have hcount (found : List (List Char)) :
      found.countP (bears mark) = (found.map List.head?).countP (· == some mark) := by
    rw [List.countP_map]
    rfl
  rw [← countP_leading, hcount, map_head?_bodyLines, ← hcount]

/-- The diff of different texts has two headings, and below them every line starts with a mark. It
has as many lines that start with `-` as lines are removed exactly when none of these goes on with a
line that lacks its line feed, and it is the same with `+` and the lines that are added. -/
theorem unified_readable {old new : String} (h : old ≠ new) (oldName newName : String) :
    unified oldName newName old new =
        "--- " ++ oldName ++ "\n" ++ ("+++ " ++ newName ++ "\n") ++ body old new ∧
      (∀ line ∈ feedLines (body old new).toList, ∃ mark ∈ marks, line.head? = some mark) ∧
      ((feedLines (body old new).toList).countP (bears '-') = removals old new ↔
        EachLeads (bears '-') ((shown old new).map String.toList)) ∧
      ((feedLines (body old new).toList).countP (bears '+') = additions old new ↔
        EachLeads (bears '+') ((shown old new).map String.toList)) := by
  obtain ⟨hremoved, hadded⟩ := countP_shown old new
  refine ⟨unified_of_ne h oldName newName, fun line => exists_mark_of_bodyLines, ?_, ?_⟩
  · rw [← hremoved]
    exact countP_bodyLines old new '-'
  · rw [← hadded]
    exact countP_bodyLines old new '+'

/-- A line that is replaced by another one is read as removed and the other one as added. -/
theorem unified_readable_replaced :
    unified "a/t" "b/t" "1\n" "2\n" = "--- a/t\n+++ b/t\n@@ -1 +1 @@\n-1\n+2\n" ∧
      (∀ line ∈ feedLines (body "1\n" "2\n").toList, ∃ mark ∈ marks, line.head? = some mark) ∧
      (feedLines (body "1\n" "2\n").toList).countP (bears '-') = 1 ∧
      (feedLines (body "1\n" "2\n").toList).countP (bears '+') = 1 := by
  obtain ⟨htext, hmarks, hremoved, hadded⟩ :=
    unified_readable (show "1\n" ≠ "2\n" by decide) "a/t" "b/t"
  have hfed : ∀ piece ∈ (shown "1\n" "2\n").map String.toList, isFed piece = true := by
    decide +kernel
  refine ⟨htext.trans (by decide +kernel), hmarks, ?_, ?_⟩
  · exact (hremoved.mpr (eachLeads_of_fed hfed)).trans (by decide +kernel)
  · exact (hadded.mpr (eachLeads_of_fed hfed)).trans (by decide +kernel)

/-- Where the last line has no line feed, the line that is added is read as a part of the one that
is removed. -/
theorem feedLines_of_unfed_line :
    additions "xhr :get, a" "get a, xhr: true" = 1 ∧
      feedLines (body "xhr :get, a" "get a, xhr: true").toList =
        ["@@ -1 +1 @@\n".toList, "-xhr :get, a+get a, xhr: true".toList] := by
  decide +kernel

/-- Where every line ends with a line feed, the diff is read as it is meant. -/
theorem countP_bodyLines_of_fed {old new : String}
    (hold : ∀ line ∈ lines old, isFed line.toList = true)
    (hnew : ∀ line ∈ lines new, isFed line.toList = true) :
    (bodyLines old new).countP (bears '-') = removals old new ∧
      (bodyLines old new).countP (bears '+') = additions old new := by
  have hfed : ∀ piece ∈ (shown old new).map String.toList, isFed piece = true := by
    intro piece hpiece
    obtain ⟨line, hline, rfl⟩ := List.mem_map.mp hpiece
    obtain ⟨k, hk, hline⟩ := List.mem_flatMap.mp hline
    rcases mem_render hline with ⟨ranges, hranges, -⟩ | ⟨e, he, mark, -, inner, hinner, heq⟩
    · rw [hranges, ← List.cons_append, isFed, List.getLast?_concat]
      rfl
    · have hlines : e.All fun line => isFed line.toList = true :=
        all_hunks (all_edits hold hnew) e (List.mem_flatMap.mpr ⟨k, hk, he⟩)
      have hinner : isFed inner.toList = true := hinner.elim (hlines.1 inner) (hlines.2 inner)
      rw [heq]
      simp_all [isFed, List.getLast?_cons]
  obtain ⟨hremoved, hadded⟩ := countP_shown old new
  exact ⟨((countP_bodyLines old new '-').mpr (eachLeads_of_fed hfed)).trans hremoved,
    ((countP_bodyLines old new '+').mpr (eachLeads_of_fed hfed)).trans hadded⟩

end XhrKeywords.Diff
