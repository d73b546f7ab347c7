import Mathlib.Data.List.Sort
import XhrKeywords.Proofs.Patch.Overlap

/-!
# Patches one at a time

Sorting keeps patches of one stretch in their order, as every stable sort does. Putting the text
together from left to right comes to the same as replacing one stretch at a time from the last
patch to the first: what lies in front of a patch has not been touched when its turn comes, so the
offsets of the patch still hold.
-/

namespace XhrKeywords.Patch

/-- A text with the stretch of one patch replaced. -/
def replace (p : Patch) (text : String) : String :=
  .ofList (text.toList.take p.start ++ p.text.toList ++ text.toList.drop p.stop)

/-- A patch goes behind those that it does not precede and in front of one that it does. -/
theorem insert_append {p : Patch} {before after : List Patch}
    (hbefore : ∀ q ∈ before, ¬ p.precedes q = true)
    (hafter : ∀ q ∈ after, p.precedes q = true) :
    insert p (before ++ after) = before ++ p :: after := by
  induction before with
  | nil =>
    cases after with
    | nil => rfl
    | cons q after =>
      rw [List.nil_append, List.nil_append, insert, if_pos (hafter q List.mem_cons_self)]
  | cons q before ih =>
    rw [List.cons_append, insert, if_neg (hbefore q List.mem_cons_self),
      ih fun r hr => hbefore r (List.mem_cons_of_mem q hr), List.cons_append]

/-- Patches are sorted as by a stable merge sort. -/
theorem sort_eq_mergeSort (patches : List Patch) : sort patches = patches.mergeSort precedes := by
  have htrans : ∀ p q r : Patch, p.precedes q = true → q.precedes r = true →
      p.precedes r = true := fun _ _ _ => precedes_trans
  have htotal : ∀ p q : Patch, (p.precedes q || q.precedes p) = true := by
    intro p q
    rw [Bool.or_eq_true, or_iff_not_imp_left]
    exact precedes_of_not_precedes
  induction patches with
  | nil => rw [List.mergeSort_nil, sort, List.foldr_nil]
  | cons p others ih =>
    change insert p (sort others) = _
    obtain ⟨before, after, hcons, hothers, hbefore⟩ :=
      List.mergeSort_cons htrans htotal p others
    have hsorted := List.pairwise_mergeSort htrans htotal (p :: others)
    rw [hcons] at hsorted ⊢
    rw [ih, hothers]
    refine insert_append ?_ ?_
    · intro q hq hp
      have hnot := hbefore q hq
      rw [hp] at hnot
      exact absurd hnot (by decide)
    · exact (List.pairwise_cons.mp (List.pairwise_append.mp hsorted).2.1).1

/-- Replacing a stretch between a front and a rest leaves both. -/
theorem replace_ofList {p : Patch} {front old rest : List Char} (hstart : p.start = front.length)
    (hstop : p.stop = p.start + old.length) :
    p.replace (.ofList (front ++ old ++ rest)) = .ofList (front ++ p.text.toList ++ rest) := by
  have htake : (front ++ old ++ rest).take p.start = front := by
    rw [hstart, List.append_assoc, List.take_left]
  have hdrop : (front ++ old ++ rest).drop p.stop = rest := by
    rw [hstop, hstart, ← List.length_append, List.drop_left]
  rw [replace, String.toList_ofList, htake, hdrop]

/-- Replacing the stretches of sorted patches from the last one to the first does not touch what
lies in front of them, and rewrites the rest. -/
theorem Rewrites.foldr_replace {reached : Nat} {patches : List Patch} {old new : List Char}
    (h : Rewrites reached patches old new) (front : List Char) (hfront : front.length = reached) :
    patches.foldr replace (.ofList (front ++ old)) = .ofList (front ++ new) := by
  induction h generalizing front with
  | kept reached rest => rfl
  | @replaced reached p others gap old rest behind start_eq stop_eq _ ih =>
    have hlength : (front ++ gap).length = p.start := by
      rw [List.length_append, hfront, start_eq]
    have hothers := ih (front ++ gap ++ old) (by rw [List.length_append, hlength, stop_eq])
    calc (p :: others).foldr replace (.ofList (front ++ (gap ++ old ++ rest)))
        = p.replace (others.foldr replace (.ofList (front ++ gap ++ old ++ rest))) := by
          simp only [List.foldr_cons, List.append_assoc]
      _ = p.replace (.ofList (front ++ gap ++ old ++ behind)) := by rw [hothers]
      _ = .ofList (front ++ gap ++ p.text.toList ++ behind) :=
          replace_ofList hlength.symm stop_eq
      _ = .ofList (front ++ (gap ++ p.text.toList ++ behind)) := by
          simp only [List.append_assoc]

/-- Applied patches have been replaced one at a time, from the last one to the first. -/
theorem eq_foldr_of_apply {text out : String} {patches : List Patch}
    (h : apply text patches = .ok out) :
    out = (patches.mergeSort precedes).foldr replace text := by
  have hrewrites := (rewrites_of_apply h).2.2.foldr_replace [] rfl
  rw [List.nil_append, List.nil_append, String.ofList_toList, String.ofList_toList] at hrewrites
  rw [← sort_eq_mergeSort, hrewrites]

/-- Patches are applied exactly when all of them end inside the text and any two of them lie apart.
The new text is then the one that comes from sorting the patches, those of one stretch kept in
their order, and replacing one stretch at a time from the last patch to the first. -/
theorem apply_eq_ok_iff {text out : String} {patches : List Patch} :
    apply text patches = .ok out ↔
      ((∀ p ∈ patches, p.stop ≤ text.length) ∧ patches.Pairwise Apart) ∧
        out = (patches.mergeSort precedes).foldr replace text := by
  constructor
  · intro h
    obtain ⟨hapart, hinside, -⟩ := rewrites_of_apply h
    exact ⟨⟨hinside, hapart⟩, eq_foldr_of_apply h⟩
  · rintro ⟨⟨hinside, hapart⟩, rfl⟩
    obtain ⟨out, h⟩ := (exists_apply_eq_ok_iff hinside).mpr hapart
    rw [h, ← eq_foldr_of_apply h]

end XhrKeywords.Patch
