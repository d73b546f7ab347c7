import Mathlib.Data.List.Sort
import XhrKeywords.Patch

/-!
# The order of patches

Sorting permutes patches and puts them in the order of their stretches. That order is total, so
the first of two patches that overlap is known from their stretches alone.
-/

namespace XhrKeywords.Patch

/-- The order of patches is that of their starts and then that of their ends. -/
theorem precedes_iff {p q : Patch} :
    p.precedes q = true ↔ p.start < q.start ∨ (p.start = q.start ∧ p.stop ≤ q.stop) := by
  simp [precedes]

/-- Of two patches one precedes the other. -/
theorem precedes_of_not_precedes {p q : Patch} (h : ¬ p.precedes q = true) :
    q.precedes p = true := by
  rw [precedes_iff] at *
  omega

/-- The order of patches is transitive. -/
theorem precedes_trans {p q r : Patch} (hpq : p.precedes q = true) (hqr : q.precedes r = true) :
    p.precedes r = true := by
  rw [precedes_iff] at *
  omega

/-- Sorted patches. -/
def Sorted (patches : List Patch) : Prop :=
  patches.Pairwise fun p q => p.precedes q = true

/-- Inserting a patch adds it and nothing else. -/
theorem insert_perm (p : Patch) (patches : List Patch) :
    (insert p patches).Perm (p :: patches) := by
  induction patches with
  | nil => exact List.Perm.refl _
  | cons q others ih =>
    rw [insert]
    split
    · exact List.Perm.refl _
    · exact (ih.cons q).trans (List.Perm.swap p q others)

/-- Sorting loses no patch and adds none. -/
theorem sort_perm (patches : List Patch) : (sort patches).Perm patches := by
  induction patches with
  | nil => exact List.Perm.refl _
  | cons p others ih =>
    change (insert p (sort others)).Perm (p :: others)
    exact (insert_perm p (sort others)).trans (ih.cons p)

/-- Sorted patches stay sorted when one more is inserted. -/
theorem sorted_insert {p : Patch} {patches : List Patch} (h : Sorted patches) :
    Sorted (insert p patches) := by
  induction patches with
  | nil => exact List.pairwise_singleton _ p
  | cons q others ih =>
    obtain ⟨hq, hothers⟩ := List.pairwise_cons.mp h
    rw [insert]
    split
    case isTrue hp =>
      refine List.Pairwise.cons ?_ h
      intro r hr
      rcases List.mem_cons.mp hr with rfl | hr
      · exact hp
      · exact precedes_trans hp (hq r hr)
    case isFalse hp =>
      refine List.Pairwise.cons ?_ (ih hothers)
      intro r hr
      rcases List.mem_cons.mp ((insert_perm p others).mem_iff.mp hr) with rfl | hr
      · exact precedes_of_not_precedes hp
      · exact hq r hr

/-- Sorting sorts. -/
theorem sorted_sort (patches : List Patch) : Sorted (sort patches) := by
  induction patches with
  | nil => exact List.Pairwise.nil
  | cons p others ih => exact sorted_insert ih

end XhrKeywords.Patch
