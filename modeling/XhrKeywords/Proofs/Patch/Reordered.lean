import Mathlib.Data.List.Pairwise
import XhrKeywords.Proofs.Patch.Outside
import XhrKeywords.Proofs.Patch.Splice

/-!
# Patches in any order

Patches of one stretch are applied in the order in which they are given, so that order may matter.
It does only for patches without characters. Two others of one stretch overlap, whichever comes
first, and what is reported then is said by stretches alone.
-/

namespace XhrKeywords.Patch

/-- Why patches cannot be spliced depends on nothing but their stretches. -/
theorem splice_eq_error_of_stretch {text : List Char} {reached : Nat} {e : Error}
    {patches others : List Patch} (hsame : patches.map stretch = others.map stretch)
    (h : splice text reached patches = .error e) : splice text reached others = .error e := by
  induction patches generalizing reached others with
  | nil => cases h
  | cons p patches ih =>
    obtain ⟨q, others, rfl, hq, hothers⟩ := List.map_eq_cons_iff.mp hsame.symm
    obtain ⟨hstart, hstop⟩ := Prod.mk.inj hq
    rw [splice] at h ⊢
    rw [hstart, hstop]
    split at h
    case isTrue hreached => rw [if_pos hreached, h]
    case isFalse hreached =>
      rw [if_neg hreached]
      split at h
      case isTrue hinside => rw [if_pos hinside, h]
      case isFalse hinside =>
        rw [if_neg hinside]
        cases hrest : splice text p.stop patches with
        | error e' =>
          rw [hrest] at h
          cases h
          rw [ih hothers.symm hrest]
          rfl
        | ok behind =>
          rw [hrest] at h
          cases h

/-- Sorting permuted patches gives the same stretches. -/
theorem map_stretch_sort_of_perm {patches others : List Patch} (hperm : patches.Perm others) :
    (sort patches).map stretch = (sort others).map stretch := by
  have hsorted : (sort patches).Perm (sort others) :=
    ((sort_perm patches).trans hperm).trans (sort_perm others).symm
  exact eq_of_perm_of_ordered (hsorted.map stretch) (ordered_map_stretch (sorted_sort patches))
    (ordered_map_stretch (sorted_sort others))

/-- Patches that are different from each other have different stretches. -/
def Distinct (patches : List Patch) : Prop :=
  ∀ p ∈ patches, ∀ q ∈ patches, p.stretch = q.stretch → p = q

/-- Patches that lie apart have different stretches when no two of them are without characters at
one place. -/
theorem distinct_of_apart {patches : List Patch} (hapart : patches.Pairwise Apart)
    (hempty : patches.Pairwise fun p q => p.start = p.stop → p.stretch ≠ q.stretch) :
    Distinct patches := by
  have hsymm : Std.Symm fun p q : Patch => p.stretch = q.stretch → p = q :=
    ⟨fun p q h hstretch => (h hstretch.symm).symm⟩
  refine List.Pairwise.forall_of_forall (fun _ _ _ => rfl) ((hapart.and hempty).imp ?_)
  rintro p q ⟨hpq, hdiffer⟩ hstretch
  -- A stretch that is apart from itself has no characters.
  refine absurd hstretch (hdiffer ?_)
  obtain ⟨hstart, hstop⟩ := Prod.mk.inj hstretch
  have hp := p.start_le_stop
  rw [Apart] at hpq
  omega

/-- Sorting permuted patches gives the same patches when these have different stretches. -/
theorem sort_eq_of_perm {patches others : List Patch} (hdistinct : Distinct patches)
    (hperm : others.Perm patches) : sort others = sort patches := by
  have hsorted : (sort others).Perm (sort patches) :=
    ((sort_perm others).trans hperm).trans (sort_perm patches).symm
  refine hsorted.eq_of_pairwise ?_ (sorted_sort others) (sorted_sort patches)
  intro p q hp hq hpq hqp
  have hp' : p ∈ patches := hperm.mem_iff.mp ((sort_perm others).mem_iff.mp hp)
  have hq' : q ∈ patches := (sort_perm patches).mem_iff.mp hq
  refine hdistinct p hp' q hq' ?_
  rw [precedes_iff] at hpq hqp
  rw [stretch, stretch, Prod.mk.injEq]
  omega

/-- Patches may be given in any order: when no two of them are without characters at one place, the
new text is the same, or the error is, and so are the offsets and the text that it reports. -/
theorem apply_eq_of_perm {text : String} {patches others : List Patch}
    (hempty : patches.Pairwise fun p q => p.start = p.stop → p.stretch ≠ q.stretch)
    (hperm : others.Perm patches) : apply text others = apply text patches := by
  cases h : apply text patches with
  | ok out =>
    obtain ⟨hapart, -⟩ := rewrites_of_apply h
    rw [apply, sort_eq_of_perm (distinct_of_apart hapart hempty) hperm]
    exact h
  | error e =>
    rw [apply] at h ⊢
    cases hsplice : splice text.toList 0 (sort patches) with
    | error e' =>
      have hsame := map_stretch_sort_of_perm hperm.symm
      rw [hsplice] at h
      rw [splice_eq_error_of_stretch hsame hsplice]
      exact h
    | ok spliced =>
      rw [hsplice] at h
      cases h

/-- An insertion at the edge of a replacement may be given before or behind it. -/
theorem apply_insertion_at_edge :
    (([⟨0, 1, "x", by decide⟩, ⟨1, 1, "y", by decide⟩] : List Patch).Pairwise fun p q =>
        p.start = p.stop → p.stretch ≠ q.stretch) ∧
      apply "abc" [⟨1, 1, "y", by decide⟩, ⟨0, 1, "x", by decide⟩] =
        apply "abc" [⟨0, 1, "x", by decide⟩, ⟨1, 1, "y", by decide⟩] := by
  have hempty : ([⟨0, 1, "x", by decide⟩, ⟨1, 1, "y", by decide⟩] : List Patch).Pairwise
      fun p q => p.start = p.stop → p.stretch ≠ q.stretch := by
    simp
  exact ⟨hempty, apply_eq_of_perm hempty (List.Perm.swap _ _ [])⟩

end XhrKeywords.Patch
