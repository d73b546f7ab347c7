import XhrKeywords.Proofs.Patch.Outside
import XhrKeywords.Proofs.Patch.Splice

/-!
# When patches overlap

Patches that end inside the text are applied when they lie apart, and overlap otherwise: nothing
else can go wrong with them. A patch without characters may stand at the edge of another one.
-/

namespace XhrKeywords.Patch

variable {patches : List Patch}

/-- Sorted patches that lie apart lie one behind the other. -/
theorem pairwise_behind_of_apart (hsorted : Sorted patches) (hapart : patches.Pairwise Apart) :
    patches.Pairwise fun p q => p.stop ≤ q.start := by
  refine (hsorted.and hapart).imp ?_
  rintro p q ⟨hprecedes, hforward | hbackward⟩
  · exact hforward
  · -- The second patch ends where the first one starts, and so neither has characters.
    have hq := q.start_le_stop
    rw [precedes_iff] at hprecedes
    omega

/-- Patches one behind the other that end inside the text are spliced. -/
theorem exists_splice_eq_ok {text : List Char} {reached : Nat}
    (hreached : ∀ p ∈ patches, reached ≤ p.start)
    (hbehind : patches.Pairwise fun p q => p.stop ≤ q.start)
    (hinside : ∀ p ∈ patches, p.stop ≤ text.length) :
    ∃ out, splice text reached patches = .ok out := by
  induction patches generalizing reached with
  | nil => exact ⟨_, rfl⟩
  | cons p others ih =>
    obtain ⟨hp, hothers⟩ := List.pairwise_cons.mp hbehind
    obtain ⟨behind, hrest⟩ := ih hp hothers fun q hq => hinside q (List.mem_cons_of_mem _ hq)
    rw [splice, if_neg (Nat.not_lt.mpr (hreached p List.mem_cons_self)),
      if_neg (Nat.not_lt.mpr (hinside p List.mem_cons_self)), hrest]
    exact ⟨_, rfl⟩

/-- Patches that end inside the text are applied when they lie apart. -/
theorem exists_apply_eq_ok_iff {text : String} (hinside : ∀ p ∈ patches, p.stop ≤ text.length) :
    (∃ out, apply text patches = .ok out) ↔ patches.Pairwise Apart := by
  constructor
  · rintro ⟨out, h⟩
    exact (rewrites_of_apply h).1
  · intro hapart
    have hperm := sort_perm patches
    have hbehind := pairwise_behind_of_apart (sorted_sort patches)
      (hperm.symm.pairwise hapart fun h => h.symm)
    have hends : ∀ p ∈ sort patches, p.stop ≤ text.toList.length := by
      intro p hp
      rw [String.length_toList]
      exact hinside p (hperm.mem_iff.mp hp)
    have hstart : ∀ p ∈ sort patches, 0 ≤ p.start := fun p _ => Nat.zero_le p.start
    obtain ⟨out, h⟩ := exists_splice_eq_ok hstart hbehind hends
    rw [apply, h]
    exact ⟨_, rfl⟩

/-- Patches that end inside the text overlap when they do not lie apart. -/
theorem exists_apply_eq_overlap_iff {text : String}
    (hinside : ∀ p ∈ patches, p.stop ≤ text.length) :
    (∃ start stop reached replaced,
      apply text patches = .error (.overlap start stop reached replaced)) ↔
      ¬ patches.Pairwise Apart := by
  rw [← exists_apply_eq_ok_iff hinside]
  constructor
  · rintro ⟨start, stop, reached, replaced, h⟩ ⟨out, hok⟩
    cases h.symm.trans hok
  · intro hfails
    cases h : apply text patches with
    | ok out => exact absurd ⟨out, h⟩ hfails
    | error e =>
      cases e with
      | overlap start stop reached replaced => exact ⟨start, stop, reached, replaced, rfl⟩
      | invalid start stop => exact absurd h apply_ne_invalid
      | outside start stop =>
        -- No patch ends behind the text.
        obtain ⟨before, last, after, hperm, -, -, -, hlast⟩ :=
          apply_eq_outside_iff.mp ⟨start, stop, h⟩
        obtain ⟨p, hp, rfl⟩ := List.mem_map.mp (hperm.mem_iff.mp (List.mem_append_cons_self))
        exact absurd (hinside p hp) (Nat.not_le.mpr hlast)

end XhrKeywords.Patch
