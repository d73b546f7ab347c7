import XhrKeywords.Proofs.Outcome
import XhrKeywords.Proofs.Patch.Order

/-!
# Patches that end behind the text

Splicing notices the first patch, in the order of their stretches, that overlaps one before it or
ends behind the text. Which of the two happens depends on the stretches alone.
-/

namespace XhrKeywords.Patch

/-- The stretch of a patch. -/
def stretch (p : Patch) : Nat × Nat := (p.start, p.stop)

/-- The order of stretches is that of their starts and then that of their ends. -/
def comesFirst (p q : Nat × Nat) : Prop :=
  p.1 < q.1 ∨ (p.1 = q.1 ∧ p.2 ≤ q.2)

/-- In the order of stretches, those up to one that ends behind a text of the given length lie one
behind the other, and those before it end inside the text. -/
def Overrun (length : Nat) (stretches : List (Nat × Nat)) : Prop :=
  ∃ before last after, (before ++ last :: after).Perm stretches ∧
    (before ++ last :: after).Pairwise comesFirst ∧
    (before ++ [last]).Pairwise (fun p q => p.2 ≤ q.1) ∧
    (∀ p ∈ before, p.2 ≤ length) ∧ length < last.2

/-- Splicing fails for a patch that ends behind the text when it gets to one. -/
theorem splice_eq_outside_iff {text : List Char} {reached : Nat} {patches : List Patch} :
    (∃ start stop, splice text reached patches = .error (.outside start stop)) ↔
      ∃ before last after, patches = before ++ last :: after ∧
        (∀ p ∈ before ++ [last], reached ≤ p.start) ∧
        (before ++ [last]).Pairwise (fun p q => p.stop ≤ q.start) ∧
        (∀ p ∈ before, p.stop ≤ text.length) ∧ text.length < last.stop := by
  -- The patch that leaves the text is the first one or lies behind it, so the patches are peeled
  -- off from the front; what has been reached grows with them.
  induction patches generalizing reached with
  | nil =>
    constructor
    · rintro ⟨start, stop, h⟩
      cases h
    · rintro ⟨before, last, after, h, -⟩
      simp at h
  | cons p others ih =>
    have hp := p.start_le_stop
    rw [splice]
    split
    · rename_i hstart
      constructor
      · rintro ⟨start, stop, h⟩
        cases h
      · rintro ⟨before, last, after, h, hreached, -⟩
        have := hreached p (by cases before <;> simp_all)
        omega
    · rename_i hstart
      split
      · rename_i hstop
        constructor
        · intro _
          exact ⟨[], p, others, rfl, by simpa using hstart, by simp, by simp, hstop⟩
        · intro _
          exact ⟨_, _, rfl⟩
      · rename_i hstop
        have hbind : (∃ start stop, (do
            let behind ← splice text p.stop others
            return slice text reached p.start ++ p.text.toList ++ behind) =
              .error (.outside start stop)) ↔
            ∃ start stop, splice text p.stop others = .error (.outside start stop) := by
          cases splice text p.stop others <;> simp [bind, Except.bind, pure, Except.pure]
        rw [hbind, ih]
        constructor
        · rintro ⟨before, last, after, rfl, hbehind, hpairwise, hinside, hlast⟩
          refine ⟨p :: before, last, after, rfl, ?_, ?_, ?_, hlast⟩
          · intro q hq
            rcases List.mem_cons.mp hq with rfl | hq
            · omega
            · have := hbehind q hq
              omega
          · exact List.Pairwise.cons hbehind hpairwise
          · intro q hq
            rcases List.mem_cons.mp hq with rfl | hq
            · omega
            · exact hinside q hq
        · rintro ⟨before, last, after, heq, hreached, hpairwise, hinside, hlast⟩
          cases before with
          | nil =>
            cases heq
            exact absurd hlast hstop
          | cons q before =>
            cases heq
            obtain ⟨hbehind, hpairwise⟩ := List.pairwise_cons.mp hpairwise
            exact ⟨before, last, after, rfl, hbehind, hpairwise,
              fun r hr => hinside r (List.mem_cons_of_mem _ hr), hlast⟩

/-- The stretches of patches are valid, so splicing them never finds one that is not. -/
theorem apply_ne_invalid {text : String} {patches : List Patch} {start stop : Int} :
    apply text patches ≠ .error (.invalid start stop) := by
  have hsplice : ∀ reached sorted, splice text.toList reached sorted ≠
      .error (.invalid start stop) := by
    intro reached sorted
    induction sorted generalizing reached with
    | nil => nofun
    | cons p others ih =>
      rw [splice]
      split
      · nofun
      · split
        · nofun
        · have hothers := ih p.stop
          cases hs : splice text.toList p.stop others with
          | error e => simpa [bind, Except.bind, hs] using hothers
          | ok behind => nofun
  rw [apply]
  have hall := hsplice 0 (sort patches)
  cases hs : splice text.toList 0 (sort patches) with
  | error e => simpa [bind, Except.bind, hs] using hall
  | ok spliced => nofun

/-- Stretches in order are determined by which they are. -/
theorem eq_of_perm_of_ordered {first second : List (Nat × Nat)} (h : first.Perm second)
    (hfirst : first.Pairwise comesFirst) (hsecond : second.Pairwise comesFirst) :
    first = second := by
  refine h.eq_of_pairwise ?_ hfirst hsecond
  rintro ⟨a, b⟩ ⟨c, d⟩ - - hpq hqp
  simp only [comesFirst] at hpq hqp
  rw [Prod.mk.injEq]
  omega

/-- Sorted patches have their stretches in order. -/
theorem ordered_map_stretch {patches : List Patch} (h : Sorted patches) :
    (patches.map stretch).Pairwise comesFirst := by
  rw [List.pairwise_map]
  exact h.imp fun hpq => precedes_iff.mp hpq

/-- Patches cannot be applied because of one that ends behind the text exactly when their stretches
overrun it. -/
theorem apply_eq_outside_iff {text : String} {patches : List Patch} :
    (∃ start stop, apply text patches = .error (.outside start stop)) ↔
      Overrun text.length (patches.map stretch) := by
  have hbind : (∃ start stop, apply text patches = .error (.outside start stop)) ↔
      ∃ start stop, splice text.toList 0 (sort patches) = .error (.outside start stop) := by
    rw [apply]
    cases splice text.toList 0 (sort patches) <;> simp [bind, Except.bind, pure, Except.pure]
  rw [hbind, splice_eq_outside_iff, String.length_toList]
  have hperm := (sort_perm patches).map stretch
  have hordered := ordered_map_stretch (sorted_sort patches)
  constructor
  · rintro ⟨before, last, after, heq, -, hpairwise, hinside, hlast⟩
    rw [heq, List.map_append, List.map_cons] at hperm hordered
    refine ⟨before.map stretch, last.stretch, after.map stretch, hperm, hordered, ?_, ?_, hlast⟩
    · rw [← List.map_singleton, ← List.map_append, List.pairwise_map]
      exact hpairwise
    · intro p hp
      obtain ⟨q, hq, rfl⟩ := List.mem_map.mp hp
      exact hinside q hq
  · rintro ⟨before, last, after, hsame, hsorted, hpairwise, hinside, hlast⟩
    have heq := eq_of_perm_of_ordered (hperm.trans hsame.symm) hordered hsorted
    obtain ⟨front, back, hsort, hfront, hback⟩ := List.map_eq_append_iff.mp heq
    obtain ⟨p, others, rfl, rfl, rfl⟩ := List.map_eq_cons_iff.mp hback
    subst hfront
    refine ⟨front, p, others, hsort, fun _ _ => Nat.zero_le _, ?_, ?_, hlast⟩
    · rw [← List.map_singleton, ← List.map_append, List.pairwise_map] at hpairwise
      exact hpairwise
    · intro q hq
      exact hinside q.stretch (List.mem_map_of_mem hq)

end XhrKeywords.Patch
