import XhrKeywords.Proofs.Patch.Order

/-!
# Texts that differ in stretches

Splicing replaces the stretches of its patches and keeps all else: the old and the new text fall
into the same gaps, with the replaced stretches between them on one side and the texts of the
patches on the other. Patches that can be spliced lie inside the text and apart from each other.
-/

namespace XhrKeywords.Patch

/-- `Rewrites reached patches old new` says that `old`, the rest of a text from the offset `reached`
on, becomes `new` when the stretches of the patches are replaced one after the other. -/
inductive Rewrites : Nat → List Patch → List Char → List Char → Prop
  /-- Without patches the text is kept. -/
  | kept (reached : Nat) (rest : List Char) : Rewrites reached [] rest rest
  /-- The text up to the first patch is kept, and its stretch is replaced. -/
  | replaced {reached : Nat} {p : Patch} {others : List Patch} (gap old : List Char)
      {rest behind : List Char} (start_eq : p.start = reached + gap.length)
      (stop_eq : p.stop = p.start + old.length) (rewrites : Rewrites p.stop others rest behind) :
      Rewrites reached (p :: others) (gap ++ old ++ rest) (gap ++ p.text.toList ++ behind)

/-- Without patches a text stays as it is. -/
theorem rewrites_nil_iff {reached : Nat} {old new : List Char} :
    Rewrites reached [] old new ↔ old = new := by
  constructor
  · intro h
    cases h
    rfl
  · rintro rfl
    exact Rewrites.kept reached old

/-- Two patches are apart when one ends before the other one starts. -/
def Apart (p q : Patch) : Prop := p.stop ≤ q.start ∨ q.stop ≤ p.start

/-- Being apart does not depend on the order of two patches. -/
theorem Apart.symm {p q : Patch} (h : p.Apart q) : q.Apart p := Or.symm h

/-- Patches that are spliced lie behind the offset that has been reached, and each behind the ones
before it. -/
theorem Rewrites.ordered {reached : Nat} {patches : List Patch} {old new : List Char}
    (h : Rewrites reached patches old new) :
    (∀ p ∈ patches, reached ≤ p.start) ∧ patches.Pairwise fun p q => p.stop ≤ q.start := by
  induction h with
  | kept reached rest => simp
  | @replaced reached p others gap old rest behind start_eq stop_eq _ ih =>
    have hp := p.start_le_stop
    constructor
    · intro q hq
      rcases List.mem_cons.mp hq with rfl | hq
      · omega
      · have := ih.1 q hq
        omega
    · exact List.Pairwise.cons ih.1 ih.2

/-- Patches that are spliced end inside the text. -/
theorem Rewrites.inside {reached : Nat} {patches : List Patch} {old new : List Char}
    (h : Rewrites reached patches old new) : ∀ p ∈ patches, p.stop ≤ reached + old.length := by
  induction h with
  | kept reached rest => simp
  | @replaced reached p others gap old rest behind start_eq stop_eq _ ih =>
    intro q hq
    simp only [List.length_append]
    rcases List.mem_cons.mp hq with rfl | hq
    · omega
    · have := ih q hq
      omega

/-- The text from one offset on starts with the stretch up to another one. -/
theorem slice_append_drop (text : List Char) {start stop : Nat} (h : start ≤ stop) :
    slice text start stop ++ text.drop stop = text.drop start := by
  have hd : (text.drop start).drop (stop - start) = text.drop stop := by
    rw [List.drop_drop, Nat.add_sub_cancel' h]
  rw [slice, ← hd, List.take_append_drop]

/-- A stretch inside a text is as long as its offsets say. -/
theorem length_slice {text : List Char} {start stop : Nat} (h : stop ≤ text.length) :
    (slice text start stop).length = stop - start := by
  simp only [slice, List.length_take, List.length_drop]
  omega

/-- What splicing answers differs from the text in the stretches of the patches. -/
theorem rewrites_of_splice {text : List Char} {reached : Nat} {patches : List Patch}
    {out : List Char} (h : splice text reached patches = .ok out) :
    Rewrites reached patches (text.drop reached) out := by
  induction patches generalizing reached out with
  | nil =>
    cases h
    exact Rewrites.kept reached _
  | cons p others ih =>
    have hp := p.start_le_stop
    rw [splice] at h
    split at h
    · cases h
    · rename_i hstart
      split at h
      · cases h
      · rename_i hstop
        cases hb : splice text p.stop others with
        | error e => simp [hb, bind, Except.bind] at h
        | ok behind =>
          simp only [hb, bind, Except.bind, pure, Except.pure, Except.ok.injEq] at h
          subst h
          have hgap := slice_append_drop text (Nat.le_of_not_lt hstart)
          have hold := slice_append_drop text hp
          rw [← hgap, ← hold, ← List.append_assoc]
          refine Rewrites.replaced _ _ ?_ ?_ (ih hb)
          · rw [length_slice (by omega)]
            omega
          · rw [length_slice (by omega)]
            omega

/-- Applied patches are apart from each other and end inside the text, and the new text differs
from the old one in their stretches alone. -/
theorem rewrites_of_apply {text out : String} {patches : List Patch}
    (h : apply text patches = .ok out) :
    patches.Pairwise Apart ∧ (∀ p ∈ patches, p.stop ≤ text.length) ∧
      Rewrites 0 (sort patches) text.toList out.toList := by
  simp only [apply, bind, Except.bind] at h
  cases hs : splice text.toList 0 (sort patches) with
  | error e => simp [hs] at h
  | ok spliced =>
    simp only [hs, pure, Except.pure, Except.ok.injEq] at h
    subst h
    have hr := rewrites_of_splice hs
    rw [List.drop_zero] at hr
    have hapart : (sort patches).Pairwise Apart := hr.ordered.2.imp fun hpq => Or.inl hpq
    refine ⟨(sort_perm patches).pairwise hapart fun hpq => hpq.symm, ?_, ?_⟩
    · intro p hp
      have hstop := hr.inside p ((sort_perm patches).mem_iff.mpr hp)
      rwa [Nat.zero_add, String.length_toList] at hstop
    · rwa [String.toList_ofList]

end XhrKeywords.Patch
