import XhrKeywords.Patch
import XhrKeywords.Proofs.Token.Moved

/-!
# Patches behind a front

With something in front of a text, the stretches of patches lie as many characters further on as
the front has, and the new text is the front with the new text behind it.
-/

namespace XhrKeywords

instance : Movable Patch where
  moved d p := ⟨p.start + d, p.stop + d, p.text, Nat.add_le_add_right p.start_le_stop d⟩

instance : Movable Patch.Error where
  moved d
    | .invalid start stop => .invalid (start + d) (stop + d)
    | .outside start stop => .outside (start + d) (stop + d)
    | .overlap start stop reached replaced =>
      .overlap (start + d) (stop + d) (reached + d) replaced

namespace Patch

section Stretches

variable (d : Nat) (p : Patch)

@[simp] theorem start_moved : (moved d p).start = p.start + d := rfl

@[simp] theorem stop_moved : (moved d p).stop = p.stop + d := rfl

@[simp] theorem text_moved : (moved d p).text = p.text := rfl

end Stretches

variable {d : Nat}

theorem ofSpan_moved (start stop : Nat) (text : String) :
    ofSpan (start + d : Nat) (stop + d : Nat) text = moved d (ofSpan start stop text) := by
  have hiff : (0 ≤ ((start + d : Nat) : Int) ∧ ((start + d : Nat) : Int) ≤ (stop + d : Nat)) ↔
      0 ≤ (start : Int) ∧ (start : Int) ≤ stop := by
    omega
  by_cases h : 0 ≤ (start : Int) ∧ (start : Int) ≤ stop
  · rw [ofSpan, ofSpan, dif_pos h, dif_pos (hiff.mpr h)]
    rfl
  · rw [ofSpan, ofSpan, dif_neg h, dif_neg (mt hiff.mp h)]
    rfl

theorem precedes_moved (p q : Patch) : (moved d p).precedes (moved d q) = p.precedes q := by
  rw [Bool.eq_iff_iff, precedes, precedes]
  simp

theorem insert_moved (p : Patch) (patches : List Patch) :
    insert (moved d p) (moved d patches) = moved d (insert p patches) := by
  induction patches with
  | nil => rfl
  | cons q others ih =>
    rw [moved_cons, insert, insert, precedes_moved, ih]
    split <;> rfl

theorem sort_moved (patches : List Patch) : sort (moved d patches) = moved d (sort patches) := by
  induction patches with
  | nil => rfl
  | cons p others ih =>
    change insert (moved d p) (sort (moved d others)) = moved d (insert p (sort others))
    rw [ih, insert_moved]

theorem drop_front (front text : List Char) (n : Nat) :
    (front ++ text).drop (n + front.length) = text.drop n := by
  rw [Nat.add_comm, ← List.drop_drop, List.drop_left]

/-- The characters in a stretch do not depend on what lies in front. -/
theorem slice_front (front text : List Char) (start stop : Nat) :
    slice (front ++ text) (start + front.length) (stop + front.length) = slice text start stop := by
  rw [slice, drop_front, Nat.add_sub_add_right, slice]

variable {front text : List Char}

theorem length_front_lt (p : Patch) :
    (front ++ text).length < (moved front.length p).stop ↔ text.length < p.stop := by
  rw [List.length_append, stop_moved]
  omega

/-- Behind the front, splicing does not depend on it. -/
theorem splice_behind (front text : List Char) (reached : Nat) (patches : List Patch) :
    splice (front ++ text) (reached + front.length) (moved front.length patches) =
      (splice text reached patches).mapError (moved front.length) := by
  induction patches generalizing reached with
  | nil => exact congrArg Except.ok (drop_front ..)
  | cons p others ih =>
    have hstart : (moved front.length p).start < reached + front.length ↔ p.start < reached :=
      Nat.add_lt_add_iff_right
    rw [moved_cons, splice, splice]
    by_cases hbefore : p.start < reached
    · rw [if_pos hbefore, if_pos (hstart.mpr hbefore), start_moved, stop_moved, slice_front]
      rfl
    by_cases hbeyond : text.length < p.stop
    · rw [if_neg hbefore, if_neg (mt hstart.mp hbefore), if_pos hbeyond,
        if_pos ((length_front_lt p).mpr hbeyond)]
      rfl
    rw [if_neg hbefore, if_neg (mt hstart.mp hbefore), if_neg hbeyond,
      if_neg (mt (length_front_lt p).mp hbeyond), start_moved, stop_moved, ih, slice_front]
    cases splice text p.stop others <;> rfl

/-- From the start on, splicing keeps the front. -/
theorem splice_front (front text : List Char) (patches : List Patch) :
    splice (front ++ text) 0 (moved front.length patches) =
      ((splice text 0 patches).mapError (moved front.length)).map (front ++ ·) := by
  cases patches with
  | nil => rfl
  | cons p others =>
    have hslice : slice (front ++ text) 0 (p.start + front.length) =
        front ++ slice text 0 p.start := by
      rw [slice, slice, List.drop_zero, List.drop_zero, Nat.sub_zero, Nat.sub_zero, Nat.add_comm,
        List.take_length_add_append]
    rw [moved_cons, splice, splice, if_neg (Nat.not_lt_zero _), if_neg (Nat.not_lt_zero _)]
    by_cases hbeyond : text.length < p.stop
    · rw [if_pos hbeyond, if_pos ((length_front_lt p).mpr hbeyond)]
      rfl
    rw [if_neg hbeyond, if_neg (mt (length_front_lt p).mp hbeyond), start_moved, stop_moved,
      splice_behind, hslice]
    cases splice text p.stop others with
    | error e => rfl
    | ok behind =>
      refine congrArg Except.ok ?_
      rw [List.append_assoc, List.append_assoc, List.append_assoc, text_moved]

/-- Patches of a text and the moved patches of the text behind a front do the same to it. -/
theorem apply_front (front text : String) (patches : List Patch) :
    apply (front ++ text) (moved front.length patches) =
      ((apply text patches).mapError (moved front.length)).map (front ++ ·) := by
  rw [apply, apply, sort_moved, String.toList_append, ← String.length_toList, splice_front]
  cases splice text.toList 0 (sort patches) with
  | error e => rfl
  | ok out =>
    refine congrArg Except.ok ?_
    rw [String.ofList_append, String.ofList_toList]

end Patch

end XhrKeywords
