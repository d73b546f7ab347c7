import XhrKeywords.Proofs.Token.Placement

/-!
# Every item takes a character

What the item at the head of a text is, and that it takes a character of it, as every turn of a
scan does. So a lexer moves on with every step that succeeds, and as many steps as there are
characters lead to the end.
-/

namespace XhrKeywords.Token

/-- One turn of a scan over a delimited literal ends it, with an answer or without one, or leads
over a character at least. -/
theorem scan_turn (inner : Delimited.Opened) (outer : List Delimited.Opened) (taken : Nat)
    (c : Char) (rest : List Char) :
    (∃ opened, Delimited.scan inner outer taken (c :: rest) = .error opened) ∨
      Delimited.scan inner outer taken (c :: rest) = .ok (taken + 1) ∨
      ∃ inner' outer' n, 0 < n ∧ n ≤ (c :: rest).length ∧
        Delimited.scan inner outer taken (c :: rest) =
          Delimited.scan inner' outer' (taken + n) ((c :: rest).drop n) := by
  rw [Delimited.scan.eq_def]
  dsimp only
  split
  · cases rest with
    | nil => exact Or.inl ⟨inner, rfl⟩
    | cons _ behind => exact Or.inr (Or.inr ⟨inner, outer, 2, by omega, by simp, rfl⟩)
  · split
    · exact Or.inr (Or.inr ⟨_, outer, 1, by omega, by simp, rfl⟩)
    · cases outer with
      | nil => exact Or.inr (Or.inl rfl)
      | cons enclosing others =>
        exact Or.inr (Or.inr ⟨enclosing, others, 1, by omega, by simp, rfl⟩)
    · exact Or.inr (Or.inr ⟨_, inner :: outer, 1, by omega, by simp, rfl⟩)
    · cases rest with
      | nil => exact Or.inl ⟨inner, rfl⟩
      | cons _ behind => exact Or.inr (Or.inr ⟨_, inner :: outer, 2, by omega, by simp, rfl⟩)

/-- The body of a heredoc takes a character. -/
theorem pos_of_bodyEnd? {h : Heredoc} {line text : List Char} {taken found : Nat}
    (hfound : h.bodyEnd? line taken text = some found) (htext : text ≠ []) : taken < found := by
  induction text generalizing line taken with
  | nil => exact absurd rfl htext
  | cons c rest ih =>
    have hmore : ∀ {line}, h.bodyEnd? line (taken + 1) rest = some found → taken < found := by
      intro line hfound
      by_cases hrest : rest = []
      · subst hrest
        rw [Heredoc.bodyEnd?] at hfound
        split at hfound <;> cases hfound
        exact Nat.lt_succ_self taken
      · exact Nat.lt_of_succ_lt (ih hfound hrest)
    rw [Heredoc.bodyEnd?] at hfound
    split at hfound
    · split at hfound
      · cases hfound
        exact Nat.lt_succ_self taken
      · exact hmore hfound
    · exact hmore hfound

/-- The number of characters that an item takes; a line break may take heredoc bodies besides. -/
def Item.length : Item → Nat
  | .passage length | .blank length | .comment length | .lineBreak length => length
  | .lexeme found => found.length

/-- The line that ends a block comment lies behind the line break in front of it. -/
theorem lt_of_blockEnd? {taken length : Nat} {text : List Char}
    (h : blockEnd? taken text = some length) : taken < length := by
  induction text generalizing taken with
  | nil => cases h
  | cons c rest ih =>
    rw [blockEnd?] at h
    split at h
    · cases h
      omega
    · have := ih h
      omega

/-- A passage takes a character. -/
theorem pos_of_passage? {text : List Char} {length : Nat} (htext : text ≠ [])
    (h : passage? text = .ok (some length)) : 0 < length := by
  unfold passage? at h
  extract_lets line behind at h
  split at h
  · cases h
    exact List.length_pos_iff.mpr htext
  · split at h
    · cases hblock : blockEnd? 0 text with
      | none => simp [hblock] at h
      | some found =>
        rw [hblock] at h
        cases h
        exact lt_of_blockEnd? hblock
    · cases h

/-- Every item takes a character. -/
theorem Found.length_pos {lineStart : Bool} {context : Context} {text : List Char} {item : Item}
    (h : Found lineStart context text item) (htext : text ≠ []) : 0 < item.length := by
  cases h with
  | passage _ h => exact pos_of_passage? htext h
  | blank h => exact length_takeWhile_pos (by decide) h
  | hiddenBreak => rw [Item.length]; split <;> omega
  | comment h =>
    refine length_takeWhile_pos (p := fun c => !isLineBreak c && c != '\x00') (by decide) ?_
    rw [h]
    decide
  | lineBreak => rw [Item.length]; split <;> omega
  | lexeme h =>
    have hread : readLexeme context (text.drop 0) = .ok _ := h
    exact (le_reach_of_spans (spans_readLexeme hread)).1

namespace Lexer

variable {s t : Lexer}

/-- What a line break does: it passes the bodies of all heredocs, and it may become a token. -/
theorem of_breakLine {length : Nat} (h : s.breakLine length = .ok t) :
    ∃ bodies, Heredoc.bodiesLength s.heredocs (s.cursor.rest.drop length) = .ok bodies ∧
      t.cursor = s.cursor.advance (length + bodies) ∧ t.lineStart = true ∧ t.heredocs = [] ∧
      (t.emitted = s.emitted ∨ t.emitted = s.placeNewline :: s.emitted) := by
  rw [breakLine] at h
  split at h
  · rename_i bodies hbodies
    obtain ⟨_, ⟨⟩, h⟩ := bind_eq_ok_iff.mp h
    dsimp only at h
    refine ⟨bodies, hbodies, ?_⟩
    split at h
    · cases h
      exact ⟨rfl, rfl, rfl, Or.inl rfl⟩
    · split at h
      · cases h
        exact ⟨rfl, rfl, rfl, Or.inl rfl⟩
      · cases h
        exact ⟨rfl, rfl, rfl, Or.inr rfl⟩
  · cases h

/-- Taking an item moves the cursor over it. -/
theorem cursor_of_take {item : Item} (h : s.take item = .ok t) :
    ∃ behind, t.cursor = s.cursor.advance (item.length + behind) := by
  cases item with
  | passage length | blank length | comment length | lexeme found =>
    cases h
    exact ⟨0, rfl⟩
  | lineBreak length =>
    obtain ⟨bodies, -, hcursor, -⟩ := of_breakLine h
    exact ⟨bodies, hcursor⟩

/-- A step in front of a character moves the cursor on. -/
theorem step_advances (hrest : s.cursor.rest ≠ []) (h : s.step = .ok t) :
    ∃ n, 0 < n ∧ t.cursor = s.cursor.advance n := by
  obtain ⟨item, hitem, htake⟩ := step_eq_ok_iff.mp h
  obtain ⟨behind, hcursor⟩ := cursor_of_take htake
  exact ⟨_, Nat.lt_add_right behind ((found_of_readItem hitem).length_pos hrest), hcursor⟩

/-- A step in front of a character leads to a greater offset and leaves fewer characters. -/
theorem step_lt (hrest : s.cursor.rest ≠ []) (h : s.step = .ok t) :
    s.cursor.offset < t.cursor.offset ∧ t.cursor.rest.length < s.cursor.rest.length := by
  obtain ⟨n, hpos, hcursor⟩ := step_advances hrest h
  have := List.length_pos_iff.mpr hrest
  rw [hcursor, Cursor.offset_advance, Cursor.rest_advance, List.length_drop]
  omega

/-- As many steps as there are characters lead to the end of the source. -/
theorem rest_of_run {steps : Nat} (hsteps : s.cursor.rest.length ≤ steps)
    (h : run steps s = .ok t) : t.cursor.rest = [] := by
  induction steps generalizing s with
  | zero =>
    cases h
    exact List.length_eq_zero_iff.mp (Nat.le_zero.mp hsteps)
  | succ steps ih =>
    rw [run] at h
    split at h
    · rename_i hempty
      cases h
      exact List.isEmpty_iff.mp hempty
    · rename_i hrest
      obtain ⟨next, hnext, h⟩ := bind_eq_ok_iff.mp h
      rw [List.isEmpty_iff] at hrest
      have := (step_lt hrest hnext).2
      exact ih (by omega) h

end Lexer

end XhrKeywords.Token
