import XhrKeywords.Proofs.Outcome
import XhrKeywords.Proofs.Token.Extent

/-!
# Where tokens lie

The tokens of a source cover a character at least and end inside it. One source is different: a
character literal that ends in its backslash, at the end of the source, ends one place behind it.
-/

namespace XhrKeywords.Token

open Unicode

/-- The token at the head of a text ends inside it, or it is an open character literal. -/
theorem spans_readLexeme {context : Context} {text : List Char} {found : Lexeme}
    (h : readLexeme context text = .ok found) :
    Spans text found.length ∨ (text = Literal.openCharacter ∧ found.length = 3) := by
  cases scanned_of_readLexeme h with
  | string _ _ h => exact Or.inl (Literal.spans_readString h)
  | command _ h => exact Or.inl (Literal.spans_readCommand h)
  | number hdigit => exact Or.inl (Number.spans_read hdigit)
  | name hname => exact Or.inl (Name.spans_read hname)
  | instanceVariable _ h => exact Or.inl (Name.spans_readInstance h)
  | globalVariable _ h => exact Or.inl (Name.spans_readGlobal h)
  | symbol _ h => exact Or.inl (Literal.spans_readSymbol? h)
  | heredoc _ h => exact Or.inl (Heredoc.spans_read? h)
  | percent _ _ h => exact Or.inl (Literal.spans_readPercent h)
  | regexp _ h => exact Or.inl (Literal.spans_readRegexp h)
  | character hmark hstarts => exact Literal.spans_readCharacter hmark hstarts
  | operator h => exact Or.inl (Operator.spans_read h)

/-- What is read as a token starts with a token. -/
theorem readLexeme_of_readItem {lineStart : Bool} {context : Context} {text : List Char}
    {found : Lexeme} (h : readItem lineStart context text = .ok (.lexeme found)) :
    readLexeme context text = .ok found := by
  cases found_of_readItem h with
  | lexeme h => exact h

/-- How far the tokens of a source may reach. -/
def reach (source : List Char) : Nat :=
  if Literal.openCharacter.isSuffixOf source then source.length + 1 else source.length

/-- Tokens may always reach up to the end of the source. -/
theorem length_le_reach (source : List Char) : source.length ≤ reach source := by
  rw [reach]
  split <;> omega

/-- A token that is found behind `offset` characters ends within the reach of the source. -/
theorem le_reach_of_spans {source : List Char} {offset length : Nat}
    (h : Spans (source.drop offset) length ∨
      (source.drop offset = Literal.openCharacter ∧ length = 3)) :
    0 < length ∧ offset + length ≤ reach source := by
  rcases h with ⟨hpos, hle⟩ | ⟨hopen, rfl⟩
  · rw [List.length_drop] at hle
    have := length_le_reach source
    omega
  · have hsuffix : Literal.openCharacter.isSuffixOf source = true := by
      rw [List.isSuffixOf_iff_suffix, ← hopen]
      exact List.drop_suffix offset source
    have hlength := congrArg List.length hopen
    rw [List.length_drop, Literal.openCharacter] at hlength
    simp only [List.length_cons, List.length_nil] at hlength
    rw [reach, if_pos hsuffix]
    omega

namespace Lexer

/-- A step reads an item and takes it. -/
theorem step_eq_ok_iff {s t : Lexer} :
    s.step = .ok t ↔
      ∃ item, readItem s.lineStart s.context s.cursor.rest = .ok item ∧ s.take item = .ok t := by
  rw [step, mapError_eq_ok_iff, bind_eq_ok_iff]

/-- What lies ahead of a lexer is the rest of the source, and its tokens lie within the reach of
the source. -/
structure Placed (source : List Char) (s : Lexer) : Prop where
  rest : s.cursor.rest = source.drop s.cursor.offset
  tokens : ∀ t ∈ s.emitted, t.start < t.stop ∧ t.stop ≤ reach source

/-- A lexer in front of a source has it ahead and no tokens. -/
theorem placed_start (source : List Char) : (start source).Placed source :=
  ⟨rfl, fun _ ht => absurd ht List.not_mem_nil⟩

/-- Moving on keeps the rest of the source ahead. -/
theorem Placed.rest_advance {source : List Char} {s : Lexer} (h : s.Placed source) (n : Nat) :
    (s.cursor.advance n).rest = source.drop (s.cursor.advance n).offset := by
  rw [Cursor.rest_advance, Cursor.offset_advance, h.rest, List.drop_drop]

/-- What lies ahead of a lexer starts inside the source. -/
theorem Placed.offset_lt {source : List Char} {s : Lexer} (h : s.Placed source)
    (hrest : s.cursor.rest ≠ []) : s.cursor.offset < source.length := by
  have hpos := List.length_pos_iff.mpr (h.rest ▸ hrest)
  rw [List.length_drop] at hpos
  omega

/-- A line break keeps tokens placed. -/
theorem Placed.breakLine {source : List Char} {s t : Lexer} {length : Nat}
    (h : s.Placed source) (hrest : s.cursor.rest ≠ []) (hstep : s.breakLine length = .ok t) :
    t.Placed source := by
  have hinside : s.cursor.offset + 1 ≤ reach source := by
    have := h.offset_lt hrest
    have := length_le_reach source
    omega
  rw [Lexer.breakLine] at hstep
  split at hstep
  · obtain ⟨_, -, hstep⟩ := bind_eq_ok_iff.mp hstep
    dsimp only at hstep
    split at hstep
    · cases hstep
      exact ⟨h.rest_advance _, h.tokens⟩
    · split at hstep
      · cases hstep
        exact ⟨h.rest_advance _, h.tokens⟩
      · cases hstep
        refine ⟨h.rest_advance _, ?_⟩
        intro u hu
        rcases List.mem_cons.mp hu with rfl | hu
        · exact ⟨Nat.lt_succ_self _, hinside⟩
        · exact h.tokens u hu
  · cases hstep

/-- A step keeps tokens placed. -/
theorem Placed.step {source : List Char} {s t : Lexer} (h : s.Placed source)
    (hrest : s.cursor.rest ≠ []) (hstep : s.step = .ok t) : t.Placed source := by
  obtain ⟨item, hitem, htake⟩ := step_eq_ok_iff.mp hstep
  cases item with
  | passage length | blank length | comment length =>
    cases htake
    exact ⟨h.rest_advance _, h.tokens⟩
  | lineBreak length => exact h.breakLine hrest htake
  | lexeme found =>
    have hread := readLexeme_of_readItem hitem
    rw [h.rest] at hread
    obtain ⟨hpos, hle⟩ := le_reach_of_spans (spans_readLexeme hread)
    cases htake
    refine ⟨h.rest_advance _, ?_⟩
    intro u hu
    rcases List.mem_cons.mp hu with rfl | hu
    · exact ⟨Nat.lt_add_of_pos_right hpos, hle⟩
    · exact h.tokens u hu

/-- What every step keeps is kept by a run. -/
theorem run_keeps {I : Lexer → Prop} {steps : Nat} {s t : Lexer}
    (hstep : ∀ s t, s.cursor.rest ≠ [] → s.step = .ok t → I s → I t) (hs : I s)
    (hrun : run steps s = .ok t) : I t := by
  induction steps generalizing s with
  | zero =>
    cases hrun
    exact hs
  | succ steps ih =>
    rw [Lexer.run] at hrun
    split at hrun
    · cases hrun
      exact hs
    · rename_i hrest
      obtain ⟨next, hnext, hrun⟩ := bind_eq_ok_iff.mp hrun
      rw [List.isEmpty_iff] at hrest
      exact ih (hstep s next hrest hnext hs) hrun

/-- A run keeps tokens placed. -/
theorem Placed.run {source : List Char} {steps : Nat} {s t : Lexer} (h : s.Placed source)
    (hrun : run steps s = .ok t) : t.Placed source :=
  run_keeps (fun _ _ hrest hstep hs => hs.step hrest hstep) h hrun

end Lexer

/-- The tokens of a source, its end marker aside, have characters and lie within its reach. -/
theorem tokens_placed {source : String} {tokens : List Token}
    (h : tokenize source = .ok tokens) :
    ∀ t ∈ tokens, t.kind ≠ .eof → t.start < t.stop ∧ t.stop ≤ reach source.toList := by
  obtain ⟨s, hrun, h⟩ := bind_eq_ok_iff.mp h
  have hplaced := (Lexer.placed_start source.toList).run hrun
  rw [Lexer.finish] at h
  split at h
  · cases h
    intro t ht hkind
    rw [List.mem_reverse] at ht
    rcases List.mem_cons.mp ht with rfl | ht
    · exact absurd rfl hkind
    · exact hplaced.tokens t ht
  · cases h

end XhrKeywords.Token
