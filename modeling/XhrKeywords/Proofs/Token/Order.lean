import XhrKeywords.Proofs.Token.Placement
import XhrKeywords.Proofs.Token.Shape

/-!
# Tokens lie one behind the other

No token starts before the one in front of it ends, heredoc bodies and line breaks included, and the
end of the source comes last. A label is a name with a colon behind it, so what is left of it
without its colon is not empty.
-/

namespace XhrKeywords

open Token Unicode

namespace Token

/-- A label has a character in front of its colon. -/
theorem label_of_readLexeme {context : Context} {text : List Char} {found : Lexeme}
    (h : readLexeme context text = .ok found) (hkind : found.kind = .label) :
    1 < found.length ∧ peek text (found.length - 1) = ':' := by
  have hshape := shaped_readLexeme h
  cases hshape with
  | plain _ _ hplain =>
    subst hkind
    cases hplain
  | label _ hpos hcolon => exact ⟨Nat.succ_lt_succ hpos, hcolon⟩
  | symbol hsymbol =>
    subst hkind
    cases hsymbol

/-- Tokens that lie one behind the other: each has characters, a label has a name in front of its
colon, and the end of the source is the last one and no other. -/
structure InOrder (tokens : List Token) : Prop where
  behind : tokens.Pairwise fun t u => t.stop ≤ u.start
  solid : ∀ t ∈ tokens, t.kind ≠ .eof → t.start < t.stop
  named : ∀ t ∈ tokens, t.kind = .label → t.start + 1 < t.stop
  closed : ∃ front last, tokens = front ++ [last] ∧ last.kind = .eof ∧ ∀ t ∈ front, t.kind ≠ .eof

namespace InOrder

variable {tokens before behind before' behind' : List Token} {t u : Token}

/-- A token with others behind it is not the end of the source. -/
theorem ne_eof_of_behind (h : InOrder tokens) (hsplit : tokens = before ++ t :: behind)
    (hbehind : behind ≠ []) : t.kind ≠ .eof := by
  obtain ⟨front, last, heq, -, hopen⟩ := h.closed
  obtain ⟨others, final, rfl⟩ := (List.eq_nil_or_concat behind).resolve_left hbehind
  rw [hsplit, List.concat_eq_append, ← List.cons_append, ← List.append_assoc] at heq
  obtain ⟨rfl, -⟩ := List.append_inj' heq rfl
  exact hopen t (by simp)

/-- Where a token that is not the end of the source starts, there is no other token. -/
theorem split_unique (h : InOrder tokens) (ht : tokens = before ++ t :: behind)
    (hu : tokens = before' ++ u :: behind') (hkind : t.kind ≠ .eof)
    (hstart : t.start = u.start) : t = u ∧ behind = behind' := by
  have hapart : ∀ {front middle back : List Token} {v w : Token},
      tokens = front ++ v :: (middle ++ w :: back) → v.kind ≠ .eof → v.start ≠ w.start := by
    intro front middle back v w heq hv hstart
    have hsolid := h.solid v (by simp [heq]) hv
    have hpairwise := h.behind
    rw [heq] at hpairwise
    have hle := (List.pairwise_cons.mp (List.pairwise_append.mp hpairwise).2.1).1 w (by simp)
    omega
  rw [hu] at ht
  rcases List.append_eq_append_iff.mp ht with ⟨middle, hbefore, hrest⟩ | ⟨middle, hbefore, hrest⟩
  · cases middle with
    | nil =>
      obtain ⟨rfl, rfl⟩ := List.cons.inj hrest
      exact ⟨rfl, rfl⟩
    | cons v middle =>
      obtain ⟨rfl, rfl⟩ := List.cons.inj hrest
      exact absurd hstart.symm (hapart hu (h.ne_eof_of_behind hu (by simp)))
  · cases middle with
    | nil =>
      obtain ⟨rfl, rfl⟩ := List.cons.inj hrest
      exact ⟨rfl, rfl⟩
    | cons v middle =>
      obtain ⟨rfl, rfl⟩ := List.cons.inj hrest
      rw [hbefore, List.append_assoc] at hu
      exact absurd hstart (hapart hu hkind)

/-- Two tokens that start at one offset, one of them not the end of the source, are the same. -/
theorem eq_of_start (h : InOrder tokens) (ht : t ∈ tokens) (hu : u ∈ tokens)
    (hkind : t.kind ≠ .eof) (hstart : t.start = u.start) : t = u := by
  obtain ⟨_, _, ht⟩ := List.append_of_mem ht
  obtain ⟨_, _, hu⟩ := List.append_of_mem hu
  exact (h.split_unique ht hu hkind hstart).1

/-- Two tokens are the same, or one lies behind the other. -/
theorem apart (h : InOrder tokens) (ht : t ∈ tokens) (hu : u ∈ tokens) :
    t = u ∨ t.stop ≤ u.start ∨ u.stop ≤ t.start := by
  obtain ⟨before, behind, rfl⟩ := List.append_of_mem ht
  obtain ⟨-, hrest, hcross⟩ := List.pairwise_append.mp h.behind
  rcases List.mem_append.mp hu with hu | hu
  · exact Or.inr (Or.inr (hcross u hu t List.mem_cons_self))
  · rcases List.mem_cons.mp hu with rfl | hu
    · exact Or.inl rfl
    · exact Or.inr (Or.inl ((List.pairwise_cons.mp hrest).1 u hu))

end InOrder

namespace Lexer

/-- The tokens so far lie one behind the other, in front of the cursor, labels end with their
colons, and none of them is the end of the source. -/
structure Ordered (source : List Char) (s : Lexer) : Prop where
  behind : s.emitted.Pairwise fun t u => u.stop ≤ t.start
  reached : ∀ t ∈ s.emitted, t.stop ≤ s.cursor.offset
  label : ∀ t ∈ s.emitted, t.kind = .label →
    t.start + 1 < t.stop ∧ peek (source.drop (t.stop - 1)) 0 = ':'
  unclosed : ∀ t ∈ s.emitted, t.kind ≠ .eof

/-- A lexer in front of a source has no tokens. -/
theorem ordered_start (source : List Char) : (start source).Ordered source :=
  ⟨List.Pairwise.nil, nofun, nofun, nofun⟩

/-- Moving on keeps tokens ordered. -/
theorem Ordered.move {source : List Char} {s t : Lexer} (h : s.Ordered source)
    (hemitted : t.emitted = s.emitted) (hle : s.cursor.offset ≤ t.cursor.offset) :
    t.Ordered source := by
  obtain ⟨hbehind, hreached, hlabel, hopen⟩ := h
  refine ⟨hemitted ▸ hbehind, ?_, hemitted ▸ hlabel, hemitted ▸ hopen⟩
  rw [hemitted]
  exact fun u hu => Nat.le_trans (hreached u hu) hle

/-- One more token at the cursor keeps tokens ordered. -/
theorem Ordered.emit {source : List Char} {s t : Lexer} {u : Token} (h : s.Ordered source)
    (hemitted : t.emitted = u :: s.emitted) (hstart : u.start = s.cursor.offset)
    (hlt : u.start < u.stop) (hle : u.stop ≤ t.cursor.offset)
    (hlabel : u.kind = .label → u.start + 1 < u.stop ∧ peek (source.drop (u.stop - 1)) 0 = ':')
    (hopen : u.kind ≠ .eof) : t.Ordered source := by
  obtain ⟨hbehind, hreached, hlabels, hunclosed⟩ := h
  refine ⟨?_, ?_, ?_, ?_⟩ <;> rw [hemitted]
  · exact List.Pairwise.cons (fun v hv => hstart ▸ hreached v hv) hbehind
  · intro v hv
    rcases List.mem_cons.mp hv with rfl | hv
    · exact hle
    · have := hreached v hv
      omega
  · intro v hv
    rcases List.mem_cons.mp hv with rfl | hv
    · exact hlabel
    · exact hlabels v hv
  · exact List.forall_mem_cons.mpr ⟨hopen, hunclosed⟩

/-- A line break keeps tokens ordered. -/
theorem Ordered.breakLine {source : List Char} {s t : Lexer} {length : Nat}
    (h : s.Ordered source) (hpos : 0 < length) (hstep : s.breakLine length = .ok t) :
    t.Ordered source := by
  rw [Lexer.breakLine] at hstep
  split at hstep
  · obtain ⟨bodies, -, hstep⟩ := bind_eq_ok_iff.mp hstep
    dsimp only at hstep
    split at hstep
    · cases hstep
      exact h.move rfl (by simp)
    · split at hstep
      · cases hstep
        exact h.move rfl (by simp)
      · cases hstep
        refine h.emit rfl rfl (Nat.lt_succ_self _) ?_ (by rintro ⟨⟩) (by rintro ⟨⟩)
        change s.cursor.offset + 1 ≤ s.cursor.offset + (length + bodies)
        omega
  · cases hstep

/-- A line break takes a character at least and starts with one that breaks lines. -/
theorem lineBreak_of_readItem {lineStart : Bool} {context : Context} {text : List Char}
    {length : Nat} (h : readItem lineStart context text = .ok (.lineBreak length)) :
    0 < length ∧ isLineBreak (peek text 0) := by
  cases found_of_readItem h with
  | lineBreak hbreak =>
    refine ⟨?_, hbreak⟩
    split <;> omega

/-- A step keeps tokens ordered. -/
theorem Ordered.step {source : List Char} {s t : Lexer} (h : s.Ordered source)
    (hplaced : s.Placed source) (hstep : s.step = .ok t) : t.Ordered source := by
  obtain ⟨item, hitem, htake⟩ := step_eq_ok_iff.mp hstep
  cases item with
  | passage length | blank length | comment length =>
    cases htake
    exact h.move rfl (by simp)
  | lineBreak length => exact h.breakLine (lineBreak_of_readItem hitem).1 htake
  | lexeme found =>
    have hread := readLexeme_of_readItem hitem
    rw [hplaced.rest] at hread
    obtain ⟨hpos, -⟩ := le_reach_of_spans (spans_readLexeme hread)
    cases htake
    refine h.emit rfl rfl (Nat.lt_add_of_pos_right hpos) (Nat.le_refl _) ?_
      (shaped_readLexeme hread).kind_ne.2
    intro hkind
    obtain ⟨hlength, hcolon⟩ := label_of_readLexeme hread hkind
    refine ⟨Nat.add_lt_add_left hlength _, ?_⟩
    change peek (source.drop (s.cursor.offset + found.length - 1)) 0 = ':'
    rw [peek, List.getD_eq_getElem?_getD, List.getElem?_drop] at hcolon ⊢
    rw [← hcolon]
    congr 2
    omega

/-- A run keeps tokens ordered. -/
theorem Ordered.run {source : List Char} {steps : Nat} {s t : Lexer} (h : s.Ordered source)
    (hplaced : s.Placed source) (hrun : run steps s = .ok t) : t.Ordered source :=
  (run_keeps (I := fun s => s.Placed source ∧ s.Ordered source)
    (fun _ _ hrest hstep hs => ⟨hs.1.step hrest hstep, hs.2.step hs.1 hstep⟩)
    ⟨hplaced, h⟩ hrun).2

end Lexer

/-- The tokens of a source lie one behind the other. -/
theorem tokens_inOrder {source : String} {tokens : List Token}
    (h : tokenize source = .ok tokens) : InOrder tokens := by
  have hsolid := tokens_placed h
  obtain ⟨s, hrun, h⟩ := bind_eq_ok_iff.mp h
  have hordered := (Lexer.ordered_start source.toList).run (Lexer.placed_start source.toList) hrun
  rw [Lexer.finish] at h
  split at h
  · cases h
    refine ⟨?_, fun t ht hkind => (hsolid t ht hkind).1, ?_, s.emitted.reverse, s.endToken, by simp,
      rfl, fun t ht => hordered.unclosed t (List.mem_reverse.mp ht)⟩
    · exact List.pairwise_reverse.mpr (List.Pairwise.cons hordered.reached hordered.behind)
    · intro t ht hkind
      rw [List.mem_reverse] at ht
      rcases List.mem_cons.mp ht with rfl | ht
      · cases hkind
      · exact (hordered.label t ht hkind).1
  · cases h

/-- The tokens of a source end with its end. -/
theorem kind_last {source : String} {first : Token} {others : List Token}
    (h : tokenize source = .ok (first :: others)) : (others.getLastD first).kind = .eof := by
  obtain ⟨front, last, heq, hlast, -⟩ := (tokens_inOrder h).closed
  have hgetLast : (first :: others).getLastD first = last := by simp [heq]
  rw [List.getLastD_cons] at hgetLast
  rw [hgetLast, hlast]

/-- Only the end of the source is empty; no token ends in front of its start. -/
theorem start_le_stop {source : String} {tokens : List Token} {t : Token}
    (h : tokenize source = .ok tokens) (ht : t ∈ tokens) : t.start ≤ t.stop := by
  have hin := tokens_inOrder h
  obtain ⟨s, hrun, h⟩ := bind_eq_ok_iff.mp h
  have hordered := (Lexer.ordered_start source.toList).run (Lexer.placed_start source.toList) hrun
  rw [Lexer.finish] at h
  split at h
  · cases h
    rcases List.mem_cons.mp (List.mem_reverse.mp ht) with rfl | hmem
    · exact Nat.le_refl _
    · exact Nat.le_of_lt (hin.solid t ht (hordered.unclosed t hmem))
  · cases h

/-- A label of a source ends with a colon. -/
theorem colon_of_label {source : String} {tokens : List Token}
    (h : tokenize source = .ok tokens) {t : Token} (ht : t ∈ tokens) (hkind : t.kind = .label) :
    peek (source.toList.drop (t.stop - 1)) 0 = ':' := by
  obtain ⟨s, hrun, h⟩ := bind_eq_ok_iff.mp h
  have hordered := (Lexer.ordered_start source.toList).run (Lexer.placed_start source.toList) hrun
  rw [Lexer.finish] at h
  split at h
  · cases h
    rw [List.mem_reverse] at ht
    rcases List.mem_cons.mp ht with rfl | ht
    · cases hkind
    · exact (hordered.label t ht hkind).2
  · cases h

end Token

end XhrKeywords
