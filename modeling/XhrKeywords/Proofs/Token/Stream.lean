import XhrKeywords.Proofs.Token.Order

/-!
# Token streams

What the tokens of a source say about it. Each token stands for the characters between its bounds,
line breaks come one at a time, and the end of the source is marked once, behind all others. As
every other token takes a character, there are no more of them than characters.
-/

namespace XhrKeywords.Token

/-- A token stands for the characters between its bounds; a line break only for its first one. -/
structure Stands (source : List Char) (t : Token) : Prop where
  breaks : t.kind = .newline → isLineBreak (peek (source.drop t.start) 0)
  spells : t.kind ≠ .newline →
    (source.drop t.start).take (t.stop - t.start) = t.kind.spelled t.text.toList

/-- Line breaks come one at a time, each behind another token. -/
def Separated (tokens : List Token) : Prop :=
  ∀ before t behind, tokens = before ++ t :: behind → t.kind = .newline →
    ∃ u, before.getLast? = some u ∧ u.kind ≠ .newline

/-- The tokens of a source. -/
structure Stream (source : List Char) (tokens : List Token) : Prop where
  closed : ∃ front last, tokens = front ++ [last] ∧ last.kind = .eof ∧ ∀ t ∈ front, t.kind ≠ .eof
  separated : Separated tokens
  solid : ∀ t ∈ tokens, t.kind ≠ .eof → t.start < t.stop
  behind : tokens.Pairwise fun t u => t.stop ≤ u.start
  stands : ∀ t ∈ tokens, t.Stands source
  count : tokens.length ≤ source.length + 1

theorem separated_nil : Separated [] := by
  intro before t behind h
  simp at h

/-- One more token keeps line breaks apart, unless it is a line break behind nothing or behind
another one. -/
theorem Separated.concat {tokens : List Token} {t : Token} (h : Separated tokens)
    (ht : t.kind = .newline → ∃ u, tokens.getLast? = some u ∧ u.kind ≠ .newline) :
    Separated (tokens ++ [t]) := by
  intro before u behind heq hu
  rcases List.eq_nil_or_concat behind with rfl | ⟨front, last, rfl⟩
  · obtain ⟨rfl, hlast⟩ := List.append_inj' heq rfl
    cases hlast
    exact ht hu
  · rw [List.concat_eq_append, ← List.cons_append, ← List.append_assoc] at heq
    obtain ⟨rfl, -⟩ := List.append_inj' heq rfl
    exact h before u front rfl hu

/-- Tokens that lie one behind the other are no more than the offsets at which they may start. -/
theorem length_le_of_behind {tokens : List Token} {lower upper : Nat}
    (hbehind : tokens.Pairwise fun t u => t.stop ≤ u.start)
    (h : ∀ t ∈ tokens, lower ≤ t.start ∧ t.start < t.stop ∧ t.start < upper) :
    tokens.length ≤ upper - lower := by
  induction tokens generalizing lower with
  | nil => exact Nat.zero_le _
  | cons t others ih =>
    obtain ⟨hfirst, hothers⟩ := List.pairwise_cons.mp hbehind
    obtain ⟨hlower, hsolid, hupper⟩ := h t List.mem_cons_self
    have hcount : others.length ≤ upper - (lower + 1) := by
      refine ih hothers fun u hu => ?_
      have := hfirst u hu
      have := (h u (List.mem_cons_of_mem t hu)).2
      omega
    rw [List.length_cons]
    omega

namespace Lexer

/-- The tokens so far start inside the source, where they stand for characters, and line breaks
come one at a time. -/
structure Faithful (source : List Char) (s : Lexer) : Prop where
  inside : ∀ t ∈ s.emitted, t.start < source.length
  stands : ∀ t ∈ s.emitted, t.Stands source
  separated : Separated s.emitted.reverse

/-- A lexer in front of a source has no tokens. -/
theorem faithful_start (source : List Char) : (start source).Faithful source := by
  refine ⟨?_, ?_, separated_nil⟩
  · exact fun t ht => absurd ht List.not_mem_nil
  · exact fun t ht => absurd ht List.not_mem_nil

/-- Moving on keeps tokens faithful. -/
theorem Faithful.move {source : List Char} {s t : Lexer} (h : s.Faithful source)
    (hemitted : t.emitted = s.emitted) : t.Faithful source := by
  obtain ⟨hinside, hstands, hseparated⟩ := h
  exact ⟨hemitted ▸ hinside, hemitted ▸ hstands, hemitted ▸ hseparated⟩

/-- One more token keeps tokens faithful. -/
theorem Faithful.emit {source : List Char} {s t : Lexer} {u : Token} (h : s.Faithful source)
    (hemitted : t.emitted = u :: s.emitted) (hinside : u.start < source.length)
    (hstands : u.Stands source)
    (hbreak : u.kind = .newline → ∃ v, s.emitted.head? = some v ∧ v.kind ≠ .newline) :
    t.Faithful source := by
  refine ⟨?_, ?_, ?_⟩ <;> rw [hemitted]
  · exact List.forall_mem_cons.mpr ⟨hinside, h.inside⟩
  · exact List.forall_mem_cons.mpr ⟨hstands, h.stands⟩
  · rw [List.reverse_cons]
    refine h.separated.concat fun hkind => ?_
    rw [List.getLast?_reverse]
    exact hbreak hkind

/-- A line break keeps tokens faithful. -/
theorem Faithful.breakLine {source : List Char} {s t : Lexer} {length : Nat}
    (h : s.Faithful source) (hplaced : s.Placed source) (hrest : s.cursor.rest ≠ [])
    (hbreak : isLineBreak (peek s.cursor.rest 0)) (hstep : s.breakLine length = .ok t) :
    t.Faithful source := by
  rw [Lexer.breakLine] at hstep
  split at hstep
  · obtain ⟨bodies, -, hstep⟩ := bind_eq_ok_iff.mp hstep
    dsimp only at hstep
    split at hstep
    · cases hstep
      exact h.move rfl
    · rename_i hlast
      split at hstep
      · cases hstep
        exact h.move rfl
      · cases hstep
        refine h.emit rfl (hplaced.offset_lt hrest) ⟨fun _ => ?_, fun hkind => absurd rfl hkind⟩
          fun _ => ?_
        · rwa [hplaced.rest] at hbreak
        · rw [context] at hlast
          cases hhead : s.emitted.head? with
          | none => simp [hhead] at hlast
          | some v => exact ⟨v, rfl, by simpa [hhead] using hlast⟩
  · cases hstep

/-- A step keeps tokens faithful. -/
theorem Faithful.step {source : List Char} {s t : Lexer} (h : s.Faithful source)
    (hplaced : s.Placed source) (hrest : s.cursor.rest ≠ []) (hstep : s.step = .ok t) :
    t.Faithful source := by
  obtain ⟨item, hitem, htake⟩ := step_eq_ok_iff.mp hstep
  cases item with
  | passage length | blank length | comment length =>
    cases htake
    exact h.move rfl
  | lineBreak length =>
    exact h.breakLine hplaced hrest (lineBreak_of_readItem hitem).2 htake
  | lexeme found =>
    have hshape := shaped_readLexeme (readLexeme_of_readItem hitem)
    have hbreak := hshape.kind_ne.1
    cases htake
    refine h.emit rfl (hplaced.offset_lt hrest) ⟨fun hkind => absurd hkind hbreak, fun _ => ?_⟩
      fun hkind => absurd hkind hbreak
    change (source.drop s.cursor.offset).take (s.cursor.offset + found.length - s.cursor.offset) = _
    rw [← hplaced.rest, Nat.add_sub_cancel_left, hshape.take_eq]
    rfl

/-- A run keeps tokens faithful. -/
theorem Faithful.run {source : List Char} {steps : Nat} {s t : Lexer} (h : s.Faithful source)
    (hplaced : s.Placed source) (hrun : run steps s = .ok t) : t.Faithful source :=
  (run_keeps (I := fun s => s.Placed source ∧ s.Faithful source)
    (fun _ _ hrest hstep hs => ⟨hs.1.step hrest hstep, hs.2.step hs.1 hrest hstep⟩)
    ⟨hplaced, h⟩ hrun).2

end Lexer

/-- The tokens of a source. -/
theorem tokenize_stream {source : String} {tokens : List Token}
    (h : tokenize source = .ok tokens) :
    Stream source.toList tokens := by
  obtain ⟨hbehind, hsolid, -, hclosed⟩ := tokens_inOrder h
  obtain ⟨s, hrun, h⟩ := bind_eq_ok_iff.mp h
  have hfaithful := (Lexer.faithful_start source.toList).run (Lexer.placed_start source.toList) hrun
  rw [Lexer.finish] at h
  split at h
  · cases h
    rw [List.reverse_cons] at hbehind hsolid hclosed ⊢
    have hfront : ∀ t ∈ s.emitted.reverse, t.kind ≠ .eof := by
      obtain ⟨front, last, heq, -, hopen⟩ := hclosed
      rwa [(List.append_inj' heq rfl).1]
    refine ⟨⟨s.emitted.reverse, s.endToken, rfl, rfl, hfront⟩, ?_, hsolid, hbehind, ?_, ?_⟩
    · exact hfaithful.separated.concat fun hkind => by cases hkind
    · intro t ht
      rcases List.mem_append.mp ht with ht | ht
      · exact hfaithful.stands t (List.mem_reverse.mp ht)
      · rw [List.mem_singleton.mp ht]
        refine ⟨by rintro ⟨⟩, fun _ => ?_⟩
        simp [Lexer.endToken, Lexer.place, Kind.spelled, Kind.isLabel, Kind.isSymbol]
    · rw [List.length_append, List.length_singleton]
      have hbounds : ∀ t ∈ s.emitted.reverse,
          0 ≤ t.start ∧ t.start < t.stop ∧ t.start < source.toList.length := fun t ht =>
        ⟨Nat.zero_le _, hsolid t (List.mem_append_left _ ht) (hfront t ht),
          hfaithful.inside t (List.mem_reverse.mp ht)⟩
      exact Nat.succ_le_succ (length_le_of_behind (List.pairwise_append.mp hbehind).1 hbounds)
  · cases h

/-- A stream with a heredoc, a label, a symbol, a call on the next line and, at its end, a character
literal that counts a character behind the source. -/
theorem tokenize_stream_open_character :
    ∃ tokens, tokenize "f a: :b, <<X # c\n1\nX\n\n  .g \"d\": 2\n?\\" = .ok tokens ∧
      Stream "f a: :b, <<X # c\n1\nX\n\n  .g \"d\": 2\n?\\".toList tokens := by
  have hread : (tokenize "f a: :b, <<X # c\n1\nX\n\n  .g \"d\": 2\n?\\").toOption.isSome = true := by
    decide +kernel
  obtain ⟨tokens, htokens⟩ := Option.isSome_iff_exists.mp hread
  have htokenize := eq_ok_of_toOption htokens
  exact ⟨tokens, htokenize, tokenize_stream htokenize⟩

end XhrKeywords.Token
