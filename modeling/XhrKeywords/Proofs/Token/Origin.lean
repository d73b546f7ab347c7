import XhrKeywords.Proofs.Token.Progress

/-!
# Where tokens come from

A lexer that is run passes from state to state. Every token of a source was put out by one step of
that way, from a lexeme or a line break that was read there, or it marks the end. What every step
keeps is known in all states on the way, and so where each token was read.
-/

namespace XhrKeywords.Token

namespace Lexer

variable {source : List Char} {s t u : Lexer}

/-- The steps of a lexer lead from one state to another. -/
inductive Leads : Lexer → Lexer → Prop
  | refl (s : Lexer) : Leads s s
  | step {s t u : Lexer} (hrest : s.cursor.rest ≠ []) (h : s.step = .ok t) (behind : Leads t u) :
      Leads s u

namespace Leads

theorem trans (h : Leads s t) (h' : Leads t u) : Leads s u := by
  induction h with
  | refl => exact h'
  | step hrest hstep _ ih => exact .step hrest hstep (ih h')

theorem single (hrest : s.cursor.rest ≠ []) (h : s.step = .ok t) : Leads s t :=
  .step hrest h (.refl t)

/-- What every step keeps is kept on the way. -/
theorem keeps {I : Lexer → Prop} (hstep : ∀ s t, s.cursor.rest ≠ [] → s.step = .ok t → I s → I t)
    (h : Leads s t) (hs : I s) : I t := by
  induction h with
  | refl => exact hs
  | step hrest h _ ih => exact ih (hstep _ _ hrest h hs)

theorem placed (h : Leads s t) (hs : s.Placed source) : t.Placed source :=
  h.keeps (I := Placed source) (fun _ _ hrest hstep hu => hu.step hrest hstep) hs

/-- The way leads forward. -/
theorem offset_le (h : Leads s t) : s.cursor.offset ≤ t.cursor.offset :=
  h.keeps (I := fun u => s.cursor.offset ≤ u.cursor.offset)
    (fun _ _ hrest hstep hu => Nat.le_of_lt (Nat.lt_of_le_of_lt hu (step_lt hrest hstep).1))
    (Nat.le_refl _)

end Leads

/-- A run is a way of steps. -/
theorem leads_of_run {steps : Nat} (h : run steps s = .ok t) : Leads s t := by
  induction steps generalizing s with
  | zero =>
    cases h
    exact .refl _
  | succ steps ih =>
    rw [run] at h
    split at h
    · cases h
      exact .refl _
    · rename_i hrest
      obtain ⟨next, hnext, h⟩ := bind_eq_ok_iff.mp h
      rw [List.isEmpty_iff] at hrest
      exact .step hrest hnext (ih h)

/-- A step puts out the token of a lexeme. -/
structure Places (s : Lexer) (found : Lexeme) (t : Lexer) : Prop where
  reads : readLexeme s.context s.cursor.rest = .ok found
  eq : t =
    { cursor := s.cursor.advance found.length, emitted := s.place found :: s.emitted
      spaced := false, lineStart := false, heredocs := s.heredocs ++ found.heredoc.toList }

/-- What a step may put out. -/
inductive Emits (s t : Lexer) : Prop
  /-- A step over blank space, a comment or a line break that puts out nothing. -/
  | nothing (h : t.emitted = s.emitted)
  /-- A line break that ends a statement. -/
  | newline (hbreak : isLineBreak (peek s.cursor.rest 0) = true)
      (h : t.emitted = s.placeNewline :: s.emitted)
  /-- A lexeme. -/
  | lexeme (found : Lexeme) (h : Places s found t)

/-- Every step puts out one token at most. -/
theorem emits_of_step (h : s.step = .ok t) : Emits s t := by
  obtain ⟨item, hitem, htake⟩ := step_eq_ok_iff.mp h
  cases found_of_readItem hitem with
  | passage | blank | hiddenBreak | comment =>
    cases htake
    exact .nothing rfl
  | lineBreak hbreak =>
    obtain ⟨-, -, -, -, -, hemitted | hemitted⟩ := of_breakLine htake
    · exact .nothing hemitted
    · exact .newline hbreak hemitted
  | @lexeme found hread =>
    cases htake
    exact .lexeme found ⟨hread, rfl⟩

/-- A token that is put out on the way is put out by one of its steps. -/
theorem Leads.of_mem_emitted {x : Token} (h : Leads s u) (hx : x ∈ u.emitted) :
    x ∈ s.emitted ∨ ∃ v w, Leads s v ∧ v.cursor.rest ≠ [] ∧ v.step = .ok w ∧ Leads w u ∧
      ((isLineBreak (peek v.cursor.rest 0) = true ∧ x = v.placeNewline) ∨
        ∃ found, Places v found w ∧ x = v.place found) := by
  induction h with
  | refl => exact Or.inl hx
  | @step s t u hrest hstep hbehind ih =>
    have hhere := Leads.single hrest hstep
    rcases ih hx with hx | ⟨v, w, hv, hstep', hw, hplaced⟩
    · cases emits_of_step hstep with
      | nothing h => exact Or.inl (h ▸ hx)
      | newline hbreak h =>
        rcases List.mem_cons.mp (h ▸ hx) with rfl | hx
        · exact Or.inr ⟨s, t, .refl s, hrest, hstep, hbehind, Or.inl ⟨hbreak, rfl⟩⟩
        · exact Or.inl hx
      | lexeme found h =>
        have hemitted : t.emitted = s.place found :: s.emitted := congrArg emitted h.eq
        rcases List.mem_cons.mp (hemitted ▸ hx) with rfl | hx
        · exact Or.inr ⟨s, t, .refl s, hrest, hstep, hbehind, Or.inr ⟨found, h, rfl⟩⟩
        · exact Or.inl hx
    · exact Or.inr ⟨v, w, hhere.trans hv, hstep', hw, hplaced⟩

/-- No token that is put out gets lost. -/
theorem Leads.mem_emitted (h : Leads s t) {x : Token} (hx : x ∈ s.emitted) : x ∈ t.emitted := by
  apply h.keeps (I := fun u => x ∈ u.emitted) _ hx
  intro u v _ hstep hx
  cases emits_of_step hstep with
  | nothing h => exact h ▸ hx
  | newline _ h => exact h ▸ List.mem_cons_of_mem _ hx
  | lexeme found h =>
    rw [h.eq]
    exact List.mem_cons_of_mem _ hx

end Lexer

open Lexer

/-- The end of a source that can be split into tokens. -/
structure Finished (source : List Char) (tokens : List Token) (s : Lexer) : Prop where
  leads : Leads (Lexer.start source) s
  rest : s.cursor.rest = []
  heredocs : s.heredocs = []
  tokens : tokens = (s.endToken :: s.emitted).reverse

/-- Reading a source leads to its end. -/
theorem finished_of_tokenize {source : String} {tokens : List Token}
    (h : tokenize source = .ok tokens) : ∃ s, Finished source.toList tokens s := by
  obtain ⟨s, hrun, hfinish⟩ := bind_eq_ok_iff.mp h
  have hrest : s.cursor.rest = [] := by
    apply rest_of_run _ hrun
    exact Nat.le_refl _
  rw [Lexer.finish] at hfinish
  split at hfinish
  · rename_i hheredocs
    cases hfinish
    exact ⟨s, leads_of_run hrun, hrest, hheredocs, rfl⟩
  · cases hfinish

/-- The step that put a token out, on the way from the start of a source to its end. -/
inductive Origin (source : List Char) (last : Lexer) : Token → Prop
  /-- A line break that ends a statement. -/
  | newline {s t : Lexer} (hs : Leads (Lexer.start source) s) (hrest : s.cursor.rest ≠ [])
      (hstep : s.step = .ok t) (ht : Leads t last)
      (hbreak : isLineBreak (peek s.cursor.rest 0) = true) : Origin source last s.placeNewline
  /-- A lexeme. -/
  | lexeme {s t : Lexer} {found : Lexeme} (hs : Leads (Lexer.start source) s)
      (hrest : s.cursor.rest ≠ []) (hstep : s.step = .ok t) (ht : Leads t last)
      (hfound : Places s found t) : Origin source last (s.place found)
  /-- The end of the source. -/
  | eof : Origin source last last.endToken

/-- Every token of a source has an origin. -/
theorem Finished.origin {source : List Char} {tokens : List Token} {s : Lexer}
    (h : Finished source tokens s) {x : Token} (hx : x ∈ tokens) : Origin source s x := by
  rw [h.tokens, List.mem_reverse] at hx
  rcases List.mem_cons.mp hx with rfl | hx
  · exact .eof
  · rcases h.leads.of_mem_emitted hx with
      hx | ⟨v, w, hv, hrest, hstep, hw, ⟨hbreak, rfl⟩ | ⟨found, hfound, rfl⟩⟩
    · cases hx
    · exact .newline hv hrest hstep hw hbreak
    · exact .lexeme hv hrest hstep hw hfound

theorem Finished.mem_of_emitted {source : List Char} {tokens : List Token} {s last : Lexer}
    (h : Finished source tokens last) (hs : Leads s last) {x : Token} (hx : x ∈ s.emitted) :
    x ∈ tokens := by
  rw [h.tokens, List.mem_reverse]
  exact List.mem_cons_of_mem _ (hs.mem_emitted hx)

/-- From every state on the way, the tokens that are still to come lie ahead. -/
theorem Finished.emitted_or_ahead {source : List Char} {tokens : List Token} {s last : Lexer}
    (h : Finished source tokens last) (hs : Leads s last) {x : Token} (hx : x ∈ tokens) :
    x ∈ s.emitted ∨ s.cursor.offset ≤ x.start ∧ (s.cursor.rest = [] → x.kind = .eof) := by
  rw [h.tokens, List.mem_reverse] at hx
  rcases List.mem_cons.mp hx with rfl | hx
  · exact Or.inr ⟨hs.offset_le, fun _ => rfl⟩
  · refine (hs.of_mem_emitted hx).imp_right ?_
    rintro ⟨v, w, hv, hrest, -, -, hplaced⟩
    have hmoved : s.cursor.rest ≠ [] := by
      cases hv with
      | refl => exact hrest
      | step hrest => exact hrest
    refine ⟨?_, fun hnil => absurd hnil hmoved⟩
    rcases hplaced with ⟨-, rfl⟩ | ⟨found, -, rfl⟩ <;> exact hv.offset_le

end XhrKeywords.Token
