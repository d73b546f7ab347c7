import XhrKeywords.Proofs.Token.Chain

/-!
# Tokens side by side

There are two ways to see that two tokens stand side by side: the later one is not marked as spaced,
or it starts where the other one ends. They agree. Blank space marks the token behind it, as does a
line break that is no token; a comment does not, but nothing comes behind it on its line, so the
next token is a line break or the end of the source, or it is marked by the line break.
-/

namespace XhrKeywords.Token

open Unicode

/-- A character that starts a stretch without tokens. -/
def startsTrivia (c : Char) : Bool :=
  isInlineBlank c || isLineBreak c || c == '\\' || c == '#'

/-- What is read as an opening parenthesis starts with one. -/
theorem peek_of_lpar {context : Context} {text : List Char} {found : Lexeme}
    (h : readLexeme context text = .ok found) (hkind : found.kind = .lpar) :
    peek text 0 = '(' := by
  have hspelled := isSpelled_readLexeme h
  have htext := List.take_append_drop found.length text
  rw [(shaped_readLexeme h).take_eq] at htext
  rw [hkind] at hspelled htext
  have hword : found.text.toList = ['('] := by
    simpa [Operator.table, Kind.keywords] using hspelled rfl
  rw [hword] at htext
  rw [← htext]
  rfl

/-- An opening parenthesis is a token in every context. -/
theorem kind_of_peek {context : Context} {text : List Char} {found : Lexeme}
    (h : readLexeme context text = .ok found) (hfirst : peek text 0 = '(') :
    found.kind = .lpar := by
  cases text with
  | nil => cases hfirst
  | cons c rest =>
    obtain rfl : c = '(' := hfirst
    rw [readLexeme_operator (by decide)] at h
    cases h
    rfl

namespace Lexer

variable {source : List Char} {s t : Lexer} {stop : Nat}

/-- What lies between the end of a token and a lexer that has put out nothing since. -/
inductive Gap (source : List Char) (stop : Nat) (s : Lexer) : Prop
  /-- Not a single character. -/
  | nothing (hoffset : s.cursor.offset = stop) (hspaced : s.spaced = false)
      (hline : s.lineStart = false)
  /-- Blank space, or line breaks in front of a method call. -/
  | blank (hlt : stop < s.cursor.offset) (hspaced : s.spaced = true)
      (htrivia : startsTrivia (peek (source.drop stop) 0) = true)
  /-- A comment and nothing else; its line ends here. -/
  | comment (hlt : stop < s.cursor.offset) (hspaced : s.spaced = false)
      (hline : s.lineStart = false) (htrivia : startsTrivia (peek (source.drop stop) 0) = true)
      (hends : endsComment (peek s.cursor.rest 0) = true)

theorem Gap.stop_le (h : Gap source stop s) : stop ≤ s.cursor.offset := by
  cases h with
  | nothing hoffset => exact Nat.le_of_eq hoffset.symm
  | blank hlt | comment hlt => exact Nat.le_of_lt hlt

/-- When the lexer is in front of trivia, trivia start at the end of the token. -/
theorem Gap.startsTrivia (h : Gap source stop s) (hplaced : s.Placed source)
    (hfirst : startsTrivia (peek s.cursor.rest 0) = true) :
    startsTrivia (peek (source.drop stop) 0) = true := by
  cases h with
  | nothing hoffset => rwa [hplaced.rest, hoffset] at hfirst
  | blank _ _ htrivia | comment _ _ _ htrivia => exact htrivia

/-- A line break that does not become a token behind another one leads to a method call, and what
is read then is spaced. -/
theorem spaced_of_breakLine {length : Nat} {x : Token} (h : s.breakLine length = .ok t)
    (hsame : t.emitted = s.emitted) (hlast : s.emitted.head? = some x) (hx : x.kind ≠ .newline) :
    t.spaced = true := by
  rw [breakLine] at h
  split at h
  · obtain ⟨_, -, h⟩ := bind_eq_ok_iff.mp h
    dsimp only at h
    split at h
    · rename_i hall
      rw [context, hlast] at hall
      exact absurd (by simpa using hall) hx
    · split at h
      · cases h
        rfl
      · cases h
        exact absurd hsame (List.cons_ne_self _ _)
  · cases h

/-- A step that puts out nothing makes the gap wider. -/
theorem Gap.step {x : Token} (h : Gap source stop s) (hplaced : s.Placed source)
    (hrest : s.cursor.rest ≠ []) (hstep : s.step = .ok t) (hsame : t.emitted = s.emitted)
    (hlast : s.emitted.head? = some x) (hx : x.kind ≠ .newline) : Gap source stop t := by
  have hlt : stop < t.cursor.offset := Nat.lt_of_le_of_lt h.stop_le (step_lt hrest hstep).1
  have htrivia := h.startsTrivia hplaced
  obtain ⟨item, hitem, htake⟩ := step_eq_ok_iff.mp hstep
  cases found_of_readItem hitem with
  | passage hline =>
    -- A line that starts behind a token has been marked by the line break.
    cases htake
    cases h with
    | blank _ hspaced htrivia => exact .blank hlt hspaced htrivia
    | nothing _ _ hnone | comment _ _ hnone =>
      rw [hline] at hnone
      cases hnone
  | blank hblank =>
    cases htake
    exact .blank hlt rfl (htrivia (by simp [Token.startsTrivia, hblank]))
  | hiddenBreak hmark =>
    cases htake
    exact .blank hlt rfl (htrivia (by simp [Token.startsTrivia, hmark]))
  | comment hmark =>
    cases htake
    have hhere := htrivia (by simp [Token.startsTrivia, hmark])
    cases h with
    | nothing _ hspaced =>
      refine .comment hlt hspaced rfl hhere ?_
      change endsComment (peek (s.cursor.rest.drop (commentLength s.cursor.rest)) 0) = true
      rw [peek_drop]
      exact endsComment_commentLength s.cursor.rest
    | blank _ hspaced => exact .blank hlt hspaced hhere
    | comment _ _ _ _ hends =>
      rw [hmark] at hends
      cases hends
  | lineBreak hbreak =>
    exact .blank hlt (spaced_of_breakLine htake hsame hlast hx)
      (htrivia (by simp [Token.startsTrivia, hbreak]))
  | lexeme =>
    cases htake
    exact absurd hsame (List.cons_ne_self _ _)

/-- What lies behind the last token, unless that is a line break. -/
def Trails (source : List Char) (s : Lexer) : Prop :=
  ∀ x, s.emitted.head? = some x → x.kind ≠ .newline → Gap source x.stop s

theorem Trails.step (h : s.Trails source) (hplaced : s.Placed source)
    (hrest : s.cursor.rest ≠ []) (hstep : s.step = .ok t) : t.Trails source := by
  intro x hlast hx
  cases emits_of_step hstep with
  | nothing hsame =>
    rw [hsame] at hlast
    exact (h x hlast hx).step hplaced hrest hstep hsame hlast hx
  | newline _ hadded =>
    rw [hadded] at hlast
    cases hlast
    exact absurd rfl hx
  | lexeme found hplaces =>
    rw [hplaces.eq] at hlast ⊢
    cases hlast
    exact .nothing rfl rfl rfl

theorem Leads.trails (h : Leads (start source) s) : s.Trails source :=
  (h.keeps (I := fun u => u.Placed source ∧ u.Trails source)
    (fun _ _ hrest hstep hu => ⟨hu.1.step hrest hstep, hu.2.step hu.1 hrest hstep⟩)
    ⟨placed_start source, fun _ hlast => nomatch hlast⟩).2

/-- The token that a lexer puts out. -/
inductive Puts (s : Lexer) : Token → Prop
  | newline (hbreak : isLineBreak (peek s.cursor.rest 0) = true) : Puts s s.placeNewline
  | lexeme {found : Lexeme} (hread : readLexeme s.context s.cursor.rest = .ok found) :
      Puts s (s.place found)
  | eof (hrest : s.cursor.rest = []) : Puts s s.endToken

/-- Behind every token but the last one, the lexer goes on to the next. -/
theorem exists_puts {source : String} {tokens front behind : List Token} {x y : Token}
    (h : tokenize source = .ok tokens) (hsplit : tokens = front ++ x :: y :: behind) :
    ∃ s, Leads (start source.toList) s ∧ s.emitted.head? = some x ∧ s.Puts y := by
  obtain ⟨last, hlast⟩ := finished_of_tokenize h
  by_cases hy : y.kind = .eof
  · have hsplit' : tokens = (front ++ [x]) ++ y :: behind := by simp [hsplit]
    obtain rfl : behind = [] := by
      by_contra hbehind
      exact (tokens_inOrder h).ne_eof_of_behind hsplit' hbehind hy
    have heq := hlast.tokens
    rw [hsplit', List.reverse_cons] at heq
    obtain ⟨hfront, hend⟩ := List.append_inj' heq rfl
    cases hend
    refine ⟨last, hlast.leads, ?_, .eof hlast.rest⟩
    rw [← List.getLast?_reverse, ← hfront, List.getLast?_concat]
  · obtain ⟨s, t, u, v, hs, hrest, hstep, -, ht, hu, -, hustep, hsame, hv⟩ :=
      exists_between hlast hsplit hy
    refine ⟨u, (hs.trans (.single hrest hstep)).trans hu, by rw [hsame, ht]; rfl, ?_⟩
    cases emits_of_step hustep with
    | nothing hnone =>
      rw [hnone] at hv
      exact absurd hv.symm (List.cons_ne_self _ _)
    | newline hbreak hadded =>
      rw [hadded] at hv
      cases hv
      exact .newline hbreak
    | lexeme found hplaces =>
      rw [hplaces.eq] at hv
      cases hv
      exact .lexeme hplaces.reads

end Lexer

open Lexer

/-- A token is spaced exactly if characters lie between it and the token in front of it, where
neither of the two is a line break or the end of the source. -/
theorem spaced_iff_lt {source : String} {tokens front behind : List Token} {t u : Token}
    (h : tokenize source = .ok tokens) (hsplit : tokens = front ++ t :: u :: behind)
    (ht : t.kind ≠ .newline) (hu : u.kind ≠ .newline) (heof : u.kind ≠ .eof) :
    u.spaced = true ↔ t.stop < u.start := by
  obtain ⟨s, hs, hlast, hputs⟩ := exists_puts h hsplit
  have hgap := hs.trails t hlast ht
  cases hputs with
  | newline => exact absurd rfl hu
  | eof => exact absurd rfl heof
  | lexeme hread =>
    change s.spaced = true ↔ t.stop < s.cursor.offset
    cases hgap with
    | nothing hoffset hspaced => simp [hoffset, hspaced]
    | blank hlt hspaced => exact iff_of_true hspaced hlt
    | comment _ _ _ _ hends =>
      rw [(scanned_of_readLexeme hread).not_endsComment] at hends
      cases hends

/-- Behind a comment and a line break, a method call is spaced. -/
theorem spaced_iff_lt_chained :
    ∃ (tokens front behind : List Token) (t u : Token), tokenize "f# c\n.b" = .ok tokens ∧
      tokens = front ++ t :: u :: behind ∧ t.kind = .ident ∧ u.kind = .dot ∧
      (u.spaced = true ↔ t.stop < u.start) := by
  have htokens : tokenize "f# c\n.b" = .ok
      ([] ++ ⟨.ident, "f", 1, 1, 0, false, 1, 2, 1⟩ :: ⟨.dot, ".", 2, 1, 5, true, 2, 2, 6⟩ ::
        [⟨.ident, "b", 2, 2, 6, false, 2, 3, 7⟩, ⟨.eof, "", 2, 3, 7, false, 2, 3, 7⟩]) :=
    eq_ok_of_toOption (by decide +kernel)
  exact ⟨_, _, _, _, _, htokens, rfl, rfl, rfl,
    spaced_iff_lt htokens rfl (by decide) (by decide) (by decide)⟩

/-- The source has an opening parenthesis at the end of a token exactly if the next token is one and
is not spaced. -/
theorem peek_stop_iff {source : String} {tokens front behind : List Token} {t u : Token}
    (h : tokenize source = .ok tokens) (hsplit : tokens = front ++ t :: u :: behind)
    (ht : t.kind ≠ .newline) :
    peek (source.toList.drop t.stop) 0 = '(' ↔ u.kind = .lpar ∧ u.spaced = false := by
  obtain ⟨s, hs, hlast, hputs⟩ := exists_puts h hsplit
  have hplaced := hs.placed (placed_start _)
  constructor
  · intro hfirst
    cases hs.trails t hlast ht with
    | nothing hoffset hspaced =>
      rw [← hoffset, ← hplaced.rest] at hfirst
      cases hputs with
      | newline hbreak =>
        rw [hfirst] at hbreak
        cases hbreak
      | lexeme hread => exact ⟨kind_of_peek hread hfirst, hspaced⟩
      | eof hrest =>
        rw [hrest] at hfirst
        cases hfirst
    | blank _ _ htrivia | comment _ _ _ htrivia =>
      rw [hfirst] at htrivia
      cases htrivia
  · rintro ⟨hkind, hunspaced⟩
    cases hputs with
    | newline => cases hkind
    | eof => cases hkind
    | lexeme hread =>
      have hfirst := peek_of_lpar hread hkind
      cases hs.trails t hlast ht with
      | nothing hoffset => rwa [hplaced.rest, hoffset] at hfirst
      | blank _ hspaced => exact absurd (hspaced.symm.trans hunspaced) (by decide)
      | comment _ _ _ _ hends =>
        rw [hfirst] at hends
        cases hends

end XhrKeywords.Token
