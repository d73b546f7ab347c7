import XhrKeywords.Proofs.Token.Excerpt
import XhrKeywords.Proofs.Token.Origin
import XhrKeywords.Proofs.Token.Trivia
import XhrKeywords.Proofs.Token.Word

/-!
# Literals on their own

A literal, a variable or a constant means the same wherever it stands: when its characters are all
there is, they are the same token again and nothing besides. So a text can be copied to another
place and stays the token that it was.
-/

namespace XhrKeywords.Token

open Unicode

/-- The kinds of literals, variables and constants. -/
def Kind.standsAlone : Kind → Bool
  | int | float | string | xstring | symbol | dsym | regex | words | const | ivar | gvar
  | cvar => true
  | _ => false

/-- No operator is a literal, a variable or a constant. -/
theorem Kind.standsAlone_of_operator {text : List Char} {found : Lexeme}
    (h : Operator.read text = .ok found) : found.kind.standsAlone = false := by
  have hall : ∀ entry ∈ Operator.table, entry.2.standsAlone = false := by decide
  obtain ⟨_, _, hmem, -, rfl⟩ := Operator.exists_entry_of_read h
  exact hall _ hmem

/-- A name that stands alone is a constant. -/
theorem Kind.eq_const_of_name {named : Bool} {text : List Char}
    (h : (Name.read named text).kind.standsAlone = true) :
    (Name.read named text).kind = .const := by
  have hkeyword : ∀ entry ∈ Kind.keywords, entry.2.standsAlone = false := by decide
  rcases Name.kind_read named text with hlabel | hname | ⟨word, hword⟩
  · rw [hlabel] at h
    cases h
  · rw [hname] at h ⊢
    rw [Name.kindOf] at h ⊢
    split at h
    · rename_i hupper
      rw [if_pos hupper]
    · cases h
  · rw [hkeyword _ (Kind.mem_keywords_of_ofKeyword? hword)] at h
    cases h

/-- What stands alone is scanned in its excerpt without any context. -/
theorem Scanned.excerpt {context : Context} {text : List Char} {found : Lexeme}
    (h : Scanned context text found) (hpos : 0 < found.length)
    (hkind : found.kind.standsAlone = true) (hheredoc : Heredoc.read? text ≠ some found) :
    Scanned ⟨none, false⟩ (text.take found.length) found := by
  have hfirst : peek (text.take found.length) 0 = peek text 0 := peek_take hpos
  cases h with
  | string hmark hquote h =>
    refine .string hmark (hfirst.trans hquote) (Literal.readString_take h ?_)
    obtain ⟨length, -, h⟩ := bind_eq_ok_iff.mp h
    dsimp only at h
    split at h
    · cases h
      cases hkind
    · cases h
      rfl
  | command hquote h => exact .command (hfirst.trans hquote) (Literal.readCommand_take h)
  | number hdigit =>
    have hnumber : Scanned ⟨none, false⟩ _ _ := .number (hfirst ▸ hdigit)
    rwa [Number.read_take] at hnumber
  | name hstart hdigit =>
    have hname : Scanned ⟨none, false⟩ _ _ := .name (hfirst ▸ hstart) (hfirst ▸ hdigit)
    have hnamed : Context.expectsName ⟨none, false⟩ = false := rfl
    rwa [hnamed, Name.read_take hstart (Kind.eq_const_of_name hkind)] at hname
  | instanceVariable hmark h =>
    exact .instanceVariable (hfirst.trans hmark) (Name.readInstance_take h)
  | globalVariable hmark h =>
    exact .globalVariable (hfirst.trans hmark) (Name.readGlobal_take h)
  | symbol hcolon h => exact .symbol (hfirst.trans hcolon) (Literal.readSymbol?_take rfl h)
  | heredoc _ h => exact absurd h hheredoc
  | percent hsign hstarts h =>
    obtain ⟨hlong, hread⟩ := Literal.readPercent_take h
    exact .percent (hfirst.trans hsign) (Literal.startsPercent_take hstarts hlong) hread
  | regexp hslash h => exact .regexp (hfirst.trans hslash) (Literal.readRegexp_take h)
  | character hmark hstarts =>
    have hcharacter : Scanned ⟨none, false⟩ _ _ :=
      .character (hfirst.trans hmark) (Literal.startsCharacter_take hstarts)
    rwa [Literal.readCharacter_take] at hcharacter
  | operator h =>
    rw [Kind.standsAlone_of_operator h] at hkind
    cases hkind

/-- The marks that strings and commands start with. -/
def quotes : List Char := ['\x22', '\x27', '\x60']

/-- The marks in front of variables, symbols and other literals. -/
def marks : List Char := ['@', '$', ':', '<', '%', '/', '?']

/-- Without any context the first character chooses the scanner. -/
theorem Scanned.readLexeme {text : List Char} {found : Lexeme}
    (h : Scanned ⟨none, false⟩ text found) (hkind : found.kind.standsAlone = true) :
    readLexeme ⟨none, false⟩ text = .ok found := by
  have hdigit : ∀ c ∈ marks, isDigit c = false := of_all_not rfl
  have hname : ∀ c ∈ marks, Name.isNameStart c = false := of_all_not rfl
  have hvalue : Context.expectsValue ⟨none, false⟩ text = true := rfl
  -- The first character decides, and no mark is a digit or the start of a name.
  cases h with
  | string hmark hfirst h =>
    rw [Token.readLexeme, hfirst]
    rcases hmark with rfl | rfl <;> exact h
  | command hfirst h =>
    rw [Token.readLexeme, hfirst]
    exact h
  | number hfirst =>
    have hquote : peek text 0 ∉ quotes := not_mem_of_class hfirst rfl
    simp only [quotes, List.mem_cons, List.not_mem_nil, or_false, not_or] at hquote
    simp [Token.readLexeme, hquote, hfirst, pure, Except.pure]
  | name hfirst hnot =>
    have hquote : peek text 0 ∉ quotes := not_mem_of_class hfirst rfl
    simp only [quotes, List.mem_cons, List.not_mem_nil, or_false, not_or] at hquote
    simp [Token.readLexeme, hquote, hfirst, hnot, pure, Except.pure]
  | instanceVariable hfirst h =>
    simp [Token.readLexeme, hfirst, hdigit '@' (by decide), hname '@' (by decide), h]
  | globalVariable hfirst h =>
    simp [Token.readLexeme, hfirst, hdigit '$' (by decide), hname '$' (by decide), h]
  | symbol hfirst h =>
    simp [Token.readLexeme, hfirst, hdigit ':' (by decide), hname ':' (by decide), h,
      bind, Except.bind, pure, Except.pure]
  | heredoc hfirst h =>
    simp [Token.readLexeme, hfirst, hdigit '<' (by decide), hname '<' (by decide), hvalue, h,
      bind, Except.bind, pure, Except.pure]
  | percent hfirst hstarts h =>
    simp [Token.readLexeme, hfirst, hdigit '%' (by decide), hname '%' (by decide), hvalue,
      hstarts, h, bind, Except.bind, pure, Except.pure]
  | regexp hfirst h =>
    simp [Token.readLexeme, hfirst, hdigit '/' (by decide), hname '/' (by decide), hvalue, h,
      bind, Except.bind, pure, Except.pure]
  | character hfirst hstarts =>
    simp [Token.readLexeme, hfirst, hdigit '?' (by decide), hname '?' (by decide), hvalue,
      hstarts, bind, Except.bind, pure, Except.pure]
  | operator h =>
    rw [Kind.standsAlone_of_operator h] at hkind
    cases hkind

/-- Characters that something else than a lexeme starts with, and those with which a whole line
starts that is looked at before everything else. -/
def leading : List Char :=
  [' ', '\t', '\x0c', '\x0b', '\n', '\r', '#', '\\', '\x00', '_', '=']

theorem Scanned.first_not_mem {context : Context} {text : List Char} {found : Lexeme}
    (h : Scanned context text found) (hkind : found.kind.standsAlone = true)
    (hheredoc : Heredoc.read? text ≠ some found) : peek text 0 ∉ leading := by
  cases h with
  | string hmark hfirst => rw [hfirst]; rcases hmark with rfl | rfl <;> decide
  | command hfirst => rw [hfirst]; decide
  | number hfirst => exact not_mem_of_class hfirst rfl
  | name =>
    have hupper := Name.isUpper_of_const (Kind.eq_const_of_name hkind)
    exact not_mem_of_class hupper (by decide +kernel)
  | heredoc _ h => exact absurd h hheredoc
  | instanceVariable hfirst | globalVariable hfirst | symbol hfirst | percent hfirst | regexp hfirst
    | character hfirst => rw [hfirst]; decide
  | operator h =>
    rw [Kind.standsAlone_of_operator h] at hkind
    cases hkind

/-- A text with a lexeme at its head starts with that lexeme, at the start of a line as well. -/
theorem readItem_of_not_leading {lineStart : Bool} {context : Context} {text : List Char}
    {found : Lexeme} (hfirst : peek text 0 ∉ leading)
    (h : readLexeme context text = .ok found) :
    readItem lineStart context text = .ok (.lexeme found) := by
  have hpassage : passage? text = .ok none := by
    apply passage?_eq_none
    · rintro ⟨rest, rfl⟩
      exact hfirst (List.mem_of_elem_eq_true rfl)
    · intro hequals
      rw [hequals] at hfirst
      exact hfirst (by decide)
  simp only [leading, List.mem_cons, List.not_mem_nil, or_false, not_or] at hfirst
  rw [readItem_eq fun _ => hpassage]
  simp [readItem, bind, Except.bind, isInlineBlank, isLineBreak, hfirst, h, pure, Except.pure]

/-- A text that is one lexeme is one token. -/
theorem tokenize_of_readLexeme {text : List Char} {found : Lexeme}
    (hfirst : peek text 0 ∉ leading) (h : readLexeme ⟨none, false⟩ text = .ok found)
    (hlength : text.length ≤ found.length) (hheredoc : found.heredoc = none) :
    ∃ last, tokenize (.ofList text) = .ok [(Lexer.start text).place found, last] ∧
      last.kind = .eof := by
  have htext : text ≠ [] := by
    rintro rfl
    exact hfirst (by decide)
  obtain ⟨steps, hsteps⟩ : ∃ steps, text.length = steps + 1 :=
    ⟨text.length - 1, by have := List.length_pos_iff.mpr htext; omega⟩
  let behind : Lexer :=
    { cursor := (Cursor.start text).advance found.length
      emitted := [(Lexer.start text).place found], spaced := false, lineStart := false
      heredocs := [] }
  have hstep : (Lexer.start text).step = .ok behind := by
    apply Lexer.step_eq_ok_iff.mpr
    refine ⟨.lexeme found, readItem_of_not_leading hfirst h, ?_⟩
    rw [Lexer.take, hheredoc]
    rfl
  have hrest : behind.cursor.rest = [] := List.drop_eq_nil_of_le hlength
  refine ⟨behind.endToken, ?_, rfl⟩
  have hrun : Lexer.run (steps + 1) (Lexer.start text) = .ok behind := by
    rw [Lexer.run_succ htext hstep]
    cases steps with
    | zero => rfl
    | succ steps => rw [Lexer.run, hrest]; rfl
  rw [tokenize, String.toList_ofList, hsteps, hrun]
  rfl

/-- A literal, a variable or a constant is the same token when its characters stand alone, unless it
opens a heredoc. -/
theorem tokenize_excerpt {source : String} {tokens : List Token} {t : Token}
    (h : tokenize source = .ok tokens) (ht : t ∈ tokens) (hkind : t.kind.standsAlone = true)
    (hopens : t.kind = .string → ¬∃ heredoc, t.Opens source.toList heredoc) :
    ∃ u last,
      tokenize (.ofList ((source.toList.drop t.start).take (t.stop - t.start))) = .ok [u, last] ∧
        u.kind = t.kind ∧ u.text = t.text ∧ last.kind = .eof := by
  obtain ⟨last, hlast⟩ := finished_of_tokenize h
  cases hlast.origin ht with
  | newline => cases hkind
  | eof => cases hkind
  | @lexeme s _ found hs _ _ _ hfound =>
    have hplaced := hs.placed (Lexer.placed_start source.toList)
    have hexcerpt : (source.toList.drop (s.place found).start).take
        ((s.place found).stop - (s.place found).start) = s.cursor.rest.take found.length := by
      rw [hplaced.rest]
      change (source.toList.drop s.cursor.offset).take
        (s.cursor.offset + found.length - s.cursor.offset) = _
      rw [Nat.add_sub_cancel_left]
    have hnone : Heredoc.read? s.cursor.rest ≠ some found := by
      intro hread
      obtain ⟨_, _, _, _, -, rfl⟩ := Heredoc.exists_isOpener_of_read? hread
      exact hopens rfl ⟨_, _, hplaced.rest ▸ hread, rfl, rfl⟩
    -- The item that emitted the token is read again from its excerpt, and with it the excerpt ends.
    have hscanned := scanned_of_readLexeme hfound.reads
    have hpos : 0 < found.length := by
      have hread := hfound.reads
      rw [hplaced.rest] at hread
      exact (le_reach_of_spans (spans_readLexeme hread)).1
    have hread := (hscanned.excerpt hpos hkind hnone).readLexeme hkind
    have hfirst : peek (s.cursor.rest.take found.length) 0 ∉ leading := by
      rw [peek_take hpos]
      exact hscanned.first_not_mem hkind hnone
    have hheredoc : found.heredoc = none := by
      cases hfinds : found.heredoc with
      | none => rfl
      | some heredoc => exact absurd (read?_of_readLexeme hfound.reads hfinds) hnone
    obtain ⟨mark, htokens, hmark⟩ :=
      tokenize_of_readLexeme hfirst hread (List.length_take_le _ _) hheredoc
    exact ⟨(Lexer.start _).place found, mark, by rw [hexcerpt]; exact htokens, rfl, rfl, hmark⟩

/-- The text of a percent literal is that literal again. -/
theorem tokenize_percent :
    ∃ tokens, tokenize "p %q<b>" = .ok tokens ∧ ∃ t ∈ tokens, t.kind = .string ∧
      ∃ u last, tokenize (.ofList (("p %q<b>".toList.drop t.start).take (t.stop - t.start))) =
          .ok [u, last] ∧
        u.kind = t.kind ∧ u.text = t.text ∧ last.kind = .eof := by
  have htokens : tokenize "p %q<b>" = .ok
      [⟨.ident, "p", 1, 1, 0, false, 1, 2, 1⟩, ⟨.string, "%q<b>", 1, 3, 2, true, 1, 8, 7⟩,
        ⟨.eof, "", 1, 8, 7, false, 1, 8, 7⟩] := eq_ok_of_toOption (by decide +kernel)
  refine ⟨_, htokens, _, List.mem_cons_of_mem _ List.mem_cons_self, rfl,
    tokenize_excerpt htokens (List.mem_cons_of_mem _ List.mem_cons_self) rfl ?_⟩
  rintro - ⟨heredoc, found, hread, -⟩
  have hnone : Heredoc.read? ("p %q<b>".toList.drop 2) = none := by decide +kernel
  rw [hnone] at hread
  cases hread

end XhrKeywords.Token
