import XhrKeywords.Proofs.Outcome
import XhrKeywords.Token.Item

/-!
# What is read

The first character of a text tells which scanner reads the lexeme at its head. Only what starts
with a colon, an angle bracket, a percent sign, a slash or a question mark may also be an operator,
depending on the context. Items are told apart by their first characters as well, except for the
passages that start a line.
-/

namespace XhrKeywords

open Token Unicode

/-- A class leaves out each of a list of characters. -/
theorem of_all_not {p : Char → Bool} {chars : List Char}
    (h : (chars.all fun c => !p c) = true) : ∀ c ∈ chars, p c = false := by
  intro c hc
  simpa using List.all_eq_true.mp h c hc

/-- A character of a class is none of those that the class leaves out. -/
theorem not_mem_of_class {p : Char → Bool} {c : Char} {chars : List Char} (hc : p c = true)
    (h : (chars.all fun c => !p c) = true) : c ∉ chars := by
  intro hmem
  rw [of_all_not h c hmem] at hc
  cases hc

namespace Heredoc

/-- The opener of a heredoc at the head of a text: angle brackets, perhaps with the mark of an
indented one, and the tag, perhaps between quotes. -/
structure IsOpener (text : List Char) (lead quote : Nat) (tag : List Char) : Prop where
  brackets : peek text 0 = '<' ∧ peek text 1 = '<'
  marked : lead = 2 ∨ lead = 3 ∧ (peek text 2 = '~' ∨ peek text 2 = '-')
  quoted : quote = 0 ∨ quote = 1 ∧ isTagQuote (peek text lead) = true ∧
    peek text (lead + 1 + tag.length) = peek text lead
  eq : tag = (text.drop (lead + quote)).takeWhile isTagCharacter
  named : tag ≠ []

/-- What is read as an opener is one: a string that announces a body with the tag. -/
theorem exists_isOpener_of_read? {text : List Char} {found : Lexeme} (h : read? text = some found) :
    ∃ lead quote tag indented, IsOpener text lead quote tag ∧
      found = ⟨.string, .ofList (text.take (lead + quote + tag.length + quote)),
        lead + quote + tag.length + quote, some ⟨.ofList tag, indented⟩⟩ := by
  rw [read?] at h
  split at h
  · rename_i hbrackets
    simp only [Bool.and_eq_true, beq_iff_eq] at hbrackets
    dsimp only at h
    generalize hlead : (if (peek text 2 == '~' || peek text 2 == '-') = true then 3 else 2) = lead
      at h
    generalize hquote : (if isTagQuote (peek text lead) = true then 1 else 0) = quote at h
    generalize htag : (text.drop (lead + quote)).takeWhile isTagCharacter = tag at h
    split at h
    · rename_i hread
      simp only [Bool.and_eq_true, Bool.or_eq_true, beq_iff_eq] at hread
      cases h
      refine ⟨lead, quote, tag, _, ⟨hbrackets, ?_, ?_, htag.symm, ?_⟩, rfl⟩
      · split at hlead
        · rename_i hmark
          simp only [Bool.or_eq_true, beq_iff_eq] at hmark
          exact Or.inr ⟨hlead.symm, hmark⟩
        · exact Or.inl hlead.symm
      · split at hquote
        · rename_i hmark
          subst hquote
          exact Or.inr ⟨rfl, hmark, hread.2.resolve_left (by decide)⟩
        · exact Or.inl hquote.symm
      · rintro rfl
        exact absurd hread.1 (by decide)
    · cases h
  · cases h

end Heredoc

/-- What is read as an operator is a spelling of the table. -/
theorem Operator.exists_entry_of_read {text : List Char} {found : Lexeme}
    (h : Operator.read text = .ok found) :
    ∃ spelling kind, (spelling, kind) ∈ table ∧ spelling <+: text ∧
      found = ⟨kind, .ofList spelling, spelling.length, none⟩ := by
  rw [Operator.read] at h
  split at h
  · rename_i spelling kind hfind
    cases h
    have hhead := List.find?_some hfind
    exact ⟨spelling, kind, List.mem_of_find?_eq_some hfind, List.isPrefixOf_iff_prefix.mp hhead,
      rfl⟩
  · cases h

namespace Literal

variable {context : Context} {text : List Char} {found : Lexeme}

/-- The symbols at the head of a text, by what stands behind the colon. -/
inductive IsSymbol (context : Context) (text : List Char) : Lexeme → Prop
  | quoted {length : Nat} (hquote : peek text 1 = '\x22' ∨ peek text 1 = '\x27')
      (h : Delimited.length (.quote (peek text 1)) 2 text = .ok length) :
      IsSymbol context text ⟨.dsym, .ofList ((text.take length).drop 1), length, none⟩
  | marked {mark length : Nat} (hsign : peek text 1 = '@' ∨ peek text 1 = '$')
      (hmark : (if peek text 2 = '@' then 3 else 2) = mark)
      (hlength : mark + Name.run (text.drop mark) = length) :
      IsSymbol context text ⟨.symbol, .ofList ((text.take length).drop 1), length, none⟩
  | name {length : Nat} (hname : Name.isNameStart (peek text 1) = true)
      (hlength : 1 + symbolName (text.drop 1) = length) :
      IsSymbol context text ⟨.symbol, .ofList ((text.take length).drop 1), length, none⟩
  | operator {spelling : List Char} (hvalue : context.expectsValue text = true)
      (h : Operator.symbols.find? (fun s => s.isPrefixOf (text.drop 1)) = some spelling) :
      IsSymbol context text
        ⟨.symbol, .ofList ((text.take (1 + spelling.length)).drop 1), 1 + spelling.length, none⟩

theorem isSymbol_of_readSymbol? (h : readSymbol? context text = .ok (some found)) :
    IsSymbol context text found := by
  simp only [readSymbol?] at h
  split at h
  · cases h
  · split at h
    · rename_i hquote
      obtain ⟨length, hlength, h⟩ := bind_eq_ok_iff.mp h
      cases h
      exact .quoted (by simpa using hquote) hlength
    · split at h
      · rename_i hsign
        cases h
        exact .marked (by simpa using hsign) (by simp only [beq_iff_eq]) rfl
      · split at h
        · rename_i hname
          cases h
          exact .name hname rfl
        · split at h
          · rename_i hvalue
            split at h
            · rename_i hfind
              cases h
              exact .operator hvalue hfind
            · cases h
          · cases h

/-- What stands behind the colon tells the form of the symbol. -/
theorem IsSymbol.readSymbol? (h : IsSymbol context text found) :
    readSymbol? context text = .ok (some found) := by
  cases h with
  | quoted hquote h =>
    have hcolon : peek text 1 ≠ ':' := by rcases hquote with heq | heq <;> rw [heq] <;> decide
    simp [Literal.readSymbol?, hcolon, hquote, h, bind, Except.bind, pure, Except.pure]
  | marked hsign hmark hlength =>
    subst hmark hlength
    have hcolon : peek text 1 ≠ ':' ∧ peek text 1 ≠ '\x22' ∧ peek text 1 ≠ '\x27' := by
      rcases hsign with heq | heq <;> rw [heq] <;> decide
    simp [Literal.readSymbol?, hcolon, hsign, pure, Except.pure]
  | name hname hlength =>
    subst hlength
    have hother : peek text 1 ∉ [':', '\x22', '\x27', '@', '$'] := not_mem_of_class hname rfl
    simp only [List.mem_cons, List.not_mem_nil, or_false, not_or] at hother
    simp [Literal.readSymbol?, hother, hname, pure, Except.pure]
  | @operator spelling hvalue h =>
    have hall : ∀ s ∈ Operator.symbols, s ≠ [] ∧
        peek s 0 ∉ [':', '\x22', '\x27', '@', '$'] ∧ Name.isNameStart (peek s 0) = false := by
      decide
    obtain ⟨hne, hother, hname⟩ := hall spelling (List.mem_of_find?_eq_some h)
    have hfirst : peek text 1 = peek spelling 0 := by
      have hstarts := List.find?_some h
      rw [List.isPrefixOf_iff_prefix] at hstarts
      obtain ⟨behind, hbehind⟩ := hstarts
      obtain ⟨c, rest, rfl⟩ := List.exists_cons_of_ne_nil hne
      have hpeek : peek (text.drop 1) 0 = c := hbehind ▸ rfl
      simpa [peek] using hpeek
    rw [← hfirst] at hother hname
    simp only [List.mem_cons, List.not_mem_nil, or_false, not_or] at hother
    simp [-List.drop_one, Literal.readSymbol?, hother, hname, hvalue, h, pure, Except.pure]

end Literal

namespace Token

variable {context : Context} {text : List Char} {found : Lexeme}

/-- The scanner that a lexeme comes from, with what its first character has to be. -/
inductive Scanned (context : Context) (text : List Char) : Lexeme → Prop
  | string {mark : Char} {found : Lexeme} (hmark : mark = '\x22' ∨ mark = '\x27')
      (hfirst : peek text 0 = mark) (h : Literal.readString mark text = .ok found) :
      Scanned context text found
  | command {found : Lexeme} (hfirst : peek text 0 = '\x60')
      (h : Literal.readCommand text = .ok found) : Scanned context text found
  | number (hfirst : isDigit (peek text 0) = true) : Scanned context text (Number.read text)
  | name (hfirst : Name.isNameStart (peek text 0) = true)
      (hdigit : isDigit (peek text 0) = false) :
      Scanned context text (Name.read context.expectsName text)
  | instanceVariable {found : Lexeme} (hfirst : peek text 0 = '@')
      (h : Name.readInstance text = .ok found) : Scanned context text found
  | globalVariable {found : Lexeme} (hfirst : peek text 0 = '$')
      (h : Name.readGlobal text = .ok found) : Scanned context text found
  | symbol {found : Lexeme} (hfirst : peek text 0 = ':')
      (h : Literal.readSymbol? context text = .ok (some found)) : Scanned context text found
  | heredoc {found : Lexeme} (hfirst : peek text 0 = '<')
      (h : Heredoc.read? text = some found) : Scanned context text found
  | percent {found : Lexeme} (hfirst : peek text 0 = '%')
      (hstarts : Literal.startsPercent text = true)
      (h : Literal.readPercent text = .ok found) : Scanned context text found
  | regexp {found : Lexeme} (hfirst : peek text 0 = '/')
      (h : Literal.readRegexp text = .ok found) : Scanned context text found
  | character (hfirst : peek text 0 = '?') (hstarts : Literal.startsCharacter text = true) :
      Scanned context text (Literal.readCharacter text)
  | operator {found : Lexeme} (h : Operator.read text = .ok found) : Scanned context text found

/-- Every lexeme comes from one of the scanners. -/
theorem scanned_of_readLexeme (h : readLexeme context text = .ok found) :
    Scanned context text found := by
  unfold readLexeme at h
  extract_lets c rest at h
  -- What starts with a colon or an angle bracket may still be an operator.
  have hrest : ∀ special, (∀ l, special = some l → Scanned context text l) →
      rest special = .ok found → Scanned context text found := by
    intro special hspecial h
    cases special with
    | some l =>
      cases h
      exact hspecial _ rfl
    | none =>
      simp only [rest] at h
      -- From here on the cases are those of the first character, in the order in which they are
      -- tried.
      split at h
      · rename_i hpercent
        simp only [Bool.and_eq_true, beq_iff_eq] at hpercent
        exact .percent hpercent.1.1 hpercent.2 h
      · split at h
        · rename_i hslash
          simp only [Bool.and_eq_true, beq_iff_eq] at hslash
          exact .regexp hslash.1 h
        · split at h
          · rename_i hmark
            simp only [Bool.and_eq_true, beq_iff_eq] at hmark
            cases h
            exact .character hmark.1.1 hmark.2
          · exact .operator h
  split at h
  · rename_i hquote
    simp only [Bool.or_eq_true, beq_iff_eq] at hquote
    exact .string hquote rfl h
  · split at h
    · rename_i hquote
      exact .command (beq_iff_eq.mp hquote) h
    · split at h
      · rename_i hdigit
        cases h
        exact .number hdigit
      · rename_i hdigit
        rw [Bool.not_eq_true] at hdigit
        split at h
        · rename_i hname
          cases h
          exact .name hname hdigit
        · split at h
          · rename_i hmark
            exact .instanceVariable (beq_iff_eq.mp hmark) h
          · split at h
            · rename_i hmark
              exact .globalVariable (beq_iff_eq.mp hmark) h
            · split at h
              · rename_i hcolon
                obtain ⟨special, hs, h⟩ := bind_eq_ok_iff.mp h
                refine hrest special (fun l hl => ?_) h
                subst hl
                exact .symbol (beq_iff_eq.mp hcolon) hs
              · split at h
                · rename_i hbracket
                  simp only [Bool.and_eq_true, beq_iff_eq] at hbracket
                  exact hrest _ (fun l hl => .heredoc hbracket.1 hl) h
                · exact hrest none nofun h

/-- What a text has at its head for each item. -/
inductive Found (lineStart : Bool) (context : Context) (text : List Char) : Item → Prop
  | passage {length : Nat} (hline : lineStart = true)
      (h : passage? text = .ok (some length)) : Found lineStart context text (.passage length)
  | blank (h : isInlineBlank (peek text 0) = true) :
      Found lineStart context text (.blank (text.takeWhile isInlineBlank).length)
  | hiddenBreak (h : peek text 0 = '\\') (hbreak : isLineBreak (peek text 1) = true) :
      Found lineStart context text (.blank (if peek text 1 = '\r' then 3 else 2))
  | comment (h : peek text 0 = '#') : Found lineStart context text (.comment (commentLength text))
  | lineBreak (h : isLineBreak (peek text 0) = true) :
      Found lineStart context text
        (.lineBreak (if peek text 0 = '\r' ∧ peek text 1 = '\n' then 2 else 1))
  | lexeme {found : Lexeme} (h : readLexeme context text = .ok found) :
      Found lineStart context text (.lexeme found)

/-- An item is read only where it is. -/
theorem found_of_readItem {lineStart : Bool} {context : Context} {text : List Char} {item : Item}
    (h : readItem lineStart context text = .ok item) : Found lineStart context text item := by
  unfold readItem at h
  extract_lets c next rest at h
  have hrest : rest none = .ok item → Found lineStart context text item := by
    intro h
    simp only [rest] at h
    split at h
    · rename_i hblank
      cases h
      exact .blank hblank
    · split at h
      · rename_i hhidden
        simp only [Bool.and_eq_true, beq_iff_eq] at hhidden
        cases h
        simp only [beq_iff_eq]
        exact .hiddenBreak hhidden.1 hhidden.2
      · split at h
        · rename_i hmark
          cases h
          exact .comment (beq_iff_eq.mp hmark)
        · split at h
          · rename_i hbreak
            cases h
            simp only [Bool.and_eq_true, beq_iff_eq]
            exact .lineBreak hbreak
          · obtain ⟨found, hfound, h⟩ := bind_eq_ok_iff.mp h
            cases h
            exact .lexeme hfound
  split at h
  · rename_i hline
    obtain ⟨passage, hpassage, h⟩ := bind_eq_ok_iff.mp h
    cases passage with
    | some length =>
      cases h
      exact .passage hline hpassage
    | none => exact hrest h
  · exact hrest h

end Token

end XhrKeywords
