import XhrKeywords.Proofs.Outcome
import XhrKeywords.Proofs.Token.Extent

/-!
# The shapes of lexemes

Every scanner answers with one of three shapes of lexemes: the characters that it takes, those in
front of a colon, or those behind one. So a lexeme can be spelled from its kind and its text alone,
and what is spelled stands at the head of the text that it was read from.
-/

namespace XhrKeywords

open Token Unicode

namespace Token.Kind

/-- The kinds of tokens that are lexemes without a colon of their own. -/
def isPlain : Kind → Bool
  | label | stringLabel | symbol | dsym | newline | eof => false
  | _ => true

/-- The kinds of tokens whose colon lies behind their text. -/
def isLabel : Kind → Bool
  | label | stringLabel => true
  | _ => false

/-- The kinds of tokens whose colon lies in front of their text. -/
def isSymbol : Kind → Bool
  | symbol | dsym => true
  | _ => false

/-- The characters that a token of a kind and a text stands for. -/
def spelled (kind : Kind) (text : List Char) : List Char :=
  if kind.isLabel then text ++ [':'] else if kind.isSymbol then ':' :: text else text

end Token.Kind

/-- The lexemes that are read at the head of a text. -/
inductive Lexeme.Shaped (text : List Char) : Lexeme → Prop
  | plain {kind : Kind} (length : Nat) (heredoc : Option Heredoc) (hkind : kind.isPlain) :
      Shaped text ⟨kind, .ofList (text.take length), length, heredoc⟩
  | label {kind : Kind} {length : Nat} (hkind : kind.isLabel) (hpos : 0 < length)
      (hcolon : peek text length = ':') :
      Shaped text ⟨kind, .ofList (text.take length), length + 1, none⟩
  | symbol {kind : Kind} {length : Nat} (hkind : kind.isSymbol) (hpos : 0 < length)
      (hcolon : peek text 0 = ':') :
      Shaped text ⟨kind, .ofList ((text.take length).drop 1), length, none⟩

/-- A character that is not NUL is there. -/
theorem getElem?_of_peek {text : List Char} {k : Nat} {c : Char} (hc : c ≠ '\x00')
    (h : peek text k = c) : text[k]? = some c := by
  rw [peek, List.getD_eq_getElem?_getD] at h
  cases hk : text[k]? with
  | none =>
    rw [hk] at h
    exact absurd h.symm hc
  | some d =>
    rw [hk] at h
    exact congrArg some h

/-- A lexeme spells the characters that it takes. -/
theorem Lexeme.Shaped.take_eq {text : List Char} {l : Lexeme} (h : l.Shaped text) :
    text.take l.length = l.kind.spelled l.text.toList := by
  cases h with
  | plain length heredoc hkind =>
    rename_i kind
    have hlabel : kind.isLabel = false := by cases kind <;> first | rfl | cases hkind
    have hsymbol : kind.isSymbol = false := by cases kind <;> first | rfl | cases hkind
    simp [Kind.spelled, hlabel, hsymbol]
  | label hkind hpos hcolon =>
    simp [Kind.spelled, hkind, List.take_add_one, getElem?_of_peek (by decide) hcolon]
  | symbol hkind hpos hcolon =>
    rename_i kind length
    have hlabel : kind.isLabel = false := by cases kind <;> first | rfl | cases hkind
    obtain ⟨n, rfl⟩ := Nat.exists_eq_add_of_lt hpos
    cases text with
    | nil => cases hcolon
    | cons c rest =>
      rw [peek_cons_zero] at hcolon
      simp [Kind.spelled, hlabel, hkind, hcolon]

/-- Lexemes are neither line breaks nor the end of the source. -/
theorem Lexeme.Shaped.kind_ne {text : List Char} {l : Lexeme} (h : l.Shaped text) :
    l.kind ≠ .newline ∧ l.kind ≠ .eof := by
  cases h with
  | plain length heredoc hkind => constructor <;> rintro rfl <;> cases hkind
  | label hkind | symbol hkind => constructor <;> rintro rfl <;> cases hkind

/-- A keyword has no colon of its own. -/
theorem Token.Kind.isPlain_of_ofKeyword? {word : String} {kind : Kind}
    (h : ofKeyword? word = some kind) : kind.isPlain := by
  have hall : ∀ entry ∈ keywords, entry.2.isPlain := by decide
  obtain ⟨front, back, heq, -⟩ := List.lookup_eq_some_iff.mp h
  exact hall (word, kind) (by rw [heq]; simp)

namespace Name

theorem isPlain_kindOf (text : List Char) : (kindOf text).isPlain := by
  rw [kindOf]
  split <;> rfl

/-- A name is a label or a word. -/
theorem shaped_read {named : Bool} {text : List Char} (hstart : isNameStart (peek text 0) = true) :
    (read named text).Shaped text := by
  have hpos := run_pos hstart
  rw [read]
  generalize (hasMark (text.drop (run text)) && !isUpper (peek text 0)) = marked
  have hlength : 0 < if marked = true then run text + 1 else run text := by
    split <;> omega
  generalize (if marked = true then run text + 1 else run text) = length at hlength
  split
  · rename_i hcolon
    simp only [Bool.and_eq_true, beq_iff_eq] at hcolon
    exact .label rfl hlength hcolon.1.2
  · split
    · exact .plain _ _ (isPlain_kindOf text)
    · refine .plain _ _ ?_
      cases hword : Kind.ofKeyword? (String.ofList (text.take length)) with
      | none => exact isPlain_kindOf text
      | some kind => exact Kind.isPlain_of_ofKeyword? hword

/-- A variable is read whole. -/
theorem shaped_readInstance {text : List Char} {found : Lexeme}
    (h : readInstance text = .ok found) : found.Shaped text := by
  rw [readInstance] at h
  dsimp only at h
  generalize (peek text 1 == '@') = classwide at h
  generalize (if classwide = true then 2 else 1) = mark at h
  split at h
  · cases h
    refine .plain _ _ ?_
    cases classwide <;> rfl
  · cases h

/-- A global variable is read whole. -/
theorem shaped_readGlobal {text : List Char} {found : Lexeme}
    (h : readGlobal text = .ok found) : found.Shaped text := by
  simp only [readGlobal] at h
  split at h
  · cases h
    exact .plain _ _ rfl
  · split at h
    · cases h
      exact .plain _ _ rfl
    · split at h
      · cases h
        exact .plain _ _ rfl
      · cases h

end Name

/-- A number is read whole. -/
theorem Number.shaped_read (text : List Char) : (Number.read text).Shaped text := by
  rw [Number.read]
  split
  · exact .plain _ _ rfl
  · refine .plain _ _ ?_
    split <;> rfl

/-- A heredoc opener is read whole. -/
theorem Heredoc.shaped_read? {text : List Char} {found : Lexeme}
    (h : Heredoc.read? text = some found) : found.Shaped text := by
  obtain ⟨_, _, _, _, -, rfl⟩ := Heredoc.exists_isOpener_of_read? h
  exact .plain _ _ rfl

/-- An operator is read whole. -/
theorem Operator.shaped_read {text : List Char} {found : Lexeme}
    (h : Operator.read text = .ok found) : found.Shaped text := by
  have hall : ∀ entry ∈ table, entry.2.isPlain := by decide
  obtain ⟨spelling, kind, hmem, hstarts, rfl⟩ := exists_entry_of_read h
  have hplain : Lexeme.Shaped text ⟨kind, .ofList (text.take spelling.length), _, none⟩ :=
    .plain _ _ (hall _ hmem)
  rwa [← List.prefix_iff_eq_take.mp hstarts] at hplain

namespace Literal

/-- A string is a label or is read whole. -/
theorem shaped_readString {mark : Char} {text : List Char} {found : Lexeme}
    (h : readString mark text = .ok found) : found.Shaped text := by
  obtain ⟨length, hlength, h⟩ := bind_eq_ok_iff.mp h
  dsimp only at h
  split at h
  · rename_i hcolon
    simp only [Bool.and_eq_true, beq_iff_eq] at hcolon
    cases h
    exact .label rfl (Nat.zero_lt_of_lt (Delimited.length_bounds hlength).1) hcolon.1.1
  · cases h
    exact .plain _ _ rfl

/-- A command is read whole. -/
theorem shaped_readCommand {text : List Char} {found : Lexeme}
    (h : readCommand text = .ok found) : found.Shaped text := by
  obtain ⟨length, -, h⟩ := bind_eq_ok_iff.mp h
  cases h
  exact .plain _ _ rfl

/-- A regular expression is read whole. -/
theorem shaped_readRegexp {text : List Char} {found : Lexeme}
    (h : readRegexp text = .ok found) : found.Shaped text := by
  obtain ⟨body, -, h⟩ := bind_eq_ok_iff.mp h
  cases h
  exact .plain _ _ rfl

/-- A percent literal is read whole. -/
theorem shaped_readPercent {text : List Char} {found : Lexeme}
    (h : readPercent text = .ok found) : found.Shaped text := by
  obtain ⟨body, -, h⟩ := bind_eq_ok_iff.mp h
  cases h
  refine .plain _ _ ?_
  split
  · rfl
  · split
    · rfl
    · split <;> rfl

/-- A symbol is what stands behind its colon. -/
theorem shaped_readSymbol? {context : Context} {text : List Char} {found : Lexeme}
    (hcolon : peek text 0 = ':') (h : readSymbol? context text = .ok (some found)) :
    found.Shaped text := by
  cases isSymbol_of_readSymbol? h with
  | quoted _ hlength =>
    exact .symbol rfl (Nat.zero_lt_of_lt (Delimited.length_bounds hlength).1) hcolon
  | marked _ hmark hlength =>
    refine .symbol rfl ?_ hcolon
    split at hmark <;> omega
  | name _ hlength => exact .symbol rfl (by omega) hcolon
  | operator => exact .symbol rfl (by omega) hcolon

end Literal

/-- Whatever is read as a lexeme has one of the shapes. -/
theorem Token.shaped_readLexeme {context : Context} {text : List Char} {found : Lexeme}
    (h : readLexeme context text = .ok found) : found.Shaped text := by
  cases scanned_of_readLexeme h with
  | string _ _ h => exact Literal.shaped_readString h
  | command _ h => exact Literal.shaped_readCommand h
  | number => exact Number.shaped_read text
  | name hname => exact Name.shaped_read hname
  | instanceVariable _ h => exact Name.shaped_readInstance h
  | globalVariable _ h => exact Name.shaped_readGlobal h
  | symbol hcolon h => exact Literal.shaped_readSymbol? hcolon h
  | heredoc _ h => exact Heredoc.shaped_read? h
  | percent _ _ h => exact Literal.shaped_readPercent h
  | regexp _ h => exact Literal.shaped_readRegexp h
  | character => exact .plain _ _ rfl
  | operator h => exact Operator.shaped_read h

end XhrKeywords
