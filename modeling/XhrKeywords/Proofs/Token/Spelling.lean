import XhrKeywords.Proofs.Token.Order
import XhrKeywords.Proofs.Token.Origin

/-!
# The spelling of operators and keywords

A token of a kind that operators or keywords have is spelled like one of them. So what a token joins
can be told from its text, which is all of it that a tree keeps.
-/

namespace XhrKeywords

open Token Unicode

namespace Token

/-- The kinds of operators and keywords. -/
def Kind.isSign (kind : Kind) : Bool :=
  Operator.table.any (·.2 == kind) || Kind.keywords.any (·.2 == kind)

/-- A text that is written like an operator or a keyword of the kind, if the kind has any. -/
def Kind.IsSpelled (kind : Kind) (text : String) : Prop :=
  kind.isSign → (text.toList, kind) ∈ Operator.table ∨ (text, kind) ∈ Kind.keywords

end Token

variable {text : List Char} {found : Lexeme}

/-- The kinds of literals and names have no spelling. -/
theorem Token.Kind.isSpelled_of_isSign_eq_false {kind : Kind} (h : kind.isSign = false)
    (text : String) : kind.IsSpelled text := by
  intro hsign
  rw [h] at hsign
  cases hsign

namespace Name

/-- A name is no sign unless it is a keyword, which is spelled like itself. -/
theorem isSpelled_read (named : Bool) (text : List Char) :
    (read named text).kind.IsSpelled (read named text).text := by
  have hname (word : String) : (kindOf text).IsSpelled word := by
    refine Kind.isSpelled_of_isSign_eq_false ?_ word
    rw [kindOf]
    split <;> rfl
  rw [read]
  generalize (hasMark (text.drop (run text)) && !isUpper (peek text 0)) = marked
  generalize (if marked = true then run text + 1 else run text) = length
  split
  · exact Kind.isSpelled_of_isSign_eq_false rfl _
  · split
    · exact hname _
    · change ((Kind.ofKeyword? (.ofList (text.take length))).getD (kindOf text)).IsSpelled _
      cases hword : Kind.ofKeyword? (.ofList (text.take length)) with
      | none => exact hname _
      | some kind =>
        obtain ⟨front, back, heq, -⟩ := List.lookup_eq_some_iff.mp hword
        exact fun _ => Or.inr (heq ▸ List.mem_append_right front List.mem_cons_self)

theorem isSpelled_readInstance (h : readInstance text = .ok found) :
    found.kind.IsSpelled found.text := by
  rw [readInstance] at h
  dsimp only at h
  generalize (peek text 1 == '@') = classwide at h
  generalize (if classwide = true then 2 else 1) = mark at h
  split at h
  · cases h
    refine Kind.isSpelled_of_isSign_eq_false ?_ _
    cases classwide <;> rfl
  · cases h

theorem isSpelled_readGlobal (h : readGlobal text = .ok found) :
    found.kind.IsSpelled found.text := by
  simp only [readGlobal] at h
  have hglobal (word : String) : Kind.gvar.IsSpelled word :=
    Kind.isSpelled_of_isSign_eq_false rfl word
  split at h
  · cases h
    exact hglobal _
  · split at h
    · cases h
      exact hglobal _
    · split at h
      · cases h
        exact hglobal _
      · cases h

end Name

theorem Number.isSpelled_read (text : List Char) :
    (Number.read text).kind.IsSpelled (Number.read text).text := by
  refine Kind.isSpelled_of_isSign_eq_false ?_ _
  rw [Number.read]
  split
  · rfl
  · dsimp only
    split <;> rfl

theorem Heredoc.isSpelled_read? (h : Heredoc.read? text = some found) :
    found.kind.IsSpelled found.text := by
  obtain ⟨_, _, _, _, -, rfl⟩ := Heredoc.exists_isOpener_of_read? h
  exact Kind.isSpelled_of_isSign_eq_false rfl _

/-- An operator is spelled as it stands in the table. -/
theorem Operator.isSpelled_read (h : Operator.read text = .ok found) :
    found.kind.IsSpelled found.text := by
  obtain ⟨_, _, hmem, -, rfl⟩ := exists_entry_of_read h
  refine fun _ => Or.inl ?_
  rwa [String.toList_ofList]

namespace Literal

theorem isSpelled_readString {mark : Char} (h : readString mark text = .ok found) :
    found.kind.IsSpelled found.text := by
  obtain ⟨length, -, h⟩ := bind_eq_ok_iff.mp h
  dsimp only at h
  split at h <;> cases h <;> exact Kind.isSpelled_of_isSign_eq_false rfl _

theorem isSpelled_readCommand (h : readCommand text = .ok found) :
    found.kind.IsSpelled found.text := by
  obtain ⟨length, -, h⟩ := bind_eq_ok_iff.mp h
  cases h
  exact Kind.isSpelled_of_isSign_eq_false rfl _

theorem isSpelled_readRegexp (h : readRegexp text = .ok found) :
    found.kind.IsSpelled found.text := by
  obtain ⟨body, -, h⟩ := bind_eq_ok_iff.mp h
  cases h
  exact Kind.isSpelled_of_isSign_eq_false rfl _

theorem isSpelled_readPercent (h : readPercent text = .ok found) :
    found.kind.IsSpelled found.text := by
  obtain ⟨body, -, h⟩ := bind_eq_ok_iff.mp h
  cases h
  refine Kind.isSpelled_of_isSign_eq_false ?_ _
  dsimp only
  split
  · rfl
  · split
    · rfl
    · split <;> rfl

theorem isSpelled_readSymbol? {context : Context}
    (h : readSymbol? context text = .ok (some found)) : found.kind.IsSpelled found.text := by
  cases isSymbol_of_readSymbol? h <;> exact Kind.isSpelled_of_isSign_eq_false rfl _

end Literal

namespace Token

/-- Operators and keywords are the only lexemes of their kinds. -/
theorem isSpelled_readLexeme {context : Context} (h : readLexeme context text = .ok found) :
    found.kind.IsSpelled found.text := by
  cases scanned_of_readLexeme h with
  | string _ _ h => exact Literal.isSpelled_readString h
  | command _ h => exact Literal.isSpelled_readCommand h
  | number => exact Number.isSpelled_read text
  | name => exact Name.isSpelled_read _ text
  | instanceVariable _ h => exact Name.isSpelled_readInstance h
  | globalVariable _ h => exact Name.isSpelled_readGlobal h
  | symbol _ h => exact Literal.isSpelled_readSymbol? h
  | heredoc _ h => exact Heredoc.isSpelled_read? h
  | percent _ _ h => exact Literal.isSpelled_readPercent h
  | regexp _ h => exact Literal.isSpelled_readRegexp h
  | character => exact Kind.isSpelled_of_isSign_eq_false rfl _
  | operator h => exact Operator.isSpelled_read h

/-- The operators and keywords of a source are spelled like themselves, and its end is empty. -/
theorem spelled_of_tokenize {source : String} {tokens : List Token}
    (h : tokenize source = .ok tokens) :
    ∀ t ∈ tokens, t.kind.IsSpelled t.text ∧ (t.kind = .eof → t.stop = t.start) := by
  obtain ⟨last, hlast⟩ := finished_of_tokenize h
  intro t ht
  cases hlast.origin ht with
  | newline => exact ⟨Kind.isSpelled_of_isSign_eq_false rfl _, nofun⟩
  | lexeme _ _ _ _ hfound =>
    exact ⟨isSpelled_readLexeme hfound.reads,
      fun hkind => absurd hkind (shaped_readLexeme hfound.reads).kind_ne.2⟩
  | eof => exact ⟨Kind.isSpelled_of_isSign_eq_false rfl _, fun _ => rfl⟩

end Token

end XhrKeywords
