import XhrKeywords.Unicode.Case
import XhrKeywords.Unicode.Identifier

/-!
# The first characters

The tables of character classes start behind the first 128 characters. Among these each class is
the one that its definition names, and what is claimed of a class can be tried on all of them.
-/

namespace XhrKeywords.Unicode

variable {c : Char}

/-- The tables of classes that names, numbers and words are made of. -/
def tables : List Boundaries :=
  [digitBoundaries, numberBoundaries, letterBoundaries, upperBoundaries,
    identifierStartExceptions, identifierMarkBoundaries]

/-- All boundaries of the tables lie behind the first characters. -/
theorem le_of_mem_tables : ∀ table ∈ tables, ∀ change ∈ table.changes, 128 ≤ change := by
  decide +kernel

/-- None of the first characters is in a table. -/
theorem contains_ascii {table : Boundaries} (h : table ∈ tables) (hc : c.toNat < 128) :
    table.contains c.toNat = false :=
  Boundaries.contains_eq_false_of_lt fun change hchange =>
    Nat.lt_of_lt_of_le hc (le_of_mem_tables table h change hchange)

theorem isDigit_of_ascii (hc : c.toNat < 128) : isDigit c = isAsciiDigit c := by
  rw [isDigit, contains_ascii (by simp [tables]) hc, Bool.or_false]

theorem isLetter_of_ascii (hc : c.toNat < 128) : isLetter c = isAsciiLetter c := by
  rw [isLetter, contains_ascii (by simp [tables]) hc, Bool.or_false]

theorem isAlphanumeric_of_ascii (hc : c.toNat < 128) :
    isAlphanumeric c = (isAsciiLetter c || isAsciiDigit c) := by
  rw [isAlphanumeric, isNumeric, contains_ascii (by simp [tables]) hc, isLetter_of_ascii hc,
    isDigit_of_ascii hc, Bool.or_false]

theorem isUpper_of_ascii (hc : c.toNat < 128) : isUpper c = ('A' ≤ c && c ≤ 'Z') := by
  rw [isUpper, contains_ascii (by simp [tables]) hc, Bool.or_false]

theorem isIdentifierStart_of_ascii (hc : c.toNat < 128) :
    isIdentifierStart c = (c == '_' || isAsciiLetter c) := by
  rw [isIdentifierStart, contains_ascii (by simp [tables]) hc, isLetter_of_ascii hc,
    Bool.bne_false]

theorem isIdentifierContinue_of_ascii (hc : c.toNat < 128) :
    isIdentifierContinue c = (c == '_' || isAsciiLetter c || isAsciiDigit c) := by
  rw [isIdentifierContinue, contains_ascii (by simp [tables]) hc,
    isIdentifierStart_of_ascii hc, Bool.or_false]

/-- A character up to one of the first characters is one of them. -/
theorem ascii_of_le {d : Char} (h : c ≤ d) (hd : d.toNat < 128) : c.toNat < 128 :=
  Nat.lt_of_le_of_lt h hd

/-- A class that has no other character than the first ones is part of another class when this
holds of the first ones. -/
theorem of_ascii {p q : Char → Bool} (hp : ∀ {c}, p c = true → c.toNat < 128)
    (h : ∀ n < 128, p (Char.ofNat n) = true → q (Char.ofNat n) = true) (hc : p c = true) :
    q c = true := by
  rw [← Char.ofNat_toNat c] at hc ⊢
  exact h c.toNat (hp (Char.ofNat_toNat c ▸ hc)) hc

end XhrKeywords.Unicode
