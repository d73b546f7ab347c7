import XhrKeywords.Proofs.Token.Scanner
import XhrKeywords.Token.Lexer

/-!
# How far items reach

Every item takes a character, and none reaches behind the end of the source, with two exceptions:
a character literal that ends in its backslash, and a backslash in front of a carriage return at
the very end. Both count a character that is not there.
-/

namespace XhrKeywords

open Token Unicode

/-- A text goes on at every place where a character is found that the end does not have. -/
theorem lt_length_of_peek {text : List Char} {k : Nat} (p : Char → Bool) (hp : p '\x00' = false)
    (h : p (peek text k) = true) : k < text.length := by
  refine Nat.lt_of_not_le fun hk => ?_
  rw [peek, List.getD_eq_getElem?_getD, List.getElem?_eq_none hk, Option.getD_none, hp] at h
  cases h

theorem peek_drop {text : List Char} {j : Nat} (i : Nat) :
    peek (text.drop i) j = peek text (i + j) := by
  simp [peek, List.getD_eq_getElem?_getD]

/-- What the characters at the head of a text have in common. -/
theorem of_lt_length_takeWhile {p : Char → Bool} {text : List Char} {i : Nat}
    (hi : i < (text.takeWhile p).length) : p (peek text i) = true := by
  induction text generalizing i with
  | nil => cases hi
  | cons c rest ih =>
    rw [List.takeWhile_cons] at hi
    split at hi
    · rename_i hc
      cases i with
      | zero => exact hc
      | succ i => exact ih (Nat.lt_of_succ_lt_succ hi)
    · cases hi

/-- The characters at the head of a text that are alike are no more than there are. -/
theorem length_takeWhile_le (p : Char → Bool) (text : List Char) :
    (text.takeWhile p).length ≤ text.length :=
  (List.takeWhile_prefix p).length_le

/-- A text whose first character is of a class starts with at least one of that class. -/
theorem length_takeWhile_pos {p : Char → Bool} {text : List Char} (hp : p '\x00' = false)
    (h : p (peek text 0) = true) : 0 < (text.takeWhile p).length := by
  cases text with
  | nil => simp [hp] at h
  | cons c rest =>
    rw [peek_cons_zero] at h
    simp [h]

/-- Something at the head of a text that takes a character at least and no more than there are. -/
structure Spans (text : List Char) (length : Nat) : Prop where
  pos : 0 < length
  le : length ≤ text.length

namespace Delimited

/-- A scan that finds the end has passed a character and stays inside the text. -/
theorem scan_bounds {inner : Opened} {outer : List Opened} {taken found : Nat}
    {text : List Char} (h : scan inner outer taken text = .ok found) :
    taken < found ∧ found ≤ taken + text.length := by
  fun_induction scan inner outer taken text with
  | case1 => cases h
  | case2 => cases h
  | case3 inner outer taken _ behind ih =>
    have := ih h
    simp only [List.length_cons]
    omega
  | case4 inner outer taken c rest _ frame _ ih =>
    have := ih h
    simp only [List.length_cons]
    omega
  | case5 inner taken c rest _ _ =>
    cases h
    simp only [List.length_cons]
    omega
  | case6 inner taken c rest _ _ enclosing others ih =>
    have := ih h
    simp only [List.length_cons]
    omega
  | case7 inner outer taken c rest _ _ ih =>
    have := ih h
    simp only [List.length_cons]
    omega
  | case8 => cases h
  | case9 inner outer taken c _ _ _ behind ih =>
    have := ih h
    simp only [List.length_cons]
    omega

/-- A delimited literal is longer than its opener and ends inside the text. -/
theorem length_bounds {frame : Frame} {opener found : Nat} {text : List Char}
    (h : length frame opener text = .ok found) : opener < found ∧ found ≤ text.length := by
  rw [length] at h
  split at h
  · rename_i taken hs
    cases h
    obtain ⟨hlt, hle⟩ := scan_bounds hs
    rw [List.length_drop] at hle
    omega
  · cases h

end Delimited

namespace Name

/-- The characters of a name are no more than there are. -/
theorem run_le (text : List Char) : run text ≤ text.length :=
  length_takeWhile_le _ text

/-- What starts a name belongs to it. -/
theorem isNameCharacter_of_isNameStart {c : Char} (h : isNameStart c = true) :
    isNameCharacter c = true := by
  simp only [isNameStart, isNameCharacter, Bool.or_eq_true] at *
  rcases h with (hletter | hscore) | habove
  · exact Or.inl (Or.inl (Or.inl hletter))
  · exact Or.inl (Or.inr hscore)
  · exact Or.inr habove

/-- A name has a character. -/
theorem run_pos {text : List Char} (h : isNameStart (peek text 0) = true) : 0 < run text :=
  length_takeWhile_pos (by decide) (isNameCharacter_of_isNameStart h)

/-- The mark behind a name is there. -/
theorem hasMark_pos {text : List Char} (h : hasMark text = true) : 0 < text.length := by
  refine lt_length_of_peek (fun c => c == '?' || c == '!') (by decide) ?_
  rw [hasMark, Bool.and_eq_true] at h
  exact h.1

/-- A name, with its mark and the colon of a label, ends inside the text. -/
theorem spans_read {named : Bool} {text : List Char} (h : isNameStart (peek text 0) = true) :
    Spans text (read named text).length := by
  have hpos := run_pos h
  have hle := run_le text
  rw [read]
  generalize hmarked : (hasMark (text.drop (run text)) && !isUpper (peek text 0)) = marked
  obtain ⟨hp, hl⟩ : Spans text (if marked = true then run text + 1 else run text) := by
    cases marked with
    | false => exact ⟨hpos, hle⟩
    | true =>
      rw [Bool.and_eq_true] at hmarked
      have := hasMark_pos hmarked.1
      rw [List.length_drop] at this
      exact ⟨Nat.succ_pos _, by simp only [if_true]; omega⟩
  generalize (if marked = true then run text + 1 else run text) = length at hp hl
  split
  · rename_i hcolon
    simp only [Bool.and_eq_true] at hcolon
    exact ⟨Nat.succ_pos _, lt_length_of_peek (· == ':') (by decide) hcolon.1.2⟩
  · split <;> exact ⟨hp, hl⟩

/-- A character that starts the name of a variable behind its mark. -/
def startsVariable (c : Char) : Bool := isLetter c || c == '_'

private theorem startsVariable_nul : startsVariable '\x00' = false := by decide +kernel

/-- A variable marked by `@` ends inside the text. -/
theorem spans_readInstance {text : List Char} {found : Lexeme}
    (h : readInstance text = .ok found) : Spans text found.length := by
  rw [readInstance] at h
  generalize hmark : (if (peek text 1 == '@') = true then 2 else 1) = mark at h
  have hpos : 0 < mark := by
    rw [← hmark]
    split <;> omega
  dsimp only at h
  split at h
  · rename_i hfirst
    have hlt := lt_length_of_peek startsVariable startsVariable_nul hfirst
    have hrun := run_le (text.drop mark)
    rw [List.length_drop] at hrun
    cases h
    exact ⟨by dsimp only; omega, by dsimp only; omega⟩
  · cases h

/-- A variable marked by `$` ends inside the text. -/
theorem spans_readGlobal {text : List Char} {found : Lexeme}
    (h : readGlobal text = .ok found) : Spans text found.length := by
  have hrun := run_le (text.drop 1)
  have hdigits := length_takeWhile_le isDigit (text.drop 1)
  rw [List.length_drop] at hrun hdigits
  simp only [readGlobal] at h
  split at h
  · rename_i hfirst
    have := lt_length_of_peek startsVariable startsVariable_nul hfirst
    cases h
    exact ⟨by dsimp only; omega, by dsimp only; omega⟩
  · split at h
    · rename_i hfirst
      have := lt_length_of_peek isDigit (by decide) hfirst
      cases h
      exact ⟨by dsimp only; omega, by dsimp only; omega⟩
    · split at h
      · rename_i hfirst
        have := lt_length_of_peek globalMarks.contains (by decide) hfirst
        cases h
        exact ⟨Nat.two_pos, this⟩
      · cases h

end Name

namespace Number

/-- The digits of a number are no more than there are. -/
theorem digits_le (text : List Char) : digits text ≤ text.length := by
  induction text with
  | nil => exact Nat.le_refl 0
  | cons c rest ih =>
    rw [digits, List.length_cons]
    split <;> omega

/-- A number has a digit. -/
theorem digits_pos {text : List Char} (h : isDigit (peek text 0) = true) : 0 < digits text := by
  cases text with
  | nil => exact absurd h (by decide)
  | cons c rest =>
    rw [peek_cons_zero] at h
    simp [digits, h]

/-- A fraction ends inside the text. -/
theorem fraction_le (text : List Char) : fraction text ≤ text.length := by
  rw [fraction]
  split
  · rename_i h
    rw [Bool.and_eq_true] at h
    have := lt_length_of_peek isDigit (by decide) h.2
    have := digits_le (text.drop 1)
    rw [List.length_drop] at this
    omega
  · exact Nat.zero_le _

/-- An exponent ends inside the text. -/
theorem exponent_le (text : List Char) : exponent text ≤ text.length := by
  rw [exponent]
  split
  · split
    · rename_i h
      have := lt_length_of_peek isDigit (by decide) h
      have := digits_le (text.drop 1)
      rw [List.length_drop] at this
      omega
    · split
      · rename_i h
        rw [Bool.and_eq_true] at h
        have := lt_length_of_peek isDigit (by decide) h.2
        have := digits_le (text.drop 2)
        rw [List.length_drop] at this
        omega
      · exact Nat.zero_le _
  · exact Nat.zero_le _

/-- The suffix of a number ends inside the text. -/
theorem suffix_le (text : List Char) : suffix text ≤ text.length := by
  rw [suffix]
  split
  · rename_i h
    rw [Bool.and_eq_true] at h
    exact lt_length_of_peek (fun c => c == 'r' || c == 'i') (by decide) h.1
  · exact Nat.zero_le _

/-- A number ends inside the text. -/
theorem spans_read {text : List Char} (h : isDigit (peek text 0) = true) :
    Spans text (read text).length := by
  rw [read]
  split
  · rename_i hradix
    rw [hasRadix, Bool.and_eq_true] at hradix
    have := lt_length_of_peek "xXbBoOdD".toList.contains (by decide) hradix.2
    have := length_takeWhile_le isWordCharacter (text.drop 2)
    rw [List.length_drop] at this
    exact ⟨by dsimp only; omega, by dsimp only; omega⟩
  · have hwhole := digits_pos h
    have hdigits := digits_le text
    have hfraction := fraction_le (text.drop (digits text))
    rw [List.length_drop] at hfraction
    have hexponent :=
      exponent_le (text.drop (digits text + fraction (text.drop (digits text))))
    rw [List.length_drop] at hexponent
    have hsuffix := suffix_le (text.drop (digits text + fraction (text.drop (digits text))
      + exponent (text.drop (digits text + fraction (text.drop (digits text))))))
    rw [List.length_drop] at hsuffix
    exact ⟨by dsimp only; omega, by dsimp only; omega⟩

end Number

namespace Heredoc

/-- A heredoc opener ends inside the text. -/
theorem spans_read? {text : List Char} {found : Lexeme} (h : read? text = some found) :
    Spans text found.length := by
  obtain ⟨lead, quote, tag, indented, hopener, rfl⟩ := exists_isOpener_of_read? h
  have hpos := List.length_pos_iff.mpr hopener.named
  have htake := length_takeWhile_le isTagCharacter (text.drop (lead + quote))
  rw [← hopener.eq, List.length_drop] at htake
  refine ⟨by dsimp only; omega, ?_⟩
  dsimp only
  obtain hnone | ⟨hone, hmark, hsame⟩ := hopener.quoted
  · omega
  · -- The quote behind the tag is that in front of it, so it is there.
    have := lt_length_of_peek isTagQuote (by decide) (hsame ▸ hmark)
    omega

theorem ne_feed_of_isTagQuote {c : Char} (h : isTagQuote c = true) : c ≠ '\n' := by
  rintro rfl
  cases h

/-- The opener of a heredoc lies on one line. -/
theorem IsOpener.peek_ne {text : List Char} {lead quote : Nat} {tag : List Char}
    (h : IsOpener text lead quote tag)
    {i : Nat} (hi : i < lead + quote + tag.length + quote) : peek text i ≠ '\n' := by
  have hlead : ∀ i < lead, peek text i ≠ '\n' := by
    intro i hi hfeed
    have hbrackets := h.brackets
    obtain rfl | rfl | hi : i = 0 ∨ i = 1 ∨ 2 ≤ i := by omega
    · simp [hfeed] at hbrackets
    · simp [hfeed] at hbrackets
    · obtain ⟨-, hmark⟩ := h.marked.resolve_left (by omega)
      obtain rfl : i = 2 := by have := h.marked; omega
      simp [hfeed] at hmark
  have htag : ∀ j < tag.length, peek text (lead + quote + j) ≠ '\n' := by
    intro j hj hfeed
    rw [h.eq] at hj
    have hcharacter := of_lt_length_takeWhile hj
    rw [peek_drop, hfeed] at hcharacter
    cases hcharacter
  by_cases hfront : i < lead
  · exact hlead i hfront
  by_cases hinside : lead + quote ≤ i ∧ i < lead + quote + tag.length
  · have := htag (i - (lead + quote)) (by omega)
    rwa [Nat.add_sub_cancel' hinside.1] at this
  -- What is left are the quotes around the tag.
  obtain hnone | ⟨rfl, hmark, hsame⟩ := h.quoted
  · omega
  · obtain rfl | rfl : i = lead ∨ i = lead + 1 + tag.length := by omega
    · exact ne_feed_of_isTagQuote hmark
    · rw [hsame]
      exact ne_feed_of_isTagQuote hmark

end Heredoc

namespace Operator

/-- An operator ends inside the text. -/
theorem spans_read {text : List Char} {found : Lexeme} (h : read text = .ok found) :
    Spans text found.length := by
  have hsome : ∀ entry ∈ table, 0 < entry.1.length := by decide
  obtain ⟨_, _, hmem, hstarts, rfl⟩ := exists_entry_of_read h
  exact ⟨hsome _ hmem, hstarts.length_le⟩

end Operator

namespace Literal

/-- The option letters of a regular expression are no more than there are. -/
theorem options_le (text : List Char) : options text ≤ text.length :=
  length_takeWhile_le _ text

/-- A string, with the colon of a label, ends inside the text. -/
theorem spans_readString {mark : Char} {text : List Char} {found : Lexeme}
    (h : readString mark text = .ok found) : Spans text found.length := by
  simp only [readString, bind, Except.bind] at h
  split at h
  · cases h
  · rename_i length hlength
    obtain ⟨hlt, hle⟩ := Delimited.length_bounds hlength
    split at h
    · rename_i hcolon
      simp only [Bool.and_eq_true] at hcolon
      cases h
      exact ⟨Nat.succ_pos _, lt_length_of_peek (· == ':') (by decide) hcolon.1.1⟩
    · cases h
      exact ⟨Nat.zero_lt_of_lt hlt, hle⟩

/-- A command ends inside the text. -/
theorem spans_readCommand {text : List Char} {found : Lexeme}
    (h : readCommand text = .ok found) : Spans text found.length := by
  simp only [readCommand, bind, Except.bind] at h
  split at h
  · cases h
  · rename_i length hlength
    obtain ⟨hlt, hle⟩ := Delimited.length_bounds hlength
    cases h
    exact ⟨Nat.zero_lt_of_lt hlt, hle⟩

/-- A regular expression ends inside the text. -/
theorem spans_readRegexp {text : List Char} {found : Lexeme}
    (h : readRegexp text = .ok found) : Spans text found.length := by
  simp only [readRegexp, bind, Except.bind] at h
  split at h
  · cases h
  · rename_i body hbody
    obtain ⟨hlt, hle⟩ := Delimited.length_bounds hbody
    have hoptions := options_le (text.drop body)
    rw [List.length_drop] at hoptions
    cases h
    exact ⟨by dsimp only; omega, by dsimp only; omega⟩

/-- A percent literal ends inside the text. -/
theorem spans_readPercent {text : List Char} {found : Lexeme}
    (h : readPercent text = .ok found) : Spans text found.length := by
  simp only [readPercent, bind, Except.bind] at h
  split at h
  · cases h
  · rename_i body hbody
    obtain ⟨hlt, hle⟩ := Delimited.length_bounds hbody
    have hoptions := options_le (text.drop body)
    rw [List.length_drop] at hoptions
    cases h
    constructor
    · dsimp only
      split <;> omega
    · dsimp only
      split <;> omega

/-- The name of a symbol ends inside the text. -/
theorem symbolName_le (text : List Char) : symbolName text ≤ text.length := by
  have hrun := Name.run_le text
  rw [symbolName]
  split
  · rename_i hmark
    have := Name.hasMark_pos hmark
    rw [List.length_drop] at this
    omega
  · split
    · rename_i hequals
      simp only [Bool.and_eq_true] at hequals
      have := lt_length_of_peek (· == '=') (by decide) hequals.1.1.1
      rw [List.length_drop] at this
      omega
    · exact hrun

/-- A symbol ends inside the text. -/
theorem spans_readSymbol? {context : Context} {text : List Char} {found : Lexeme}
    (h : readSymbol? context text = .ok (some found)) : Spans text found.length := by
  cases isSymbol_of_readSymbol? h with
  | quoted _ hlength =>
    obtain ⟨hlt, hle⟩ := Delimited.length_bounds hlength
    exact ⟨Nat.zero_lt_of_lt hlt, hle⟩
  | @marked mark length hsign hmark hlength =>
    have hlt := lt_length_of_peek (fun c => c == '@' || c == '$') (by decide) (by simpa using hsign)
    have hle : 1 < mark ∧ mark ≤ text.length := by
      rw [← hmark]
      split
      · rename_i hat
        have := lt_length_of_peek (· == '@') (by decide) (beq_iff_eq.mpr hat)
        omega
      · omega
    have hrun := Name.run_le (text.drop mark)
    rw [List.length_drop] at hrun
    exact ⟨by dsimp only; omega, by dsimp only; omega⟩
  | name hname =>
    have hlt := lt_length_of_peek Name.isNameStart (by decide) hname
    have hle := symbolName_le (text.drop 1)
    rw [List.length_drop] at hle
    exact ⟨by dsimp only; omega, by dsimp only; omega⟩
  | @operator spelling _ hfind =>
    have hsome : ∀ s ∈ Operator.symbols, s.length ≠ 0 := by decide
    have := hsome _ (List.mem_of_find?_eq_some hfind)
    have hhead := List.find?_some hfind
    have hle := (List.isPrefixOf_iff_prefix.mp hhead).length_le
    rw [List.length_drop] at hle
    exact ⟨by dsimp only; omega, by dsimp only; omega⟩

/-- The end of a source behind which a character literal goes on. -/
def openCharacter : List Char := ['?', '\\']

/-- A character literal ends inside the text, unless the text ends in its backslash. -/
theorem spans_readCharacter {text : List Char} (hmark : peek text 0 = '?')
    (h : startsCharacter text = true) :
    Spans text (readCharacter text).length ∨
      (text = openCharacter ∧ (readCharacter text).length = 3) := by
  have hlt : 1 < text.length := by
    rw [startsCharacter, Bool.and_eq_true] at h
    exact lt_length_of_peek (fun c => !isGap c) (by decide) h.1
  rw [readCharacter]
  dsimp only
  split
  · rename_i hescape
    by_cases hlong : 3 ≤ text.length
    · exact Or.inl ⟨by omega, hlong⟩
    · refine Or.inr ⟨?_, rfl⟩
      obtain ⟨c, d, rfl⟩ : ∃ c d, text = [c, d] := by
        match text, hlt, hlong with
        | [c, d], _, _ => exact ⟨c, d, rfl⟩
        | _ :: _ :: _ :: _, _, hlong => exact absurd (Nat.le_add_left 3 _) hlong
      rw [peek_cons_zero] at hmark
      rw [peek_cons_succ, peek_cons_zero, beq_iff_eq] at hescape
      rw [hmark, hescape, openCharacter]
  · exact Or.inl ⟨Nat.two_pos, hlt⟩

end Literal

end XhrKeywords
