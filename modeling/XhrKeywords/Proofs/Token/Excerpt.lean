import XhrKeywords.Proofs.Token.Quoted
import XhrKeywords.Proofs.Token.Scanner
import XhrKeywords.Proofs.Unicode.Ascii

/-!
# Scanners on excerpts

A scanner looks a character or two behind what it takes. Where a literal, a number, a variable or a
constant ends, nothing behind it has been needed: on the characters that it has taken alone, the
scanner comes to the same lexeme. What is behind can only make a lexeme end, and the end of the
text makes it end as well.
-/

namespace XhrKeywords

open Token Unicode

section Excerpts

variable {text : List Char} {j k : Nat}

/-- Inside an excerpt the characters are those of the text. -/
theorem peek_take (h : j < k) : peek (text.take k) j = peek text j := by
  simp [peek, List.getD_eq_getElem?_getD, h]

/-- Behind an excerpt there is nothing. -/
theorem peek_take_of_le (h : k ≤ j) : peek (text.take k) j = '\x00' := by
  rw [peek, List.getD_eq_getElem?_getD,
    List.getElem?_eq_none (Nat.le_trans (List.length_take_le k text) h)]
  rfl

/-- A character of an excerpt that the end does not have is there in the text. -/
theorem peek_of_peek_take (p : Char → Bool) (hp : p '\x00' = false)
    (h : p (peek (text.take k) j) = true) : j < k ∧ p (peek text j) = true := by
  by_cases hj : j < k
  · exact ⟨hj, peek_take hj ▸ h⟩
  · rw [peek_take_of_le (Nat.not_lt.mp hj), hp] at h
    cases h

theorem takeWhile_take {p : Char → Bool} (h : (text.takeWhile p).length ≤ k) :
    (text.take k).takeWhile p = text.takeWhile p := by
  induction text generalizing k with
  | nil => simp
  | cons c rest ih =>
    cases k with
    | zero =>
      rw [List.take_zero, List.takeWhile_nil]
      exact (List.length_eq_zero_iff.mp (Nat.le_zero.mp h)).symm
    | succ k =>
      rw [List.take_succ_cons, List.takeWhile_cons, List.takeWhile_cons]
      by_cases hc : p c = true
      · rw [List.takeWhile_cons, if_pos hc, List.length_cons] at h
        rw [if_pos hc, if_pos hc, ih (Nat.le_of_succ_le_succ h)]
      · rw [if_neg hc, if_neg hc]

end Excerpts

namespace Delimited

/-- A delimiter that closes in front of some character closes at the end of the text. -/
theorem Frame.move_nul {frame : Frame} {c next : Char} (h : frame.move c next = .close) :
    frame.move c '\x00' = .close := by
  have hopens : opensInterpolation c '\x00' = false := by simp [opensInterpolation]
  cases frame with
  | quote mark =>
    simp only [move, hopens, Bool.and_false, Bool.false_eq_true, if_false]
    simp only [move] at h
    split at h
    · cases h
    · exact h
  | interpolation depth => exact h
  | percent opener closer interpolates depth =>
    simp only [move, hopens, Bool.and_false, Bool.false_eq_true, if_false]
    simp only [move] at h
    split at h
    · cases h
    · exact h
  | regexp inClass =>
    simp only [move, hopens, Bool.false_eq_true, if_false]
    simp only [move] at h
    split at h
    · cases h
    · exact h

/-- The end of a delimiter is found in every excerpt that reaches up to it. -/
theorem scan_take {inner : Opened} {outer : List Opened} {taken found k : Nat} {text : List Char}
    (h : scan inner outer taken text = .ok found) (hk : found ≤ taken + k) :
    scan inner outer taken (text.take k) = .ok found := by
  obtain ⟨k, rfl⟩ : ∃ m, k = m + 1 := ⟨k - 1, by have := (scan_bounds h).1; omega⟩
  -- The cases are those of the scan. Every step that goes on leaves a character to be read, so the
  -- excerpt is long enough for the look at the next one.
  fun_induction scan inner outer taken text generalizing k with
  | case1 => cases h
  | case2 => cases h
  | case3 inner outer taken c behind ih =>
    have := (scan_bounds h).1
    obtain ⟨k, rfl⟩ : ∃ m, k = m + 1 + 1 := ⟨k - 2, by omega⟩
    rw [List.take_succ_cons, List.take_succ_cons, scan_escape]
    exact ih h k (by omega)
  | case4 inner outer taken c rest hc frame hmove ih =>
    have := (scan_bounds h).1
    obtain ⟨k, rfl⟩ : ∃ m, k = m + 1 := ⟨k - 1, by omega⟩
    rw [List.take_succ_cons, scan_stay hc (by rwa [peek_take k.succ_pos])]
    exact ih h k (by omega)
  | case5 inner taken c rest hc hmove =>
    have hmove : inner.frame.move c (peek (rest.take k) 0) = .close := by
      cases k with
      | zero => exact Frame.move_nul hmove
      | succ k => rwa [peek_take k.succ_pos]
    rw [List.take_succ_cons, scan_close hc hmove]
    exact h
  | case6 inner taken c rest hc hmove enclosing others ih =>
    have := (scan_bounds h).1
    obtain ⟨k, rfl⟩ : ∃ m, k = m + 1 := ⟨k - 1, by omega⟩
    rw [List.take_succ_cons, scan_close hc (by rwa [peek_take k.succ_pos])]
    exact ih h k (by omega)
  | case7 inner outer taken c rest hc hmove ih =>
    have := (scan_bounds h).1
    obtain ⟨k, rfl⟩ : ∃ m, k = m + 1 := ⟨k - 1, by omega⟩
    rw [List.take_succ_cons, scan_string hc (by rwa [peek_take k.succ_pos])]
    exact ih h k (by omega)
  | case8 => cases h
  | case9 inner outer taken c hc d behind hmove ih =>
    have := (scan_bounds h).1
    obtain ⟨k, rfl⟩ : ∃ m, k = m + 1 + 1 := ⟨k - 2, by omega⟩
    rw [peek_cons_zero] at hmove
    rw [List.take_succ_cons, List.take_succ_cons, scan_interpolation hc hmove]
    exact ih h k (by omega)

theorem length_take {frame : Frame} {opener found k : Nat} {text : List Char}
    (h : length frame opener text = .ok found) (hk : found ≤ k) :
    length frame opener (text.take k) = .ok found := by
  have hbounds := length_bounds h
  rw [length] at h
  split at h
  · rename_i taken hscan
    cases h
    rw [length, List.drop_take, scan_take hscan (by omega)]
  · cases h

end Delimited

namespace Token.Kind

theorem mem_keywords_of_ofKeyword? {word : String} {kind : Kind}
    (h : ofKeyword? word = some kind) : (word, kind) ∈ keywords := by
  obtain ⟨front, back, heq, -⟩ := List.lookup_eq_some_iff.mp h
  rw [heq]
  simp

/-- No keyword is a constant. -/
theorem ne_const_of_ofKeyword? {word : String} {kind : Kind} (h : ofKeyword? word = some kind) :
    kind ≠ .const := by
  have hall : ∀ entry ∈ keywords, entry.2 ≠ .const := by decide
  exact hall _ (mem_keywords_of_ofKeyword? h)

/-- No keyword starts with a capital. -/
theorem ofKeyword?_eq_none_of_isUpper {word : String}
    (h : isUpper (peek word.toList 0) = true) : ofKeyword? word = none := by
  have hall : ∀ entry ∈ keywords, (peek entry.1.toList 0).toNat < 128 ∧
      ('A' ≤ peek entry.1.toList 0 && peek entry.1.toList 0 ≤ 'Z') = false := by decide
  cases hword : ofKeyword? word with
  | none => rfl
  | some kind =>
    obtain ⟨hascii, hlower⟩ := hall _ (mem_keywords_of_ofKeyword? hword)
    rw [isUpper_of_ascii hascii, hlower] at h
    cases h

end Token.Kind

namespace Name

variable {text : List Char} {found : Lexeme} {k : Nat}

theorem run_take (h : run text ≤ k) : run (text.take k) = run text := by
  rw [run, takeWhile_take h]
  rfl

/-- What starts the name of a variable behind its mark belongs to the name. -/
theorem isNameCharacter_of_startsVariable {c : Char} (h : startsVariable c = true) :
    isNameCharacter c = true := by
  by_cases hc : c.toNat < 128
  · rw [startsVariable, isLetter_of_ascii hc, Bool.or_eq_true] at h
    simp only [isNameCharacter, Bool.or_eq_true]
    rcases h with h | h
    · exact Or.inl (Or.inl (Or.inl h))
    · exact Or.inl (Or.inr h)
  · have habove : (c.toNat > 127) = True := by
      rw [eq_iff_iff, iff_true]
      omega
    simp [isNameCharacter, habove]

/-- A name is a label, a keyword, or what its first character makes it. -/
theorem kind_read (named : Bool) (text : List Char) :
    (read named text).kind = .label ∨ (read named text).kind = kindOf text ∨
      ∃ word, Kind.ofKeyword? word = some (read named text).kind := by
  rw [read]
  generalize (hasMark (text.drop (run text)) && !isUpper (peek text 0)) = marked
  generalize (if marked = true then run text + 1 else run text) = length
  split
  · exact Or.inl rfl
  · split
    · exact Or.inr (Or.inl rfl)
    · cases hword : Kind.ofKeyword? (.ofList (text.take length)) with
      | none => exact Or.inr (Or.inl rfl)
      | some kind => exact Or.inr (Or.inr ⟨_, hword⟩)

/-- A constant starts with a capital. -/
theorem isUpper_of_const {named : Bool} (h : (read named text).kind = .const) :
    isUpper (peek text 0) = true := by
  rcases kind_read named text with hlabel | hname | ⟨word, hword⟩
  · rw [h] at hlabel
    cases hlabel
  · rw [h, kindOf] at hname
    split at hname
    · assumption
    · cases hname
  · exact absurd h (Kind.ne_const_of_ofKeyword? hword)

/-- A constant takes its name. -/
theorem read_of_const {named : Bool} (h : (read named text).kind = .const) :
    read named text = ⟨.const, .ofList (text.take (run text)), run text, none⟩ := by
  have hupper := isUpper_of_const h
  have hname : kindOf text = .const := by simp [kindOf, hupper]
  rw [read, hupper, Bool.not_true, Bool.and_false, hname] at h ⊢
  simp only [Bool.false_eq_true, if_false] at h ⊢
  split at h
  · cases h
  · rename_i hlabel
    rw [if_neg hlabel]
    split at h
    · rename_i hnamed
      rw [if_pos hnamed]
    · rename_i hnamed
      rw [if_neg hnamed]
      cases hword : Kind.ofKeyword? (.ofList (text.take (run text))) with
      | none => rfl
      | some kind =>
        rw [hword] at h
        exact absurd h (Kind.ne_const_of_ofKeyword? hword)

/-- A constant is read in its excerpt, where it is no keyword and no label. -/
theorem read_take {named : Bool} (hstart : isNameStart (peek text 0) = true)
    (h : (read named text).kind = .const) :
    read false (text.take (read named text).length) = read named text := by
  have hupper := isUpper_of_const h
  have heq := read_of_const h
  have hrun : run (text.take (run text)) = run text := run_take (Nat.le_refl _)
  have hfirst : isUpper (peek (text.take (run text)) 0) = true := by
    rwa [peek_take (run_pos hstart)]
  have hkeyword : Kind.ofKeyword? (.ofList (text.take (run text))) = none := by
    apply Kind.ofKeyword?_eq_none_of_isUpper
    rwa [String.toList_ofList]
  have hname : kindOf (text.take (run text)) = .const := by simp [kindOf, hfirst]
  have hcolon : (peek (text.take (run text)) (run text) == ':') = false := by
    rw [peek_take_of_le (Nat.le_refl _)]
    decide
  rw [heq, read]
  simp only [hrun, hfirst, Bool.not_true, Bool.and_false, Bool.false_eq_true, if_false, hcolon,
    Bool.not_false, Bool.false_and, List.take_take, Nat.min_self, hkeyword, hname,
    Option.getD_none]

/-- What starts the name of a variable makes the name longer than its mark. -/
theorem run_pos_of_startsVariable {mark : Nat} (h : startsVariable (peek text mark) = true) :
    0 < run (text.drop mark) := by
  apply length_takeWhile_pos (by decide)
  rw [peek_drop]
  exact isNameCharacter_of_startsVariable h

/-- An instance or class variable is read in its excerpt. -/
theorem readInstance_take (h : readInstance text = .ok found) :
    readInstance (text.take found.length) = .ok found := by
  rw [readInstance] at h ⊢
  dsimp only at h ⊢
  generalize hclass : (peek text 1 == '@') = classwide at h
  generalize hmark : (if classwide = true then 2 else 1) = mark at h
  have hpos : 0 < mark := by
    rw [← hmark]
    split <;> omega
  split at h
  · rename_i hfirst
    have hrun := run_pos_of_startsVariable hfirst
    cases h
    dsimp only
    have hsecond : peek (text.take (mark + run (text.drop mark))) 1 = peek text 1 :=
      peek_take (by omega)
    have hbehind : peek (text.take (mark + run (text.drop mark))) mark = peek text mark :=
      peek_take (by omega)
    rw [hsecond, hclass, hmark, hbehind, if_pos hfirst, List.drop_take, Nat.add_sub_cancel_left,
      run_take (Nat.le_refl _), List.take_take, Nat.min_self]
  · cases h

/-- A global variable is read in its excerpt. -/
theorem readGlobal_take (h : readGlobal text = .ok found) :
    readGlobal (text.take found.length) = .ok found := by
  simp only [readGlobal] at h ⊢
  split at h
  · rename_i hfirst
    have hrun := run_pos_of_startsVariable hfirst
    cases h
    dsimp only
    rw [peek_take (by omega), if_pos hfirst, List.drop_take, Nat.add_sub_cancel_left,
      run_take (Nat.le_refl _), List.take_take, Nat.min_self]
  · rename_i hname
    split at h
    · rename_i hdigit
      have hdigits : 0 < ((text.drop 1).takeWhile isDigit).length := by
        apply length_takeWhile_pos (by decide)
        rwa [peek_drop]
      cases h
      dsimp only
      rw [peek_take (by omega), if_neg hname, if_pos hdigit, List.drop_take,
        Nat.add_sub_cancel_left, takeWhile_take (Nat.le_refl _), List.take_take, Nat.min_self]
    · rename_i hdigit
      split at h
      · rename_i hmark
        cases h
        dsimp only
        rw [peek_take (by omega), if_neg hname, if_neg hdigit, if_pos hmark, List.take_take,
          Nat.min_self]
      · cases h

end Name

namespace Number

variable {text : List Char} {k : Nat}

theorem digits_take (h : digits text ≤ k) : digits (text.take k) = digits text := by
  induction text generalizing k with
  | nil => simp
  | cons c rest ih =>
    cases k with
    | zero =>
      rw [List.take_zero]
      exact (Nat.le_zero.mp h).symm
    | succ k =>
      rw [List.take_succ_cons, digits, digits]
      by_cases hc : (isDigit c || c == '_' && isDigit (peek rest 0)) = true
      · rw [digits, if_pos hc] at h
        have hc' : (isDigit c || c == '_' && isDigit (peek (rest.take k) 0)) = true := by
          simp only [Bool.or_eq_true, Bool.and_eq_true] at hc ⊢
          refine hc.imp_right ?_
          rintro ⟨hscore, hnext⟩
          have := digits_pos hnext
          exact ⟨hscore, by rwa [peek_take (by omega)]⟩
        rw [if_pos hc, if_pos hc', ih (Nat.le_of_succ_le_succ h)]
      · have hc' : ¬ (isDigit c || c == '_' && isDigit (peek (rest.take k) 0)) = true := by
          simp only [Bool.or_eq_true, Bool.and_eq_true] at hc ⊢
          intro h
          refine hc (h.imp_right ?_)
          rintro ⟨hscore, hnext⟩
          exact ⟨hscore, (peek_of_peek_take isDigit (by decide) hnext).2⟩
        rw [if_neg hc, if_neg hc']

theorem fraction_take (h : fraction text ≤ k) : fraction (text.take k) = fraction text := by
  rw [fraction] at h ⊢
  rw [fraction]
  by_cases hpoint : (peek text 0 == '.' && isDigit (peek text 1)) = true
  · rw [if_pos hpoint] at h ⊢
    have hdigit := (Bool.and_eq_true_iff.mp hpoint).2
    have hpos : 0 < digits (text.drop 1) := digits_pos (by rwa [peek_drop])
    rw [peek_take (by omega), peek_take (by omega), if_pos hpoint, List.drop_take,
      digits_take (by omega)]
  · rw [if_neg hpoint, if_neg]
    intro hpoint'
    rw [Bool.and_eq_true] at hpoint hpoint'
    exact hpoint ⟨(peek_of_peek_take (· == '.') (by decide) hpoint'.1).2,
      (peek_of_peek_take isDigit (by decide) hpoint'.2).2⟩

theorem exponent_take (h : exponent text ≤ k) : exponent (text.take k) = exponent text := by
  simp only [exponent] at h ⊢
  by_cases hletter : (peek text 0 == 'e' || peek text 0 == 'E') = true
  · rw [if_pos hletter] at h ⊢
    by_cases hdigit : isDigit (peek text 1) = true
    · rw [if_pos hdigit] at h ⊢
      have hpos : 0 < digits (text.drop 1) := digits_pos (by rwa [peek_drop])
      rw [peek_take (by omega), if_pos hletter, peek_take (by omega), if_pos hdigit,
        List.drop_take, digits_take (by omega)]
    · rw [if_neg hdigit] at h ⊢
      by_cases hsign : ((peek text 1 == '+' || peek text 1 == '-') && isDigit (peek text 2)) = true
      · rw [if_pos hsign] at h ⊢
        have hpos : 0 < digits (text.drop 2) :=
          digits_pos (by rw [peek_drop]; exact (Bool.and_eq_true_iff.mp hsign).2)
        rw [peek_take (by omega), if_pos hletter, peek_take (by omega), if_neg hdigit,
          peek_take (by omega), if_pos hsign, List.drop_take, digits_take (by omega)]
      · rw [if_neg hsign]
        split
        · rw [if_neg fun h => hdigit (peek_of_peek_take isDigit (by decide) h).2, if_neg]
          intro h
          rw [Bool.and_eq_true] at hsign h
          exact hsign ⟨(peek_of_peek_take (fun c => c == '+' || c == '-') (by decide) h.1).2,
            (peek_of_peek_take isDigit (by decide) h.2).2⟩
        · rfl
  · rw [if_neg hletter, if_neg]
    exact fun h => hletter (peek_of_peek_take (fun c => c == 'e' || c == 'E') (by decide) h).2

theorem isWordCharacter_nul : isWordCharacter '\x00' = false := by
  rw [isWordCharacter, isAlphanumeric_of_ascii (by decide)]
  rfl

/-- Behind its suffix a number goes on in no case, so the excerpt has to end there. -/
theorem suffix_take : suffix (text.take (suffix text)) = suffix text := by
  by_cases hsuffix :
      ((peek text 0 == 'r' || peek text 0 == 'i') && !isWordCharacter (peek text 1)) = true
  · have hone : suffix text = 1 := if_pos hsuffix
    rw [hone, suffix, peek_take Nat.one_pos, peek_take_of_le (Nat.le_refl 1), isWordCharacter_nul,
      (Bool.and_eq_true_iff.mp hsuffix).1]
    rfl
  · have hzero : suffix text = 0 := if_neg hsuffix
    rw [hzero, List.take_zero]
    rfl

/-- A number is read in its excerpt. -/
theorem read_take (text : List Char) : read (text.take (read text).length) = read text := by
  by_cases hradix : hasRadix text = true
  · have heq : read text = ⟨.int, .ofList (text.take (2 + ((text.drop 2).takeWhile
        isWordCharacter).length)), 2 + ((text.drop 2).takeWhile isWordCharacter).length, none⟩ := by
      rw [read, if_pos hradix]
    rw [heq]
    have hradix' : hasRadix
        (text.take (2 + ((text.drop 2).takeWhile isWordCharacter).length)) = true := by
      rwa [hasRadix, peek_take (by omega), peek_take (by omega)]
    rw [read, if_pos hradix', List.drop_take, Nat.add_sub_cancel_left,
      takeWhile_take (Nat.le_refl _)]
    dsimp only
    rw [List.take_take, Nat.min_self]
  · generalize hwhole : digits text = whole
    generalize hfraction : fraction (text.drop whole) = fractional
    generalize hexponent : exponent (text.drop (whole + fractional)) = scale
    generalize hsuffix : suffix (text.drop (whole + fractional + scale)) = last
    have heq : read text = ⟨if fractional + scale = 0 then .int else .float,
        .ofList (text.take (whole + fractional + scale + last)),
        whole + fractional + scale + last, none⟩ := by
      rw [read, if_neg hradix]
      simp only [hwhole, hfraction, hexponent, hsuffix]
    rw [heq]
    have hradix' : ¬hasRadix (text.take (whole + fractional + scale + last)) = true := by
      intro h
      rw [hasRadix, Bool.and_eq_true] at hradix h
      exact hradix ⟨(peek_of_peek_take (· == '0') (by decide) h.1).2,
        (peek_of_peek_take "xXbBoOdD".toList.contains (by decide) h.2).2⟩
    have hwhole' : digits (text.take (whole + fractional + scale + last)) = whole := by
      rw [digits_take (by omega), hwhole]
    have hfraction' : fraction ((text.take (whole + fractional + scale + last)).drop whole) =
        fractional := by
      rw [List.drop_take, fraction_take (by omega), hfraction]
    have hexponent' : exponent
        ((text.take (whole + fractional + scale + last)).drop (whole + fractional)) = scale := by
      rw [List.drop_take, exponent_take (by omega), hexponent]
    have hsuffix' : suffix
        ((text.take (whole + fractional + scale + last)).drop (whole + fractional + scale)) =
          last := by
      rw [List.drop_take, Nat.add_sub_cancel_left, ← hsuffix, suffix_take]
    rw [read, if_neg hradix']
    simp only [hwhole', hfraction', hexponent', hsuffix', List.take_take, Nat.min_self]

end Number

namespace Literal

variable {text : List Char} {found : Lexeme} {k : Nat}

theorem options_take (h : options text ≤ k) : options (text.take k) = options text := by
  rw [options, takeWhile_take h]
  rfl

/-- A string is read in its excerpt, where no colon makes it a label. -/
theorem readString_take {mark : Char} (h : readString mark text = .ok found)
    (hkind : found.kind = .string) : readString mark (text.take found.length) = .ok found := by
  obtain ⟨length, hlength, h⟩ := bind_eq_ok_iff.mp h
  dsimp only at h
  split at h
  · cases h
    cases hkind
  · cases h
    have hcolon : (peek (text.take length) length == ':') = false := by
      rw [peek_take_of_le (Nat.le_refl _)]
      decide
    rw [readString, Delimited.length_take hlength (Nat.le_refl _)]
    simp only [bind, Except.bind, hcolon, Bool.false_and, Bool.false_eq_true, if_false,
      List.take_take, Nat.min_self]
    rfl

/-- A command is read in its excerpt. -/
theorem readCommand_take (h : readCommand text = .ok found) :
    readCommand (text.take found.length) = .ok found := by
  obtain ⟨length, hlength, h⟩ := bind_eq_ok_iff.mp h
  cases h
  rw [readCommand, Delimited.length_take hlength (Nat.le_refl _)]
  simp only [bind, Except.bind, List.take_take, Nat.min_self]
  rfl

/-- A regular expression is read in its excerpt with its options. -/
theorem readRegexp_take (h : readRegexp text = .ok found) :
    readRegexp (text.take found.length) = .ok found := by
  obtain ⟨body, hbody, h⟩ := bind_eq_ok_iff.mp h
  cases h
  dsimp only
  have hoptions : options ((text.take (body + options (text.drop body))).drop body) =
      options (text.drop body) := by
    rw [List.drop_take, options_take (by omega)]
  rw [readRegexp, Delimited.length_take hbody (Nat.le_add_right _ _)]
  simp only [bind, Except.bind, hoptions, List.take_take, Nat.min_self]
  rfl

/-- A percent literal starts in every excerpt that holds its delimiter. -/
theorem startsPercent_take (h : startsPercent text = true) (hk : 2 < k) :
    startsPercent (text.take k) = true := by
  rwa [startsPercent, peek_take (by omega), peek_take hk]

/-- A percent literal is read in its excerpt. -/
theorem readPercent_take (h : readPercent text = .ok found) :
    2 < found.length ∧ readPercent (text.take found.length) = .ok found := by
  unfold readPercent at h ⊢
  dsimp only at h ⊢
  generalize hletter : peek text 1 = letter at h
  generalize hlead : (if percentLetters.contains letter = true then 2 else 1) = lead at h
  generalize hopener : peek text lead = opener at h
  obtain ⟨body, hbody, h⟩ := bind_eq_ok_iff.mp h
  have hbounds := (Delimited.length_bounds hbody).1
  have hlead' : 0 < lead := by
    rw [← hlead]
    split <;> omega
  generalize hlength : (if (letter == 'r') = true then body + options (text.drop body) else body) =
    length at h
  have hle : body ≤ length := by
    rw [← hlength]
    split <;> omega
  cases h
  dsimp only
  -- The letter and the opening mark lie inside the excerpt, so the same body and options are read.
  have hletter' : peek (text.take length) 1 = letter := by rw [peek_take (by omega), hletter]
  have hopener' : peek (text.take length) lead = opener := by rw [peek_take (by omega), hopener]
  have hlength' : (if (letter == 'r') = true then body + options ((text.take length).drop body)
      else body) = length := by
    split
    · rename_i hr
      rw [if_pos hr] at hlength
      rw [List.drop_take, options_take (by omega), hlength]
    · rename_i hr
      rwa [if_neg hr] at hlength
  refine ⟨by omega, ?_⟩
  rw [hletter', hlead, hopener', Delimited.length_take hbody hle]
  simp only [bind, Except.bind, hlength', List.take_take, Nat.min_self]
  rfl

/-- A character literal starts in its excerpt as well. -/
theorem startsCharacter_take (h : startsCharacter text = true) :
    startsCharacter (text.take (readCharacter text).length) = true := by
  rw [startsCharacter, Bool.and_eq_true] at h ⊢
  rw [readCharacter]
  dsimp only
  split
  · rename_i hescape
    rw [peek_take (by omega)]
    exact ⟨h.1, by rw [hescape]; rfl⟩
  · rw [peek_take (by omega), peek_take_of_le (by omega), Number.isWordCharacter_nul]
    exact ⟨h.1, by simp⟩

/-- A character literal is read in its excerpt. -/
theorem readCharacter_take (text : List Char) :
    readCharacter (text.take (readCharacter text).length) = readCharacter text := by
  generalize hlength : (if peek text 1 == '\\' then 3 else 2) = length
  have hread : readCharacter text = ⟨.string, .ofList (text.take length), length, none⟩ := by
    simp only [readCharacter, hlength]
  have htwo : 1 < length := by
    rw [← hlength]
    split <;> omega
  rw [hread, readCharacter, peek_take htwo]
  simp only [hlength, List.take_take, Nat.min_self]

/-- The name of a symbol is read in its excerpt, with its mark or its equals sign. -/
theorem symbolName_take : symbolName (text.take (symbolName text)) = symbolName text := by
  have hle : Name.run text ≤ symbolName text := by
    rw [symbolName]
    split
    · omega
    · split <;> omega
  have hrun : Name.run (text.take (symbolName text)) = Name.run text := Name.run_take hle
  generalize hlength : symbolName text = length at hle hrun
  rw [symbolName] at hlength ⊢
  rw [hrun, List.drop_take]
  generalize text.drop (Name.run text) = mark at hlength
  by_cases hmark : Name.hasMark mark = true
  · rw [if_pos hmark] at hlength
    have hmark' : Name.hasMark (mark.take (length - Name.run text)) = true := by
      rw [Name.hasMark, Bool.and_eq_true] at hmark ⊢
      rw [peek_take (by omega), peek_take_of_le (by omega)]
      exact ⟨hmark.1, by decide⟩
    rw [if_pos hmark', hlength]
  · rw [if_neg hmark] at hlength
    split at hlength
    · rename_i hequals
      have hsign : peek mark 0 = '=' := by
        simp only [Bool.and_eq_true, beq_iff_eq] at hequals
        exact hequals.1.1.1
      have hmark' : Name.hasMark (mark.take (length - Name.run text)) = false := by
        rw [Name.hasMark, peek_take (by omega), hsign]
        rfl
      rw [hmark', peek_take (by omega), peek_take_of_le (by omega), hsign]
      exact hlength
    · have hnone : mark.take (length - Name.run text) = [] := by
        rw [← hlength, Nat.sub_self, List.take_zero]
      rw [hnone]
      exact hlength

/-- The first of several spellings that a text starts with is the first one in its excerpt. -/
theorem find?_take {spellings : List (List Char)} {spelling : List Char}
    (h : spellings.find? (fun s => s.isPrefixOf text) = some spelling) :
    spellings.find? (fun s => s.isPrefixOf (text.take spelling.length)) = some spelling := by
  obtain ⟨hstarts, front, behind, rfl, hfront⟩ := List.find?_eq_some_iff_append.mp h
  have htake : text.take spelling.length = spelling :=
    (List.prefix_iff_eq_take.mp (List.isPrefixOf_iff_prefix.mp hstarts)).symm
  apply List.find?_eq_some_iff_append.mpr
  rw [htake]
  refine ⟨List.isPrefixOf_iff_prefix.mpr (List.prefix_refl _), front, behind, rfl, ?_⟩
  intro other hother
  have := hfront other hother
  rw [Bool.not_eq_true', Bool.eq_false_iff] at this ⊢
  intro hshorter
  exact this (List.isPrefixOf_iff_prefix.mpr ((List.isPrefixOf_iff_prefix.mp hshorter).trans
    (List.isPrefixOf_iff_prefix.mp hstarts)))

/-- The same symbol stands in its excerpt, where a value is expected. -/
theorem IsSymbol.take {context alone : Context} (halone : alone.last = none)
    (h : IsSymbol context text found) : IsSymbol alone (text.take found.length) found := by
  -- The excerpt of the excerpt is the excerpt.
  have htake (length : Nat) : (text.take length).take length = text.take length := by
    rw [List.take_take, Nat.min_self]
  cases h with
  | @quoted length hquote hlength =>
    have hbounds := (Delimited.length_bounds hlength).1
    have hfirst : peek (text.take length) 1 = peek text 1 := peek_take (by omega)
    have hsymbol : IsSymbol alone (text.take length) _ := .quoted (hfirst ▸ hquote)
      (hfirst ▸ Delimited.length_take hlength (Nat.le_refl _))
    rwa [htake] at hsymbol
  | @marked mark length hsign hmark hlength =>
    have htwo : 2 ≤ mark := by
      rw [← hmark]
      split <;> omega
    have hfirst : peek (text.take length) 1 = peek text 1 := peek_take (by omega)
    have hmark' : (if peek (text.take length) 2 = '@' then 3 else 2) = mark := by
      by_cases hat : peek text 2 = '@'
      · rw [if_pos hat] at hmark
        rw [peek_take (by omega), if_pos hat, hmark]
      · rw [if_neg hat] at hmark
        rw [if_neg, hmark]
        intro h
        have hthird := peek_of_peek_take (· == '@') (by decide) (beq_iff_eq.mpr h)
        exact hat (beq_iff_eq.mp hthird.2)
    have hrun : mark + Name.run ((text.take length).drop mark) = length := by
      rw [List.drop_take, Name.run_take (by omega), hlength]
    have hsymbol : IsSymbol alone (text.take length) _ := .marked (hfirst ▸ hsign) hmark' hrun
    rwa [htake] at hsymbol
  | @name length hname hlength =>
    have hpos : 0 < symbolName (text.drop 1) := by
      have : 0 < Name.run (text.drop 1) := Name.run_pos (by rwa [peek_drop])
      rw [symbolName]
      split
      · omega
      · split <;> omega
    have hfirst : peek (text.take length) 1 = peek text 1 := peek_take (by omega)
    have hrun : 1 + symbolName ((text.take length).drop 1) = length := by
      rw [List.drop_take, ← hlength, Nat.add_sub_cancel_left, symbolName_take]
    have hsymbol : IsSymbol alone (text.take length) _ := .name (hfirst ▸ hname) hrun
    rwa [htake] at hsymbol
  | @operator spelling hvalue hfind =>
    have hvalue' : alone.expectsValue (text.take (1 + spelling.length)) = true := by
      rw [Context.expectsValue, halone]
    have hfind' : Operator.symbols.find? (fun s =>
        s.isPrefixOf ((text.take (1 + spelling.length)).drop 1)) = some spelling := by
      rw [List.drop_take, Nat.add_sub_cancel_left, find?_take hfind]
    have hsymbol : IsSymbol alone (text.take (1 + spelling.length)) _ := .operator hvalue' hfind'
    rwa [htake] at hsymbol

/-- A symbol is read in its excerpt, where a value is expected. -/
theorem readSymbol?_take {context alone : Context} (halone : alone.last = none)
    (h : readSymbol? context text = .ok (some found)) :
    readSymbol? alone (text.take found.length) = .ok (some found) :=
  ((isSymbol_of_readSymbol? h).take halone).readSymbol?

end Literal

end XhrKeywords
