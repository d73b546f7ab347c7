import Mathlib.Data.List.TakeWhile
import Mathlib.Tactic.SplitIfs
import XhrKeywords.Proofs.Token.Origin
import XhrKeywords.Proofs.Token.Shape
import XhrKeywords.Syntax.Printer

/-!
# How tokens end

Printing takes line feeds off the end of a text and the equals sign off the name of a setter. Among
the tokens of a source neither can be part of what is taken off: a token ends in a line feed only if
it is the literal of an escaped one, and the name of a method that is called is never a setter's.
-/

namespace XhrKeywords

open Token Unicode

/-- A text that no line feed ends, the literal of an escaped one aside. -/
def IsTrim (text : String) : Prop :=
  text.toList.getLast? = some '\n' → text = "?\\\n"

namespace Token.Kind

/-- The kinds of tokens that may be the name of a method behind a receiver. -/
def namesCall (kind : Kind) : Bool :=
  kind == .ident || kind == .const || kind.isOperatorMethod

/-- What is known of the end of the text of a token. -/
structure Ends (kind : Kind) (text : String) : Prop where
  lineFeed : text.toList.getLast? = some '\n' → kind = .string ∧ text = "?\\\n"
  setterName : kind.namesCall → Syntax.Printer.setterName? text = none

variable {kind : Kind} {text : String}

theorem Ends.isTrim (h : kind.Ends text) : IsTrim text :=
  fun hlast => (h.lineFeed hlast).2

theorem Ends.of_ne {text : List Char} (h : text.getLast? ≠ some '\n')
    (hkind : kind.namesCall = false) : kind.Ends (.ofList text) := by
  refine ⟨fun hlast => ?_, fun hname => ?_⟩
  · rw [String.toList_ofList] at hlast
    exact absurd hlast h
  · rw [hkind] at hname
    cases hname

theorem Ends.of_not_mem {text : List Char} (h : '\n' ∉ text) (hkind : kind.namesCall = false) :
    kind.Ends (.ofList text) :=
  .of_ne (fun hlast => h (List.mem_of_getLast? hlast)) hkind

end Token.Kind

section Texts

variable {text front back : List Char} {k : Nat}

/-- The last of some characters is none that is not among them. -/
theorem getLast?_ne_of_not_mem {c : Char} (h : c ∉ text) : text.getLast? ≠ some c :=
  fun hlast => h (List.mem_of_getLast? hlast)

/-- A text ends as its second part does, where that is not empty. -/
theorem getLast?_append_ne (hfront : front.getLast? ≠ some '\n') (hback : '\n' ∉ back) :
    (front ++ back).getLast? ≠ some '\n' := by
  rw [List.getLast?_append]
  cases hlast : back.getLast? with
  | none => exact hfront
  | some c =>
    rintro ⟨rfl⟩
    exact hback (List.mem_of_getLast? hlast)

/-- Characters dropped in front leave the end, or nothing. -/
theorem getLast?_drop_ne (h : text.getLast? ≠ some '\n') : (text.drop k).getLast? ≠ some '\n' := by
  rw [List.getLast?_drop]
  split
  · nofun
  · exact h

/-- Two stretches one behind the other are free of line feeds when each is. -/
theorem not_mem_take_add {i : Nat} (hfront : '\n' ∉ text.take i)
    (hback : '\n' ∉ (text.drop i).take k) : '\n' ∉ text.take (i + k) := by
  rw [List.take_add, List.mem_append, not_or]
  exact ⟨hfront, hback⟩

/-- A line feed among the first characters is found at one of their places. -/
theorem not_mem_take (h : ∀ i < k, peek text i ≠ '\n') : '\n' ∉ text.take k := by
  intro hmem
  obtain ⟨i, hi, heq⟩ := List.mem_take_iff_getElem.mp hmem
  refine h i (by omega) ?_
  rw [peek, List.getD_eq_getElem?_getD, List.getElem?_eq_getElem (by omega), heq, Option.getD_some]

/-- Characters of a class without the line feed are free of it. -/
theorem not_mem_takeWhile {p : Char → Bool} (hp : p '\n' = false) :
    '\n' ∉ text.take (text.takeWhile p).length := by
  intro hmem
  rw [← List.prefix_iff_eq_take.mp (List.takeWhile_prefix p)] at hmem
  rw [List.mem_takeWhile_imp hmem] at hp
  cases hp

end Texts

/-- Only a name with an equals sign at its end is the name of a setter. -/
theorem setterName?_eq_none {text : String} (h : '=' ∉ text.toList) :
    Syntax.Printer.setterName? text = none := by
  have hlast : text.toList.getLast? ≠ some '=' := fun heq => h (List.mem_of_getLast? heq)
  simp [Syntax.Printer.setterName?, hlast]

variable {text : List Char} {found : Lexeme}

namespace Delimited

/-- The character that closes a delimiter. -/
def Frame.closer : Frame → Char
  | .quote mark => mark
  | .interpolation _ => '\x7d'
  | .percent _ closer _ _ => closer
  | .regexp _ => '/'

variable {frame next : Frame} {c behind : Char}

/-- A delimiter that stays open keeps its closer. -/
theorem Frame.closer_of_stay (h : frame.move c behind = .stay next) :
    next.closer = frame.closer := by
  cases frame <;> simp only [Frame.move] at h <;> repeat' split at h
  all_goals cases h <;> rfl

/-- A delimiter closes at its closer. -/
theorem Frame.eq_closer (h : frame.move c behind = .close) : c = frame.closer := by
  cases frame with
  | quote | interpolation | percent =>
    simp only [Frame.move] at h
    repeat' split at h
    all_goals first | assumption | cases h
  | regexp inClass =>
    simp only [Frame.move] at h
    split_ifs at h with _ _ _ hclose
    exact of_decide_eq_true (Bool.and_eq_true_iff.mp hclose).1

/-- Only a quote opens a string, and no line feed is one. -/
theorem Frame.ne_lineFeed_of_string (h : frame.move c behind = .string) : c ≠ '\n' := by
  rintro rfl
  cases frame <;> simp only [Frame.move] at h <;> repeat' split at h
  all_goals first | (rename_i hquote; cases hquote; done) | cases h

/-- Behind the first character a place counts one less. -/
theorem getElem?_behind (c : Char) (rest : List Char) {taken length : Nat}
    (h : taken + 1 < length) :
    (c :: rest)[length - taken - 1]? = rest[length - (taken + 1) - 1]? := by
  have hindex : length - taken - 1 = length - (taken + 1) - 1 + 1 := by omega
  rw [hindex, List.getElem?_cons_succ]

/-- Where no open delimiter closes with a line feed, the last character of the outermost one is
none. -/
theorem scan_last {inner : Opened} {outer : List Opened} {taken length : Nat}
    (h : scan inner outer taken text = .ok length)
    (hopen : ∀ o ∈ inner :: outer, o.frame.closer ≠ '\n') :
    text[length - taken - 1]? ≠ some '\n' := by
  -- The closing mark is the last character taken, and none of the open frames is closed by a line
  -- feed.
  fun_induction scan inner outer taken text with
  | case1 => cases h
  | case2 => cases h
  | case3 inner outer taken d behind ih =>
    have hlt := (scan_bounds h).1
    rw [getElem?_behind _ _ (by omega), getElem?_behind _ _ (by omega)]
    exact ih h hopen
  | case4 inner outer taken c rest _ frame hmove ih =>
    rw [getElem?_behind _ _ (scan_bounds h).1]
    have hinner := hopen inner List.mem_cons_self
    rw [← Frame.closer_of_stay hmove] at hinner
    exact ih h (List.forall_mem_cons.mpr ⟨hinner, (List.forall_mem_cons.mp hopen).2⟩)
  | case5 inner taken c rest _ hmove =>
    cases h
    have hinner := hopen inner List.mem_cons_self
    rw [← Frame.eq_closer hmove] at hinner
    simpa using hinner
  | case6 inner taken c rest _ _ enclosing others ih =>
    rw [getElem?_behind _ _ (scan_bounds h).1]
    exact ih h (List.forall_mem_cons.mp hopen).2
  | case7 inner outer taken c rest _ hmove ih =>
    rw [getElem?_behind _ _ (scan_bounds h).1]
    exact ih h (List.forall_mem_cons.mpr ⟨Frame.ne_lineFeed_of_string hmove, hopen⟩)
  | case8 => cases h
  | case9 inner outer taken c _ d behind _ ih =>
    have hlt := (scan_bounds h).1
    rw [getElem?_behind _ _ (by omega), getElem?_behind _ _ (by omega)]
    exact ih h (List.forall_mem_cons.mpr ⟨(by decide : '\x7d' ≠ '\n'), hopen⟩)

/-- A delimited literal ends in its closer and not in a line feed. -/
theorem length_last {opener length : Nat} (h : Delimited.length frame opener text = .ok length)
    (hcloser : frame.closer ≠ '\n') : (text.take length).getLast? ≠ some '\n' := by
  obtain ⟨hlt, hle⟩ := length_bounds h
  rw [Delimited.length] at h
  split at h
  · rename_i taken hscan
    cases h
    have hlast := scan_last hscan (by simpa using hcloser)
    rw [List.getElem?_drop] at hlast
    rw [List.getLast?_take, if_neg (by omega)]
    have hindex : opener + (length - opener - 1) = length - 1 := by omega
    rw [hindex, List.getElem?_eq_getElem (by omega)] at hlast
    rwa [List.getElem?_eq_getElem (by omega), Option.some_or]
  · cases h

end Delimited

namespace Name

theorem not_mem_run (text : List Char) : '\n' ∉ text.take (run text) :=
  not_mem_takeWhile (by decide)

/-- A name consists of the characters of names, a question or exclamation mark at its end aside. -/
theorem mem_read {named : Bool} {c : Char} (h : c ∈ (read named text).text.toList) :
    isNameCharacter c ∨ c = '?' ∨ c = '!' := by
  have hrun : c ∈ text.take (run text) → isNameCharacter c := by
    intro hc
    rw [run, ← List.prefix_iff_eq_take.mp (List.takeWhile_prefix _)] at hc
    exact List.mem_takeWhile_imp hc
  have hword : (read named text).text = .ofList (text.take
      (if hasMark (text.drop (run text)) && !isUpper (peek text 0) then run text + 1
        else run text)) := by
    rw [read]
    generalize (hasMark (text.drop (run text)) && !isUpper (peek text 0)) = marked
    generalize (if marked = true then run text + 1 else run text) = length
    split
    · rfl
    · split <;> rfl
  rw [hword, String.toList_ofList] at h
  split at h
  · rename_i hmark
    rw [List.take_add, List.mem_append] at h
    rcases h with h | h
    · exact Or.inl (hrun h)
    · have hfirst : c = peek (text.drop (run text)) 0 := by
        revert h
        cases text.drop (run text) with
        | nil => simp
        | cons d others => exact fun hc => List.mem_singleton.mp hc
      rw [hasMark, ← hfirst] at hmark
      simp only [Bool.and_eq_true, Bool.or_eq_true, beq_iff_eq] at hmark
      exact Or.inr hmark.1.1
  · exact Or.inl (hrun h)

/-- A name has neither line feeds nor equals signs. -/
theorem ends_read (named : Bool) (text : List Char) :
    (read named text).kind.Ends (read named text).text := by
  have hfree {c : Char} (hname : isNameCharacter c = false) (hmarks : c ≠ '?' ∧ c ≠ '!') :
      c ∉ (read named text).text.toList := by
    intro hmem
    rcases mem_read hmem with h | h | h
    · rw [hname] at h
      cases h
    · exact hmarks.1 h
    · exact hmarks.2 h
  refine ⟨?_, fun _ => setterName?_eq_none (hfree (by decide) (by decide))⟩
  intro hlast
  exact absurd (List.mem_of_getLast? hlast) (hfree (by decide) (by decide))

/-- A variable of an object or a class has no line feed. -/
theorem ends_readInstance (hmark : peek text 0 = '@') (h : readInstance text = .ok found) :
    found.kind.Ends found.text := by
  rw [readInstance] at h
  have hlead : '\n' ∉ text.take (if peek text 1 == '@' then 2 else 1) := by
    refine not_mem_take fun i hi => ?_
    split at hi
    · rename_i hsecond
      rcases (by omega : i = 0 ∨ i = 1) with rfl | rfl
      · exact hmark ▸ by decide
      · exact beq_iff_eq.mp hsecond ▸ by decide
    · rw [Nat.lt_one_iff.mp hi]
      exact hmark ▸ by decide
  dsimp only at h
  generalize (peek text 1 == '@') = classwide at h hlead
  generalize (if classwide = true then 2 else 1) = mark at h hlead
  split at h
  · cases h
    refine .of_not_mem (not_mem_take_add hlead (not_mem_run _)) ?_
    cases classwide <;> rfl
  · cases h

/-- A global variable has no line feed. -/
theorem ends_readGlobal (hmark : peek text 0 = '$') (h : readGlobal text = .ok found) :
    found.kind.Ends found.text := by
  have hlead : '\n' ∉ text.take 1 := by
    refine not_mem_take fun i hi => ?_
    rw [Nat.lt_one_iff.mp hi, hmark]
    decide
  simp only [readGlobal] at h
  split at h
  · cases h
    exact .of_not_mem (not_mem_take_add hlead (not_mem_run _)) rfl
  · split at h
    · cases h
      refine .of_not_mem (not_mem_take_add hlead (not_mem_takeWhile ?_)) rfl
      decide
    · split at h
      · rename_i hsecond
        cases h
        refine .of_not_mem (not_mem_take fun i hi => ?_) rfl
        rcases (by omega : i = 0 ∨ i = 1) with rfl | rfl
        · exact hmark ▸ by decide
        · intro hfeed
          rw [hfeed] at hsecond
          cases hsecond
      · cases h

end Name

namespace Number

theorem not_mem_digits (text : List Char) : '\n' ∉ text.take (digits text) := by
  have hdigit : isDigit '\n' = false := by decide
  induction text with
  | nil => simp
  | cons c rest ih =>
    rw [digits]
    split
    · rename_i hc
      rw [List.take_succ_cons, List.mem_cons, not_or]
      refine ⟨?_, ih⟩
      rintro rfl
      simp [hdigit] at hc
    · simp

theorem not_mem_fraction (text : List Char) : '\n' ∉ text.take (fraction text) := by
  rw [fraction]
  split
  · rename_i hpoint
    refine not_mem_take_add (not_mem_take fun i hi => ?_) (not_mem_digits _)
    rw [Nat.lt_one_iff.mp hi, beq_iff_eq.mp (Bool.and_eq_true_iff.mp hpoint).1]
    decide
  · simp

theorem not_mem_exponent (text : List Char) : '\n' ∉ text.take (exponent text) := by
  have hletter : (peek text 0 == 'e' || peek text 0 == 'E') = true → peek text 0 ≠ '\n' := by
    intro h heq
    simp [heq] at h
  rw [exponent]
  split
  · rename_i h
    split
    · refine not_mem_take_add (not_mem_take fun i hi => ?_) (not_mem_digits _)
      exact Nat.lt_one_iff.mp hi ▸ hletter h
    · split
      · rename_i hsign
        refine not_mem_take_add (not_mem_take fun i hi => ?_) (not_mem_digits _)
        rcases (by omega : i = 0 ∨ i = 1) with rfl | rfl
        · exact hletter h
        · intro heq
          simp [heq] at hsign
      · simp
  · simp

theorem not_mem_suffix (text : List Char) : '\n' ∉ text.take (suffix text) := by
  rw [suffix]
  split
  · rename_i h
    refine not_mem_take fun i hi heq => ?_
    rw [Nat.lt_one_iff.mp hi] at heq
    simp [heq] at h
  · simp

/-- A number has no line feed. -/
theorem ends_read (text : List Char) : (read text).kind.Ends (read text).text := by
  rw [read]
  split
  · rename_i hradix
    refine .of_not_mem (not_mem_take_add (not_mem_take fun i hi => ?_) ?_) rfl
    · rw [hasRadix, Bool.and_eq_true, beq_iff_eq] at hradix
      rcases (by omega : i = 0 ∨ i = 1) with rfl | rfl
      · exact hradix.1 ▸ by decide
      · intro heq
        rw [heq] at hradix
        exact absurd hradix.2 (by decide)
    · exact not_mem_takeWhile (by decide +kernel)
  · refine .of_not_mem ?_ ?_
    · refine not_mem_take_add (not_mem_take_add (not_mem_take_add ?_ ?_) ?_) ?_
      · exact not_mem_digits text
      · exact not_mem_fraction _
      · exact not_mem_exponent _
      · exact not_mem_suffix _
    · dsimp only
      split <;> rfl

end Number

/-- The opener of a heredoc has no line feed. -/
theorem Heredoc.ends_read? (h : Heredoc.read? text = some found) :
    found.kind.Ends found.text := by
  obtain ⟨_, _, _, _, hopener, rfl⟩ := Heredoc.exists_isOpener_of_read? h
  exact .of_not_mem (not_mem_take fun i hi => hopener.peek_ne hi) rfl

/-- An operator that is the name of a method is not the name of a setter. -/
theorem Operator.ends_read (h : Operator.read text = .ok found) :
    found.kind.Ends found.text := by
  have hall : ∀ entry ∈ table, '\n' ∉ entry.1 ∧
      (entry.2.namesCall → Syntax.Printer.setterName? (.ofList entry.1) = none) := by
    decide +kernel
  obtain ⟨_, _, hmem, -, rfl⟩ := exists_entry_of_read h
  obtain ⟨hfree, hname⟩ := hall _ hmem
  refine ⟨fun hlast => ?_, hname⟩
  rw [String.toList_ofList] at hlast
  exact absurd (List.mem_of_getLast? hlast) hfree

namespace Literal

theorem not_mem_options (text : List Char) : '\n' ∉ text.take (options text) :=
  not_mem_takeWhile (by decide)

theorem ends_readString {mark : Char} (hmark : mark ≠ '\n') (h : readString mark text = .ok found) :
    found.kind.Ends found.text := by
  obtain ⟨length, hlength, h⟩ := bind_eq_ok_iff.mp h
  have hlast := Delimited.length_last hlength hmark
  dsimp only at h
  split at h <;> cases h <;> exact .of_ne hlast rfl

theorem ends_readCommand (h : readCommand text = .ok found) : found.kind.Ends found.text := by
  obtain ⟨length, hlength, h⟩ := bind_eq_ok_iff.mp h
  cases h
  exact .of_ne (Delimited.length_last hlength (by decide : '\x60' ≠ '\n')) rfl

theorem ends_readRegexp (h : readRegexp text = .ok found) : found.kind.Ends found.text := by
  obtain ⟨body, hbody, h⟩ := bind_eq_ok_iff.mp h
  cases h
  refine .of_ne ?_ rfl
  rw [List.take_add]
  exact getLast?_append_ne (Delimited.length_last hbody (by decide : '/' ≠ '\n'))
    (not_mem_options _)

/-- The delimiter of a percent literal is not closed by a line feed. -/
theorem closerOf_ne {opener : Char} (h : opener ≠ '\n') : closerOf opener ≠ '\n' := by
  rw [closerOf]
  split_ifs
  · decide
  · decide
  · decide
  · decide
  · exact h

theorem ends_readPercent (hstart : startsPercent text = true) (h : readPercent text = .ok found) :
    found.kind.Ends found.text := by
  obtain ⟨body, hbody, h⟩ := bind_eq_ok_iff.mp h
  have hopener : peek text (if percentLetters.contains (peek text 1) then 2 else 1) ≠ '\n' := by
    intro hfeed
    rw [startsPercent] at hstart
    split at hstart
    · rename_i hletter
      rw [if_pos hletter] at hfeed
      simp [hfeed, isGap] at hstart
    · rename_i hletter
      rw [if_neg hletter] at hfeed
      simp [hfeed] at hstart
  have hlast := Delimited.length_last hbody (closerOf_ne hopener)
  cases h
  refine .of_ne ?_ ?_
  · split
    · rw [List.take_add]
      exact getLast?_append_ne hlast (not_mem_options _)
    · exact hlast
  · dsimp only
    split_ifs <;> rfl

/-- Only the literal of an escaped line feed ends in one. -/
theorem ends_readCharacter (hstart : startsCharacter text = true) (hmark : peek text 0 = '?') :
    (readCharacter text).kind.Ends (readCharacter text).text := by
  rw [startsCharacter, Bool.and_eq_true] at hstart
  obtain ⟨hgap, -⟩ := hstart
  cases text with
  | nil => cases hmark
  | cons c behind =>
    cases behind with
    | nil => cases hgap
    | cons d rest =>
      rw [peek_cons_zero] at hmark
      rw [peek_cons_succ, peek_cons_zero] at hgap
      subst hmark
      rw [readCharacter]
      split
      · rename_i hescape
        rw [peek_cons_succ, peek_cons_zero, beq_iff_eq] at hescape
        refine ⟨fun hlast => ?_, fun hname => by cases hname⟩
        cases rest with
        | nil => simp [hescape] at hlast
        | cons e others =>
          have he : e = '\n' := by simpa [hescape] using hlast
          simp [hescape, he]
      · refine .of_ne ?_ rfl
        rintro hlast
        have hd : d = '\n' := by simpa using hlast
        rw [hd] at hgap
        cases hgap

theorem not_mem_symbolName (text : List Char) : '\n' ∉ text.take (symbolName text) := by
  have hrun := Name.not_mem_run text
  rw [symbolName]
  split
  · rename_i hmark
    refine not_mem_take_add hrun (not_mem_take fun i hi heq => ?_)
    rw [Nat.lt_one_iff.mp hi] at heq
    simp [Name.hasMark, heq] at hmark
  · split
    · rename_i hassign
      refine not_mem_take_add hrun (not_mem_take fun i hi heq => ?_)
      rw [Nat.lt_one_iff.mp hi] at heq
      simp [heq] at hassign
    · exact hrun

/-- A symbol ends as its name or its quoted text does. -/
theorem ends_readSymbol? {context : Context} (hcolon : peek text 0 = ':')
    (h : readSymbol? context text = .ok (some found)) : found.kind.Ends found.text := by
  have hlead : '\n' ∉ text.take 1 := by
    refine not_mem_take fun i hi => ?_
    rw [Nat.lt_one_iff.mp hi, hcolon]
    decide
  -- What stands behind the colon has no line feed, or it ends with its quote.
  have htext {length : Nat} (h : '\n' ∉ text.take length) :
      Kind.symbol.Ends (.ofList ((text.take length).drop 1)) :=
    .of_ne (getLast?_drop_ne (getLast?_ne_of_not_mem h)) rfl
  cases isSymbol_of_readSymbol? h with
  | quoted hquote hlength =>
    refine .of_ne (getLast?_drop_ne (Delimited.length_last hlength ?_)) rfl
    intro heq
    rcases hquote with hmark | hmark <;> rw [hmark] at heq <;> cases heq
  | marked hsign hmark hlength =>
    subst hlength hmark
    have hsecond : peek text 1 ≠ '\n' := by rcases hsign with heq | heq <;> rw [heq] <;> decide
    refine htext (not_mem_take_add (not_mem_take fun i hi => ?_) (Name.not_mem_run _))
    split at hi
    · rename_i hthird
      rcases (by omega : i = 0 ∨ i = 1 ∨ i = 2) with rfl | rfl | rfl
      · exact hcolon ▸ by decide
      · exact hsecond
      · exact hthird ▸ by decide
    · rcases (by omega : i = 0 ∨ i = 1) with rfl | rfl
      · exact hcolon ▸ by decide
      · exact hsecond
  | name _ hlength =>
    subst hlength
    exact htext (not_mem_take_add hlead (not_mem_symbolName _))
  | operator _ hfind =>
    have hsymbols : ∀ spelling ∈ Operator.symbols, '\n' ∉ spelling := by decide
    have hhead := List.find?_some hfind
    refine htext (not_mem_take_add hlead ?_)
    rw [← List.prefix_iff_eq_take.mp (List.isPrefixOf_iff_prefix.mp hhead)]
    exact hsymbols _ (List.mem_of_find?_eq_some hfind)

end Literal

namespace Token

/-- Whatever is read as a lexeme ends as it should. -/
theorem ends_readLexeme {context : Context} (h : readLexeme context text = .ok found) :
    found.kind.Ends found.text := by
  cases scanned_of_readLexeme h with
  | string hmark _ h => exact Literal.ends_readString (by rcases hmark with rfl | rfl <;> decide) h
  | command _ h => exact Literal.ends_readCommand h
  | number => exact Number.ends_read text
  | name => exact Name.ends_read _ text
  | instanceVariable hmark h => exact Name.ends_readInstance hmark h
  | globalVariable hmark h => exact Name.ends_readGlobal hmark h
  | symbol hcolon h => exact Literal.ends_readSymbol? hcolon h
  | heredoc _ h => exact Heredoc.ends_read? h
  | percent _ hstarts h => exact Literal.ends_readPercent hstarts h
  | regexp _ h => exact Literal.ends_readRegexp h
  | character hmark hstarts => exact Literal.ends_readCharacter hstarts hmark
  | operator h => exact Operator.ends_read h

/-- The tokens of a list that are no line breaks end as they should. -/
def AllEnd (tokens : List Token) : Prop :=
  ∀ t ∈ tokens, t.kind ≠ .newline → t.kind.Ends t.text

/-- The tokens of a source that are no line breaks end as they should. -/
theorem ends_of_tokenize {source : String} {tokens : List Token}
    (h : tokenize source = .ok tokens) : AllEnd tokens := by
  obtain ⟨last, hlast⟩ := finished_of_tokenize h
  intro t ht hkind
  cases hlast.origin ht with
  | newline => exact absurd rfl hkind
  | lexeme _ _ _ _ hfound => exact ends_readLexeme hfound.reads
  | eof => exact ⟨fun hlast => absurd hlast (by decide : none ≠ some '\n'), nofun⟩

end Token

end XhrKeywords
