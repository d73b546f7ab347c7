import XhrKeywords.Proofs.Syntax.Plain
import XhrKeywords.Proofs.Token.Word
import XhrKeywords.Proofs.Unicode.Ascii

/-!
# The words of plain expressions

Each word that a plain expression is written with can be read off its text, whatever stands behind
the expression: a separator, a closing bracket, a dot in front of a name, or the end.
-/

namespace XhrKeywords

open Unicode Token Syntax Word

section Characters

variable {c : Char}

theorem ascii_of_isLowerStart (h : isLowerStart c = true) : c.toNat < 128 := by
  rw [isLowerStart, Bool.or_eq_true, Bool.and_eq_true, beq_iff_eq] at h
  rcases h with ⟨-, h⟩ | rfl
  · exact ascii_of_le (of_decide_eq_true h) (by decide)
  · decide

theorem ascii_of_isAsciiDigit (h : isAsciiDigit c = true) : c.toNat < 128 := by
  rw [isAsciiDigit, Bool.and_eq_true] at h
  exact ascii_of_le (of_decide_eq_true h.2) (by decide)

theorem ascii_of_isLowerPart (h : isLowerPart c = true) : c.toNat < 128 := by
  rw [isLowerPart, Bool.or_eq_true] at h
  exact h.elim ascii_of_isLowerStart ascii_of_isAsciiDigit

/-- Every character of a lower-case name may stand in a name. -/
theorem isNameCharacter_of_isLowerPart (h : isLowerPart c = true) :
    Name.isNameCharacter c = true :=
  of_ascii ascii_of_isLowerPart (by decide) h

theorem isIdentifierContinue_of_isLowerPart (h : isLowerPart c = true) :
    isIdentifierContinue c = true := by
  rw [isIdentifierContinue_of_ascii (ascii_of_isLowerPart h)]
  exact of_ascii (q := fun c => c == '_' || isAsciiLetter c || isAsciiDigit c)
    ascii_of_isLowerPart (by decide) h

theorem isIdentifierStart_of_isLowerStart (h : isLowerStart c = true) :
    isIdentifierStart c = true := by
  rw [isIdentifierStart_of_ascii (ascii_of_isLowerStart h)]
  exact of_ascii (q := fun c => c == '_' || isAsciiLetter c) ascii_of_isLowerStart (by decide) h

/-- A character that a lower-case name starts with, among the kinds of first characters that the
lexer tells apart. -/
def opensName (c : Char) : Bool :=
  Name.isNameStart c && isSolid c &&
    !(['\x22', '\x27', '\x60', '@', '$', ':', '<', '%', '/', '?', '='].contains c)

theorem isSolid_of_opensName (h : opensName c = true) : isSolid c = true := by
  rw [opensName, Bool.and_eq_true, Bool.and_eq_true] at h
  exact h.1.2

theorem opensName_of_isLowerStart (h : isLowerStart c = true) : opensName c = true :=
  of_ascii ascii_of_isLowerStart (by decide) h

theorem ascii_of_isCapital (h : isCapital c = true) : c.toNat < 128 := by
  rw [isCapital, Bool.and_eq_true] at h
  exact ascii_of_le (of_decide_eq_true h.2) (by decide)

theorem isDigit_of_isCapital (h : isCapital c = true) : isDigit c = false := by
  rw [isDigit_of_ascii (ascii_of_isCapital h), ← Bool.not_eq_true']
  exact of_ascii (q := fun c => !isAsciiDigit c) ascii_of_isCapital (by decide) h

theorem isUpper_of_isLowerStart (h : isLowerStart c = true) : isUpper c = false := by
  rw [isUpper_of_ascii (ascii_of_isLowerStart h), ← Bool.not_eq_true']
  exact of_ascii (q := fun c => !('A' ≤ c && c ≤ 'Z')) ascii_of_isLowerStart (by decide) h

theorem isUpper_of_isCapital (h : isCapital c = true) : isUpper c = true := by
  rw [isUpper_of_ascii (ascii_of_isCapital h)]
  exact h

theorem isDigit_of_isLowerStart (h : isLowerStart c = true) : isDigit c = false := by
  rw [isDigit_of_ascii (ascii_of_isLowerStart h), ← Bool.not_eq_true']
  exact of_ascii (q := fun c => !isAsciiDigit c) ascii_of_isLowerStart (by decide) h

end Characters

theorem peek_append_right (text behind : List Char) (k : Nat) :
    peek (text ++ behind) (text.length + k) = peek behind k := by
  rw [peek, peek, List.getD_eq_getElem?_getD, List.getD_eq_getElem?_getD,
    List.getElem?_append_right (Nat.le_add_right _ _), Nat.add_sub_cancel_left]

/-- The characters of a class at the head of a text end in front of the first other one. -/
theorem takeWhile_append_eq {p : Char → Bool} {text behind : List Char}
    (htext : ∀ c ∈ text, p c = true) (hbehind : p (peek behind 0) = false) :
    (text ++ behind).takeWhile p = text := by
  rw [List.takeWhile_append_of_pos htext]
  cases behind with
  | nil => simp
  | cons c rest =>
    rw [peek_cons_zero] at hbehind
    simp [hbehind]

/-- What may stand behind a plain expression and the words in it. -/
def Stops (behind : List Char) : Prop :=
  peek behind 0 ∈ ['\x00', ' ', ',', '(', ')', ']'] ∨
    peek behind 0 = '.' ∧ isDigit (peek behind 1) = false

/-- Whether a character ends a word, whatever word it is. -/
def endsWord (c : Char) : Bool :=
  !Name.isNameCharacter c && !isDigit c && !(['?', '!', ':', '='].contains c)

theorem Stops.endsWord {behind : List Char} (h : Stops behind) :
    endsWord (peek behind 0) = true := by
  rcases h with h | ⟨h, -⟩
  · have hall : ['\x00', ' ', ',', '(', ')', ']'].all XhrKeywords.endsWord = true := by decide
    exact List.all_eq_true.mp hall _ h
  · rw [h]
    decide

theorem stops_cons {c : Char} {rest : List Char} (h : c ∈ ['\x00', ' ', ',', '(', ')', ']']) :
    Stops (c :: rest) :=
  Or.inl h

theorem stops_nil : Stops [] := Or.inl (by decide)

theorem endsWord_iff {c : Char} :
    endsWord c = true ↔ Name.isNameCharacter c = false ∧ isDigit c = false ∧
      c ≠ '?' ∧ c ≠ '!' ∧ c ≠ ':' ∧ c ≠ '=' := by
  simp [endsWord, and_assoc]

namespace Name

variable {name behind : List Char}

/-- The run of a name ends where the name ends. -/
theorem run_append (hname : ∀ c ∈ name, isNameCharacter c = true)
    (hbehind : isNameCharacter (peek behind 0) = false) : run (name ++ behind) = name.length := by
  rw [run, takeWhile_append_eq hname hbehind]

/-- A name is read up to its end, as a keyword where it is one. -/
theorem read_append (hname : ∀ c ∈ name, isNameCharacter c = true)
    (hbehind : endsWord (peek behind 0) = true) (named : Bool) :
    read named (name ++ behind) =
      { kind :=
          if named then kindOf (name ++ behind)
          else (Kind.ofKeyword? (.ofList name)).getD (kindOf (name ++ behind))
        text := .ofList name, length := name.length } := by
  obtain ⟨hcharacter, -, hquestion, hbang, hcolon, -⟩ := endsWord_iff.mp hbehind
  have hcolon' : (peek (name ++ behind) name.length == ':') = false := by
    rw [beq_eq_false_iff_ne]
    exact peek_append_right name behind 0 ▸ hcolon
  have hmark : hasMark behind = false := by
    simp [hasMark, hquestion, hbang]
  rw [read, run_append hname hcharacter, List.drop_left, hmark, Bool.false_and]
  simp only [Bool.false_eq_true, if_false, hcolon', Bool.and_false, Bool.false_and,
    List.take_left]
  cases named <;> rfl

/-- A name with a colon and a space behind it is a label. -/
theorem read_label (hname : ∀ c ∈ name, isNameCharacter c = true) :
    read false (name ++ ':' :: ' ' :: behind) =
      { kind := .label, text := .ofList name, length := name.length + 1 } := by
  have hcolon : peek (name ++ ':' :: ' ' :: behind) name.length = ':' :=
    peek_append_right name (':' :: ' ' :: behind) 0
  have hspace : peek (name ++ ':' :: ' ' :: behind) (name.length + 1) = ' ' :=
    peek_append_right name (':' :: ' ' :: behind) 1
  have hmark : hasMark (':' :: ' ' :: behind) = false := rfl
  rw [read, run_append hname (by rw [peek_cons_zero]; decide), List.drop_left, hmark,
    Bool.false_and]
  simp [hcolon, hspace]

end Name

/-- Where a name starts, a name is read. -/
theorem readLexeme_name {first : Char} (text : List Char) (hfirst : opensName first = true)
    (hdigit : isDigit first = false) (context : Context) :
    readLexeme context (first :: text) =
      .ok (Name.read context.expectsName (first :: text)) := by
  simp only [opensName, Bool.and_eq_true, Bool.not_eq_true', List.contains_eq_mem,
    decide_eq_false_iff_not, List.mem_cons, not_or] at hfirst
  obtain ⟨⟨hname, -⟩, hdouble, hsingle, hback, -⟩ := hfirst
  simp [readLexeme, hdouble, hsingle, hback, hdigit, hname, pure, Except.pure]

/-- A text that is read as one name where a name starts. -/
structure IsName (name : String) (first : Char) (others : List Char) : Prop where
  toList_eq : name.toList = first :: others
  opens : opensName first = true
  notDigit : isDigit first = false
  characters : ∀ c ∈ name.toList, Name.isNameCharacter c = true

/-- What each character of a lower-case name is. -/
theorem isLowerPart_of_mem {name : String} (h : isLowerName name = true) :
    ∀ c ∈ name.toList, isLowerPart c = true := by
  rw [isLowerName] at h
  cases hname : name.toList with
  | nil => exact nofun
  | cons first others =>
    rw [hname, Bool.and_eq_true, List.all_eq_true] at h
    refine List.forall_mem_cons.mpr ⟨?_, h.2⟩
    rw [isLowerPart, h.1, Bool.true_or]

/-- A lower-case name is an identifier. -/
theorem isIdentifier_of_isLowerName {name : String} (h : isLowerName name = true) :
    isIdentifier name = true := by
  have hparts := isLowerPart_of_mem h
  rw [isLowerName] at h
  rw [isIdentifier]
  cases hname : name.toList with
  | nil => simp [hname] at h
  | cons first others =>
    rw [hname] at h hparts
    rw [Bool.and_eq_true] at h
    rw [Bool.and_eq_true, List.all_eq_true]
    exact ⟨isIdentifierStart_of_isLowerStart h.1, fun c hc =>
      isIdentifierContinue_of_isLowerPart (hparts c (List.mem_cons_of_mem _ hc))⟩

/-- A lower-case name starts with a lower-case letter or an underscore. -/
theorem isName_of_isLowerName {name : String} (h : isLowerName name = true) :
    ∃ first others, IsName name first others ∧ isLowerStart first = true := by
  have hall := isLowerPart_of_mem h
  rw [isLowerName] at h
  cases hname : name.toList with
  | nil => simp [hname] at h
  | cons first others =>
    rw [hname, Bool.and_eq_true] at h
    obtain ⟨hfirst, -⟩ := h
    exact ⟨first, others,
      ⟨hname, opensName_of_isLowerStart hfirst, isDigit_of_isLowerStart hfirst,
        fun c hc => isNameCharacter_of_isLowerPart (hall c hc)⟩, hfirst⟩

/-- A constant starts with a capital. -/
theorem isName_of_isConstantName {name : String} (h : isConstantName name = true) :
    ∃ first others, IsName name first others ∧ isCapital first = true := by
  rw [isConstantName] at h
  cases hname : name.toList with
  | nil => simp [hname] at h
  | cons first others =>
    rw [hname, Bool.and_eq_true, List.all_eq_true] at h
    obtain ⟨hfirst, hothers⟩ := h
    have hall : ∀ c ∈ name.toList, Name.isNameCharacter c = true := by
      rw [hname]
      refine List.forall_mem_cons.mpr ⟨?_, fun c hc => ?_⟩
      · exact of_ascii ascii_of_isCapital (by decide) hfirst
      · rw [Name.isNameCharacter, hothers c hc, Bool.true_or]
    exact ⟨first, others,
      ⟨hname, of_ascii ascii_of_isCapital (by decide) hfirst, isDigit_of_isCapital hfirst, hall⟩,
      hfirst⟩

variable {behind : List Char} {spaced : Bool}

/-- A name is read as what its kind says. -/
theorem IsName.readable {name : String} {first : Char} {others : List Char} {kind : Token.Kind}
    (h : IsName name first others) (hbehind : endsWord (peek behind 0) = true)
    (hspelling : (⟨kind, name, spaced⟩ : Word).spelling = name.toList)
    (hnamed : kind = .ident → isUpper first = false)
    (hword : (Kind.ofKeyword? name).getD (if isUpper first then .const else .ident) = kind) :
    Readable ⟨kind, name, spaced⟩ behind := by
  have hkind : Name.kindOf (name.toList ++ behind) = if isUpper first then .const else .ident := by
    rw [h.toList_eq]
    rfl
  refine ⟨?_, fun context hexpects => ?_⟩
  · rw [hspelling, h.toList_eq]
    exact isSolid_of_opensName h.opens
  · have hlexeme := readLexeme_name (others ++ behind) h.opens h.notDigit context
    rw [← List.cons_append, ← h.toList_eq, Name.read_append h.characters hbehind] at hlexeme
    rw [hspelling, hlexeme, lexeme, hspelling, hkind, String.ofList_toList, hword]
    cases hcontext : context.expectsName with
    | false => rfl
    | true =>
      have hident : kind = .ident := hexpects hcontext
      rw [hnamed hident, hident]
      rfl

/-- A lower-case name that is no keyword is the name of a variable or a method. -/
theorem readable_ident {name : String} (h : isLowerName name = true)
    (hkeyword : Kind.ofKeyword? name = none) (hbehind : endsWord (peek behind 0) = true) :
    Readable ⟨.ident, name, spaced⟩ behind := by
  obtain ⟨first, others, hname, hfirst⟩ := isName_of_isLowerName h
  have hupper := isUpper_of_isLowerStart hfirst
  refine hname.readable hbehind rfl (fun _ => hupper) ?_
  rw [hkeyword, hupper]
  rfl

/-- A name that starts with a capital is a constant. -/
theorem readable_const {name : String} (h : isConstantName name = true)
    (hbehind : endsWord (peek behind 0) = true) : Readable ⟨.const, name, spaced⟩ behind := by
  obtain ⟨first, others, hname, hfirst⟩ := isName_of_isConstantName h
  have hupper := isUpper_of_isCapital hfirst
  refine hname.readable hbehind rfl nofun ?_
  -- no keyword starts with a capital
  have hkeyword : Kind.ofKeyword? name = none := by
    have hall : ∀ entry ∈ Kind.keywords, entry.1.toList.head?.any isCapital = false := by decide
    refine List.lookup_eq_none_iff.mpr fun entry hentry => ?_
    have hentry' := hall entry hentry
    rw [bne_iff_ne]
    rintro rfl
    rw [hname.toList_eq, List.head?_cons, Option.any_some, hfirst] at hentry'
    cases hentry'
  rw [hkeyword, hupper]
  rfl

/-- The kind of the word that a value without content is written as. -/
def wordOf : Syntax.Kind → Token.Kind
  | .trueLit => .kwTrue
  | .falseLit => .kwFalse
  | .selfRef => .kwSelf
  | _ => .kwNil

/-- The word of a value is a keyword. -/
theorem readable_value {kind : Syntax.Kind} (h : kind ∈ wordKinds)
    (hbehind : endsWord (peek behind 0) = true) :
    Readable ⟨wordOf kind, kind.name, spaced⟩ behind := by
  have hall : ∀ kind ∈ wordKinds, isLowerName kind.name = true ∧
      Kind.ofKeyword? kind.name = some (wordOf kind) ∧ wordOf kind ≠ .ident ∧
      wordOf kind ≠ .label ∧ wordOf kind ≠ .symbol := by
    decide
  obtain ⟨hlower, hkeyword, hident, hlabel, hsymbol⟩ := hall kind h
  obtain ⟨first, others, hname, -⟩ := isName_of_isLowerName hlower
  refine hname.readable hbehind ?_ (fun heq => absurd heq hident) ?_
  · simp [spelling]
  · rw [hkeyword]
    rfl

/-- A lower-case name with a colon behind it is a label when a space follows. -/
theorem readable_label {name : String} (h : isLowerName name = true) :
    Readable ⟨.label, name, spaced⟩ (' ' :: behind) := by
  obtain ⟨first, others, hname, -⟩ := isName_of_isLowerName h
  refine ⟨?_, fun context hexpects => ?_⟩
  · rw [spelling, hname.toList_eq]
    exact isSolid_of_opensName hname.opens
  · have hcontext : context.expectsName = false := by
      rw [Bool.eq_false_iff]
      exact fun hnamed => nomatch hexpects hnamed
    have hlexeme := readLexeme_name (others ++ ':' :: ' ' :: behind) hname.opens
      hname.notDigit context
    rw [← List.cons_append, ← hname.toList_eq, hcontext, Name.read_label hname.characters]
      at hlexeme
    simpa [spelling, lexeme] using hlexeme

/-- The digits of a number end where no digit follows. -/
theorem Number.digits_append {text : List Char} (htext : ∀ c ∈ text, isDigit c = true)
    (hdigit : isDigit (peek behind 0) = false) (hunderscore : peek behind 0 ≠ '_') :
    Number.digits (text ++ behind) = text.length := by
  induction text with
  | nil =>
    cases behind with
    | nil => rfl
    | cons c rest =>
      rw [peek_cons_zero] at hdigit hunderscore
      simp [Number.digits, hdigit, hunderscore]
  | cons c text ih =>
    have hc := htext c List.mem_cons_self
    rw [List.cons_append, Number.digits, hc, Bool.true_or, if_pos rfl,
      ih fun d hd => htext d (List.mem_cons_of_mem _ hd), List.length_cons]

/-- A number without sign, fraction and exponent is one word. -/
theorem readable_int {text : String} (h : isNumeral text = true) (hbehind : Stops behind) :
    Readable ⟨.int, text, spaced⟩ behind := by
  obtain ⟨hcharacter, hdigit, -⟩ := endsWord_iff.mp hbehind.endsWord
  rw [isNumeral, Bool.and_eq_true, Bool.not_eq_true', List.all_eq_true] at h
  obtain ⟨hempty, hdigits⟩ := h
  obtain ⟨first, others, htext⟩ : ∃ first others, text.toList = first :: others :=
    List.exists_cons_of_ne_nil (by simpa using hempty)
  have hfirst : isAsciiDigit first = true := hdigits first (by simp [htext])
  have hne : ∀ d, Name.isNameCharacter d = true → peek behind 0 ≠ d := fun d hd heq =>
    absurd (heq ▸ hcharacter) (by rw [hd]; exact nofun)
  have hlength : Number.digits (text.toList ++ behind) = text.toList.length := by
    refine Number.digits_append (fun c hc => ?_) hdigit (hne '_' (by decide))
    rw [isDigit, hdigits c hc, Bool.true_or]
  -- A radix, a fraction, an exponent and a suffix would each need a character that does not follow.
  have hradix : Number.hasRadix (text.toList ++ behind) = false := by
    have hmarks : "xXbBoOdD".toList.all
        (fun d => Name.isNameCharacter d && !isAsciiDigit d) = true := by
      decide
    rw [Number.hasRadix, Bool.and_eq_false_iff, ← Bool.not_eq_true (List.contains _ _),
      List.contains_iff_mem]
    refine Or.inr fun hmem => ?_
    have hmark' := List.all_eq_true.mp hmarks _ hmem
    rw [Bool.and_eq_true, Bool.not_eq_true'] at hmark'
    obtain ⟨hmark, hnot⟩ := hmark'
    cases others with
    | nil => exact hne _ hmark (by rw [htext]; rfl)
    | cons second others =>
      have hsecond := hdigits second (by simp [htext])
      rw [htext] at hnot
      exact absurd hsecond (Bool.eq_false_iff.mp hnot)
  have hfraction : Number.fraction behind = 0 := by
    rw [Number.fraction, if_neg]
    rcases hbehind with h | ⟨-, h⟩
    · intro hand
      rw [Bool.and_eq_true, beq_iff_eq] at hand
      rw [hand.1] at h
      exact absurd h (by decide)
    · rw [h, Bool.and_false]
      exact Bool.false_ne_true
  have hexponent : Number.exponent behind = 0 := by
    simp [Number.exponent, hne 'e' (by decide), hne 'E' (by decide)]
  have hsuffix : Number.suffix behind = 0 := by
    simp [Number.suffix, hne 'r' (by decide), hne 'i' (by decide)]
  have hread : Number.read (text.toList ++ behind) =
      { kind := .int, text, length := text.toList.length } := by
    rw [Number.read, hradix]
    simp [hlength, hfraction, hexponent, hsuffix]
  refine ⟨?_, fun context _ => ?_⟩
  · rw [spelling, htext]
    exact of_ascii ascii_of_isAsciiDigit (by decide) hfirst
  · have hfirst' : isDigit first = true := by rw [isDigit, hfirst, Bool.true_or]
    have hquote := of_ascii (q := fun c => !(['\x22', '\x27', '\x60'].contains c))
      ascii_of_isAsciiDigit (by decide) hfirst
    have hstart : peek (text.toList ++ behind) 0 = first := by
      rw [htext]
      rfl
    simp only [Bool.not_eq_true', List.contains_eq_mem, decide_eq_false_iff_not, List.mem_cons,
      not_or] at hquote
    obtain ⟨hdouble, hsingle, hback, -⟩ := hquote
    rw [lexeme, spelling, ← hread]
    simp [readLexeme, hstart, hdouble, hsingle, hback, hfirst', pure, Except.pure]

/-- The end of a quoted text is its second quote. -/
theorem Delimited.scan_quoted {inner : List Char} (h : ∀ c ∈ inner, c ≠ '\x27' ∧ c ≠ '\\')
    (taken : Nat) :
    Delimited.scan ⟨.quote '\x27', 0⟩ [] taken (inner ++ '\x27' :: behind) =
      .ok (taken + inner.length + 1) := by
  induction inner generalizing taken with
  | nil =>
    rw [List.nil_append, Delimited.scan.eq_def]
    simp [Delimited.Frame.move]
  | cons c inner ih =>
    obtain ⟨hquote, hescape⟩ := h c List.mem_cons_self
    rw [List.cons_append, Delimited.scan.eq_def]
    simp only [hescape, if_false, Delimited.Frame.move, bne_self_eq_false, Bool.false_and,
      Bool.false_eq_true, hquote]
    rw [ih fun d hd => h d (List.mem_cons_of_mem _ hd), List.length_cons]
    congr 1
    omega

/-- A quoted text is one word. -/
theorem readable_string {text : String} (h : IsQuoted text)
    (hbehind : endsWord (peek behind 0) = true) : Readable ⟨.string, text, spaced⟩ behind := by
  obtain ⟨inner, htext, hinner⟩ := h
  obtain ⟨-, -, -, -, hcolon, -⟩ := endsWord_iff.mp hbehind
  have hpeek : peek (text.toList ++ behind) text.toList.length = peek behind 0 :=
    peek_append_right text.toList behind 0
  have hend : Delimited.length (.quote '\x27') 1 (text.toList ++ behind) =
      .ok text.toList.length := by
    rw [Delimited.length, htext, List.cons_append, List.append_assoc, List.drop_one, List.tail_cons,
      List.singleton_append, Delimited.scan_quoted hinner]
    simp [Nat.add_comm]
  have hread : Literal.readString '\x27' (text.toList ++ behind) =
      .ok { kind := .string, text, length := text.toList.length } := by
    rw [Literal.readString, hend]
    simp only [bind, Except.bind, hpeek, beq_eq_false_iff_ne.mpr hcolon, Bool.false_and,
      Bool.false_eq_true, if_false, pure, Except.pure, List.take_left, String.ofList_toList]
  have hstart : peek (text.toList ++ behind) 0 = '\x27' := by
    rw [htext]
    rfl
  refine ⟨?_, fun context _ => ?_⟩
  · rw [spelling, htext]
    rfl
  · rw [lexeme, spelling, ← hread]
    simp [readLexeme, hstart]

/-- An instance variable is one word. -/
theorem readable_ivar {name : String} (h : isLowerName name = true)
    (hbehind : endsWord (peek behind 0) = true) :
    Readable ⟨.ivar, "@" ++ name, spaced⟩ behind := by
  obtain ⟨first, others, hname, hfirst⟩ := isName_of_isLowerName h
  obtain ⟨hcharacter, -⟩ := endsWord_iff.mp hbehind
  have hread : Name.readInstance ('@' :: (name.toList ++ behind)) =
      .ok { kind := .ivar, text := "@" ++ name, length := ("@" ++ name).toList.length } := by
    have hrun := Name.run_append hname.characters hcharacter
    have hpeek : peek ('@' :: (name.toList ++ behind)) 1 = first := by
      rw [hname.toList_eq]
      rfl
    have hmark : (first == '@') = false := by
      rw [← Bool.not_eq_true']
      exact of_ascii (q := fun c => !(c == '@')) ascii_of_isLowerStart (by decide) hfirst
    have hletter : (isLetter first || first == '_') = true := by
      rw [isLetter_of_ascii (ascii_of_isLowerStart hfirst)]
      exact of_ascii (q := fun c => isAsciiLetter c || c == '_') ascii_of_isLowerStart
        (by decide) hfirst
    simp only [Name.readInstance, hpeek, hmark, Bool.false_eq_true, if_false, hletter, if_true,
      List.drop_one, List.tail_cons, hrun]
    rw [Nat.add_comm 1, List.take_succ_cons, List.take_left]
    simp
  refine ⟨by simp [spelling]; decide, fun context _ => ?_⟩
  have hdigit : isDigit '@' = false := by decide
  have hstart : Name.isNameStart '@' = false := by decide
  rw [lexeme, spelling, ← hread]
  simp [readLexeme, hdigit, hstart]

/-- A symbol is one word. -/
theorem readable_symbol {name : String} (h : isLowerName name = true)
    (hbehind : endsWord (peek behind 0) = true) : Readable ⟨.symbol, name, spaced⟩ behind := by
  obtain ⟨first, others, hname, hfirst⟩ := isName_of_isLowerName h
  obtain ⟨hcharacter, -, hquestion, hbang, -, hequals⟩ := endsWord_iff.mp hbehind
  have hmark : Name.hasMark behind = false := by simp [Name.hasMark, hquestion, hbang]
  have hlength : Literal.symbolName (name.toList ++ behind) = name.toList.length := by
    rw [Literal.symbolName, Name.run_append hname.characters hcharacter, List.drop_left, hmark]
    simp [hequals]
  have hpeek : peek (':' :: (name.toList ++ behind)) 1 = first := by
    rw [hname.toList_eq]
    rfl
  have hfirst' := hname.opens
  simp only [opensName, Bool.and_eq_true, Bool.not_eq_true', List.contains_eq_mem,
    decide_eq_false_iff_not, List.mem_cons, not_or] at hfirst'
  obtain ⟨⟨hstart, -⟩, hdouble, hsingle, -, hat, hdollar, hcolon, -⟩ := hfirst'
  have hread : ∀ context, Literal.readSymbol? context (':' :: (name.toList ++ behind)) =
      .ok (some { kind := .symbol, text := name, length := name.toList.length + 1 }) := by
    intro context
    simp only [Literal.readSymbol?, hpeek, hdouble, hsingle, hat, hdollar, hcolon, hstart,
      beq_iff_eq, Bool.or_eq_true, or_self, if_false, if_true, List.drop_one,
      List.tail_cons, hlength, Nat.add_comm 1, List.take_succ_cons, List.take_left,
      String.ofList_toList]
    rfl
  refine ⟨by rw [spelling, peek_cons_zero]; decide, fun context _ => ?_⟩
  have hdigit : isDigit ':' = false := by decide
  have hcolon' : Name.isNameStart ':' = false := by decide
  simp [readLexeme, spelling, lexeme, hdigit, hcolon', hread, bind, Except.bind, pure, Except.pure]

/-- The marks that plain expressions are written with. -/
def marks : List (Token.Kind × Char) :=
  [(.comma, ','), (.lpar, '('), (.rpar, ')'), (.lbrack, '['), (.rbrack, ']'), (.lbrace, '\x7b'),
    (.rbrace, '\x7d')]

/-- A character that starts operators only is read as an operator. -/
theorem readLexeme_operator {c : Char} {text : List Char}
    (h : (isDigit c || Name.isNameStart c ||
      ['\x22', '\x27', '\x60', '@', '$', ':', '<', '%', '/', '?'].contains c) = false)
    (context : Context) : readLexeme context (c :: text) = Operator.read (c :: text) := by
  simp only [Bool.or_eq_false_iff, List.contains_eq_mem, decide_eq_false_iff_not, List.mem_cons,
    not_or] at h
  obtain ⟨⟨hdigit, hname⟩, hdouble, hsingle, hback, hat, hdollar, hcolon, hless, hpercent, hslash,
    hquestion, -⟩ := h
  simp [readLexeme, hdigit, hname, hdouble, hsingle, hback, hat, hdollar, hcolon, hless, hpercent,
    hslash, hquestion, bind, Except.bind, pure, Except.pure]

/-- An operator of one character is one word. -/
theorem readable_operator {kind : Token.Kind} {c : Char} (hkind : kind ≠ .label ∧ kind ≠ .symbol)
    (hsolid : isSolid c = true)
    (hstart : (isDigit c || Name.isNameStart c ||
      ['\x22', '\x27', '\x60', '@', '$', ':', '<', '%', '/', '?'].contains c) = false)
    (hread : Operator.read (c :: behind) = .ok { kind, text := .ofList [c], length := 1 }) :
    Readable ⟨kind, .ofList [c], spaced⟩ behind := by
  obtain ⟨hlabel, hsymbol⟩ := hkind
  have hspelling : spelling ⟨kind, .ofList [c], spaced⟩ = [c] := by simp [spelling]
  refine ⟨by rwa [hspelling, peek_cons_zero], fun context _ => ?_⟩
  rw [lexeme, hspelling, List.singleton_append, readLexeme_operator hstart, hread]
  rfl

/-- No mark of plain expressions starts another operator. -/
theorem readable_mark (kind : Token.Kind) (c : Char) (h : (kind, c) ∈ marks) :
    Readable ⟨kind, .ofList [c], spaced⟩ behind := by
  simp only [marks, List.mem_cons, Prod.mk.injEq, List.not_mem_nil, or_false] at h
  rcases h with ⟨rfl, rfl⟩ | ⟨rfl, rfl⟩ | ⟨rfl, rfl⟩ | ⟨rfl, rfl⟩ | ⟨rfl, rfl⟩ | ⟨rfl, rfl⟩ |
    ⟨rfl, rfl⟩
  all_goals exact readable_operator (by decide) (by decide) (by decide) rfl

/-- A dot in front of a name is one word. -/
theorem readable_dot (hbehind : peek behind 0 ≠ '.') :
    Readable ⟨.dot, .ofList ['.'], spaced⟩ behind := by
  refine readable_operator (by decide) (by decide) (by decide) ?_
  cases behind with
  | nil => rfl
  | cons c rest =>
    have hdot : ('.' == c) = false := beq_eq_false_iff_ne.mpr (Ne.symm hbehind)
    simp [Operator.read, Operator.table, List.isPrefixOf, hdot]

end XhrKeywords
