import XhrKeywords.Proofs.Outcome
import XhrKeywords.Proofs.Token.Extent

/-!
# Quoted strings and interpolations

What a quoted string and an interpolation are is told by a grammar of nested texts: code is a run
of shielded characters, quoted strings, blocks in braces and plain characters, and a string may
hold code in turn. The scan with its stack of open delimiters agrees with that grammar. It passes
every text of the grammar and goes on behind it, and where it meets none it reports an open
string or an open interpolation.
-/

namespace XhrKeywords.Delimited

/-- A mark that quotes strings. -/
def Quote : Type := { mark : Char // isQuote mark = true }

/-- The two kinds of text that nest in each other. -/
inductive Part
  /-- Code between braces. -/
  | code
  /-- A string from behind its opening mark up to its closing mark. -/
  | quoted (mark : Quote)

/-- The texts of each part. -/
inductive Balanced : Part → List Char → Prop
  /-- Code may be empty. -/
  | empty : Balanced .code []
  /-- A string ends in its mark. -/
  | close (mark : Quote) : Balanced (.quoted mark) [mark.val]
  /-- A backslash shields any character. -/
  | escape {part : Part} {text : List Char} (c : Char) (behind : Balanced part text) :
      Balanced part ('\\' :: c :: text)
  /-- Code may hold a string. -/
  | string {mark : Quote} {inside text : List Char} (string : Balanced (.quoted mark) inside)
      (behind : Balanced .code text) : Balanced .code (mark.val :: (inside ++ text))
  /-- Code may hold code in braces. -/
  | braces {inside text : List Char} (code : Balanced .code inside)
      (behind : Balanced .code text) : Balanced .code ('\x7b' :: (inside ++ '\x7d' :: text))
  /-- Every other character of code stands for itself. -/
  | plain {text : List Char} (c : Char) (hescape : c ≠ '\\') (hquote : isQuote c = false)
      (hopen : c ≠ '\x7b') (hclose : c ≠ '\x7d') (behind : Balanced .code text) :
      Balanced .code (c :: text)
  /-- A string may hold an interpolation, except in single quotes. -/
  | interpolation {mark : Quote} {inside text : List Char} (hmark : mark.val ≠ '\x27')
      (code : Balanced .code inside) (behind : Balanced (.quoted mark) text) :
      Balanced (.quoted mark) ('#' :: '\x7b' :: (inside ++ '\x7d' :: text))
  /-- Every other character of a string stands for itself, unless it opens an interpolation. -/
  | character {mark : Quote} {text : List Char} (c : Char) (hclose : c ≠ mark.val)
      (hescape : c ≠ '\\') (hplain : mark.val ≠ '\x27' → ¬ (c = '#' ∧ text.head? = some '\x7b'))
      (behind : Balanced (.quoted mark) text) : Balanced (.quoted mark) (c :: text)

/-- A string with both its marks. -/
def Quoted (mark : Quote) (literal : List Char) : Prop :=
  ∃ behind, literal = mark.val :: behind ∧ Balanced (.quoted mark) behind

/-- An interpolation with its number sign and both its braces. -/
def Interpolation (literal : List Char) : Prop :=
  ∃ code, literal = '#' :: '\x7b' :: (code ++ ['\x7d']) ∧ Balanced .code code

/-! ## The marks -/

theorem Quote.cases (mark : Quote) :
    mark.val = '\x22' ∨ mark.val = '\x27' ∨ mark.val = '\x60' := by
  have h := mark.property
  simp only [isQuote, Bool.or_eq_true, beq_iff_eq] at h
  exact or_assoc.mp h

theorem Quote.ne_escape (mark : Quote) : mark.val ≠ '\\' := by
  rcases mark.cases with h | h | h <;> rw [h] <;> decide

theorem Quote.ne_sign (mark : Quote) : mark.val ≠ '#' := by
  rcases mark.cases with h | h | h <;> rw [h] <;> decide

/-- An interpolation is opened where a number sign stands in front of a brace. -/
theorem opensInterpolation_peek (c : Char) (text : List Char) :
    opensInterpolation c (peek text 0) = true ↔ c = '#' ∧ text.head? = some '\x7b' := by
  cases text with
  | nil => simp [opensInterpolation]
  | cons d rest => simp [opensInterpolation]

/-- A string has a character left, its closing mark at least. -/
theorem Balanced.ne_nil {mark : Quote} {text : List Char} (h : Balanced (.quoted mark) text) :
    text ≠ [] := by
  cases h <;> simp

/-! ## One step of the scan -/

section Steps

variable {inner : Opened} {outer : List Opened} {taken before : Nat}

/-- The scan behind a delimiter that has closed. -/
def resume (outer : List Opened) (taken : Nat) (rest : List Char) : Except Opened Nat :=
  match outer with
  | [] => .ok taken
  | enclosing :: others => scan enclosing others taken rest

@[simp] theorem resume_nil (taken : Nat) (rest : List Char) : resume [] taken rest = .ok taken :=
  rfl

@[simp] theorem resume_cons (enclosing : Opened) (others : List Opened) (taken : Nat)
    (rest : List Char) :
    resume (enclosing :: others) taken rest = scan enclosing others taken rest :=
  rfl

theorem scan_escape (c : Char) (rest : List Char) :
    scan inner outer taken ('\\' :: c :: rest) = scan inner outer (taken + 2) rest := by
  rw [scan.eq_def]
  exact if_pos rfl

/-- A backslash at the end of the text shields nothing and closes nothing. -/
theorem scan_escape_nil : scan inner outer taken ['\\'] = .error inner := by
  rw [scan.eq_def]
  exact if_pos rfl

theorem scan_stay {c : Char} {rest : List Char} {frame : Frame} (hc : c ≠ '\\')
    (h : inner.frame.move c (peek rest 0) = .stay frame) :
    scan inner outer taken (c :: rest) = scan ⟨frame, inner.before⟩ outer (taken + 1) rest := by
  rw [scan.eq_def]
  simp only [if_neg hc, h]

theorem scan_close {c : Char} {rest : List Char} (hc : c ≠ '\\')
    (h : inner.frame.move c (peek rest 0) = .close) :
    scan inner outer taken (c :: rest) = resume outer (taken + 1) rest := by
  rw [scan.eq_def]
  simp only [if_neg hc, h]
  cases outer <;> rfl

theorem scan_string {c : Char} {rest : List Char} (hc : c ≠ '\\')
    (h : inner.frame.move c (peek rest 0) = .string) :
    scan inner outer taken (c :: rest) =
      scan ⟨.quote c, taken⟩ (inner :: outer) (taken + 1) rest := by
  rw [scan.eq_def]
  simp only [if_neg hc, h]

theorem scan_interpolation {c d : Char} {rest : List Char} (hc : c ≠ '\\')
    (h : inner.frame.move c d = .interpolation) :
    scan inner outer taken (c :: d :: rest) =
      scan ⟨.interpolation 0, taken⟩ (inner :: outer) (taken + 2) rest := by
  rw [scan.eq_def]
  simp only [if_neg hc, peek_cons_zero, h]

end Steps

/-! ## What each character does to a string and to code -/

theorem move_quote_interpolation {mark : Char} (hmark : mark ≠ '\x27') :
    (Frame.quote mark).move '#' '\x7b' = .interpolation := by
  simp [Frame.move, opensInterpolation, hmark]

theorem move_quote_close (mark : Quote) (next : Char) :
    (Frame.quote mark.val).move mark.val next = .close := by
  simp [Frame.move, opensInterpolation, mark.ne_sign]

theorem move_quote_stay {mark c : Char} {rest : List Char} (hclose : c ≠ mark)
    (hplain : mark ≠ '\x27' → ¬ (c = '#' ∧ rest.head? = some '\x7b')) :
    (Frame.quote mark).move c (peek rest 0) = .stay (.quote mark) := by
  simp only [Frame.move, Bool.and_eq_true, bne_iff_ne, opensInterpolation_peek, if_neg hclose]
  exact if_neg fun h => hplain h.1 h.2

theorem move_code_string (mark : Quote) (depth : Nat) (next : Char) :
    (Frame.interpolation depth).move mark.val next = .string := by
  simp [Frame.move, mark.property]

theorem move_code_open (depth : Nat) (next : Char) :
    (Frame.interpolation depth).move '\x7b' next = .stay (.interpolation (depth + 1)) := by
  simp [Frame.move, isQuote]

theorem move_code_close (next : Char) :
    (Frame.interpolation 0).move '\x7d' next = .close := by
  simp [Frame.move, isQuote]

theorem move_code_leave (depth : Nat) (next : Char) :
    (Frame.interpolation (depth + 1)).move '\x7d' next = .stay (.interpolation depth) := by
  simp [Frame.move, isQuote]

theorem move_code_stay {c : Char} (hquote : isQuote c = false) (hopen : c ≠ '\x7b')
    (hclose : c ≠ '\x7d') (depth : Nat) (next : Char) :
    (Frame.interpolation depth).move c next = .stay (.interpolation depth) := by
  simp [Frame.move, hquote, hopen, hclose]

/-! ## The scan passes the texts of the grammar -/

/-- How the scan passes a text of a part: code leaves the stack as it was, a string is taken off. -/
def Part.Passes : Part → List Char → Prop
  | .code, text => ∀ depth before outer taken rest,
      scan ⟨.interpolation depth, before⟩ outer taken (text ++ rest) =
        scan ⟨.interpolation depth, before⟩ outer (taken + text.length) rest
  | .quoted mark, text => ∀ before outer taken rest,
      scan ⟨.quote mark.val, before⟩ outer taken (text ++ rest) =
        resume outer (taken + text.length) rest

/-- A block in braces is passed with the code in it, one brace deeper. -/
theorem Part.Passes.braces {inside : List Char} (h : Part.code.Passes inside) (depth before : Nat)
    (outer : List Opened) (taken : Nat) (rest : List Char) :
    scan ⟨.interpolation (depth + 1), before⟩ outer taken (inside ++ '\x7d' :: rest) =
      scan ⟨.interpolation depth, before⟩ outer (taken + (inside.length + 1)) rest := by
  rw [h (depth + 1), scan_stay (by decide) (move_code_leave depth _), Nat.add_assoc]

/-- The code of an interpolation is passed with its closing brace. -/
theorem Part.Passes.interpolation {inside : List Char} (h : Part.code.Passes inside)
    (before : Nat) (outer : List Opened) (taken : Nat) (rest : List Char) :
    scan ⟨.interpolation 0, before⟩ outer taken (inside ++ '\x7d' :: rest) =
      resume outer (taken + (inside.length + 1)) rest := by
  rw [h 0, scan_close (by decide) (move_code_close _), Nat.add_assoc]

/-- The scan passes every text of the grammar. -/
theorem Balanced.passes {part : Part} {text : List Char} (h : Balanced part text) :
    part.Passes text := by
  -- A case for each rule of the language. The scan is given a depth and what stood in front, so
  -- that the hypotheses can be used inside braces and strings.
  induction h with
  | empty =>
    intro depth before outer taken rest
    rfl
  | close mark =>
    intro before outer taken rest
    exact scan_close mark.ne_escape (move_quote_close mark _)
  | @escape part text c _ ih =>
    cases part with
    | code =>
      intro depth before outer taken rest
      rw [List.cons_append, List.cons_append, scan_escape, ih]
      simp only [List.length_cons]
      congr 1
      omega
    | quoted mark =>
      intro before outer taken rest
      rw [List.cons_append, List.cons_append, scan_escape, ih]
      simp only [List.length_cons]
      congr 1
      omega
  | @string mark inside text _ _ ihstring ihcode =>
    intro depth before outer taken rest
    rw [List.cons_append, scan_string mark.ne_escape (move_code_string mark depth _),
      List.append_assoc, ihstring, resume_cons, ihcode]
    simp only [List.length_cons, List.length_append]
    congr 1
    omega
  | @braces inside text _ _ ihinside ihtext =>
    intro depth before outer taken rest
    rw [List.cons_append, scan_stay (by decide) (move_code_open depth _), List.append_assoc,
      List.cons_append, ihinside.braces, ihtext]
    simp only [List.length_cons, List.length_append]
    congr 1
    omega
  | plain c hescape hquote hopen hclose _ ih =>
    intro depth before outer taken rest
    rw [List.cons_append, scan_stay hescape (move_code_stay hquote hopen hclose depth _), ih]
    simp only [List.length_cons]
    congr 1
    omega
  | @interpolation mark inside text hmark _ _ ihcode ihtext =>
    intro before outer taken rest
    rw [List.cons_append, List.cons_append,
      scan_interpolation (by decide) (move_quote_interpolation hmark), List.append_assoc,
      List.cons_append, ihcode.interpolation, resume_cons, ihtext]
    simp only [List.length_cons, List.length_append]
    congr 1
    omega
  | @character mark text c hclose hescape hplain behind ih =>
    intro before outer taken rest
    -- What stands behind the character belongs to the string, since the string goes on.
    have hhead : (text ++ rest).head? = text.head? := by
      obtain ⟨d, more, rfl⟩ := List.exists_cons_of_ne_nil behind.ne_nil
      rfl
    rw [List.cons_append, scan_stay hescape (move_quote_stay hclose (by rwa [hhead])), ih]
    simp only [List.length_cons]
    congr 1
    omega

/-! ## What an open delimiter waits for -/

/-- The texts that close a string or an interpolation, with one block of code for every brace. -/
inductive Closes : Frame → List Char → Prop
  /-- A string waits for its own end. -/
  | quote {mark : Quote} {text : List Char} (h : Balanced (.quoted mark) text) :
      Closes (.quote mark.val) text
  /-- An interpolation without open braces waits for its closing brace. -/
  | brace {inside : List Char} (h : Balanced .code inside) :
      Closes (.interpolation 0) (inside ++ ['\x7d'])
  /-- A brace inside an interpolation is closed first. -/
  | nested {depth : Nat} {inside text : List Char} (h : Balanced .code inside)
      (behind : Closes (.interpolation depth) text) :
      Closes (.interpolation (depth + 1)) (inside ++ '\x7d' :: text)

/-- The open delimiters that the grammar is about. -/
inductive Nests : Frame → Prop
  | quote (mark : Quote) : Nests (.quote mark.val)
  | interpolation (depth : Nat) : Nests (.interpolation depth)

/-- A text that closes a delimiter is passed, and the scan goes on in the enclosing one. -/
theorem Closes.scan {frame : Frame} {text : List Char} (h : Closes frame text)
    (before : Nat) (outer : List Opened) (taken : Nat) (rest : List Char) :
    scan ⟨frame, before⟩ outer taken (text ++ rest) = resume outer (taken + text.length) rest := by
  induction h generalizing taken rest with
  | quote h => exact h.passes before outer taken rest
  | brace h =>
    rw [List.append_assoc, List.cons_append, List.nil_append, h.passes.interpolation,
      List.length_append, List.length_singleton]
  | nested h _ ih =>
    rw [List.append_assoc, List.cons_append, h.passes.braces, ih]
    simp only [List.length_append, List.length_cons]
    congr 1
    omega

/-- What closes a string is the rest of that string. -/
theorem Closes.balanced {mark : Quote} {text : List Char} (h : Closes (.quote mark.val) text) :
    Balanced (.quoted mark) text := by
  generalize hframe : Frame.quote mark.val = frame at h
  cases h with
  | quote h =>
    cases Subtype.ext (Frame.quote.inj hframe)
    exact h
  | brace => cases hframe
  | nested => cases hframe

section Prepend

variable {inside text : List Char}

/-- A shielded character stands in front of a text that closes a delimiter. -/
theorem Closes.escape {frame : Frame} (c : Char) (h : Closes frame text) :
    Closes frame ('\\' :: c :: text) := by
  cases h with
  | quote h => exact .quote (.escape c h)
  | brace h => exact .brace (.escape c h)
  | nested h behind => exact .nested (.escape c h) behind

/-- A plain character of code stands in front of what closes an interpolation. -/
theorem Closes.plain {depth : Nat} (c : Char) (hescape : c ≠ '\\') (hquote : isQuote c = false)
    (hopen : c ≠ '\x7b') (hclose : c ≠ '\x7d') (h : Closes (.interpolation depth) text) :
    Closes (.interpolation depth) (c :: text) := by
  cases h with
  | brace h => exact .brace (.plain c hescape hquote hopen hclose h)
  | nested h behind => exact .nested (.plain c hescape hquote hopen hclose h) behind

/-- A string stands in front of what closes an interpolation. -/
theorem Closes.string {depth : Nat} (h : Closes (.interpolation depth) text) (mark : Quote)
    (hstring : Closes (.quote mark.val) inside) :
    Closes (.interpolation depth) (mark.val :: (inside ++ text)) := by
  cases h with
  | brace h => simpa using Closes.brace (hstring.balanced.string h)
  | nested h behind => simpa using Closes.nested (hstring.balanced.string h) behind

/-- An opening brace stands in front of what closes one more brace. -/
theorem Closes.braces {depth : Nat} (h : Closes (.interpolation (depth + 1)) text) :
    Closes (.interpolation depth) ('\x7b' :: text) := by
  cases h with
  | nested h behind =>
    cases behind with
    | brace more => simpa using Closes.brace (h.braces more)
    | nested more behind => simpa using Closes.nested (h.braces more) behind

/-- An interpolation stands in front of what closes a string that holds one. -/
theorem Closes.interpolation {mark : Quote} (h : Closes (.quote mark.val) text)
    (hmark : mark.val ≠ '\x27') (hcode : Closes (.interpolation 0) inside) :
    Closes (.quote mark.val) ('#' :: '\x7b' :: (inside ++ text)) := by
  cases hcode with
  | brace hcode => simpa using Closes.quote (.interpolation hmark hcode h.balanced)

end Prepend

/-! ## Every scan either closes its delimiter or ends inside -/

/-- The delimiter is never closed: the scan ends in it or in one opened after it. -/
def LeftOpen (frame : Frame) (text : List Char) : Prop :=
  ∀ before outer taken, ∃ innermost,
    scan ⟨frame, before⟩ outer taken text = .error innermost ∧ Nests innermost.frame

/-- A delimiter is closed by a text at the head or is left open. -/
def Settled (frame : Frame) (text : List Char) : Prop :=
  (∃ front, front <+: text ∧ Closes frame front) ∨ LeftOpen frame text

/-- A step that leaves the stack as deep as it was. -/
theorem Settled.step {frame moved : Frame} (lead : List Char) {text : List Char}
    (h : Settled moved text)
    (hscan : ∀ before outer taken, scan ⟨frame, before⟩ outer taken (lead ++ text) =
      scan ⟨moved, before⟩ outer (taken + lead.length) text)
    (hcloses : ∀ front, front <+: text → Closes moved front → Closes frame (lead ++ front)) :
    Settled frame (lead ++ text) := by
  rcases h with ⟨front, hfront, hmoved⟩ | hopen
  · exact Or.inl ⟨lead ++ front, (List.prefix_append_right_inj lead).mpr hfront,
      hcloses front hfront hmoved⟩
  · apply Or.inr
    intro before outer taken
    rw [hscan]
    exact hopen before outer _

/-- A step that opens a delimiter inside the other, which goes on behind it. -/
theorem Settled.nest {frame inner : Frame} (lead : List Char) {text : List Char}
    (hinner : Settled inner text) (hbehind : ∀ rest, rest <:+ text → Settled frame rest)
    (hscan : ∀ before outer taken, scan ⟨frame, before⟩ outer taken (lead ++ text) =
      scan ⟨inner, taken⟩ (⟨frame, before⟩ :: outer) (taken + lead.length) text)
    (hcloses : ∀ front more, Closes inner front → Closes frame more →
      Closes frame (lead ++ (front ++ more))) :
    Settled frame (lead ++ text) := by
  rcases hinner with ⟨front, ⟨rest, rfl⟩, hfront⟩ | hopen
  · rcases hbehind rest (List.suffix_append front rest) with ⟨more, ⟨last, rfl⟩, hmore⟩ | hopen
    · exact Or.inl ⟨lead ++ (front ++ more), ⟨last, by simp⟩, hcloses front more hfront hmore⟩
    · apply Or.inr
      intro before outer taken
      rw [hscan, hfront.scan, resume_cons]
      exact hopen before outer _
  · apply Or.inr
    intro before outer taken
    rw [hscan]
    exact hopen taken _ _

section FirstCharacter

variable {c : Char} {rest : List Char}
  (ih : ∀ frame, Nests frame → ∀ behind, behind <:+ rest → Settled frame behind)
include ih

theorem settled_escape {frame : Frame} (h : Nests frame) : Settled frame ('\\' :: rest) := by
  cases rest with
  | nil => exact Or.inr fun before outer taken => ⟨⟨frame, before⟩, scan_escape_nil, h⟩
  | cons d behind =>
    apply Settled.step ['\\', d] (ih frame h behind (List.suffix_cons d behind))
    · intro before outer taken
      exact scan_escape d behind
    · intro front _ hfront
      exact hfront.escape d

theorem settled_quote (hescape : c ≠ '\\') (mark : Quote) :
    Settled (.quote mark.val) (c :: rest) := by
  by_cases hopen : mark.val ≠ '\x27' ∧ c = '#' ∧ rest.head? = some '\x7b'
  · obtain ⟨hmark, rfl, hhead⟩ := hopen
    obtain ⟨behind, rfl⟩ := List.head?_eq_some_iff.mp hhead
    have hsuffix := List.suffix_cons '\x7b' behind
    apply Settled.nest ['#', '\x7b'] (ih (.interpolation 0) (.interpolation 0) behind hsuffix)
    · intro more hmore
      exact ih _ (.quote mark) more (hmore.trans hsuffix)
    · intro before outer taken
      exact scan_interpolation (by decide) (move_quote_interpolation hmark)
    · intro front more hfront hmore
      exact hmore.interpolation hmark hfront
  · have hplain : mark.val ≠ '\x27' → ¬ (c = '#' ∧ rest.head? = some '\x7b') :=
      fun hmark hsign => hopen ⟨hmark, hsign⟩
    by_cases hclose : c = mark.val
    · subst hclose
      exact Or.inl ⟨[mark.val], ⟨rest, rfl⟩, .quote (.close mark)⟩
    · apply Settled.step [c] (ih _ (.quote mark) rest List.suffix_rfl)
      · intro before outer taken
        exact scan_stay hescape (move_quote_stay hclose hplain)
      · rintro front ⟨last, rfl⟩ hfront
        obtain ⟨d, more, rfl⟩ := List.exists_cons_of_ne_nil hfront.balanced.ne_nil
        exact .quote (.character c hclose hescape hplain hfront.balanced)

theorem settled_interpolation (hescape : c ≠ '\\') (depth : Nat) :
    Settled (.interpolation depth) (c :: rest) := by
  have hrest : rest <:+ rest := List.suffix_rfl
  -- A quote nests a string, a brace goes one level deeper or higher, and anything else is passed.
  by_cases hquote : isQuote c = true
  · apply Settled.nest [c] (ih (.quote c) (.quote ⟨c, hquote⟩) rest hrest)
    · intro more hmore
      exact ih _ (.interpolation depth) more hmore
    · intro before outer taken
      exact scan_string hescape (move_code_string ⟨c, hquote⟩ depth _)
    · intro front more hfront hmore
      exact hmore.string ⟨c, hquote⟩ hfront
  · by_cases hbrace : c = '\x7b'
    · subst hbrace
      apply Settled.step ['\x7b'] (ih _ (.interpolation (depth + 1)) rest hrest)
      · intro before outer taken
        exact scan_stay hescape (move_code_open depth _)
      · intro front _ hfront
        exact hfront.braces
    · by_cases hclose : c = '\x7d'
      · subst hclose
        cases depth with
        | zero => exact Or.inl ⟨['\x7d'], ⟨rest, rfl⟩, .brace .empty⟩
        | succ depth =>
          apply Settled.step ['\x7d'] (ih _ (.interpolation depth) rest hrest)
          · intro before outer taken
            exact scan_stay hescape (move_code_leave depth _)
          · intro front _ hfront
            exact .nested .empty hfront
      · have hplain : isQuote c = false := Bool.eq_false_iff.mpr hquote
        apply Settled.step [c] (ih _ (.interpolation depth) rest hrest)
        · intro before outer taken
          exact scan_stay hescape (move_code_stay hplain hbrace hclose depth _)
        · intro front _ hfront
          exact hfront.plain c hescape hplain hbrace hclose

end FirstCharacter

/-- Every text settles every string and every interpolation. -/
theorem Nests.settled {frame : Frame} (h : Nests frame) (text : List Char) :
    Settled frame text := by
  -- The scan goes on behind what is nested, so the induction is over all ends of the text.
  suffices hall : ∀ frame, Nests frame → ∀ behind, behind <:+ text → Settled frame behind from
    hall frame h text List.suffix_rfl
  clear h frame
  induction text with
  | nil =>
    intro frame h behind hbehind
    rw [List.suffix_nil.mp hbehind]
    exact Or.inr fun before outer taken => ⟨⟨frame, before⟩, rfl, h⟩
  | cons c rest ih =>
    intro frame h behind hbehind
    rcases List.suffix_cons_iff.mp hbehind with rfl | hsuffix
    · by_cases hescape : c = '\\'
      · subst hescape
        exact settled_escape ih h
      · cases h with
        | quote mark => exact settled_quote ih hescape mark
        | interpolation depth => exact settled_interpolation ih hescape depth
    · exact ih frame h behind hsuffix

/-! ## What the scans recognise -/

/-- A text closes a delimiter in one way at most. -/
theorem Closes.unique {frame : Frame} {text s t : List Char} (hs : Closes frame s)
    (ht : Closes frame t) (hsp : s <+: text) (htp : t <+: text) : s = t := by
  obtain ⟨rest, rfl⟩ := hsp
  obtain ⟨more, hmore⟩ := htp
  have hscan : (.ok (0 + s.length) : Except Opened Nat) = .ok (0 + t.length) := by
    rw [← resume_nil (0 + s.length) rest, ← hs.scan 0, ← hmore, ht.scan 0, resume_nil]
  have hlength : s.length = t.length := by
    have := Except.ok.inj hscan
    omega
  exact (List.append_inj hmore.symm hlength).1

/-- A language of literals is what a delimiter with its opener recognises at the head of a text. -/
structure Recognises (frame : Frame) (opener : Nat) (language : List Char → Prop)
    (text : List Char) : Prop where
  /-- At most one literal of the language stands at the head. -/
  unique : ∀ s t, s <+: text → t <+: text → language s → language t → s = t
  /-- The length that is found is that of the literal. -/
  length_eq_ok_iff : ∀ n, length frame opener text = .ok n ↔
    ∃ literal, literal <+: text ∧ language literal ∧ literal.length = n
  /-- Without a literal an open string or an open interpolation is reported. -/
  length_error : (¬ ∃ literal, literal <+: text ∧ language literal) → ∃ fault,
    length frame opener text = .error fault ∧
      (fault.cause = .unterminatedString ∨ fault.cause = .unterminatedInterpolation)
  /-- Inside other delimiters the scan goes on in the enclosing one, right behind the literal. -/
  scan_literal : ∀ literal, literal <+: text → language literal → ∀ before outer taken,
    scan ⟨frame, before⟩ outer (taken + opener) (text.drop opener) =
      resume outer (taken + literal.length) (text.drop literal.length)
  /-- Inside other delimiters, too, the scan fails without a literal. -/
  scan_error : (¬ ∃ literal, literal <+: text ∧ language literal) → ∀ before outer taken,
    ∃ innermost, scan ⟨frame, before⟩ outer (taken + opener) (text.drop opener) = .error innermost ∧
      (innermost.frame.unterminated = .unterminatedString ∨
        innermost.frame.unterminated = .unterminatedInterpolation)

theorem Nests.unterminated {frame : Frame} (h : Nests frame) :
    frame.unterminated = .unterminatedString ∨
      frame.unterminated = .unterminatedInterpolation := by
  cases h with
  | quote => exact Or.inl rfl
  | interpolation => exact Or.inr rfl

section Literals

variable {frame : Frame} {language : List Char → Prop} {opening rest : List Char}
  (hlanguage : ∀ literal, language literal ↔
    ∃ behind, literal = opening ++ behind ∧ Closes frame behind)
include hlanguage

/-- A literal stands at the head where a text that closes the delimiter stands behind the opener. -/
theorem literal_iff (literal : List Char) :
    literal <+: opening ++ rest ∧ language literal ↔
      ∃ behind, literal = opening ++ behind ∧ behind <+: rest ∧ Closes frame behind := by
  rw [hlanguage]
  constructor
  · rintro ⟨hbefore, behind, rfl, hbehind⟩
    exact ⟨behind, rfl, (List.prefix_append_right_inj opening).mp hbefore, hbehind⟩
  · rintro ⟨behind, rfl, hbefore, hbehind⟩
    exact ⟨(List.prefix_append_right_inj opening).mpr hbefore, behind, rfl, hbehind⟩

theorem scan_of_literal {literal : List Char} (hbefore : literal <+: opening ++ rest)
    (h : language literal) (before : Nat) (outer : List Opened) (taken : Nat) :
    scan ⟨frame, before⟩ outer (taken + opening.length) rest =
      resume outer (taken + literal.length) ((opening ++ rest).drop literal.length) := by
  obtain ⟨behind, rfl, ⟨last, rfl⟩, hcloses⟩ := (literal_iff hlanguage literal).mp ⟨hbefore, h⟩
  rw [hcloses.scan, ← List.append_assoc, List.drop_left, List.length_append, Nat.add_assoc]

theorem length_of_literal {literal : List Char} (hbefore : literal <+: opening ++ rest)
    (h : language literal) :
    length frame opening.length (opening ++ rest) = .ok literal.length := by
  have hscan := scan_of_literal hlanguage hbefore h 0 [] 0
  rw [Nat.zero_add, Nat.zero_add, resume_nil] at hscan
  rw [length, List.drop_left, hscan]

theorem leftOpen_of_not_literal (hframe : Nests frame)
    (hnone : ¬ ∃ literal, literal <+: opening ++ rest ∧ language literal) :
    LeftOpen frame rest := by
  rcases hframe.settled rest with ⟨front, hbefore, hcloses⟩ | hopen
  · exact absurd ⟨opening ++ front, (literal_iff hlanguage _).mpr ⟨front, rfl, hbefore, hcloses⟩⟩
      hnone
  · exact hopen

theorem length_of_not_literal (hframe : Nests frame)
    (hnone : ¬ ∃ literal, literal <+: opening ++ rest ∧ language literal) :
    ∃ fault, length frame opening.length (opening ++ rest) = .error fault ∧
      (fault.cause = .unterminatedString ∨ fault.cause = .unterminatedInterpolation) := by
  obtain ⟨innermost, hopen, hnests⟩ :=
    leftOpen_of_not_literal hlanguage hframe hnone 0 [] opening.length
  refine ⟨⟨innermost.frame.unterminated, innermost.before⟩, ?_, hnests.unterminated⟩
  rw [length, List.drop_left, hopen]

/-- The literals of a delimiter are its opener with what closes it. -/
theorem Nests.recognises (hframe : Nests frame) :
    Recognises frame opening.length language (opening ++ rest) := by
  constructor
  · intro s t hs ht hls hlt
    obtain ⟨s, rfl, hsp, hcs⟩ := (literal_iff hlanguage s).mp ⟨hs, hls⟩
    obtain ⟨t, rfl, htp, hct⟩ := (literal_iff hlanguage t).mp ⟨ht, hlt⟩
    rw [hcs.unique hct hsp htp]
  · intro n
    constructor
    · intro hlength
      by_cases hsome : ∃ literal, literal <+: opening ++ rest ∧ language literal
      · obtain ⟨literal, hbefore, h⟩ := hsome
        rw [length_of_literal hlanguage hbefore h] at hlength
        exact ⟨literal, hbefore, h, Except.ok.inj hlength⟩
      · obtain ⟨fault, herror, -⟩ := length_of_not_literal hlanguage hframe hsome
        rw [herror] at hlength
        cases hlength
    · rintro ⟨literal, hbefore, h, rfl⟩
      exact length_of_literal hlanguage hbefore h
  · exact length_of_not_literal hlanguage hframe
  · intro literal hbefore h before outer taken
    rw [List.drop_left]
    exact scan_of_literal hlanguage hbefore h before outer taken
  · intro hnone before outer taken
    rw [List.drop_left]
    obtain ⟨innermost, hopen, hnests⟩ :=
      leftOpen_of_not_literal hlanguage hframe hnone before outer (taken + opening.length)
    exact ⟨innermost, hopen, hnests.unterminated⟩

end Literals

theorem quoted_iff (mark : Quote) (literal : List Char) :
    Quoted mark literal ↔
      ∃ behind, literal = [mark.val] ++ behind ∧ Closes (.quote mark.val) behind := by
  constructor
  · rintro ⟨behind, rfl, h⟩
    exact ⟨behind, rfl, .quote h⟩
  · rintro ⟨behind, rfl, h⟩
    exact ⟨behind, rfl, h.balanced⟩

theorem interpolation_iff (literal : List Char) :
    Interpolation literal ↔
      ∃ behind, literal = ['#', '\x7b'] ++ behind ∧ Closes (.interpolation 0) behind := by
  constructor
  · rintro ⟨code, rfl, h⟩
    exact ⟨code ++ ['\x7d'], rfl, .brace h⟩
  · rintro ⟨behind, rfl, h⟩
    cases h with
    | brace h => exact ⟨_, rfl, h⟩

/-- At every place of a source, strings and interpolations are recognised exactly. -/
theorem recognised_at (source : String) (offset : Nat) :
    (∀ mark : Quote, source.toList[offset]? = some mark.val →
      Recognises (.quote mark.val) 1 (Quoted mark) (source.toList.drop offset)) ∧
    (source.toList[offset]? = some '#' → source.toList[offset + 1]? = some '\x7b' →
      Recognises (.interpolation 0) 2 Interpolation (source.toList.drop offset)) := by
  constructor
  · intro mark hmark
    obtain ⟨hlt, hget⟩ := List.getElem?_eq_some_iff.mp hmark
    rw [List.drop_eq_getElem_cons hlt, hget]
    exact Nests.recognises (quoted_iff mark) (.quote mark)
  · intro hsign hbrace
    obtain ⟨hlt, hget⟩ := List.getElem?_eq_some_iff.mp hsign
    obtain ⟨hlt', hget'⟩ := List.getElem?_eq_some_iff.mp hbrace
    rw [List.drop_eq_getElem_cons hlt, hget, List.drop_eq_getElem_cons hlt', hget']
    exact Nests.recognises interpolation_iff (.interpolation 0)

/-- A string with an interpolation that holds a string with a brace in it. -/
theorem recognised_nested :
    Recognises (.quote '\x22') 1 (Quoted ⟨'\x22', rfl⟩)
        ("say \x22a#\x7bf(\x27\x7d\x27)\x7db\x22 + 1".toList.drop 4) ∧
      length (.quote '\x22') 1
        ("say \x22a#\x7bf(\x27\x7d\x27)\x7db\x22 + 1".toList.drop 4) = .ok 13 ∧
      Recognises (.interpolation 0) 2 Interpolation
        ("say \x22a#\x7bf(\x27\x7d\x27)\x7db\x22 + 1".toList.drop 6) :=
  ⟨(recognised_at "say \x22a#\x7bf(\x27\x7d\x27)\x7db\x22 + 1" 4).1 ⟨'\x22', rfl⟩ (by decide),
    eq_ok_of_toOption (by decide +kernel),
    (recognised_at "say \x22a#\x7bf(\x27\x7d\x27)\x7db\x22 + 1" 6).2 (by decide) (by decide)⟩

end XhrKeywords.Delimited
