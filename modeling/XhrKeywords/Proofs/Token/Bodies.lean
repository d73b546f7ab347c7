import Mathlib.Data.Nat.Find
import Mathlib.Tactic.IntervalCases
import XhrKeywords.Proofs.Token.Excerpt
import XhrKeywords.Proofs.Token.Position
import XhrKeywords.Proofs.Token.Scanner
import XhrKeywords.Proofs.Token.Trivia

/-!
# Bodies are not read

The body of a heredoc runs from the line behind its opener through the first line that is its tag,
and no token starts there. The lexer keeps a heredoc until it reads the line break that ends the
line of the opener, and passes the body then. It does not read that line break as one when a token
runs over it or a backslash hides it; what follows is then read as a part of the program.
-/

namespace XhrKeywords

open Token Unicode

namespace Token

/-- The line of a text that a number of line feeds come before, without the one at its end. -/
def lineAt : Nat → List Char → List Char
  | 0, text => text.takeWhile (· != '\n')
  | _ + 1, [] => []
  | feeds + 1, c :: rest => if c = '\n' then lineAt feeds rest else lineAt (feeds + 1) rest

/-- Behind whole lines comes the line of their number. -/
theorem lineAt_append {front : List Char} (hfront : front = [] ∨ front.getLast? = some '\n')
    (text : List Char) :
    lineAt (front.count '\n') (front ++ text) = text.takeWhile (· != '\n') := by
  induction front with
  | nil => rw [List.count_nil, List.nil_append, lineAt]
  | cons c rest ih =>
    have hlast : (c :: rest).getLast? = some '\n' := hfront.resolve_left nofun
    by_cases hc : c = '\n'
    · subst hc
      rw [List.count_cons_self, List.cons_append, lineAt, if_pos rfl]
      apply ih
      cases rest with
      | nil => exact Or.inl rfl
      | cons d others => exact Or.inr (by rwa [List.getLast?_cons_cons] at hlast)
    · cases rest with
      | nil =>
        cases hlast
        exact absurd rfl hc
      | cons d others =>
        rw [List.getLast?_cons_cons] at hlast
        obtain ⟨feeds, hfeeds⟩ : ∃ feeds, (d :: others).count '\n' = feeds + 1 :=
          Nat.exists_eq_add_one.mpr (List.count_pos_iff.mpr (List.mem_of_getLast? hlast))
        have hlines := ih (Or.inr hlast)
        rw [hfeeds] at hlines
        rw [List.count_cons_of_ne hc, List.cons_append, hfeeds, lineAt, if_neg hc, hlines]

/-- A stretch without line feeds leaves the line as it is. -/
theorem count_take_eq {source : List Char} {start stop : Nat} (hle : start ≤ stop)
    (h : ∀ i, start ≤ i → i < stop → peek source i ≠ '\n') :
    (source.take stop).count '\n' = (source.take start).count '\n' := by
  obtain ⟨length, rfl⟩ := Nat.exists_eq_add_of_le hle
  rw [List.take_add, List.count_append, Nat.add_eq_left, List.count_eq_zero]
  intro hmem
  obtain ⟨i, hi⟩ := List.mem_iff_getElem?.mp hmem
  rw [List.getElem?_take] at hi
  split at hi
  · rename_i hlt
    rw [List.getElem?_drop] at hi
    refine h (start + i) (by omega) (by omega) ?_
    rw [peek, List.getD_eq_getElem?_getD, hi]
    rfl
  · cases hi

theorem count_take_le {source : List Char} {i j : Nat} (h : i ≤ j) :
    (source.take i).count '\n' ≤ (source.take j).count '\n' :=
  ((List.take_prefix_take_left h).sublist).count_le _

/-- One more character in front. -/
theorem take_succ_of_peek {source : List Char} {i : Nat} {c : Char} (hc : c ≠ '\x00')
    (h : peek source i = c) : source.take (i + 1) = source.take i ++ [c] := by
  rw [List.take_add_one, getElem?_of_peek hc h]
  rfl

/-- A token lies over an offset. -/
def IsTaken (tokens : List Token) (offset : Nat) : Prop :=
  ∃ t ∈ tokens, t.start ≤ offset ∧ offset < t.stop

/-- The line break at an offset follows a backslash that is part of no token and, as no number sign
behind a start opens one, of no comment. -/
def IsHidden (source : List Char) (tokens : List Token) (start offset : Nat) : Prop :=
  ∃ i, start ≤ i ∧ i + 1 = offset ∧ peek source i = '\\' ∧ ¬IsTaken tokens i ∧
    ∀ j, start ≤ j → j < i → peek source j = '#' → IsTaken tokens j

/-- At an offset stands the first line break behind a start, and it is read as one: it ends a line,
no token other than its own runs over it, and no backslash hides it. -/
structure BreaksAt (source : List Char) (tokens : List Token) (start offset : Nat) : Prop where
  behind : start ≤ offset
  first : ∀ i, start ≤ i → i < offset → isLineBreak (peek source i) = false
  feed : peek source offset = '\n' ∨
    (peek source offset = '\r' ∧ peek source (offset + 1) = '\n')
  free : ∀ t ∈ tokens, t.start ≤ offset → offset < t.stop → t.kind = .newline
  plain : ¬IsHidden source tokens start offset

/-- A character in front of which a comment may end: a line break or NUL. -/
def endsComment (c : Char) : Bool :=
  isLineBreak c || c == '\x00'

section breaks

variable {source : List Char} {tokens : List Token} {start offset : Nat}

theorem BreaksAt.isLineBreak (h : BreaksAt source tokens start offset) :
    isLineBreak (peek source offset) = true := by
  rcases h.feed with hfeed | ⟨hreturn, -⟩
  · rw [hfeed]
    rfl
  · rw [hreturn]
    rfl

/-- No line break comes earlier. -/
theorem BreaksAt.le_of_isLineBreak (h : BreaksAt source tokens start offset) {i : Nat}
    (hstart : start ≤ i) (hi : Token.isLineBreak (peek source i) = true) : offset ≤ i := by
  by_contra hlt
  rw [h.first i hstart (Nat.not_le.mp hlt)] at hi
  cases hi

/-- The line break ends with a line feed and has no other. -/
theorem BreaksAt.take_eq (h : BreaksAt source tokens start offset) :
    ∃ front, source.take (offset +
        if peek source offset = '\r' ∧ peek source (offset + 1) = '\n' then 2 else 1) =
        front ++ ['\n'] ∧ front.count '\n' = (source.take offset).count '\n' := by
  rcases h.feed with hfeed | hboth
  · refine ⟨_, ?_, rfl⟩
    rw [if_neg (by simp [hfeed])]
    exact take_succ_of_peek (by decide) hfeed
  · refine ⟨source.take offset ++ ['\r'], ?_, by simp⟩
    rw [if_pos hboth, ← take_succ_of_peek (by decide) hboth.1]
    exact take_succ_of_peek (by decide) hboth.2

end breaks

/-- What stands behind the characters that something has in common does not, or there is nothing. -/
theorem peek_length_takeWhile (p : Char → Bool) (text : List Char) :
    peek text (text.takeWhile p).length = '\x00' ∨
      p (peek text (text.takeWhile p).length) = false := by
  induction text with
  | nil => exact Or.inl rfl
  | cons c rest ih =>
    rw [List.takeWhile_cons]
    split
    · exact ih
    · rename_i hc
      exact Or.inr (Bool.not_eq_true _ ▸ hc)

/-- A comment ends in front of a character that ends comments. -/
theorem endsComment_commentLength (text : List Char) :
    endsComment (peek text (commentLength text)) = true := by
  have hinside (c : Char) : (!isLineBreak c && c != '\x00') = !endsComment c := by
    rw [endsComment, Bool.not_or]
    rfl
  rw [commentLength]
  simp only [hinside]
  rcases peek_length_takeWhile (fun c => !endsComment c) text with hnone | hother
  · rw [hnone]
    rfl
  · rwa [Bool.not_eq_false'] at hother

end Token

namespace Heredoc

variable {text : List Char} {found : Lexeme} {h : Heredoc}

/-- Whether a line, counted from one, ends the body of a heredoc. -/
def endsAt (h : Heredoc) (source : List Char) (number : Nat) : Bool :=
  h.endsWith (lineAt (number - 1) source)

/-- The tag of a heredoc has a character, so no empty line ends the body. -/
theorem not_endsWith_nil {tag : List Char} (htag : tag ≠ []) (indented : Bool) :
    endsWith ⟨.ofList tag, indented⟩ [] = false := by
  have hbare : (if indented = true then trimBlanks [] else ([] : List Char)) = [] := by
    cases indented <;> rfl
  rw [endsWith]
  simp only [String.toList_ofList]
  change ((if indented = true then trimBlanks [] else []) == tag) = false
  rw [hbare]
  simpa using htag.symm

end Heredoc

namespace Token

/-- What starts a lexeme is neither a line break nor NUL. -/
theorem Scanned.not_endsComment {context : Context} {text : List Char} {found : Lexeme}
    (h : Scanned context text found) : endsComment (peek text 0) = false := by
  have hclass {p : Char → Bool} (hp : (['\n', '\r', '\x00'].all fun c => !p c) = true)
      (hfirst : p (peek text 0) = true) : endsComment (peek text 0) = false := by
    have hmem := not_mem_of_class hfirst hp
    simp only [List.mem_cons, List.not_mem_nil, or_false, not_or] at hmem
    simp [endsComment, isLineBreak, hmem]
  cases h with
  | string hmark hfirst => rw [hfirst]; rcases hmark with rfl | rfl <;> rfl
  | number hfirst => exact hclass rfl hfirst
  | name hfirst => exact hclass rfl hfirst
  | command hfirst | instanceVariable hfirst | globalVariable hfirst | symbol hfirst
    | heredoc hfirst | percent hfirst | regexp hfirst | character hfirst => rw [hfirst]; rfl
  | operator h =>
    have hall : ∀ entry ∈ Operator.table, endsComment (peek entry.1 0) = false ∧ entry.1 ≠ [] := by
      decide
    obtain ⟨spelling, _, hmem, hstarts, -⟩ := Operator.exists_entry_of_read h
    obtain ⟨hends, hne⟩ := hall _ hmem
    obtain ⟨behind, rfl⟩ := hstarts
    cases spelling with
    | nil => exact absurd rfl hne
    | cons c rest => exact hends

namespace Lexer

variable {source : List Char} {tokens : List Token} {heredoc : Heredoc} {start offset : Nat}
  {s t last : Lexer}

theorem Leads.ordered (h : Leads (.start source) s) : s.Ordered source :=
  (h.keeps (I := fun s => s.Placed source ∧ s.Ordered source)
    (fun _ _ hrest hstep hs => ⟨hs.1.step hrest hstep, hs.2.step hs.1 hstep⟩)
    ⟨placed_start source, ordered_start source⟩).2

/-- A lexer in front of a line break that keeps the heredoc it has opened. Behind a comment, which
no token takes, there is nothing left to read in front of the line break. -/
structure Waits (source : List Char) (tokens : List Token) (heredoc : Heredoc) (start offset : Nat)
    (s : Lexer) : Prop where
  leads : Leads (.start source) s
  behind : start ≤ s.cursor.offset
  before : s.cursor.offset ≤ offset
  line : s.lineStart = false
  pending : heredoc ∈ s.heredocs
  comment : endsComment (peek source s.cursor.offset) = false →
    ∀ i, start ≤ i → i < s.cursor.offset → peek source i = '#' → IsTaken tokens i

/-- What passes characters that break no line leaves the lexer waiting, when a comment among them
leads to the line break. -/
theorem Waits.pass {n : Nat} (hs : Waits source tokens heredoc start offset s)
    (hbreak : BreaksAt source tokens start offset) (ht : Leads (.start source) t)
    (hcursor : t.cursor = s.cursor.advance n) (hline : t.lineStart = false)
    (hpending : heredoc ∈ t.heredocs) (hfirst : endsComment (peek source s.cursor.offset) = false)
    (hbefore : ∀ i, s.cursor.offset ≤ i → i < s.cursor.offset + n →
      isLineBreak (peek source i) = false)
    (hcomment : endsComment (peek source (s.cursor.offset + n)) = false →
      ∀ i, s.cursor.offset ≤ i → i < s.cursor.offset + n → peek source i = '#' →
        IsTaken tokens i) : Waits source tokens heredoc start offset t := by
  refine ⟨ht, ?_, ?_, hline, hpending, ?_⟩ <;> rw [hcursor, Cursor.offset_advance]
  · exact Nat.le_add_right_of_le hs.behind
  · by_contra hlt
    have hoffset := hbefore offset hs.before (Nat.not_le.mp hlt)
    rw [hbreak.isLineBreak] at hoffset
    cases hoffset
  · intro hends i hi hlt hmark
    by_cases hold : i < s.cursor.offset
    · exact hs.comment hfirst i hi hold hmark
    · exact hcomment hends i (Nat.not_lt.mp hold) hlt hmark

/-- The lexer does not wait at a backslash that hides the line break. -/
theorem Waits.not_isLineBreak (hs : Waits source tokens heredoc start offset s)
    (hbreak : BreaksAt source tokens start offset) (hmark : peek source s.cursor.offset = '\\')
    (hfree : ¬IsTaken tokens s.cursor.offset) :
    isLineBreak (peek source (s.cursor.offset + 1)) = false := by
  rw [← Bool.not_eq_true]
  intro hnext
  have hle := hbreak.le_of_isLineBreak (Nat.le_add_right_of_le hs.behind) hnext
  have hne : s.cursor.offset ≠ offset := by
    intro heq
    have hfeed := hbreak.isLineBreak
    rw [← heq, hmark] at hfeed
    cases hfeed
  have hoffset : s.cursor.offset + 1 = offset := by
    have := hs.before
    omega
  exact hbreak.plain ⟨s.cursor.offset, hs.behind, hoffset, hmark, hfree,
    hs.comment (by rw [hmark]; rfl)⟩

/-- A lexeme leaves the lexer waiting: a line break in its token would be the one that is waited
for, or lie behind it. -/
theorem Waits.lexeme {found : Lexeme} (hs : Waits source tokens heredoc start offset s)
    (hbreak : BreaksAt source tokens start offset) (ht : Leads (.start source) t)
    (hfound : Places s found t) (hmem : s.place found ∈ tokens) :
    Waits source tokens heredoc start offset t := by
  have hfirst := (scanned_of_readLexeme hfound.reads).not_endsComment
  rw [(hs.leads.placed (placed_start source)).rest, peek_drop] at hfirst
  have heq := hfound.eq
  subst heq
  refine hs.pass hbreak ht rfl rfl (List.mem_append_left _ hs.pending) hfirst ?_ ?_
  · intro i hi hlt
    rw [← Bool.not_eq_true]
    intro hfeed
    have hle := hbreak.le_of_isLineBreak (hs.behind.trans hi) hfeed
    exact (shaped_readLexeme hfound.reads).kind_ne.1
      (hbreak.free _ hmem hs.before (Nat.lt_of_le_of_lt hle hlt))
  · exact fun _ i hi hlt _ => ⟨_, hmem, hi, hlt⟩

/-- A step takes a waiting lexer further on, or it reads the line break. -/
theorem Waits.step (hs : Waits source tokens heredoc start offset s)
    (hlast : Finished source tokens last) (hbreak : BreaksAt source tokens start offset)
    (hrest : s.cursor.rest ≠ []) (hstep : s.step = .ok t) (ht : Leads t last) :
    Waits source tokens heredoc start offset t ∨
      s.cursor.offset = offset ∧ s.breakLine
        (if peek source offset = '\r' ∧ peek source (offset + 1) = '\n' then 2 else 1) = .ok t := by
  have hleads := hs.leads.trans (.single hrest hstep)
  obtain ⟨item, hitem, htake⟩ := step_eq_ok_iff.mp hstep
  have hfound := found_of_readItem hitem
  have hpeek (i : Nat) : peek s.cursor.rest i = peek source (s.cursor.offset + i) := by
    rw [(hs.leads.placed (placed_start source)).rest, peek_drop]
  have hhere : peek s.cursor.rest 0 = peek source s.cursor.offset := hpeek 0
  -- What several characters ahead have in common.
  have hahead {p : Char → Bool} {i : Nat} (hi : s.cursor.offset ≤ i)
      (hlt : i < s.cursor.offset + (s.cursor.rest.takeWhile p).length) :
      p (peek source i) = true := by
    rw [← Nat.add_sub_cancel' hi, ← hpeek]
    exact of_lt_length_takeWhile (Nat.sub_lt_left_of_lt_add hi hlt)
  -- Only the break itself ends the waiting: every other item is passed with the body still pending.
  cases hfound with
  | passage hline =>
    rw [hs.line] at hline
    cases hline
  | blank hblank =>
    cases htake
    have hplain {c : Char} (hc : isInlineBlank c = true) :
        isLineBreak c = false ∧ c ≠ '#' ∧ endsComment c = false := by
      simp only [isInlineBlank, Bool.or_eq_true, beq_iff_eq] at hc
      rcases hc with ((rfl | rfl) | rfl) | rfl <;> decide
    refine Or.inl (hs.pass hbreak hleads rfl rfl hs.pending ?_ ?_ ?_)
    · exact hhere ▸ (hplain hblank).2.2
    · exact fun i hi hlt => (hplain (hahead hi hlt)).1
    · exact fun _ i hi hlt hmark => absurd hmark (hplain (hahead hi hlt)).2.1
  | hiddenBreak hmark hnext =>
    cases htake
    rw [hpeek, hs.not_isLineBreak hbreak (hhere ▸ hmark)] at hnext
    · cases hnext
    rintro ⟨u, hu, hstart, hstop⟩
    rcases hlast.emitted_or_ahead ht hu with hbehind | ⟨hahead, -⟩
    · have := hs.leads.ordered.reached u hbehind
      omega
    · rw [Cursor.offset_advance] at hahead
      split at hahead <;> omega
  | comment hmark =>
    cases htake
    refine Or.inl (hs.pass hbreak hleads rfl rfl hs.pending ?_ ?_ ?_)
    · rw [← hhere, hmark]
      rfl
    · intro i hi hlt
      have := hahead hi hlt
      simp only [Bool.and_eq_true, Bool.not_eq_true'] at this
      exact this.1
    · intro hends
      rw [← hpeek, endsComment_commentLength] at hends
      cases hends
  | lineBreak hfeed =>
    rw [hhere] at hfeed
    have hoffset := Nat.le_antisymm hs.before (hbreak.le_of_isLineBreak hs.behind hfeed)
    refine Or.inr ⟨hoffset, ?_⟩
    rw [hhere, hpeek, hoffset] at htake
    exact htake
  | lexeme hread =>
    cases htake
    have hmem := hlast.mem_of_emitted ht List.mem_cons_self
    exact Or.inl (hs.lexeme hbreak hleads ⟨hread, rfl⟩ hmem)

/-- A waiting lexer comes to the line break and reads it. -/
theorem Waits.reads (hs : Waits source tokens heredoc start offset s)
    (hlast : Finished source tokens last) (hbreak : BreaksAt source tokens start offset)
    (h : Leads s last) :
    ∃ v w, Leads (.start source) v ∧ v.cursor.offset = offset ∧ heredoc ∈ v.heredocs ∧
      v.breakLine (if peek source offset = '\r' ∧ peek source (offset + 1) = '\n' then 2 else 1) =
        .ok w ∧ Leads (.start source) w ∧ Leads w last := by
  induction h with
  | refl =>
    have hinside := lt_length_of_peek isLineBreak rfl hbreak.isLineBreak
    have hrest := hlast.rest
    rw [(hs.leads.placed (placed_start source)).rest, List.drop_eq_nil_iff] at hrest
    have := hs.before
    omega
  | step hrest hstep hbehind ih =>
    rcases hs.step hlast hbreak hrest hstep hbehind with hwaits | ⟨hoffset, hread⟩
    · exact ih hwaits hlast
    · exact ⟨_, _, hs.leads, hoffset, hs.pending, hread, hs.leads.trans (.single hrest hstep),
        hbehind⟩

end Lexer

section bodies

variable {heredoc : Heredoc} {text front : List Char} {length : Nat}

/-- The body of each of several heredocs starts with a line, unless nothing is left. -/
theorem exists_body_of_bodiesLength {heredocs : List Heredoc} {total : Nat}
    (h : Heredoc.bodiesLength heredocs text = .ok total) (hmem : heredoc ∈ heredocs) :
    ∃ skipped length, HasBody heredoc (text.drop skipped) length ∧ skipped + length ≤ total ∧
      (text.drop skipped = [] ∨ skipped = 0 ∨ (text.take skipped).getLast? = some '\n') := by
  induction heredocs generalizing text total with
  | nil => cases hmem
  | cons first others ih =>
    obtain ⟨length, behind, hbody, hbehind, rfl⟩ := exists_of_bodiesLength_cons h
    rcases List.mem_cons.mp hmem with rfl | hmem
    · exact ⟨0, length, hbody, by omega, Or.inr (Or.inl rfl)⟩
    · obtain ⟨skipped, size, hother, htotal, hline⟩ := ih hbehind hmem
      rw [List.drop_drop] at hother hline
      refine ⟨length + skipped, size, hother, by omega, ?_⟩
      rcases hline with hnone | rfl | hfeed
      · exact Or.inl hnone
      · exact hbody.le.2.imp_right Or.inr
      · rw [List.take_add, List.getLast?_append, hfeed]
        exact Or.inr (Or.inr rfl)

/-- Where no empty line ends the body, the body has a character. -/
theorem HasBody.ne_nil (hbody : HasBody heredoc text length)
    (hnamed : heredoc.endsWith [] = false) : text ≠ [] := by
  rintro rfl
  obtain ⟨body, ending, rest, htext, -, ⟨before, last, rfl, -, -, hends⟩, -⟩ := hbody
  rw [List.nil_eq, List.append_eq_nil_iff, List.append_eq_nil_iff] at htext
  rw [htext.1.2, hnamed] at hends
  cases hends

/-- A body behind whole lines ends with a line that ends it, and no part of the line lies behind. -/
theorem HasBody.exists_last (hbody : HasBody heredoc text length)
    (hfront : front = [] ∨ front.getLast? = some '\n') :
    ∃ n, front.count '\n' ≤ n ∧ heredoc.endsWith (lineAt n (front ++ text)) = true ∧
      (text.drop length ≠ [] → n < (front ++ text.take length).count '\n') := by
  obtain ⟨body, ending, rest, rfl, rfl, ⟨before, last, rfl, -, hlast, hends⟩, hending⟩ := hbody
  have hlines : front ++ before.flatMap (· ++ ['\n']) = [] ∨
      (front ++ before.flatMap (· ++ ['\n'])).getLast? = some '\n' := by
    rcases List.eq_nil_or_concat before with rfl | ⟨others, line, rfl⟩
    · rwa [List.flatMap_nil, List.append_nil]
    · exact Or.inr (by simp)
  refine ⟨(front ++ before.flatMap (· ++ ['\n'])).count '\n', ?_, ?_, ?_⟩
  · rw [List.count_append]
    exact Nat.le_add_right _ _
  · have hline : IsLine (last ++ (ending ++ rest)) last (ending ++ rest) := by
      refine ⟨rfl, hlast, ?_⟩
      rcases hending with rfl | ⟨rfl, rfl⟩
      · exact Or.inr rfl
      · exact Or.inl rfl
    rwa [List.append_assoc _ last, ← List.append_assoc front, lineAt_append hlines,
      takeWhile_of_isLine hline]
  · intro hbehind
    rw [← List.append_assoc _ ending, List.take_left]
    rcases hending with rfl | ⟨rfl, rfl⟩
    · simp only [List.count_append, List.count_singleton_self]
      omega
    · exact absurd (by simp) hbehind

end bodies

/-- A string that starts with an angle bracket opens a heredoc. -/
theorem read?_of_string {context : Context} {text : List Char} {found : Lexeme}
    (h : readLexeme context text = .ok found) (hkind : found.kind = .string)
    (hfirst : peek text 0 = '<') : Heredoc.read? text = some found := by
  have hnone {p : Char → Bool} (hp : p '<' = false) : ¬p (peek text 0) = true := by
    rw [hfirst, hp]
    exact Bool.false_ne_true
  cases scanned_of_readLexeme h with
  | heredoc _ h => exact h
  | string hmark hquote =>
    rw [hfirst] at hquote
    rcases hmark with rfl | rfl <;> cases hquote
  | number hdigit => exact absurd hdigit (hnone rfl)
  | name hstart => exact absurd hstart (hnone rfl)
  | command hmark | instanceVariable hmark | globalVariable hmark | symbol hmark | percent hmark
    | regexp hmark | character hmark =>
    rw [hfirst] at hmark
    cases hmark
  | operator h =>
    have hall : ∀ entry ∈ Operator.table, entry.2 ≠ .string := by decide
    obtain ⟨_, _, hmem, -, rfl⟩ := Operator.exists_entry_of_read h
    exact absurd hkind (hall _ hmem)

/-- Behind the opener of a heredoc the lexer waits for the line break. -/
theorem waits_of_opens {source : List Char} {tokens : List Token} {t : Token} {last : Lexer}
    {heredoc : Heredoc} {offset : Nat} (hlast : Finished source tokens last) (ht : t ∈ tokens)
    (hkind : t.kind = .string) (hopens : t.Opens source heredoc)
    (hbreak : BreaksAt source tokens t.stop offset) :
    ∃ s, Lexer.Waits source tokens heredoc t.stop offset s ∧ Lexer.Leads s last := by
  cases hlast.origin ht with
  | newline => cases hkind
  | eof => cases hkind
  | @lexeme s next found hs hrest hstep hnext hfound =>
    have hplaced := (hs.placed (Lexer.placed_start source)).rest
    obtain ⟨opener, hread, hheredoc, -⟩ := hopens
    change Heredoc.read? (source.drop s.cursor.offset) = some opener at hread
    rw [← hplaced] at hread
    obtain ⟨_, _, _, _, hopener, -⟩ := Heredoc.exists_isOpener_of_read? hread
    have hsame := read?_of_string hfound.reads hkind hopener.brackets.1
    obtain rfl : opener = found := Option.some.inj (hread.symm.trans hsame)
    refine ⟨next, ?_, hnext⟩
    have hleads := hs.trans (.single hrest hstep)
    have heq := hfound.eq
    subst heq
    refine ⟨hleads, Nat.le_refl _, hbreak.behind, rfl, ?_, fun _ i hi hlt => ?_⟩
    · exact List.mem_append_right _ (Option.mem_toList.mpr hheredoc)
    · exact absurd hlt (Nat.not_lt.mpr hi)

/-- The line break is the one that ends the line of the opener. -/
theorem count_take_of_opens {source : List Char} {tokens : List Token} {t : Token}
    {heredoc : Heredoc} {offset : Nat} (hopens : t.Opens source heredoc)
    (hbreak : BreaksAt source tokens t.stop offset) :
    (source.take offset).count '\n' = (source.take t.start).count '\n' := by
  obtain ⟨found, hread, -, hstop⟩ := hopens
  obtain ⟨_, _, _, _, hopener, rfl⟩ := Heredoc.exists_isOpener_of_read? hread
  dsimp only at hstop
  apply count_take_eq (by have := hbreak.behind; omega)
  intro i hi hlt hfeed
  by_cases hinside : i < t.stop
  · refine hopener.peek_ne (i := i - t.start) (by omega) ?_
    rwa [peek_drop, Nat.add_sub_cancel' hi]
  · have hplain := hbreak.first i (Nat.not_lt.mp hinside) hlt
    rw [hfeed] at hplain
    cases hplain

/-- The line break that is read passes the body of each heredoc that is still to come, and the line
that ends it. -/
theorem exists_last_of_breakLine {source : List Char} {tokens : List Token} {heredoc : Heredoc}
    {start offset : Nat} {v w : Lexer} (hv : v.cursor.rest = source.drop offset)
    (hoffset : v.cursor.offset = offset) (hnamed : heredoc.endsWith [] = false)
    (hpending : heredoc ∈ v.heredocs) (hbreak : BreaksAt source tokens start offset)
    (hstep : v.breakLine (if peek source offset = '\r' ∧ peek source (offset + 1) = '\n' then 2
      else 1) = .ok w) (hrest : w.cursor.rest = source.drop w.cursor.offset) :
    ∃ n, (source.take offset).count '\n' < n ∧ heredoc.endsWith (lineAt n source) = true ∧
      (w.cursor.rest ≠ [] → n < (source.take w.cursor.offset).count '\n') := by
  obtain ⟨front, hfront, hcount⟩ := hbreak.take_eq
  generalize (if peek source offset = '\r' ∧ peek source (offset + 1) = '\n' then 2 else 1) = size
    at hstep hfront
  obtain ⟨bodies, hbodies, hcursor, -⟩ := Lexer.of_breakLine hstep
  rw [hv, List.drop_drop] at hbodies
  obtain ⟨skipped, length, hbody, htotal, hline⟩ := exists_body_of_bodiesLength hbodies hpending
  rw [List.drop_drop] at hbody hline
  -- The body starts on a line of its own.
  have hlines : (source.take (offset + size + skipped)).getLast? = some '\n' := by
    rw [List.take_add, hfront]
    rcases hline with hnone | rfl | hfeed
    · exact absurd hnone (hbody.ne_nil hnamed)
    · simp
    · rw [List.getLast?_append, hfeed]
      rfl
  obtain ⟨n, hn, hends, hbehind⟩ := hbody.exists_last (Or.inr hlines)
  rw [List.take_append_drop] at hends
  have hend : w.cursor.offset = offset + size + bodies := by
    rw [hcursor, Cursor.offset_advance, hoffset, Nat.add_assoc]
  refine ⟨n, ?_, hends, fun hmore => ?_⟩
  · rw [List.take_add, hfront] at hn
    simp only [List.count_append, List.count_singleton_self] at hn
    omega
  · rw [hrest] at hmore
    have hleft : (source.drop (offset + size + skipped)).drop length ≠ [] := by
      rw [List.drop_drop]
      intro hnone
      rw [List.drop_eq_nil_iff] at hnone
      exact hmore (List.drop_eq_nil_of_le (by omega))
    calc n < (source.take (offset + size + skipped) ++
          (source.drop (offset + size + skipped)).take length).count '\n' := hbehind hleft
      _ = (source.take (offset + size + skipped + length)).count '\n' := by rw [← List.take_add]
      _ ≤ (source.take w.cursor.offset).count '\n' := count_take_le (by omega)

/-- By the time a line break is read, no token starts behind it. -/
theorem start_le_of_breakLine {source : List Char} {v w : Lexer} {size : Nat} {t : Token}
    (hv : Lexer.Leads (.start source) v) (hstep : v.breakLine size = .ok w) (ht : t ∈ w.emitted) :
    t.start ≤ v.cursor.offset := by
  have hold : ∀ u ∈ v.emitted, u.start ≤ v.cursor.offset := by
    intro u hu
    have hlt := ((hv.placed (Lexer.placed_start _)).tokens u hu).1
    exact hlt.le.trans (hv.ordered.reached u hu)
  obtain ⟨-, -, -, -, -, hsame | hnew⟩ := Lexer.of_breakLine hstep
  · exact hold t (hsame ▸ ht)
  · rcases List.mem_cons.mp (hnew ▸ ht) with rfl | ht
    · exact Nat.le_refl _
    · exact hold t ht

/-- The line of a token is told by the line feeds in front of it. -/
theorem Located.line_eq {source : List Char} {t : Token} (h : t.Located source) :
    t.line = 1 + (source.take t.start).count '\n' :=
  congrArg Position.line h.start

/-- No token starts in the body of a heredoc when the line break behind its opener is read as one:
the body runs from the next line through the first one that ends it. -/
theorem tokens_outside_body {source : String} {tokens : List Token} {t : Token} {heredoc : Heredoc}
    {offset : Nat} (h : tokenize source = .ok tokens) (ht : t ∈ tokens) (hkind : t.kind = .string)
    (hopens : t.Opens source.toList heredoc)
    (hbreak : BreaksAt source.toList tokens t.stop offset) :
    ∃ m, t.line < m ∧ heredoc.endsAt source.toList m = true ∧
      (∀ k, t.line < k → k < m → heredoc.endsAt source.toList k = false) ∧
      ∀ u ∈ tokens, u.kind ≠ .eof → u.line ≤ t.line ∨ m < u.line := by
  have hlocated := located_of_tokenize h
  obtain ⟨last, hlast⟩ := finished_of_tokenize h
  obtain ⟨s, hwaits, hs⟩ := waits_of_opens hlast ht hkind hopens hbreak
  obtain ⟨v, w, hv, hoffset, hpending, hstep, hw, hbehind⟩ := hwaits.reads hlast hbreak hs
  have hopener : t.line = 1 + (source.toList.take offset).count '\n' := by
    rw [(hlocated t ht).line_eq, count_take_of_opens hopens hbreak]
  have hnamed : heredoc.endsWith [] = false := by
    obtain ⟨found, hread, hheredoc, -⟩ := hopens
    obtain ⟨_, _, _, indented, hopener, rfl⟩ := Heredoc.exists_isOpener_of_read? hread
    cases hheredoc
    exact Heredoc.not_endsWith_nil hopener.named indented
  obtain ⟨n, hn, hends, hpassed⟩ := exists_last_of_breakLine
    (hoffset ▸ (hv.placed (Lexer.placed_start _)).rest) hoffset hnamed hpending hbreak hstep
    (hw.placed (Lexer.placed_start _)).rest
  -- The first line behind the opener that ends the body is no later than the one that is passed.
  have hexists : ∃ m, t.line < m ∧ heredoc.endsAt source.toList m = true :=
    ⟨n + 1, by omega, hends⟩
  refine ⟨Nat.find hexists, (Nat.find_spec hexists).1, (Nat.find_spec hexists).2, ?_, ?_⟩
  · intro k hk hlt
    have hnot := Nat.find_min hexists hlt
    rw [not_and, Bool.not_eq_true] at hnot
    exact hnot hk
  have hfirst : Nat.find hexists ≤ n + 1 := Nat.find_min' hexists ⟨by omega, hends⟩
  intro u hu hopen
  rw [(hlocated u hu).line_eq]
  -- A token emitted before the break starts in front of it, the others behind the body.
  rcases hlast.emitted_or_ahead hbehind hu with hemitted | ⟨hahead, hclosed⟩
  · have hstart : u.start ≤ offset := hoffset ▸ start_le_of_breakLine hv hstep hemitted
    have : (source.toList.take u.start).count '\n' ≤ _ := count_take_le hstart
    exact Or.inl (by omega)
  · have hline := hpassed fun hnone => hopen (hclosed hnone)
    have : _ ≤ (source.toList.take u.start).count '\n' := count_take_le hahead
    exact Or.inr (by omega)

/-- A backslash in a comment hides nothing. -/
theorem tokens_outside_body_of_comment :
    ∃ tokens, tokenize "<<~A # \\\r\n b\n  A\nc" = .ok tokens ∧ ∃ t ∈ tokens, ∃ heredoc,
      t.Opens "<<~A # \\\r\n b\n  A\nc".toList heredoc ∧
      ∃ m, t.line < m ∧ heredoc.endsAt "<<~A # \\\r\n b\n  A\nc".toList m = true ∧
        (∀ k, t.line < k → k < m →
          heredoc.endsAt "<<~A # \\\r\n b\n  A\nc".toList k = false) ∧
        ∀ u ∈ tokens, u.kind ≠ .eof → u.line ≤ t.line ∨ m < u.line := by
  have htokens : tokenize "<<~A # \\\r\n b\n  A\nc" = .ok
      [⟨.string, "<<~A", 1, 1, 0, false, 1, 5, 4⟩, ⟨.newline, "\n", 1, 9, 8, true, 1, 10, 9⟩,
        ⟨.ident, "c", 4, 1, 17, false, 4, 2, 18⟩, ⟨.eof, "", 4, 2, 18, false, 4, 2, 18⟩] :=
    eq_ok_of_toOption (by decide +kernel)
  have hopens : Opens "<<~A # \\\r\n b\n  A\nc".toList
      ⟨.string, "<<~A", 1, 1, 0, false, 1, 5, 4⟩ ⟨"A", true⟩ :=
    ⟨⟨.string, "<<~A", 4, some ⟨"A", true⟩⟩, by decide +kernel, rfl, rfl⟩
  refine ⟨_, htokens, _, List.mem_cons_self, _, hopens,
    tokens_outside_body htokens List.mem_cons_self rfl hopens
      (show BreaksAt _ _ 4 8 from ⟨by decide, ?_, by decide, by decide, ?_⟩)⟩
  · intro i hi hlt
    interval_cases i <;> rfl
  · rintro ⟨i, -, hi, -, -, hall⟩
    obtain rfl : i = 7 := by omega
    obtain ⟨u, hu, hstart, hstop⟩ := hall 5 (by decide) (by decide) (by decide)
    simp only [List.mem_cons, List.not_mem_nil, or_false] at hu
    rcases hu with rfl | rfl | rfl | rfl <;> simp at hstart hstop

/-- A backslash hides the line break behind an opener, and the body is read. -/
theorem token_in_hidden_body :
    ∃ tokens, tokenize "<<A \\\nb\nA\n" = .ok tokens ∧ ∃ t ∈ tokens, ∃ heredoc,
      t.kind = .string ∧ t.Opens "<<A \\\nb\nA\n".toList heredoc ∧
      (∀ u ∈ tokens, u.line = t.line → u = t) ∧
      heredoc.endsAt "<<A \\\nb\nA\n".toList 3 = true ∧
      (∀ k, t.line < k → k < 3 → heredoc.endsAt "<<A \\\nb\nA\n".toList k = false) ∧
      ∃ u ∈ tokens, u.kind = .ident ∧ t.line < u.line ∧ u.line ≤ 3 := by
  refine ⟨[⟨.string, "<<A", 1, 1, 0, false, 1, 4, 3⟩, ⟨.ident, "b", 2, 1, 6, true, 2, 2, 7⟩,
      ⟨.newline, "\n", 2, 2, 7, false, 2, 3, 8⟩, ⟨.eof, "", 4, 1, 10, false, 4, 1, 10⟩],
    eq_ok_of_toOption (by decide +kernel), _, List.mem_cons_self, ⟨"A", false⟩, rfl,
    ⟨⟨.string, "<<A", 3, some ⟨"A", false⟩⟩, by decide +kernel, rfl, rfl⟩, by decide,
    by decide +kernel, ?_, _, List.mem_cons_of_mem _ List.mem_cons_self, rfl, by decide, by decide⟩
  intro k hk hlt
  obtain rfl : k = 2 := by dsimp only at hk; omega
  decide +kernel

end Token

end XhrKeywords
