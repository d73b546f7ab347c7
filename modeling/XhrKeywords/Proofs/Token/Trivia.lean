import XhrKeywords.Proofs.Token.Lines
import XhrKeywords.Proofs.Token.Order

/-!
# What is no token is trivia

The characters of a source that no token takes lie in blank space, in line breaks, in comments, in
block comments, behind the end mark or in the bodies of heredocs. There is one exception: a
backslash in front of a carriage return hides the character behind it as well.
-/

namespace XhrKeywords

open Token Unicode

/-- A token at which a heredoc opens. -/
def Token.Opens (source : List Char) (t : Token) (h : Heredoc) : Prop :=
  ∃ found, Heredoc.read? (source.drop t.start) = some found ∧ found.heredoc = some h ∧
    t.stop = t.start + found.length

section announces

variable {context : Context} {text : List Char} {found : Lexeme}

open Name in
theorem Name.heredoc_read (named : Bool) (text : List Char) :
    (Name.read named text).heredoc = none := by
  rw [Name.read]
  generalize (hasMark (text.drop (run text)) && !isUpper (peek text 0)) = marked
  generalize (if marked = true then run text + 1 else run text) = length
  split
  · rfl
  · split <;> rfl

theorem Name.heredoc_readInstance (h : Name.readInstance text = .ok found) :
    found.heredoc = none := by
  rw [Name.readInstance] at h
  dsimp only at h
  generalize (if (peek text 1 == '@') = true then 2 else 1) = mark at h
  split at h <;> cases h
  rfl

theorem Name.heredoc_readGlobal (h : Name.readGlobal text = .ok found) : found.heredoc = none := by
  simp only [Name.readGlobal] at h
  split at h
  · cases h
    rfl
  · split at h
    · cases h
      rfl
    · split at h <;> cases h
      rfl

theorem Number.heredoc_read (text : List Char) : (Number.read text).heredoc = none := by
  simp only [Number.read]
  split <;> rfl

theorem Operator.heredoc_read (h : Operator.read text = .ok found) : found.heredoc = none := by
  obtain ⟨_, _, -, -, rfl⟩ := exists_entry_of_read h
  rfl

namespace Literal

theorem heredoc_readString {mark : Char} (h : readString mark text = .ok found) :
    found.heredoc = none := by
  obtain ⟨length, -, h⟩ := bind_eq_ok_iff.mp h
  dsimp only at h
  split at h <;> cases h <;> rfl

theorem heredoc_readCommand (h : readCommand text = .ok found) : found.heredoc = none := by
  obtain ⟨length, -, h⟩ := bind_eq_ok_iff.mp h
  cases h
  rfl

theorem heredoc_readRegexp (h : readRegexp text = .ok found) : found.heredoc = none := by
  obtain ⟨body, -, h⟩ := bind_eq_ok_iff.mp h
  cases h
  rfl

theorem heredoc_readPercent (h : readPercent text = .ok found) : found.heredoc = none := by
  obtain ⟨body, -, h⟩ := bind_eq_ok_iff.mp h
  cases h
  rfl

theorem heredoc_readSymbol? (h : readSymbol? context text = .ok (some found)) :
    found.heredoc = none := by
  cases isSymbol_of_readSymbol? h <;> rfl

end Literal

/-- Only the opener of a heredoc announces a body. -/
theorem Token.read?_of_readLexeme {h : Heredoc} (hread : readLexeme context text = .ok found)
    (hheredoc : found.heredoc = some h) : Heredoc.read? text = some found := by
  have hnone (hnone : found.heredoc = none) : Heredoc.read? text = some found := by
    rw [hnone] at hheredoc
    cases hheredoc
  cases scanned_of_readLexeme hread with
  | string _ _ h => exact hnone (Literal.heredoc_readString h)
  | command _ h => exact hnone (Literal.heredoc_readCommand h)
  | number => exact hnone (Number.heredoc_read text)
  | name => exact hnone (Name.heredoc_read _ text)
  | instanceVariable _ h => exact hnone (Name.heredoc_readInstance h)
  | globalVariable _ h => exact hnone (Name.heredoc_readGlobal h)
  | symbol _ h => exact hnone (Literal.heredoc_readSymbol? h)
  | heredoc _ h => exact h
  | percent _ _ h => exact hnone (Literal.heredoc_readPercent h)
  | regexp _ h => exact hnone (Literal.heredoc_readRegexp h)
  | character => exact hnone rfl
  | operator h => exact hnone (Operator.heredoc_read h)

end announces

namespace Token

/-- One line break at the head of a text: a line feed, a carriage return with its line feed, or a
carriage return alone. -/
inductive IsBreak : List Char → List Char → Prop
  | feed (rest : List Char) : IsBreak ['\n'] rest
  | both (rest : List Char) : IsBreak ['\r', '\n'] rest
  | carriage {rest : List Char} (h : rest.head? ≠ some '\n') : IsBreak ['\r'] rest

/-- A place in a source where a line starts. -/
def IsLineStart (source : List Char) (offset : Nat) : Prop :=
  (source.take offset).getLast?.all isLineBreak = true

/-- A stretch of a source that is no token, by the characters at its head. -/
inductive Trivia (source : List Char) (tokens : List Token) (start : Nat) : Nat → Prop
  /-- Spaces, tabs, form feeds or vertical tabs. -/
  | blank {blanks rest : List Char} (h : source.drop start = blanks ++ rest)
      (hblank : ∀ c ∈ blanks, isInlineBlank c) : Trivia source tokens start blanks.length
  /-- A backslash and the line break behind it. -/
  | hiddenBreak {ending rest : List Char} (h : source.drop start = '\\' :: (ending ++ rest))
      (hbreak : IsBreak ending rest) : Trivia source tokens start (ending.length + 1)
  /-- A number sign and what stands behind it on its line. -/
  | comment {line rest : List Char} (h : source.drop start = '#' :: (line ++ rest))
      (hline : ∀ c ∈ line, ¬isLineBreak c) : Trivia source tokens start (line.length + 1)
  | lineBreak {ending rest : List Char} (h : source.drop start = ending ++ rest)
      (hbreak : IsBreak ending rest) : Trivia source tokens start ending.length
  | block {length : Nat} (hline : IsLineStart source start)
      (h : HasBlock (source.drop start) length) : Trivia source tokens start length
  /-- All that is left from the end mark on. -/
  | ended (hline : IsLineStart source start) (h : HasEndMark (source.drop start)) :
      Trivia source tokens start (source.length - start)
  /-- The body of a heredoc that a token further in front opens. -/
  | body {t : Token} {heredoc : Heredoc} {length : Nat} (hline : IsLineStart source start)
      (ht : t ∈ tokens) (hopens : t.Opens source heredoc) (hbefore : t.stop ≤ start)
      (h : HasBody heredoc (source.drop start) length) : Trivia source tokens start length

/-- No token lies between two offsets, except for the one that a line break there has become. -/
def Clear (tokens : List Token) (start stop : Nat) : Prop :=
  ∀ t ∈ tokens, t.stop ≤ start ∨ stop ≤ t.start ∨ (t.kind = .newline ∧ t.start = start)

/-- An offset in a stretch that is no token and ends in front of a bound. -/
def IsDropped (source : List Char) (tokens : List Token) (bound offset : Nat) : Prop :=
  ∃ start length, Trivia source tokens start length ∧ Clear tokens start (start + length) ∧
    start ≤ offset ∧ offset < start + length ∧ start + length ≤ bound

/-- An offset right behind a backslash and a carriage return, where no line feed is. -/
def IsSwallowed (source : List Char) (tokens : List Token) (bound offset : Nat) : Prop :=
  ∃ start c rest, source.drop start = '\\' :: '\r' :: c :: rest ∧ c ≠ '\n' ∧
    Clear tokens start (start + 3) ∧ offset = start + 2 ∧ start + 3 ≤ bound

/-- An offset that a token takes, or that is accounted for without one. -/
def IsAccounted (source : List Char) (tokens : List Token) (bound offset : Nat) : Prop :=
  (∃ t ∈ tokens, t.start ≤ offset ∧ offset < t.stop) ∨ IsDropped source tokens bound offset ∨
    IsSwallowed source tokens bound offset

section tokens

variable {source : List Char} {tokens : List Token} {u : Token}
  {start length bound bound' offset : Nat}

theorem Trivia.mono {more : List Token} (hmore : ∀ t ∈ tokens, t ∈ more)
    (h : Trivia source tokens start length) : Trivia source more start length := by
  cases h with
  | blank h hblank => exact .blank h hblank
  | hiddenBreak h hbreak => exact .hiddenBreak h hbreak
  | comment h hline => exact .comment h hline
  | lineBreak h hbreak => exact .lineBreak h hbreak
  | block hline h => exact .block hline h
  | ended hline h => exact .ended hline h
  | body hline ht hopens hbefore h =>
    exact .body hline (hmore _ ht) hopens hbefore h

/-- A token behind a stretch leaves it clear. -/
theorem Clear.cons {stop : Nat} (h : Clear tokens start stop) (hu : stop ≤ u.start) :
    Clear (u :: tokens) start stop :=
  List.forall_mem_cons.mpr ⟨Or.inr (Or.inl hu), h⟩

/-- Tokens that all end in front of a stretch leave it clear. -/
theorem clear_of_reached {stop : Nat} (h : ∀ t ∈ tokens, t.stop ≤ start) :
    Clear tokens start stop :=
  fun t ht => Or.inl (h t ht)

/-- Moving on keeps offsets accounted for. -/
theorem IsAccounted.move (h : IsAccounted source tokens bound offset) (hle : bound ≤ bound') :
    IsAccounted source tokens bound' offset := by
  obtain htoken | ⟨start, length, htrivia, hclear, hstart, hstop, hbound⟩ |
    ⟨start, c, rest, htext, hc, hclear, hoffset, hbound⟩ := h
  · exact Or.inl htoken
  · exact Or.inr (Or.inl ⟨start, length, htrivia, hclear, hstart, hstop, hbound.trans hle⟩)
  · exact Or.inr (Or.inr ⟨start, c, rest, htext, hc, hclear, hoffset, hbound.trans hle⟩)

/-- One more token at the bound keeps offsets accounted for. -/
theorem IsAccounted.cons (h : IsAccounted source tokens bound offset) (hu : bound ≤ u.start) :
    IsAccounted source (u :: tokens) bound offset := by
  obtain ⟨t, ht, hspan⟩ | ⟨start, length, htrivia, hclear, hstart, hstop, hbound⟩ |
    ⟨start, c, rest, htext, hc, hclear, hoffset, hbound⟩ := h
  · exact Or.inl ⟨t, List.mem_cons_of_mem u ht, hspan⟩
  · exact Or.inr (Or.inl ⟨start, length, htrivia.mono fun _ => List.mem_cons_of_mem u,
      hclear.cons (hbound.trans hu), hstart, hstop, hbound⟩)
  · exact Or.inr (Or.inr ⟨start, c, rest, htext, hc, hclear.cons (hbound.trans hu), hoffset,
      hbound⟩)

/-- The order of the tokens does not count. -/
theorem IsAccounted.congr {others : List Token} (h : IsAccounted source tokens bound offset)
    (hsame : ∀ t, t ∈ tokens ↔ t ∈ others) : IsAccounted source others bound offset := by
  obtain ⟨t, ht, hspan⟩ | ⟨start, length, htrivia, hclear, hoffset⟩ |
    ⟨start, c, rest, htext, hc, hclear, hoffset⟩ := h
  · exact Or.inl ⟨t, (hsame t).mp ht, hspan⟩
  · exact Or.inr (Or.inl ⟨start, length, htrivia.mono fun t => (hsame t).mp,
      fun t ht => hclear t ((hsame t).mpr ht), hoffset⟩)
  · exact Or.inr (Or.inr ⟨start, c, rest, htext, hc, fun t ht => hclear t ((hsame t).mpr ht),
      hoffset⟩)

/-- A place behind a line feed or a carriage return starts a line. -/
theorem isLineStart_of_append {front rest : List Char} {c : Char}
    (h : source.drop start = front ++ rest) (hlast : front.getLast? = some c)
    (hc : isLineBreak c = true) : IsLineStart source (start + front.length) := by
  have htake : source.take (start + front.length) = source.take start ++ front := by
    rw [List.take_add, h, List.take_left]
  rw [IsLineStart, htake, List.getLast?_append, hlast]
  exact hc

end tokens

/-- Where the bodies of several heredocs lie that come one after the other. -/
theorem of_bodiesLength {heredocs : List Heredoc} {text : List Char} {total : Nat}
    (h : Heredoc.bodiesLength heredocs text = .ok total) :
    total ≤ text.length ∧
      (total = 0 ∨ text.drop total = [] ∨ (text.take total).getLast? = some '\n') ∧
      ∀ i < total, ∃ skipped heredoc length, heredoc ∈ heredocs ∧
        HasBody heredoc (text.drop skipped) length ∧
        (skipped = 0 ∨ (text.take skipped).getLast? = some '\n') ∧
        skipped ≤ i ∧ i < skipped + length ∧ skipped + length ≤ total := by
  induction heredocs generalizing text total with
  | nil =>
    cases h
    exact ⟨Nat.zero_le _, Or.inl rfl, nofun⟩
  | cons heredoc others ih =>
    obtain ⟨length, behind, hbody, hbehind, rfl⟩ := exists_of_bodiesLength_cons h
    obtain ⟨hle, hend⟩ := hbody.le
    obtain ⟨hbound, hlast, hcover⟩ := ih hbehind
    rw [List.length_drop] at hbound
    -- What ends with a line feed behind the first body does so in the whole text.
    have hshift : ∀ n, ((text.drop length).take n).getLast? = some '\n' →
        (text.take (length + n)).getLast? = some '\n' := by
      intro n hn
      rw [List.take_add, List.getLast?_append, hn]
      rfl
    refine ⟨by omega, ?_, ?_⟩
    · rcases hlast with rfl | hlast | hlast
      · exact Or.inr hend
      · exact Or.inr (Or.inl (by rwa [List.drop_drop] at hlast))
      · exact Or.inr (Or.inr (hshift behind hlast))
    · intro i hi
      by_cases hfirst : i < length
      · exact ⟨0, heredoc, length, List.mem_cons_self, hbody, Or.inl rfl, Nat.zero_le i,
          by omega, by omega⟩
      · obtain ⟨skipped, other, size, hmem, hother, hline, hstart, hstop, htotal⟩ :=
          hcover (i - length) (by omega)
        refine ⟨length + skipped, other, size, List.mem_cons_of_mem _ hmem, ?_, Or.inr ?_,
          by omega, by omega, by omega⟩
        · rwa [List.drop_drop] at hother
        · rcases hline with rfl | hline
          · refine hend.resolve_left fun hnone => ?_
            have := congrArg List.length hnone
            rw [List.length_drop, List.length_nil] at this
            omega
          · exact hshift skipped hline

namespace Lexer

/-- Every character behind the cursor is accounted for, a line starts where the lexer says so, and
the heredocs whose bodies are still to come have been opened. -/
structure Accounts (source : List Char) (s : Lexer) : Prop where
  accounted : ∀ i < s.cursor.offset, i < source.length →
    IsAccounted source s.emitted s.cursor.offset i
  line : s.lineStart → s.cursor.rest = [] ∨ IsLineStart source s.cursor.offset
  opened : ∀ h ∈ s.heredocs, ∃ t ∈ s.emitted, t.Opens source h

/-- Trivia at the cursor are accounted for. -/
theorem isAccounted_of_trivia {source : List Char} {tokens : List Token}
    {start length bound i : Nat} (hreached : ∀ t ∈ tokens, t.stop ≤ start)
    (h : Trivia source tokens start length) (hbound : start + length ≤ bound) (hstart : start ≤ i)
    (hstop : i < start + length) : IsAccounted source tokens bound i :=
  Or.inr (Or.inl ⟨start, length, h, clear_of_reached hreached, hstart, hstop, hbound⟩)

/-- A backslash in front of a line break hides it; a carriage return takes one more character with
it. -/
theorem isAccounted_of_hiddenBreak {source : List Char} {tokens : List Token} {start i : Nat}
    (hreached : ∀ t ∈ tokens, t.stop ≤ start) (h : peek (source.drop start) 0 = '\\')
    (hbreak : isLineBreak (peek (source.drop start) 1) = true) (hstart : start ≤ i)
    (hstop : i < start + if peek (source.drop start) 1 = '\r' then 3 else 2)
    (hi : i < source.length) :
    IsAccounted source tokens (start + if peek (source.drop start) 1 = '\r' then 3 else 2) i := by
  have hlength : (source.drop start).length = source.length - start := List.length_drop
  rcases htext : source.drop start with _ | ⟨c, _ | ⟨d, rest⟩⟩
  · simp [htext] at h
  · simp [htext, isLineBreak] at hbreak
  · simp only [htext, peek_cons_zero, peek_cons_succ] at h hbreak hstop ⊢
    subst h
    by_cases hd : d = '\r'
    · subst hd
      simp only [if_true] at hstop ⊢
      cases rest with
      | nil =>
        rw [htext] at hlength
        simp only [List.length_cons, List.length_nil] at hlength
        exact isAccounted_of_trivia hreached (.hiddenBreak htext (.carriage (by simp)))
          (by simp) hstart (by simp; omega)
      | cons e behind =>
        by_cases he : e = '\n'
        · subst he
          exact isAccounted_of_trivia hreached (.hiddenBreak htext (.both behind)) (by simp) hstart
            (by simpa using hstop)
        · by_cases hlast : i = start + 2
          · exact Or.inr (Or.inr ⟨start, e, behind, htext, he, clear_of_reached hreached, hlast,
              Nat.le_refl _⟩)
          · exact isAccounted_of_trivia hreached
              (.hiddenBreak htext (.carriage (by simpa using he))) (by simp) hstart
              (by simp; omega)
    · have hfeed : d = '\n' := by simpa [isLineBreak, hd] using hbreak
      subst hfeed
      simp only [hd, if_false] at hstop ⊢
      exact isAccounted_of_trivia hreached (.hiddenBreak htext (.feed rest)) (by simp) hstart
        (by simpa using hstop)

variable {source : List Char} {s t : Lexer}

theorem accounts_start (source : List Char) : (start source).Accounts source :=
  ⟨nofun, fun _ => Or.inr rfl, nofun⟩

/-- An item without a token keeps the account if what it passes is accounted for. -/
theorem Accounts.pass {n : Nat} (h : s.Accounts source) (hemitted : t.emitted = s.emitted)
    (hcursor : t.cursor = s.cursor.advance n) (hline : t.lineStart = false)
    (hheredocs : t.heredocs = s.heredocs)
    (hnew : ∀ i, s.cursor.offset ≤ i → i < s.cursor.offset + n → i < source.length →
      IsAccounted source s.emitted (s.cursor.offset + n) i) : t.Accounts source := by
  refine ⟨?_, by simp [hline], ?_⟩
  · rw [hcursor, hemitted, Cursor.offset_advance]
    intro i hi hinside
    by_cases hold : i < s.cursor.offset
    · exact (h.accounted i hold hinside).move (Nat.le_add_right _ _)
    · exact hnew i (Nat.not_lt.mp hold) hi hinside
  · rw [hemitted, hheredocs]
    exact h.opened

/-- A passage that is found is trivia. -/
theorem trivia_of_passage {tokens : List Token} {start length : Nat}
    (hline : IsLineStart source start)
    (h : passage? (source.drop start) = .ok (some length)) :
    Trivia source tokens start length := by
  rcases passage_cases h with hblock | ⟨hmark, rfl⟩
  · exact .block hline hblock
  · rw [List.length_drop]
    exact .ended hline hmark

/-- A comment that is found is trivia. -/
theorem trivia_of_comment {tokens : List Token} {start : Nat}
    (h : peek (source.drop start) 0 = '#') :
    Trivia source tokens start (commentLength (source.drop start)) := by
  cases htext : source.drop start with
  | nil => simp [htext] at h
  | cons c rest =>
    rw [htext, peek_cons_zero] at h
    subst h
    have hlength : commentLength ('#' :: rest) =
        (rest.takeWhile fun c => !isLineBreak c && c != '\x00').length + 1 := rfl
    rw [hlength]
    have hsplit : source.drop start =
        '#' :: (rest.takeWhile fun c => !isLineBreak c && c != '\x00') ++
          rest.dropWhile fun c => !isLineBreak c && c != '\x00' := by
      rw [htext, List.cons_append, List.takeWhile_append_dropWhile]
    refine .comment hsplit fun c hc => ?_
    have hinside := List.mem_takeWhile_imp hc
    simp only [Bool.and_eq_true, Bool.not_eq_true'] at hinside
    simp [hinside.1]

/-- The line break at the head of a text. -/
theorem exists_isBreak {text : List Char} (h : isLineBreak (peek text 0) = true) :
    ∃ ending rest, text = ending ++ rest ∧ IsBreak ending rest ∧
      (if peek text 0 = '\r' ∧ peek text 1 = '\n' then 2 else 1) = ending.length := by
  cases text with
  | nil => simp [isLineBreak] at h
  | cons c rest =>
    by_cases hc : c = '\r'
    · subst hc
      by_cases hnext : peek rest 0 = '\n'
      · cases rest with
        | nil => cases hnext
        | cons d behind =>
          obtain rfl : d = '\n' := hnext
          exact ⟨_, behind, rfl, .both behind, rfl⟩
      · refine ⟨['\r'], rest, rfl, .carriage ?_, by simp [hnext]⟩
        rintro hhead
        cases rest with
        | nil => cases hhead
        | cons d behind => exact hnext (Option.some.inj hhead)
    · have hfeed : c = '\n' := by simpa [isLineBreak, hc] using h
      subst hfeed
      exact ⟨_, rest, rfl, .feed rest, by simp⟩

/-- A line break ends with a character that breaks lines. -/
theorem getLast?_of_isBreak {ending rest : List Char} (h : IsBreak ending rest) :
    ∃ c, ending.getLast? = some c ∧ isLineBreak c = true := by
  cases h with
  | feed => exact ⟨_, rfl, rfl⟩
  | both => exact ⟨_, rfl, rfl⟩
  | carriage => exact ⟨_, rfl, rfl⟩

/-- A line starts behind a line break, and behind a body there that ends with a line feed. -/
theorem isLineStart_behind {ending rest : List Char} {start n : Nat}
    (htext : source.drop start = ending ++ rest) (hending : IsBreak ending rest)
    (hn : n ≤ rest.length) (h : n = 0 ∨ (rest.take n).getLast? = some '\n') :
    IsLineStart source (start + ending.length + n) := by
  rcases h with rfl | hfeed
  · obtain ⟨c, hlast, hc⟩ := getLast?_of_isBreak hending
    exact isLineStart_of_append htext hlast hc
  · have hbehind : source.drop (start + ending.length) = rest.take n ++ rest.drop n := by
      rw [← List.drop_drop, htext, List.drop_left, List.take_append_drop]
    have hfront := isLineStart_of_append hbehind hfeed rfl
    rwa [List.length_take_of_le hn] at hfront

section Emitted

/-! A line break adds its own token to the ones before it, or no token. -/

variable (hordered : s.Ordered source)
  (hemitted : t.emitted = s.emitted ∨ t.emitted = s.placeNewline :: s.emitted)
include hemitted

theorem mem_emitted {u : Token} (hu : u ∈ s.emitted) : u ∈ t.emitted := by
  rcases hemitted with heq | heq <;> rw [heq]
  · exact hu
  · exact List.mem_cons_of_mem _ hu

theorem isAccounted_emitted {i : Nat}
    (h : IsAccounted source s.emitted s.cursor.offset i) :
    IsAccounted source t.emitted s.cursor.offset i := by
  rcases hemitted with heq | heq <;> rw [heq]
  · exact h
  · exact h.cons (Nat.le_refl _)

include hordered

theorem clear_emitted (stop : Nat) : Clear t.emitted s.cursor.offset stop := by
  have hclear : Clear s.emitted s.cursor.offset stop := clear_of_reached hordered.reached
  rcases hemitted with heq | heq <;> rw [heq]
  · exact hclear
  · exact List.forall_mem_cons.mpr ⟨Or.inr (Or.inr ⟨rfl, rfl⟩), hclear⟩

theorem stop_le_of_emitted : ∀ u ∈ t.emitted, u.stop ≤ s.cursor.offset + 1 := by
  have hreached : ∀ u ∈ s.emitted, u.stop ≤ s.cursor.offset + 1 :=
    fun u hu => (hordered.reached u hu).trans (Nat.le_succ _)
  rcases hemitted with heq | heq <;> rw [heq]
  · exact hreached
  · exact List.forall_mem_cons.mpr ⟨Nat.le_refl _, hreached⟩

end Emitted

/-- A line break and the bodies behind it keep the account. -/
theorem Accounts.breakLine (h : s.Accounts source) (hplaced : s.Placed source)
    (hordered : s.Ordered source) (hbreak : isLineBreak (peek s.cursor.rest 0) = true)
    (hstep : s.breakLine (if peek s.cursor.rest 0 = '\r' ∧ peek s.cursor.rest 1 = '\n'
      then 2 else 1) = .ok t) : t.Accounts source := by
  obtain ⟨ending, rest, htext, hending, hlength⟩ := exists_isBreak hbreak
  rw [hlength] at hstep
  obtain ⟨bodies, hbodies, hcursor, hline, hheredocs, hemitted⟩ := of_breakLine hstep
  have hdrop : s.cursor.rest.drop ending.length = rest := by rw [htext, List.drop_left]
  rw [hdrop] at hbodies
  obtain ⟨hbound, hend, hcover⟩ := of_bodiesLength hbodies
  rw [hplaced.rest] at htext
  have hpos : 0 < ending.length := by cases hending <;> exact Nat.succ_pos _
  refine ⟨?_, fun _ => ?_, ?_⟩
  · rw [hcursor, Cursor.offset_advance]
    intro i hi hinside
    -- An offset lies in front of the break, in the break, or in one of the bodies behind it.
    by_cases hold : i < s.cursor.offset
    · exact (isAccounted_emitted hemitted (h.accounted i hold hinside)).move (Nat.le_add_right _ _)
    by_cases hbreak : i < s.cursor.offset + ending.length
    · exact Or.inr (Or.inl ⟨_, _, .lineBreak htext hending, clear_emitted hordered hemitted _,
        Nat.not_lt.mp hold, hbreak, by omega⟩)
    obtain ⟨skipped, heredoc, length, hmem, hbody, hskipped, hfrom, hto, htotal⟩ :=
      hcover (i - (s.cursor.offset + ending.length)) (by omega)
    obtain ⟨opener, hopener, hopens⟩ := h.opened heredoc hmem
    have hstart := isLineStart_behind htext hending (n := skipped) (by omega) hskipped
    have hbefore : opener.stop ≤ s.cursor.offset + ending.length + skipped :=
      (hordered.reached opener hopener).trans (by omega)
    have hbehind : source.drop (s.cursor.offset + ending.length + skipped) = rest.drop skipped := by
      rw [← List.drop_drop, ← List.drop_drop, htext, List.drop_left]
    rw [← hbehind] at hbody
    have htrivia : Trivia source t.emitted (s.cursor.offset + ending.length + skipped) length :=
      .body hstart (mem_emitted hemitted hopener) hopens hbefore hbody
    refine isAccounted_of_trivia (fun u hu => ?_) htrivia (by omega) (by omega) (by omega)
    exact (stop_le_of_emitted hordered hemitted u hu).trans (by omega)
  · rw [hcursor, Cursor.rest_advance, Cursor.offset_advance, ← List.drop_drop, hdrop,
      ← Nat.add_assoc]
    rcases hend with hnone | hnone | hfeed
    · exact Or.inr (isLineStart_behind htext hending hbound (Or.inl hnone))
    · exact Or.inl hnone
    · exact Or.inr (isLineStart_behind htext hending hbound (Or.inr hfeed))
  · rw [hheredocs]
    exact nofun

/-- A step keeps the account. -/
theorem Accounts.step (h : s.Accounts source) (hplaced : s.Placed source)
    (hordered : s.Ordered source) (hrest : s.cursor.rest ≠ []) (hstep : s.step = .ok t) :
    t.Accounts source := by
  obtain ⟨item, hitem, htake⟩ := step_eq_ok_iff.mp hstep
  have hfound := found_of_readItem hitem
  rw [hplaced.rest] at hfound
  have hreached := hordered.reached
  -- What an item passes over is trivia of its kind, or a token that is emitted with it.
  cases hfound with
  | passage hline hpassage =>
    have hstart := (h.line hline).resolve_left hrest
    cases htake
    exact h.pass rfl rfl rfl rfl fun i hi hlt _ =>
      isAccounted_of_trivia hreached (trivia_of_passage hstart hpassage) (Nat.le_refl _) hi hlt
  | blank =>
    cases htake
    refine h.pass rfl rfl rfl rfl fun i hi hlt _ => isAccounted_of_trivia hreached
      (.blank List.takeWhile_append_dropWhile.symm fun c hc => ?_) (Nat.le_refl _) hi hlt
    exact List.mem_takeWhile_imp hc
  | hiddenBreak hmark hbreak =>
    cases htake
    exact h.pass rfl rfl rfl rfl fun i hi hlt hinside =>
      isAccounted_of_hiddenBreak hreached hmark hbreak hi hlt hinside
  | comment hmark =>
    cases htake
    exact h.pass rfl rfl rfl rfl fun i hi hlt _ =>
      isAccounted_of_trivia hreached (trivia_of_comment hmark) (Nat.le_refl _) hi hlt
  | lineBreak hbreak =>
    rw [← hplaced.rest] at hbreak htake
    exact h.breakLine hplaced hordered hbreak htake
  | lexeme hread =>
    rename_i found
    obtain ⟨hpos, -⟩ := le_reach_of_spans (spans_readLexeme hread)
    cases htake
    refine ⟨?_, nofun, ?_⟩
    · intro i hi hinside
      by_cases hold : i < s.cursor.offset
      · exact ((h.accounted i hold hinside).cons (Nat.le_refl _)).move (Nat.le_add_right _ _)
      · exact Or.inl ⟨_, List.mem_cons_self, Nat.not_lt.mp hold, hi⟩
    · intro heredoc hmem
      rcases List.mem_append.mp hmem with hmem | hmem
      · obtain ⟨opener, hopener, hopens⟩ := h.opened heredoc hmem
        exact ⟨opener, List.mem_cons_of_mem _ hopener, hopens⟩
      · rw [Option.mem_toList] at hmem
        exact ⟨_, List.mem_cons_self, found, read?_of_readLexeme hread hmem, hmem, rfl⟩

/-- A run keeps the account. -/
theorem Accounts.run {steps : Nat} (h : s.Accounts source) (hplaced : s.Placed source)
    (hordered : s.Ordered source) (hrun : run steps s = .ok t) : t.Accounts source :=
  (run_keeps (I := fun s => s.Placed source ∧ s.Ordered source ∧ s.Accounts source)
    (fun _ _ hrest hstep hs =>
      ⟨hs.1.step hrest hstep, hs.2.1.step hs.1 hstep, hs.2.2.step hs.1 hs.2.1 hrest hstep⟩)
    ⟨hplaced, hordered, h⟩ hrun).2.2

end Lexer

/-- Trivia lie within the source. -/
theorem Trivia.le {source : List Char} {tokens : List Token} {start length : Nat}
    (h : Trivia source tokens start length) : start + length ≤ max start source.length := by
  have hdrop : ∀ {text : List Char}, source.drop start = text →
      text.length = source.length - start := by
    rintro _ rfl
    exact List.length_drop
  cases h with
  | blank h | lineBreak h =>
    have := hdrop h
    rw [List.length_append] at this
    omega
  | hiddenBreak h | comment h =>
    have := hdrop h
    rw [List.length_cons, List.length_append] at this
    omega
  | block hline h =>
    obtain ⟨line, behind, block, rest, htext, rfl, -⟩ := h
    have := hdrop htext
    simp only [List.length_append, List.length_cons] at this ⊢
    omega
  | ended => omega
  | body hline ht hopens hbefore h =>
    have := h.le.1
    rw [List.length_drop] at this
    omega

/-- Every character that no token takes lies in trivia or is swallowed behind a backslash and a
carriage return. -/
theorem dropped_of_tokenize {source : String} {tokens : List Token}
    (h : tokenize source = .ok tokens) {offset : Nat} (hinside : offset < source.toList.length)
    (houtside : ∀ t ∈ tokens, ¬(t.start ≤ offset ∧ offset < t.stop)) :
    IsDropped source.toList tokens source.toList.length offset ∨
      IsSwallowed source.toList tokens source.toList.length offset := by
  obtain ⟨s, hrun, h⟩ := bind_eq_ok_iff.mp h
  have hplaced := (Lexer.placed_start source.toList).run hrun
  have haccounts := (Lexer.accounts_start source.toList).run (Lexer.placed_start _)
    (Lexer.ordered_start _) hrun
  have hnone := Lexer.rest_of_run (s := .start source.toList) (Nat.le_refl _) hrun
  rw [hplaced.rest, List.drop_eq_nil_iff] at hnone
  rw [Lexer.finish] at h
  split at h
  · cases h
    have hbehind : IsAccounted source.toList (s.endToken :: s.emitted) s.cursor.offset offset :=
      (haccounts.accounted offset (hinside.trans_le hnone) hinside).cons (Nat.le_refl _)
    have hall := hbehind.congr fun t => List.mem_reverse.symm
    obtain ⟨t, ht, hspan⟩ | ⟨start, length, htrivia, hclear, hstart, hstop, -⟩ |
      ⟨start, c, rest, htext, hc, hclear, hoffset, -⟩ := hall
    · exact absurd hspan (houtside t ht)
    · have := htrivia.le
      exact Or.inl ⟨start, length, htrivia, hclear, hstart, hstop, by omega⟩
    · have hlength := congrArg List.length htext
      simp only [List.length_drop, List.length_cons] at hlength
      exact Or.inr ⟨start, c, rest, htext, hc, hclear, hoffset, by omega⟩
  · cases h

/-- The body of a heredoc behind a comment is no token. -/
theorem dropped_in_body :
    ∃ tokens, tokenize "<<X # c\r\n1\nX" = .ok tokens ∧
      (IsDropped "<<X # c\r\n1\nX".toList tokens 12 9 ∨
        IsSwallowed "<<X # c\r\n1\nX".toList tokens 12 9) := by
  have hread : (tokenize "<<X # c\r\n1\nX").toOption.any
      (·.all fun t => decide ¬(t.start ≤ 9 ∧ 9 < t.stop)) := by
    decide +kernel
  obtain ⟨tokens, htokens, hall⟩ := (Option.any_eq_true _ _).mp hread
  have htokenize := eq_ok_of_toOption htokens
  refine ⟨tokens, htokenize, dropped_of_tokenize htokenize (by decide) fun t ht => ?_⟩
  exact of_decide_eq_true (List.all_eq_true.mp hall t ht)

/-- A carriage return behind a backslash swallows a name. -/
theorem swallowed_behind_return :
    ∃ tokens, tokenize "a \\\rb" = .ok tokens ∧
      (∀ t ∈ tokens, ¬(t.start ≤ 4 ∧ 4 < t.stop)) ∧
      ¬IsDropped "a \\\rb".toList tokens 5 4 := by
  have hread : (tokenize "a \\\rb").toOption.any
      (·.all fun t => decide ¬(t.start ≤ 4 ∧ 4 < t.stop)) := by
    decide +kernel
  obtain ⟨tokens, htokens, hall⟩ := (Option.any_eq_true _ _).mp hread
  refine ⟨tokens, eq_ok_of_toOption htokens,
    fun t ht => of_decide_eq_true (List.all_eq_true.mp hall t ht), ?_⟩
  rintro ⟨start, length, htrivia, -, hstart, hstop, -⟩
  -- The name would lie in the trivia, and whatever trivia start with would lie in the source.
  have hname (front rest : List Char) (htext : "a \\\rb".toList.drop start = front ++ rest)
      (hlength : 4 < start + front.length) : 'b' ∈ front := by
    have hget : (front ++ rest)[4 - start]? = some 'b' := by
      rw [← htext, List.getElem?_drop, Nat.add_sub_cancel' hstart]
      rfl
    rw [List.getElem?_append_left (by omega)] at hget
    exact List.mem_of_getElem? hget
  have hmark (c : Char) (offset : Nat) (hc : c ∈ "a \\\rb".toList.drop offset) :
      c ∈ ['a', ' ', '\\', '\r', 'b'] := List.mem_of_mem_drop hc
  -- Each kind of trivia is excluded by a character that it would have to hold or to start with.
  cases htrivia with
  | blank h hblank => exact absurd (hblank _ (hname _ _ h hstop)) (by decide)
  | hiddenBreak h hbreak =>
    have hmem := hname ('\\' :: _) _ h (by simpa [Nat.add_assoc] using hstop)
    cases hbreak <;> simp at hmem
  | comment h =>
    have hmem := hmark '#' start (by rw [h]; exact List.mem_cons_self)
    simp at hmem
  | lineBreak h hbreak =>
    have hmem := hname _ _ h hstop
    cases hbreak <;> simp at hmem
  | block _ h =>
    obtain ⟨line, behind, block, rest, htext, -, -, ⟨returns, rfl, -⟩, -⟩ := h
    have hmem := hmark '=' start (by rw [htext]; simp)
    simp at hmem
  | ended _ h =>
    obtain ⟨line, rest, ⟨htext, -⟩, returns, rfl, -⟩ := h
    have hmem := hmark '_' start (by rw [htext]; simp)
    simp at hmem
  | body _ _ hopens =>
    obtain ⟨found, hfound, -⟩ := hopens
    rw [Heredoc.read?] at hfound
    split at hfound
    · rename_i hopen
      simp only [Bool.and_eq_true, beq_iff_eq] at hopen
      have hmem := hmark '<' _ (List.mem_of_getElem? (getElem?_of_peek (by decide) hopen.1))
      simp at hmem
    · cases hfound

end Token

end XhrKeywords
