import XhrKeywords.Proofs.Outcome
import XhrKeywords.Token.Lexer

/-!
# Words

A word is a token without its place: its kind, its text, and whether a space stands in front of it.
A list of words can be written down; when each word can be read off the text that it starts, the
tokens of the written text are these words again.
-/

namespace XhrKeywords

/-- A token without its place. -/
structure Word where
  kind : Token.Kind
  text : String
  spaced : Bool
  deriving DecidableEq, Repr

/-- What is left of a token without its place. -/
def Token.word (t : Token) : Word := ⟨t.kind, t.text, t.spaced⟩

namespace Word

/-- The characters of a word, the colon of a label or a symbol among them. -/
def spelling (w : Word) : List Char :=
  match w.kind with
  | .label => w.text.toList ++ [':']
  | .symbol => ':' :: w.text.toList
  | _ => w.text.toList

/-- The characters of a word and the space in front of it. -/
def written (w : Word) : List Char :=
  if w.spaced then ' ' :: w.spelling else w.spelling

/-- The characters of several words. -/
def writtenAll (words : List Word) : List Char :=
  words.flatMap written

@[simp] theorem writtenAll_nil : writtenAll [] = [] := rfl

@[simp] theorem writtenAll_cons (w : Word) (words : List Word) :
    writtenAll (w :: words) = w.written ++ writtenAll words := rfl

@[simp] theorem writtenAll_append (words others : List Word) :
    writtenAll (words ++ others) = writtenAll words ++ writtenAll others :=
  List.flatMap_append

/-- The lexeme that a word is read as. -/
def lexeme (w : Word) : Lexeme :=
  { kind := w.kind, text := w.text, length := w.spelling.length }

/-- A character that starts a lexeme and no other item. -/
def isSolid (c : Char) : Bool :=
  !Token.isInlineBlank c && !Token.isLineBreak c && c != '#' && c != '\\' && c != '\x00'

/-- A word that can be read off the text that it starts, with `behind` after it. Behind a dot only
a name can be read. -/
structure Readable (w : Word) (behind : List Char) : Prop where
  solid : isSolid (peek w.spelling 0) = true
  reads : ∀ context : Token.Context, (context.expectsName → w.kind = .ident) →
    Token.readLexeme context (w.spelling ++ behind) = .ok w.lexeme

/-- Words that can be read one after the other, with `behind` after them. -/
def Legible (behind : List Char) : List Word → Prop
  | [] => True
  | w :: others =>
    w.Readable (writtenAll others ++ behind) ∧
      (w.kind.beforeName → (others.head?.map kind) = some .ident) ∧ Legible behind others

/-- Words are legible when those in front are, with the others behind them. -/
theorem Legible.append {behind : List Char} {words others : List Word}
    (h : Legible (writtenAll others ++ behind) words) (hothers : Legible behind others) :
    Legible behind (words ++ others) := by
  induction words with
  | nil => exact hothers
  | cons w words ih =>
    obtain ⟨hw, hname, hwords⟩ := h
    refine ⟨?_, ?_, ih hwords⟩
    · rw [List.append_eq, writtenAll_append, List.append_assoc]
      exact hw
    · intro hbefore
      cases words with
      | nil => cases hname hbefore
      | cons v words => exact hname hbefore

end Word

namespace Token

open Word

theorem solid_facts {c : Char} (h : isSolid c = true) :
    isInlineBlank c = false ∧ isLineBreak c = false ∧ c ≠ '#' ∧ c ≠ '\\' ∧ c ≠ '\x00' := by
  simpa [isSolid, and_assoc] using h

/-- The text of a readable word starts with a solid character. -/
theorem Word.Readable.cons {w : Word} {behind : List Char} (h : w.Readable behind) :
    ∃ c rest, w.spelling = c :: rest ∧ isSolid c = true := by
  have hsolid := h.solid
  cases hspelling : w.spelling with
  | nil => simp [hspelling, isSolid] at hsolid
  | cons c rest =>
    rw [hspelling, peek_cons_zero] at hsolid
    exact ⟨c, rest, rfl, hsolid⟩

/-- Where no passage starts, a line start is read like any other place. -/
theorem readItem_eq {lineStart : Bool} {text : List Char}
    (hline : lineStart = true → passage? text = .ok none) (context : Context) :
    readItem lineStart context text = readItem false context text := by
  cases lineStart with
  | false => rfl
  | true => simp [readItem, hline, bind, Except.bind, pure, Except.pure]

/-- At a readable word the next item is its lexeme. -/
theorem readItem_of_readable {w : Word} {behind : List Char} {context : Context}
    (h : w.Readable behind) (hname : context.expectsName → w.kind = .ident) :
    readItem false context (w.spelling ++ behind) = .ok (.lexeme w.lexeme) := by
  have hreads := h.reads context hname
  obtain ⟨c, rest, hspelling, hsolid⟩ := Word.Readable.cons h
  obtain ⟨hblank, hbreak, hcomment, hescape, -⟩ := solid_facts hsolid
  rw [hspelling, List.cons_append] at hreads ⊢
  simp [readItem, bind, Except.bind, hblank, hbreak, hcomment, hescape, hreads, pure, Except.pure]

/-- A space in front of a solid character is an item of its own. -/
theorem readItem_space {c : Char} {rest : List Char} {context : Context}
    (h : isSolid c = true) : readItem false context (' ' :: c :: rest) = .ok (.blank 1) := by
  have hspace : isInlineBlank ' ' = true := rfl
  obtain ⟨hblank, -⟩ := solid_facts h
  simp [readItem, bind, Except.bind, hspace, hblank, pure, Except.pure]

namespace Lexer

/-- A step is one less of a run. -/
theorem run_succ {s t : Lexer} (hrest : s.cursor.rest ≠ []) (h : s.step = .ok t) (steps : Nat) :
    run (steps + 1) s = run steps t := by
  rw [run, if_neg (by simpa using hrest), h]
  rfl

theorem word_place (s : Lexer) (w : Word) :
    (s.place w.lexeme).word = ⟨w.kind, w.text, s.spaced⟩ := rfl

/-- The lexer behind a word that it has taken. -/
def behindWord (s : Lexer) (t : Token) (length : Nat) : Lexer :=
  { cursor := s.cursor.advance length, emitted := t :: s.emitted, spaced := false
    lineStart := false, heredocs := s.heredocs }

/-- A word in front of the lexer becomes the next token. -/
theorem run_word {s : Lexer} {w : Word} {behind : List Char} (h : w.Readable behind)
    (hrest : s.cursor.rest = w.written ++ behind) (hspaced : s.spaced = false)
    (hline : s.lineStart = true → passage? (w.written ++ behind) = .ok none)
    (hname : s.context.expectsName → w.kind = .ident) :
    ∃ t used, used ≤ w.written.length ∧
      (∀ steps, run (steps + used) s = run steps (s.behindWord t w.written.length)) ∧
      t.word = w ∧ t.stop = s.cursor.offset + w.written.length ∧
      (t.spaced = false → t.start = s.cursor.offset) := by
  obtain ⟨c, rest, hspelling, hsolid⟩ := Word.Readable.cons h
  cases hw : w.spaced with
  | false =>
    have hwritten : w.written = w.spelling := by rw [written, hw, if_neg Bool.false_ne_true]
    rw [hwritten] at hrest hline ⊢
    refine ⟨s.place w.lexeme, 1, by simp [hspelling], fun steps => ?_, ?_, rfl, fun _ => rfl⟩
    · refine run_succ (by simp [hrest, hspelling]) ?_ steps
      rw [step, hrest, readItem_eq hline, readItem_of_readable h hname, mapError_eq_ok_iff]
      simp [bind, Except.bind, take, lexeme, behindWord]
    · rw [word_place, hspaced, ← hw]
  | true =>
    have hwritten : w.written = ' ' :: w.spelling := by rw [written, hw, if_pos rfl]
    rw [hwritten] at hrest hline ⊢
    let s' : Lexer := { s with cursor := s.cursor.advance 1, lineStart := false, spaced := true }
    have hblank : s.step = .ok s' := by
      rw [step, hrest, readItem_eq hline, hspelling, List.cons_append, List.cons_append,
        readItem_space hsolid]
      rfl
    have hlexeme : s'.step = .ok (s.behindWord (s'.place w.lexeme) (w.spelling.length + 1)) := by
      have hrest' : s'.cursor.rest = w.spelling ++ behind := by
        rw [show s'.cursor.rest = s.cursor.rest.drop 1 from rfl, hrest]
        rfl
      have hitem : readItem s'.lineStart s'.context (w.spelling ++ behind) =
          .ok (.lexeme w.lexeme) := readItem_of_readable h hname
      rw [step, hrest', hitem, mapError_eq_ok_iff]
      simp [bind, Except.bind, take, lexeme, behindWord, s', Cursor.advance_advance, Nat.add_comm]
    refine ⟨s'.place w.lexeme, 2, by simp [hspelling], fun steps => ?_, ?_, ?_, by rintro ⟨⟩⟩
    · rw [run_succ (by simp [hrest]) hblank, run_succ ?_ hlexeme]
      · rfl
      · simp [s', hrest, hspelling]
    · rw [word_place, show s'.spaced = true from rfl, ← hw]
    · simp [place, s', lexeme, Nat.add_assoc, Nat.add_comm]

/-- Legible words in front of the lexer become the next tokens. -/
theorem run_words {words : List Word} (s : Lexer) (steps : Nat)
    (hrest : s.cursor.rest = writtenAll words) (h : Legible [] words)
    (hname : s.context.expectsName → words.head?.map Word.kind = some .ident)
    (hspaced : s.spaced = false)
    (hline : s.lineStart = true → passage? (writtenAll words) = .ok none)
    (hsteps : (writtenAll words).length ≤ steps) :
    ∃ (t : Lexer) (tokens : List Token),
      run steps s = .ok t ∧ t.emitted = tokens.reverse ++ s.emitted ∧
      tokens.map Token.word = words ∧ t.spaced = false ∧ t.heredocs = s.heredocs ∧
      t.cursor.offset = s.cursor.offset + (writtenAll words).length ∧
      (∀ first ∈ tokens.head?, first.spaced = false → first.start = s.cursor.offset) ∧
      ∀ last ∈ tokens.getLast?, last.stop = t.cursor.offset := by
  -- One word after another: the state behind a word is in front of the next one, with the steps
  -- that are left.
  induction words generalizing s steps with
  | nil =>
    refine ⟨s, [], ?_, rfl, rfl, hspaced, rfl, rfl, nofun, nofun⟩
    cases steps with
    | zero => rfl
    | succ steps => rw [run, if_pos (by simpa using hrest)]
  | cons w others ih =>
    obtain ⟨hw, hbefore, hothers⟩ := h
    rw [List.append_nil] at hw
    obtain ⟨t, used, hused, hrun, hword, hstop, hstart⟩ :=
      run_word hw hrest hspaced hline fun hexpects => by simpa using hname hexpects
    rw [writtenAll_cons, List.length_append] at hsteps
    have hnext : (s.behindWord t w.written.length).context.expectsName = w.kind.beforeName := by
      rw [← hword]
      rfl
    obtain ⟨s', tokens, hrest', hemitted, hwords, hspaced', hheredocs, hoffset, hfirst, hlast⟩ :=
      ih (s.behindWord t w.written.length) (steps - used)
        (by simp [behindWord, hrest]) hothers (hnext ▸ hbefore) rfl nofun (by omega)
    refine ⟨s', t :: tokens, ?_, ?_, ?_, hspaced', hheredocs, ?_, ?_, ?_⟩
    · rw [← hrest', ← hrun, Nat.sub_add_cancel (by omega)]
    · simp [hemitted, behindWord]
    · rw [List.map_cons, hword, hwords]
    · simp [hoffset, behindWord, Nat.add_assoc]
    · rintro first ⟨⟩
      exact hstart
    · intro last hmem
      cases tokens with
      | nil =>
        cases hmem
        simp only [List.map_nil] at hwords
        subst hwords
        simpa [behindWord, hstop] using hoffset.symm
      | cons u tokens => exact hlast last (by simpa using hmem)

end Lexer

/-- A text that starts neither like the end marker of a program nor with an equals sign starts no
passage. -/
theorem passage?_eq_none {text : List Char} (hmark : ¬ ['_', '_', 'E'] <+: text)
    (hcomment : peek text 0 ≠ '=') : passage? text = .ok none := by
  let line := ((text.takeWhile (· != '\n')).reverse.dropWhile (· == '\r')).reverse
  have hline : line <+: text := by
    refine List.IsPrefix.trans ?_ (List.takeWhile_prefix (· != '\n'))
    rw [← List.reverse_suffix, List.reverse_reverse]
    exact List.dropWhile_suffix _
  have hend : (line == "__END__".toList) = false := by
    refine beq_eq_false_iff_ne.mpr fun heq => hmark (List.IsPrefix.trans ?_ hline)
    rw [heq]
    exact ⟨['N', 'D', '_', '_'], rfl⟩
  have hbegin : "=begin".toList.isPrefixOf line = false := by
    refine Bool.eq_false_iff.mpr fun hpre => ?_
    obtain ⟨rest, hrest⟩ := (List.isPrefixOf_iff_prefix.mp hpre).trans hline
    rw [← hrest] at hcomment
    exact hcomment rfl
  change (if line == "__END__".toList then _
    else if "=begin".toList.isPrefixOf line && _ then _ else _) = _
  rw [hend, hbegin, Bool.false_and]
  rfl

/-- The tokens of legible words are these words with an end marker. -/
theorem tokenize_eq {words : List Word} {source : String}
    (hsource : source.toList = writtenAll words) (h : Legible [] words)
    (hpassage : passage? source.toList = .ok none) :
    ∃ (tokens : List Token) (mark : Token), tokenize source = .ok (tokens ++ [mark]) ∧
      tokens.map Token.word = words ∧ mark.kind = .eof ∧
      (∀ first ∈ tokens.head?, first.spaced = false → first.start = 0) ∧
      ∀ last ∈ tokens.getLast?, last.stop = source.length := by
  obtain ⟨t, tokens, hrun, hemitted, hwords, -, hheredocs, hoffset, hfirst, hlast⟩ :=
    Lexer.run_words (.start source.toList) source.toList.length hsource h
      nofun rfl (fun _ => hsource ▸ hpassage) (Nat.le_of_eq (congrArg List.length hsource.symm))
  have hheredocs : t.heredocs = [] := hheredocs
  have hemitted : t.emitted = tokens.reverse := by
    rw [hemitted]
    exact List.append_nil _
  refine ⟨tokens, t.endToken, ?_, hwords, rfl, hfirst, ?_⟩
  · simp only [tokenize, hrun, bind, Except.bind, Lexer.finish, hheredocs, hemitted,
      List.reverse_cons, List.reverse_reverse]
  · intro last hmem
    rw [hlast last hmem, hoffset, ← hsource, String.length_toList]
    exact Nat.zero_add _

end Token

end XhrKeywords
