import XhrKeywords.Proofs.Token.Progress
import XhrKeywords.Proofs.Token.Readable

/-!
# Tokens behind a line without tokens

A line break, or a comment with the line break behind it, is passed by the lexer without a trace:
the tokens behind it are those of the source without that line, one line further down and as many
characters further on as the line has. The same holds of the position of an error.
-/

namespace XhrKeywords

/-- What has a place in a source and can be moved one line down and `d` characters on. -/
class Movable (α : Type) where
  moved (d : Nat) (a : α) : α

export Movable (moved)

section Outcomes

variable {α β ε : Type} [Movable α] [Movable β] [Movable ε] {d : Nat}

instance : Movable (List α) := ⟨fun d l => l.map (moved d)⟩

/-- An outcome is moved whether it is an answer or an error. -/
instance : Movable (Except ε α) where
  moved d
    | .ok a => .ok (moved d a)
    | .error e => .error (moved d e)

@[simp] theorem moved_ok (a : α) : moved d (.ok a : Except ε α) = .ok (moved d a) := rfl

@[simp] theorem moved_error (e : ε) : moved d (.error e : Except ε α) = .error (moved d e) := rfl

@[simp] theorem moved_nil : moved d ([] : List α) = [] := rfl

@[simp] theorem moved_cons (a : α) (l : List α) : moved d (a :: l) = moved d a :: moved d l := rfl

@[simp] theorem moved_append (l m : List α) : moved d (l ++ m) = moved d l ++ moved d m :=
  List.map_append

theorem moved_reverse (l : List α) : moved d l.reverse = (moved d l).reverse :=
  List.map_reverse

/-- What follows a computation is moved with it. -/
theorem bind_moved {x : Except ε α} {f g : α → Except ε β}
    (h : ∀ a, g (moved d a) = moved d (f a)) : moved d x >>= g = moved d (x >>= f) := by
  cases x with
  | ok a => exact h a
  | error e => rfl

end Outcomes

/-- A token keeps its columns. -/
instance : Movable Token where
  moved d t :=
    { t with
      line := t.line + 1, start := t.start + d, endLine := t.endLine + 1, stop := t.stop + d }

instance : Movable Position := ⟨fun _ p => ⟨p.line + 1, p.column⟩⟩

/-- A cursor has the same characters ahead. -/
instance : Movable Cursor := ⟨fun d c => ⟨c.offset + d, moved d c.position, c.rest⟩⟩

instance : Movable LexError := ⟨fun d e => ⟨e.cause, moved d e.position⟩⟩

/-- A fault lies a number of characters ahead, wherever that is. -/
instance : Movable Fault := ⟨fun _ f => f⟩

instance : Movable Token.Lexer where
  moved d s := { s with cursor := moved d s.cursor, emitted := moved d s.emitted }

section Tokens

variable (d : Nat) (t : Token)

@[simp] theorem kind_moved : (moved d t).kind = t.kind := rfl

@[simp] theorem text_moved : (moved d t).text = t.text := rfl

@[simp] theorem start_moved : (moved d t).start = t.start + d := rfl

@[simp] theorem stop_moved : (moved d t).stop = t.stop + d := rfl

@[simp] theorem line_moved : (moved d t).line = t.line + 1 := rfl

@[simp] theorem endLine_moved : (moved d t).endLine = t.endLine + 1 := rfl

end Tokens

variable {d : Nat}

/-- Line breaks behind a position start new lines, wherever the position is. -/
theorem Position.after_moved (p : Position) (text : List Char) :
    (moved d p).after text = moved d (p.after text) := by
  induction text generalizing p with
  | nil => rfl
  | cons c rest ih =>
    rw [after_cons, after_cons, ← ih]
    congr 1
    unfold next
    split <;> rfl

theorem Cursor.advance_moved (c : Cursor) (n : Nat) :
    (moved d c).advance n = moved d (c.advance n) := by
  change Cursor.mk (c.offset + d + n) ((moved d c.position).after _) _ = Cursor.mk _ _ _
  rw [Position.after_moved, Nat.add_right_comm]
  rfl

theorem Fault.located_moved (f : Fault) (c : Cursor) :
    f.located (moved d c) = moved d (f.located c) := by
  rw [located, Cursor.advance_moved]
  rfl

namespace Token.Lexer

variable (s : Lexer)

theorem place_moved (found : Lexeme) : (moved d s).place found = moved d (s.place found) := by
  have hcursor : (moved d s).cursor.advance found.length =
      moved d (s.cursor.advance found.length) := Cursor.advance_moved s.cursor found.length
  rw [place, place, hcursor]
  rfl

theorem placeNewline_moved : (moved d s).placeNewline = moved d s.placeNewline := by
  change Token.mk _ _ _ _ _ _ _ _ (s.cursor.offset + d + 1) = Token.mk _ _ _ _ _ _ _ _ _
  rw [Nat.add_right_comm]
  rfl

/-- What lies in front of a token is told by kinds and blanks alone. -/
theorem context_moved : (moved d s).context = s.context := by
  obtain ⟨cursor, emitted, spaced, lineStart, heredocs⟩ := s
  cases emitted <;> rfl

theorem breakLine_moved (length : Nat) :
    (moved d s).breakLine length = moved d (s.breakLine length) := by
  have hheredocs : (moved d s).heredocs = s.heredocs := rfl
  have hcursor : (moved d s).cursor = moved d s.cursor := rfl
  have hrest (c : Cursor) : (moved d c).rest = c.rest := rfl
  rw [breakLine, breakLine, context_moved, hheredocs, hcursor, hrest]
  cases Heredoc.bodiesLength s.heredocs (s.cursor.rest.drop length) with
  | error fault => rfl
  | ok bodies =>
    simp only [pure_bind, Cursor.advance_moved, hrest, placeNewline_moved]
    split
    · rfl
    · split <;> rfl

theorem take_moved (item : Item) : (moved d s).take item = moved d (s.take item) := by
  have hcursor (n : Nat) : (moved d s).cursor.advance n = moved d (s.cursor.advance n) :=
    Cursor.advance_moved s.cursor n
  cases item with
  | passage length | blank length | comment length =>
    rw [take, take, hcursor]
    rfl
  | lineBreak length => exact breakLine_moved s length
  | lexeme found =>
    rw [take, take, hcursor, place_moved]
    rfl

theorem step_moved : (moved d s).step = moved d s.step := by
  have hlocated : (fun f : Fault => f.located (moved d s).cursor) =
      fun f => moved d (f.located s.cursor) :=
    funext fun f => f.located_moved s.cursor
  rw [step, step, hlocated, context_moved]
  change ((readItem s.lineStart s.context s.cursor.rest >>= _).mapError _) = _
  cases readItem s.lineStart s.context s.cursor.rest with
  | error fault => rfl
  | ok item =>
    change (((moved d s).take item).mapError _) = moved d ((s.take item).mapError _)
    rw [take_moved]
    cases s.take item <;> rfl

theorem run_moved (steps : Nat) (s : Lexer) : run steps (moved d s) = moved d (run steps s) := by
  induction steps generalizing s with
  | zero => rfl
  | succ steps ih =>
    rw [run, run, step_moved]
    change (if s.cursor.rest.isEmpty then _ else _) = _
    split
    · rfl
    · exact bind_moved fun t => ih t

theorem finish_moved : (moved d s).finish = moved d s.finish := by
  have hsame : (moved d s).heredocs = s.heredocs := rfl
  rw [finish, finish, endToken, place_moved, hsame]
  cases s.heredocs with
  | nil =>
    change Except.ok (moved d s.endToken :: moved d s.emitted).reverse = _
    rw [← moved_cons, ← moved_reverse]
    rfl
  | cons h others => rfl

end Token.Lexer

namespace Token

/-- A line that holds no token: nothing, or a comment. -/
inductive TokenFree : List Char → Prop
  | blank : TokenFree ['\n']
  | comment {text : List Char} (h : ∀ c ∈ text, c ≠ '\n' ∧ c ≠ '\r' ∧ c ≠ '\x00') :
      TokenFree ('#' :: text ++ ['\n'])

variable {context : Context} {line text : List Char}

theorem readItem_lineBreak (lineStart : Bool) :
    readItem lineStart context ('\n' :: text) = .ok (.lineBreak 1) := by
  rw [readItem_eq fun _ => passage?_eq_none (by simp) (by simp)]
  rfl

theorem readItem_comment (hline : ∀ c ∈ line, c ≠ '\n' ∧ c ≠ '\r' ∧ c ≠ '\x00')
    (lineStart : Bool) :
    readItem lineStart context ('#' :: line ++ '\n' :: text) =
      .ok (.comment (line.length + 1)) := by
  have hlength : commentLength ('#' :: line ++ '\n' :: text) = line.length + 1 := by
    rw [commentLength, takeWhile_append_eq]
    · rfl
    · intro c hc
      rcases List.mem_cons.mp hc with rfl | hc
      · rfl
      · obtain ⟨hfeed, hreturn, hnul⟩ := hline c hc
        simp [isLineBreak, hfeed, hreturn, hnul]
    · rfl
  rw [readItem_eq fun _ => passage?_eq_none (by simp) (by simp), ← hlength]
  rfl

/-- A line break in front of everything else leads to the next line and leaves no token. -/
theorem Lexer.step_lineBreak {s : Lexer} (hrest : s.cursor.rest = '\n' :: text)
    (hemitted : s.emitted = []) (hheredocs : s.heredocs = []) :
    s.step = .ok { s with cursor := s.cursor.advance 1, lineStart := true } := by
  obtain ⟨cursor, emitted, spaced, lineStart, heredocs⟩ := s
  subst hemitted hheredocs
  rw [step_eq_ok_iff]
  exact ⟨.lineBreak 1, by rw [hrest]; exact readItem_lineBreak lineStart, rfl⟩

theorem Lexer.step_comment {s : Lexer} (hrest : s.cursor.rest = '#' :: line ++ '\n' :: text)
    (hline : ∀ c ∈ line, c ≠ '\n' ∧ c ≠ '\r' ∧ c ≠ '\x00') :
    s.step = .ok { s with cursor := s.cursor.advance (line.length + 1), lineStart := false } := by
  rw [step_eq_ok_iff]
  exact ⟨.comment (line.length + 1), by rw [hrest]; exact readItem_comment hline _, rfl⟩

/-- Characters that are no line feeds lie on one line. -/
theorem line_after {p : Position} (h : ∀ c ∈ text, c ≠ '\n') :
    (p.after text).line = p.line := by
  induction text generalizing p with
  | nil => rfl
  | cons c rest ih =>
    rw [Position.after_cons, ih fun c hc => h c (List.mem_cons_of_mem _ hc), Position.next,
      if_neg (h c List.mem_cons_self)]

/-- The lexer passes a line without tokens as if the source started behind it. -/
theorem Lexer.run_tokenFree {front : List Char} (hfront : TokenFree front) (text : List Char) :
    ∃ passed ≤ front.length, ∀ steps,
      run (steps + passed) (.start (front ++ text)) =
        run steps (moved front.length (.start text)) := by
  cases hfront with
  | blank =>
    refine ⟨1, Nat.le_refl _, fun steps => ?_⟩
    have hstep := step_lineBreak (s := .start ('\n' :: text)) rfl rfl rfl
    exact run_succ (List.cons_ne_nil _ _) hstep steps
  | @comment line hline =>
    refine ⟨2, by simp, fun steps => ?_⟩
    have hfirst : (Position.first.after ('#' :: line)).line = 1 := line_after fun c hc => by
      rcases List.mem_cons.mp hc with rfl | hc
      · decide
      · exact (hline c hc).1
    have hcursor : (Cursor.start ('#' :: line ++ '\n' :: text)).advance (line.length + 1) =
        ⟨line.length + 1, Position.first.after ('#' :: line), '\n' :: text⟩ := by
      simp [Cursor.start, Cursor.advance, List.take_left', List.drop_left']
    have hcomment := step_comment (s := .start ('#' :: line ++ '\n' :: text)) rfl hline
    have hbreak := step_lineBreak
      (s := ⟨⟨line.length + 1, Position.first.after ('#' :: line), '\n' :: text⟩,
        [], false, false, []⟩) rfl rfl rfl
    change step _ = Except.ok ⟨(Cursor.start _).advance _, [], false, false, []⟩ at hcomment
    rw [hcursor] at hcomment
    have htext : '#' :: line ++ ['\n'] ++ text = '#' :: line ++ '\n' :: text := by simp
    rw [htext, run_succ (List.cons_ne_nil _ _) hcomment,
      run_succ (List.cons_ne_nil _ _) hbreak]
    have hposition :
        (Position.first.after ('#' :: line)).after ['\n'] = moved 0 Position.first := by
      rw [Position.after_cons, Position.after_nil, Position.next, if_pos rfl, hfirst]
      rfl
    have hlength : line.length + 1 + 1 = 0 + ('#' :: line ++ ['\n']).length := by simp
    change run steps
      ⟨⟨_ + 1, (Position.first.after ('#' :: line)).after ['\n'], text⟩, _, _, _, _⟩ = _
    rw [hlength, hposition]
    rfl

/-- More steps than there are characters change nothing. -/
theorem Lexer.run_add {s : Lexer} {steps : Nat} (hsteps : s.cursor.rest.length ≤ steps)
    (more : Nat) : run (steps + more) s = run steps s := by
  induction steps generalizing s with
  | zero =>
    have hrest : s.cursor.rest = [] := List.length_eq_zero_iff.mp (Nat.le_zero.mp hsteps)
    cases more with
    | zero => rfl
    | succ more => rw [Nat.zero_add, run, run, hrest, List.isEmpty_nil, if_pos rfl]
  | succ steps ih =>
    rw [Nat.succ_add, run, run]
    split
    · rfl
    · rename_i hrest
      rw [List.isEmpty_iff] at hrest
      cases hstep : s.step with
      | error e => rfl
      | ok t =>
        have := (step_lt hrest hstep).2
        exact ih (by omega)

/-- The tokens behind a line without tokens are those of the source without it, moved. -/
theorem tokenize_tokenFree {front : String} (hfront : TokenFree front.toList) (source : String) :
    tokenize (front ++ source) = moved front.length (tokenize source) := by
  have hlength : front.toList.length = front.length := String.length_toList
  obtain ⟨passed, hpassed, hrun⟩ := Lexer.run_tokenFree hfront source.toList
  have hsteps : (front ++ source).toList.length =
      (source.toList.length + (front.toList.length - passed)) + passed := by
    rw [String.toList_append, List.length_append]
    omega
  have hstart : (Lexer.start source.toList).cursor.rest.length ≤ source.toList.length :=
    Nat.le_refl _
  rw [tokenize, hsteps, String.toList_append, hrun, Lexer.run_moved, Lexer.run_add hstart, hlength]
  exact bind_moved fun s => s.finish_moved

end Token

end XhrKeywords
