import XhrKeywords.Proofs.Token.Origin

/-!
# Lines and columns

A cursor counts lines and columns as it moves, also over strings of several lines, heredoc bodies
and the two characters of a line break. What it has counted is what the characters before its
offset say: their line feeds make the line, and those behind the last of them make the column.
-/

namespace XhrKeywords

namespace Position

/-- The position behind a text: a line more than it has line feeds, and a column more than there
are characters behind the last one. -/
def behind (text : List Char) : Position :=
  ⟨1 + text.count '\n', 1 + (text.reverse.takeWhile (· != '\n')).length⟩

theorem behind_concat (text : List Char) (c : Char) :
    behind (text ++ [c]) = (behind text).next c := by
  by_cases hc : c = '\n'
  · subst hc
    simp [behind, next, Nat.add_assoc]
  · have hcount : [c].count '\n' = 0 := List.count_eq_zero.mpr (by simpa using Ne.symm hc)
    simp [behind, next, hc, hcount, Nat.add_comm]

/-- Counting character by character leads to the position behind a text. -/
theorem after_behind (front text : List Char) :
    (behind front).after text = behind (front ++ text) := by
  induction text generalizing front with
  | nil => rw [after_nil, List.append_nil]
  | cons c rest ih => rw [after_cons, ← behind_concat, ih, List.append_assoc, List.singleton_append]

end Position

/-- A cursor in a text: what lies ahead is the rest of the text, and its position is the one behind
what lies before. -/
structure Cursor.In (source : List Char) (c : Cursor) : Prop where
  rest : c.rest = source.drop c.offset
  position : c.position = .behind (source.take c.offset)

theorem Cursor.in_start (source : List Char) : (Cursor.start source).In source :=
  ⟨rfl, rfl⟩

/-- A cursor stays in its text, even when it is moved past the end. -/
theorem Cursor.In.advance {source : List Char} {c : Cursor} (h : c.In source) (n : Nat) :
    (c.advance n).In source := by
  constructor
  · rw [Cursor.rest_advance, Cursor.offset_advance, h.rest, List.drop_drop]
  · calc (c.advance n).position
        = c.position.after (c.rest.take n) := rfl
      _ = Position.behind (source.take c.offset ++ (source.drop c.offset).take n) := by
          rw [h.position, h.rest, Position.after_behind]
      _ = Position.behind (source.take (c.offset + n)) := by rw [List.take_add]

namespace Token

/-- Line and column of a token agree with its offsets. A line break counts one column for its end,
whatever it is made of. -/
structure Located (source : List Char) (t : Token) : Prop where
  start : (⟨t.line, t.column⟩ : Position) = .behind (source.take t.start)
  stop : t.kind ≠ .newline → (⟨t.endLine, t.endColumn⟩ : Position) = .behind (source.take t.stop)

namespace Lexer

variable {source : List Char} {s t : Lexer}

/-- Every state on the way stands in the source. -/
theorem Leads.in_source (h : Leads (start source) s) : s.cursor.In source := by
  apply h.keeps (I := fun s => s.cursor.In source) _ (Cursor.in_start source)
  intro s t hrest hstep hs
  obtain ⟨n, -, hcursor⟩ := step_advances hrest hstep
  rw [hcursor]
  exact hs.advance n

/-- What is placed at a cursor in the source is located there. -/
theorem located_place (h : s.cursor.In source) (found : Lexeme) :
    (s.place found).Located source :=
  ⟨h.position, fun _ => (h.advance found.length).position⟩

theorem located_placeNewline (h : s.cursor.In source) : s.placeNewline.Located source :=
  ⟨h.position, fun hkind => absurd rfl hkind⟩

end Lexer

/-- Every token of a source is located in it. -/
theorem located_of_tokenize {source : String} {tokens : List Token}
    (h : tokenize source = .ok tokens) : ∀ t ∈ tokens, t.Located source.toList := by
  obtain ⟨last, hlast⟩ := finished_of_tokenize h
  intro t ht
  cases hlast.origin ht with
  | newline hs => exact Lexer.located_placeNewline hs.in_source
  | lexeme hs => exact Lexer.located_place hs.in_source _
  | eof => exact Lexer.located_place hlast.leads.in_source _

end Token

end XhrKeywords
