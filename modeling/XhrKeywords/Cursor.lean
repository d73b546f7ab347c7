/-!
# Cursors

A cursor stands between two characters of a text. It knows how many characters lie before it,
its line and column, both counted from one, and the characters still ahead. A cursor may be
moved past the end of the text: the offset then goes on counting while line and column stay,
because only real characters move them.
-/

namespace XhrKeywords

/-- The character `k` places ahead; past the end of the text it is NUL. -/
def peek (text : List Char) (k : Nat) : Char :=
  text.getD k '\x00'

@[simp] theorem peek_nil (k : Nat) : peek [] k = '\x00' := rfl

@[simp] theorem peek_cons_zero (c : Char) (text : List Char) : peek (c :: text) 0 = c := rfl

@[simp] theorem peek_cons_succ (c : Char) (text : List Char) (k : Nat) :
    peek (c :: text) (k + 1) = peek text k := rfl

/-- A line and a column, counted from one. -/
structure Position where
  line : Nat
  column : Nat
  deriving DecidableEq, Repr, Inhabited

namespace Position

/-- The position of the first character of a text. -/
def first : Position := ⟨1, 1⟩

/-- A line feed starts a new line; every other character takes one column. -/
def next (p : Position) (c : Char) : Position :=
  if c = '\n' then ⟨p.line + 1, 1⟩ else ⟨p.line, p.column + 1⟩

/-- The position behind a text that starts at `p`. -/
def after (p : Position) (text : List Char) : Position :=
  text.foldl next p

@[simp] theorem after_nil (p : Position) : p.after [] = p := rfl

@[simp] theorem after_cons (p : Position) (c : Char) (text : List Char) :
    p.after (c :: text) = (p.next c).after text := rfl

/-- Positions pass over two texts one after the other. -/
theorem after_append (p : Position) (s t : List Char) :
    p.after (s ++ t) = (p.after s).after t :=
  List.foldl_append

end Position

/-- A place in a text together with the characters ahead of it. -/
structure Cursor where
  /-- How many characters lie before the cursor, those past the end included. -/
  offset : Nat
  position : Position
  /-- The characters ahead. -/
  rest : List Char
  deriving DecidableEq, Repr

namespace Cursor

/-- The cursor before the first character. -/
def start (text : List Char) : Cursor := ⟨0, .first, text⟩

/-- Moves over `n` characters, or past the end when fewer are left. -/
def advance (c : Cursor) (n : Nat) : Cursor :=
  ⟨c.offset + n, c.position.after (c.rest.take n), c.rest.drop n⟩

@[simp] theorem advance_zero (c : Cursor) : c.advance 0 = c := by
  simp [advance]

@[simp] theorem offset_advance (c : Cursor) (n : Nat) : (c.advance n).offset = c.offset + n := rfl

@[simp] theorem rest_advance (c : Cursor) (n : Nat) : (c.advance n).rest = c.rest.drop n := rfl

/-- Two moves make one. -/
theorem advance_advance (c : Cursor) (m n : Nat) :
    (c.advance m).advance n = c.advance (m + n) := by
  simp [advance, Nat.add_assoc, List.take_add, Position.after_append]

end Cursor

end XhrKeywords
