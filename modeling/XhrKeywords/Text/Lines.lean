/-!
# Lines

A text is split behind every line end. Besides line feed, carriage return and the two together,
these are the vertical tab, the form feed, the information separators and the line ends above the
ASCII range. The lines keep their ends.
-/

namespace XhrKeywords.Text

/-- A character that ends a line. -/
def isLineEnd (c : Char) : Bool :=
  ('\n' ≤ c && c ≤ '\r') || ('\x1c' ≤ c && c ≤ '\x1e') || c == '\x85' || c == '\u2028'
    || c == '\u2029'

/-- The lines of a text, of which the characters of the first line so far are given, last one
first. -/
def linesFrom (line : List Char) : List Char → List (List Char)
  | [] => if line.isEmpty then [] else [line.reverse]
  | '\r' :: '\n' :: rest => ('\n' :: '\r' :: line).reverse :: linesFrom [] rest
  | c :: rest =>
    if isLineEnd c then (c :: line).reverse :: linesFrom [] rest else linesFrom (c :: line) rest

/-- The lines of a text with their ends. -/
def lines (text : String) : List String :=
  (linesFrom [] text.toList).map .ofList

/-- Splitting loses nothing. -/
theorem flatten_linesFrom (line text : List Char) :
    (linesFrom line text).flatten = line.reverse ++ text := by
  fun_induction linesFrom line text with
  | case1 line =>
    cases line <;> simp_all
  | case2 line h => simp
  | case3 line rest ih => simp [ih]
  | case4 line c rest _ _ ih => simp [ih]
  | case5 line c rest _ _ ih => simp [ih]

end XhrKeywords.Text
