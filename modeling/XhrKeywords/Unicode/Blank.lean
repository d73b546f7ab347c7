import XhrKeywords.Unicode.Boundaries

/-!
# Blank characters

Blanks are white space in the widest sense: spaces, tabs, line and paragraph breaks and the
four information separators. Trimming removes them from both ends of a text.
-/

namespace XhrKeywords.Unicode

/-- Blank characters above the ASCII range. -/
def blankBoundaries : Boundaries :=
  ⟨[
    133, 134, 160, 161, 5760, 5761, 8192, 8203, 8232, 8234, 8239, 8240, 8287, 8288, 12288, 12289]⟩

/-- A white space character. -/
def isBlank (c : Char) : Bool :=
  ('\x09' ≤ c && c ≤ '\x0d') || ('\x1c' ≤ c && c ≤ ' ') || blankBoundaries.contains c.toNat

/-- Removes the blanks at both ends. -/
def trimBlanks (text : List Char) : List Char :=
  ((text.dropWhile isBlank).reverse.dropWhile isBlank).reverse

end XhrKeywords.Unicode
