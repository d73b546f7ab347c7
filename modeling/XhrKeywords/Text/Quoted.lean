import XhrKeywords.Unicode.Printable

/-!
# Quoted display of a text

A text is shown between single quotes, or between double quotes when it holds a single quote and
no double one. The quote in use and the backslash are escaped by a backslash, as are tab, line
feed and carriage return; every other character that is not printable is shown by its code.
-/

namespace XhrKeywords.Text

open Unicode

/-- A code in lower case hexadecimal with at least `width` digits. -/
def hex (width code : Nat) : List Char :=
  let digits := Nat.toDigits 16 code
  List.replicate (width - digits.length) '0' ++ digits

/-- The display of one character between the quotes `mark`. -/
def escape (mark c : Char) : List Char :=
  if c = mark || c = '\\' then ['\\', c]
  else if c = '\t' then ['\\', 't']
  else if c = '\n' then ['\\', 'n']
  else if c = '\r' then ['\\', 'r']
  else if isPrintable c then [c]
  else if c.toNat < 0x100 then '\\' :: 'x' :: hex 2 c.toNat
  else if c.toNat < 0x10000 then '\\' :: 'u' :: hex 4 c.toNat
  else '\\' :: 'U' :: hex 8 c.toNat

/-- The quotes a text is shown between. -/
def quoteFor (text : List Char) : Char :=
  if text.contains '\x27' && !text.contains '\x22' then '\x22' else '\x27'

/-- The display of a text between quotes. -/
def quoted (text : String) : String :=
  let mark := quoteFor text.toList
  .ofList (mark :: text.toList.flatMap (escape mark) ++ [mark])

end XhrKeywords.Text
