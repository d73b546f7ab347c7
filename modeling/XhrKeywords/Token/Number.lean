import XhrKeywords.Token.Basic
import XhrKeywords.Unicode.Numeric

/-!
# Numbers

A number is a sequence of digits with single underscores between them, then optionally a
fraction, an exponent and a rational or imaginary suffix. After `0x`, `0b`, `0o` and `0d` every
alphanumeric character belongs to the number. The spelling is kept as it is.
-/

namespace XhrKeywords.Number

open Unicode

/-- A character that may stand in a word. -/
def isWordCharacter (c : Char) : Bool :=
  isAlphanumeric c || c == '_'

/-- The length of the digits at the head of a text; an underscore counts when a digit follows. -/
def digits : List Char → Nat
  | [] => 0
  | c :: rest =>
    if isDigit c || (c == '_' && isDigit (peek rest 0)) then digits rest + 1 else 0

/-- Whether the text goes on with a radix mark. -/
def hasRadix (text : List Char) : Bool :=
  peek text 0 == '0' && "xXbBoOdD".toList.contains (peek text 1)

/-- The length of a fraction: a point, a digit and what follows. -/
def fraction (text : List Char) : Nat :=
  if peek text 0 == '.' && isDigit (peek text 1) then 1 + digits (text.drop 1) else 0

/-- The length of an exponent: its letter, an optional sign, a digit and what follows. -/
def exponent (text : List Char) : Nat :=
  let letter := peek text 0
  let sign := peek text 1
  if letter == 'e' || letter == 'E' then
    if isDigit sign then 1 + digits (text.drop 1)
    else if (sign == '+' || sign == '-') && isDigit (peek text 2) then 2 + digits (text.drop 2)
    else 0
  else 0

/-- The length of a suffix: one letter that does not start a word. -/
def suffix (text : List Char) : Nat :=
  if (peek text 0 == 'r' || peek text 0 == 'i') && !isWordCharacter (peek text 1) then 1 else 0

/-- The number at the head of a text that starts with a digit. -/
def read (text : List Char) : Lexeme :=
  if hasRadix text then
    let length := 2 + ((text.drop 2).takeWhile isWordCharacter).length
    { kind := .int, text := .ofList (text.take length), length }
  else
    let whole := digits text
    let fractional := fraction (text.drop whole)
    let scale := exponent (text.drop (whole + fractional))
    let mantissa := whole + fractional + scale
    let length := mantissa + suffix (text.drop mantissa)
    let kind := if fractional + scale = 0 then Token.Kind.int else .float
    { kind, text := .ofList (text.take length), length }

end XhrKeywords.Number
