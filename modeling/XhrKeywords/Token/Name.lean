import XhrKeywords.Token.Basic
import XhrKeywords.Token.Error
import XhrKeywords.Unicode.Case
import XhrKeywords.Unicode.Numeric

/-!
# Names

Identifiers, constants, keywords, labels, and the variables marked by `@` and `$`. Every
character above the ASCII range belongs to names.
-/

namespace XhrKeywords.Name

open Unicode

/-- A character that may stand in a name. -/
def isNameCharacter (c : Char) : Bool :=
  isAsciiLetter c || isAsciiDigit c || c == '_' || c.toNat > 127

/-- A character that starts a name where no digit is expected. -/
def isNameStart (c : Char) : Bool :=
  isAsciiLetter c || c == '_' || c.toNat > 127

/-- The length of the name characters at the head of a text. -/
def run (text : List Char) : Nat :=
  (text.takeWhile isNameCharacter).length

/-- A question or exclamation mark ends a name unless an equals sign follows it. -/
def hasMark (text : List Char) : Bool :=
  (peek text 0 == '?' || peek text 0 == '!') && peek text 1 != '='

/-- A name is a constant when it starts with a capital. -/
def kindOf (text : List Char) : Token.Kind :=
  if isUpper (peek text 0) then .const else .ident

/-- The identifier, constant, keyword or label at the head of a text. `named` says that any
word is a method name here, neither keyword nor label. -/
def read (named : Bool) (text : List Char) : Lexeme :=
  let bare := run text
  let marked := hasMark (text.drop bare) && !isUpper (peek text 0)
  let length := if marked then bare + 1 else bare
  let word := String.ofList (text.take length)
  if !named && peek text length == ':' && peek text (length + 1) != ':' then
    { kind := .label, text := word, length := length + 1 }
  else if named then
    { kind := kindOf text, text := word, length }
  else
    { kind := (Token.Kind.ofKeyword? word).getD (kindOf text), text := word, length }

/-- The variable at the head of a text that starts with `@`; a letter must follow the mark. -/
def readInstance (text : List Char) : Except Fault Lexeme :=
  let classwide := peek text 1 == '@'
  let mark := if classwide then 2 else 1
  let first := peek text mark
  if isLetter first || first == '_' then
    let length := mark + run (text.drop mark)
    .ok
      { kind := if classwide then .cvar else .ivar, text := .ofList (text.take length), length }
  else .error ⟨.invalidInstanceVariable, mark⟩

/-- The punctuation that names a global variable. -/
def globalMarks : List Char :=
  ['!', '@', '&', '~', '\x27', '\x60', '+', '/', '\\', ';', ',', '.', '<', '>', '_', '*', '$',
    '?', ':', '\x22', '0']

/-- The variable at the head of a text that starts with `$`: a name, a number or one mark. -/
def readGlobal (text : List Char) : Except Fault Lexeme :=
  let first := peek text 1
  let found (length : Nat) : Except Fault Lexeme :=
    .ok { kind := .gvar, text := .ofList (text.take length), length }
  if isLetter first || first == '_' then found (1 + run (text.drop 1))
  else if isDigit first then found (1 + ((text.drop 1).takeWhile isDigit).length)
  else if globalMarks.contains first then found 2
  else .error ⟨.invalidGlobalVariable, 1⟩

end XhrKeywords.Name
