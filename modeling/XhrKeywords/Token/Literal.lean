import XhrKeywords.Token.Context
import XhrKeywords.Token.Delimited
import XhrKeywords.Token.Name
import XhrKeywords.Token.Number
import XhrKeywords.Token.Operator

/-!
# Literals

Strings, symbols, percent literals, regular expressions and character literals at the head of a
text, each read up to the end of its delimiters.
-/

namespace XhrKeywords.Literal

open Unicode Token

/-- A string between two quotes; a colon and a gap behind it make it a label. -/
def readString (mark : Char) (text : List Char) : Except Fault Lexeme := do
  let length ← Delimited.length (.quote mark) 1 text
  let spelling := String.ofList (text.take length)
  let gap := peek text (length + 1)
  if peek text length == ':' && isGap gap && gap != '\x00' then
    return { kind := .stringLabel, text := spelling, length := length + 1 }
  return { kind := .string, text := spelling, length }

/-- A command between two backquotes. -/
def readCommand (text : List Char) : Except Fault Lexeme := do
  let length ← Delimited.length (.quote '\x60') 1 text
  return { kind := .xstring, text := .ofList (text.take length), length }

/-- The length of the option letters behind a regular expression. -/
def options (text : List Char) : Nat :=
  (text.takeWhile fun c => "imxounse".toList.contains c).length

/-- A regular expression between two slashes. -/
def readRegexp (text : List Char) : Except Fault Lexeme := do
  let body ← Delimited.length (.regexp false) 1 text
  let length := body + options (text.drop body)
  return { kind := .regex, text := .ofList (text.take length), length }

/-- The delimiter that closes a percent literal. -/
def closerOf (opener : Char) : Char :=
  if opener = '(' then ')'
  else if opener = '[' then ']'
  else if opener = '\x7b' then '\x7d'
  else if opener = '<' then '>'
  else opener

/-- The letters that tell what a percent literal holds. -/
def percentLetters : List Char :=
  "wWiIqQrx".toList

/-- Whether a percent sign starts a literal: a letter and a delimiter follow, or one of the
delimiters that need no letter. -/
def startsPercent (text : List Char) : Bool :=
  let letter := peek text 1
  if percentLetters.contains letter then
    let delimiter := peek text 2
    !isAlphanumeric delimiter && !isGap delimiter
  else ['(', '[', '\x7b', '<', '|', '!', '/', '^'].contains letter

/-- A percent literal: words, a regular expression, a command or a string. Those marked by
`w`, `i` and `q` do not interpolate. -/
def readPercent (text : List Char) : Except Fault Lexeme := do
  let letter := peek text 1
  let marked := percentLetters.contains letter
  let lead := if marked then 2 else 1
  let opener := peek text lead
  let interpolates := !marked || ['Q', 'W', 'I', 'r', 'x'].contains letter
  let body ← Delimited.length (.percent opener (closerOf opener) interpolates 0) (lead + 1) text
  let length := if letter == 'r' then body + options (text.drop body) else body
  let kind :=
    if letter == 'r' then Kind.regex
    else if ['w', 'W', 'i', 'I'].contains letter then .words
    else if letter == 'x' then .xstring
    else .string
  return { kind, text := .ofList (text.take length), length }

/-- Whether a question mark starts a character literal: one character that no word follows, or an
escape. -/
def startsCharacter (text : List Char) : Bool :=
  let c := peek text 1
  !isGap c && (c == '\\' || !Number.isWordCharacter (peek text 2))

/-- A character literal. -/
def readCharacter (text : List Char) : Lexeme :=
  let length := if peek text 1 == '\\' then 3 else 2
  { kind := .string, text := .ofList (text.take length), length }

/-- The length of the name of a symbol behind its colon: a question or exclamation mark belongs to
it, and so does an equals sign that starts no other operator. -/
def symbolName (text : List Char) : Nat :=
  let bare := Name.run text
  let mark := text.drop bare
  let behind := peek mark 1
  if Name.hasMark mark then bare + 1
  else if peek mark 0 == '=' && behind != '=' && behind != '~' && behind != '>' then bare + 1
  else bare

/-- The symbol at the head of a text that starts with a single colon: a quoted text, a variable, a
name, or an operator where a value is expected. -/
def readSymbol? (context : Context) (text : List Char) : Except Fault (Option Lexeme) := do
  let first := peek text 1
  let symbol (length : Nat) : Option Lexeme :=
    some { kind := .symbol, text := .ofList ((text.take length).drop 1), length }
  if first == ':' then return none
  else if first == '\x22' || first == '\x27' then
    let length ← Delimited.length (.quote first) 2 text
    return some { kind := .dsym, text := .ofList ((text.take length).drop 1), length }
  else if first == '@' || first == '$' then
    let mark := if peek text 2 == '@' then 3 else 2
    return symbol (mark + Name.run (text.drop mark))
  else if Name.isNameStart first then
    return symbol (1 + symbolName (text.drop 1))
  else if context.expectsValue text then
    match Operator.symbols.find? fun spelling => spelling.isPrefixOf (text.drop 1) with
    | some spelling => return symbol (1 + spelling.length)
    | none => return none
  else return none

end XhrKeywords.Literal
