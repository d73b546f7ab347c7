import XhrKeywords.Token.Heredocs
import XhrKeywords.Token.Literal

/-!
# Items of the source

The source is a sequence of items: blank space, comments, line breaks and lexemes. Reading the
next item needs only the context and the characters ahead.
-/

namespace XhrKeywords.Token

open Unicode

/-- A piece of the source. -/
inductive Item
  /-- A block comment, or all that follows the end marker of the program. -/
  | passage (length : Nat)
  /-- Spaces and tabs, or a backslash and the line break that it hides. -/
  | blank (length : Nat)
  /-- A comment up to the end of its line. -/
  | comment (length : Nat)
  /-- A line break. -/
  | lineBreak (length : Nat)
  /-- A token. -/
  | lexeme (found : Lexeme)
  deriving DecidableEq, Repr

/-- The number of characters up to the end of the line that starts with `=end`, of which `taken`
lie behind. -/
def blockEnd? (taken : Nat) : List Char → Option Nat
  | [] => none
  | c :: rest =>
    if c = '\n' && "=end".toList.isPrefixOf rest then
      some (taken + 1 + (rest.takeWhile (· != '\n')).length)
    else blockEnd? (taken + 1) rest

/-- What a whole line at the head of a text may start: `__END__` ends the program, and `=begin`
opens a comment up to the end of the line that starts with `=end`. -/
def passage? (text : List Char) : Except Fault (Option Nat) :=
  let line := ((text.takeWhile (· != '\n')).reverse.dropWhile (· == '\r')).reverse
  let behind := line.drop 6
  if line == "__END__".toList then .ok (some text.length)
  else if "=begin".toList.isPrefixOf line
      && (behind.isEmpty || peek behind 0 == ' ' || peek behind 0 == '\t') then
    match blockEnd? 0 text with
    | some length => .ok (some length)
    | none => .error ⟨.unterminatedComment, 0⟩
  else .ok none

/-- A space or a tab that does not end a line. -/
def isInlineBlank (c : Char) : Bool :=
  c == ' ' || c == '\t' || c == '\x0c' || c == '\x0b'

/-- Line feeds and carriage returns break lines. -/
def isLineBreak (c : Char) : Bool :=
  c == '\n' || c == '\r'

/-- The length of the comment at the head of a text; a NUL ends it as well. -/
def commentLength (text : List Char) : Nat :=
  (text.takeWhile fun c => !isLineBreak c && c != '\x00').length

/-- The token at the head of a text. -/
def readLexeme (context : Context) (text : List Char) : Except Fault Lexeme := do
  let c := peek text 0
  if c == '\x22' || c == '\x27' then Literal.readString c text
  else if c == '\x60' then Literal.readCommand text
  else if isDigit c then return Number.read text
  else if Name.isNameStart c then return Name.read context.expectsName text
  else if c == '@' then Name.readInstance text
  else if c == '$' then Name.readGlobal text
  else
    let special ←
      if c == ':' then Literal.readSymbol? context text
      else if c == '<' && context.expectsValue text then pure (Heredoc.read? text)
      else pure none
    match special with
    | some found => return found
    | none =>
      if c == '%' && context.expectsValue text && Literal.startsPercent text then
        Literal.readPercent text
      else if c == '/' && context.expectsValue text then Literal.readRegexp text
      else if c == '?' && context.expectsValue text && Literal.startsCharacter text then
        return Literal.readCharacter text
      else Operator.read text

/-- The item at the head of a text. At the start of a line, whole lines are looked at first. -/
def readItem (lineStart : Bool) (context : Context) (text : List Char) : Except Fault Item := do
  match ← if lineStart then passage? text else pure none with
  | some length => return .passage length
  | none =>
    let c := peek text 0
    let next := peek text 1
    if isInlineBlank c then return .blank (text.takeWhile isInlineBlank).length
    else if c == '\\' && isLineBreak next then return .blank (if next == '\r' then 3 else 2)
    else if c == '#' then return .comment (commentLength text)
    else if isLineBreak c then return .lineBreak (if c == '\r' && next == '\n' then 2 else 1)
    else return .lexeme (← readLexeme context text)

end XhrKeywords.Token
