import XhrKeywords.Token.Basic
import XhrKeywords.Token.Error
import XhrKeywords.Unicode.Blank
import XhrKeywords.Unicode.Numeric

/-!
# Heredocs

A heredoc opener names a tag; the body starts on the next line and runs through the first line
that consists of the tag. After `<<~` and `<<-` that line may be indented. The opener is a token,
the body is skipped when the line break before it is read.
-/

namespace XhrKeywords.Heredoc

open Unicode

/-- A character that may start a tag. -/
def isTagStart (c : Char) : Bool :=
  isAsciiLetter c || c == '_'

/-- A character that may stand in a tag. -/
def isTagCharacter (c : Char) : Bool :=
  isTagStart c || isAsciiDigit c

/-- The quote that may surround a tag. -/
def isTagQuote (c : Char) : Bool :=
  c == '\x27' || c == '\x22' || c == '\x60'

/-- The heredoc opener at the head of a text: two angle brackets, an optional `~` or `-`, and a tag
that may stand between equal quotes. -/
def read? (text : List Char) : Option Lexeme :=
  if peek text 0 == '<' && peek text 1 == '<' then
    let indented := peek text 2 == '~' || peek text 2 == '-'
    let lead := if indented then 3 else 2
    let mark := peek text lead
    let quote := if isTagQuote mark then 1 else 0
    let tag := (text.drop (lead + quote)).takeWhile isTagCharacter
    let length := lead + quote + tag.length + quote
    if isTagStart (peek tag 0) && (quote == 0 || peek text (length - 1) == mark) then
      some
        { kind := .string, text := .ofList (text.take length), length
          heredoc := some ⟨.ofList tag, indented⟩ }
    else none
  else none

/-- Whether a line ends the body: it is the tag, once line breaks at its end and, for an indented
heredoc, blanks around it are removed. -/
def endsWith (h : Heredoc) (line : List Char) : Bool :=
  let bare := (line.reverse.dropWhile fun c => c == '\r' || c == '\n').reverse
  (if h.indented then trimBlanks bare else bare) == h.tag.toList

/-- The number of characters through the line that ends the body, of which `taken` lie behind;
`line` holds the characters of the current line, last one first. -/
def bodyEnd? (h : Heredoc) (line : List Char) (taken : Nat) : List Char → Option Nat
  | [] => if h.endsWith line.reverse then some taken else none
  | c :: rest =>
    if c = '\n' then
      if h.endsWith line.reverse then some (taken + 1) else bodyEnd? h [] (taken + 1) rest
    else bodyEnd? h (c :: line) (taken + 1) rest

/-- The length of the body at the head of a text, its last line included. -/
def bodyLength? (h : Heredoc) (text : List Char) : Option Nat :=
  bodyEnd? h [] 0 text

/-- The length of several bodies one after the other; without a terminator for one of them the
fault lies at the end of the text. -/
def bodiesLength : List Heredoc → List Char → Except Fault Nat
  | [], _ => .ok 0
  | h :: others, text =>
    match bodyLength? h text with
    | none => .error ⟨.unterminatedHeredoc h.tag, text.length⟩
    | some length =>
      match bodiesLength others (text.drop length) with
      | .ok behind => .ok (length + behind)
      | .error fault => .error ⟨fault.cause, length + fault.ahead⟩

end XhrKeywords.Heredoc
