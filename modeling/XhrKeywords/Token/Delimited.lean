import XhrKeywords.Token.Error

/-!
# Delimited literals

Strings, percent literals and regular expressions run up to a delimiter. A backslash shields the
next character. In a literal that interpolates, a number sign and a brace open code, in which
braces nest and quoted strings are literals of their own. The scan keeps the stack of open
delimiters; it ends when the outermost one closes, and the innermost one names the error when the
text ends first.
-/

namespace XhrKeywords.Delimited

/-- An open delimiter with what has to be known to find where it closes. -/
inductive Frame
  /-- A string between two equal quotes. -/
  | quote (mark : Char)
  /-- Code in braces, with the number of braces opened inside it. -/
  | interpolation (depth : Nat)
  /-- A percent literal, with the number of nested openers. -/
  | percent (opener closer : Char) (interpolates : Bool) (depth : Nat)
  /-- A regular expression, and whether a character class is open in it. -/
  | regexp (inClass : Bool)
  deriving DecidableEq, Repr

/-- What an unshielded character does to the innermost open delimiter. -/
inductive Move
  /-- The delimiter stays open. -/
  | stay (frame : Frame)
  /-- The delimiter closes. -/
  | close
  /-- The character opens a string. -/
  | string
  /-- The character and the brace after it open an interpolation. -/
  | interpolation
  deriving DecidableEq, Repr

/-- The cause reported for a delimiter that never closes. -/
def Frame.unterminated : Frame → LexError.Cause
  | .quote _ => .unterminatedString
  | .interpolation _ => .unterminatedInterpolation
  | .percent .. => .unterminatedPercentLiteral
  | .regexp _ => .unterminatedRegexp

/-- A number sign and a brace open an interpolation. -/
def opensInterpolation (c next : Char) : Bool :=
  c == '#' && next == '\x7b'

/-- The characters that quote a string inside an interpolation. -/
def isQuote (c : Char) : Bool :=
  c == '\x22' || c == '\x27' || c == '\x60'

/-- The effect of an unshielded character, given the character after it. -/
def Frame.move (c next : Char) : Frame → Move
  | .quote mark =>
    if mark != '\x27' && opensInterpolation c next then .interpolation
    else if c = mark then .close
    else .stay (.quote mark)
  | .interpolation depth =>
    if isQuote c then .string
    else if c = '\x7b' then .stay (.interpolation (depth + 1))
    else if c = '\x7d' then
      match depth with
      | 0 => .close
      | outer + 1 => .stay (.interpolation outer)
    else .stay (.interpolation depth)
  | .percent opener closer interpolates depth =>
    if interpolates && opensInterpolation c next then .interpolation
    else if c = closer then
      match depth with
      | 0 => .close
      | outer + 1 => .stay (.percent opener closer interpolates outer)
    else if c = opener then .stay (.percent opener closer interpolates (depth + 1))
    else .stay (.percent opener closer interpolates depth)
  | .regexp inClass =>
    if opensInterpolation c next then .interpolation
    else if c = '[' then .stay (.regexp true)
    else if c = ']' then .stay (.regexp false)
    else if c = '/' && !inClass then .close
    else .stay (.regexp inClass)

/-- An open delimiter and the number of characters before its opener. -/
structure Opened where
  frame : Frame
  before : Nat
  deriving DecidableEq, Repr

/-- The number of characters up to the end of the outermost delimiter, of which `taken` lie
behind; without an end, the innermost open delimiter. -/
def scan (inner : Opened) (outer : List Opened) (taken : Nat) :
    List Char → Except Opened Nat
  | [] => .error inner
  | c :: rest =>
    if c = '\\' then
      match rest with
      | [] => .error inner
      | _ :: behind => scan inner outer (taken + 2) behind
    else
      match inner.frame.move c (peek rest 0) with
      | .stay frame => scan ⟨frame, inner.before⟩ outer (taken + 1) rest
      | .close =>
        match outer with
        | [] => .ok (taken + 1)
        | enclosing :: others => scan enclosing others (taken + 1) rest
      | .string => scan ⟨.quote c, taken⟩ (inner :: outer) (taken + 1) rest
      | .interpolation =>
        match rest with
        | [] => .error inner
        | _ :: behind => scan ⟨.interpolation 0, taken⟩ (inner :: outer) (taken + 2) behind

/-- The length of the literal at the head of a text, whose opener takes `opener` characters. -/
def length (frame : Frame) (opener : Nat) (text : List Char) : Except Fault Nat :=
  match scan ⟨frame, 0⟩ [] opener (text.drop opener) with
  | .ok taken => .ok taken
  | .error innermost => .error ⟨innermost.frame.unterminated, innermost.before⟩

end XhrKeywords.Delimited
