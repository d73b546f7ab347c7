import XhrKeywords.Cursor

/-!
# What cannot be read as a token

An error has a cause and the position that its message reports: the start of an open literal, the
end of the source for a missing heredoc terminator, and the offending character otherwise.
-/

namespace XhrKeywords

namespace LexError

/-- Why the source cannot be split into tokens. -/
inductive Cause
  | unterminatedString
  | unterminatedInterpolation
  | unterminatedPercentLiteral
  | unterminatedRegexp
  | unterminatedHeredoc (tag : String)
  | unterminatedComment
  | invalidInstanceVariable
  | invalidGlobalVariable
  | unexpectedCharacter (c : Char)
  deriving DecidableEq, Repr

end LexError

/-- A cause and the position it is reported at. -/
structure LexError where
  cause : LexError.Cause
  position : Position
  deriving DecidableEq, Repr

/-- The report of an error; what is left open is reported by its line alone. -/
def LexError.message (e : LexError) : String :=
  let line := s!" at line {e.position.line}"
  let place := s!" at line {e.position.line}, col {e.position.column}"
  match e.cause with
  | .unterminatedString => "Unterminated string" ++ line
  | .unterminatedInterpolation => "Unterminated interpolation" ++ line
  | .unterminatedPercentLiteral => "Unterminated %-literal" ++ line
  | .unterminatedRegexp => "Unterminated regexp" ++ line
  | .unterminatedHeredoc tag => "Unterminated heredoc " ++ tag ++ line
  | .unterminatedComment => "Unterminated =begin comment" ++ line
  | .invalidInstanceVariable => "Invalid instance variable name" ++ place
  | .invalidGlobalVariable => "Invalid global variable name" ++ place
  | .unexpectedCharacter c => "Unexpected character '" ++ c.toString ++ "'" ++ place

/-- A cause found while reading ahead of a cursor, with the distance to its position. -/
structure Fault where
  cause : LexError.Cause
  /-- How many characters ahead of the cursor the position lies. -/
  ahead : Nat
  deriving DecidableEq, Repr

/-- The error for a fault met at a cursor. -/
def Fault.located (f : Fault) (c : Cursor) : LexError :=
  ⟨f.cause, (c.advance f.ahead).position⟩

end XhrKeywords
