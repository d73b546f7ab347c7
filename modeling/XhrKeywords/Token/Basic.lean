import XhrKeywords.Cursor
import XhrKeywords.Token.Kind

/-!
# Tokens

A token is a piece of the source with its kind, its text and its place. The text is the name of a
label or a symbol without its colon and the piece itself for all other kinds. A lexeme is
a token before it is placed: its kind, its text and the number of characters it takes.
-/

namespace XhrKeywords

/-- A heredoc whose body has not been read yet. -/
structure Heredoc where
  /-- The text of the line that ends the body. -/
  tag : String
  /-- Whether blanks around the tag on that line are allowed. -/
  indented : Bool
  deriving DecidableEq, Repr

/-- A token that has not been placed in the source. -/
structure Lexeme where
  kind : Token.Kind
  text : String
  /-- How many characters the lexeme takes, those past the end of the source included. -/
  length : Nat
  /-- The body that the lexeme announces. -/
  heredoc : Option Heredoc := none
  deriving DecidableEq, Repr

/-- A placed piece of the source. -/
structure Token where
  kind : Token.Kind
  /-- The name or the spelling; empty for the end of the source. -/
  text : String
  line : Nat
  column : Nat
  /-- Offset of the first character. -/
  start : Nat
  /-- Whether blank space lies before the token on its line. -/
  spaced : Bool
  endLine : Nat
  endColumn : Nat
  /-- Offset behind the last character. -/
  stop : Nat
  deriving DecidableEq, Repr, Inhabited

end XhrKeywords
