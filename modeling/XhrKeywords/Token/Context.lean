import XhrKeywords.Token.Basic

/-!
# The context of a token

Whether a character starts an operand or is an operator depends on the token before it and on the
blank space around it: `foo /re/` passes a regular expression, `foo / re` divides.
-/

namespace XhrKeywords.Token

/-- What is known in front of a token. -/
structure Context where
  /-- The kind of the token before, if there is one. -/
  last : Option Kind
  /-- Whether blank space lies in front. -/
  spaced : Bool
  deriving DecidableEq, Repr

/-- The characters that separate an operator from an operand; NUL stands for the end. -/
def isGap (c : Char) : Bool :=
  c == ' ' || c == '\t' || c == '\n' || c == '\r' || c == '\x00'

/-- An operand is expected unless a value ends in front. A spaced identifier followed by an
operator that touches its operand starts an argument. -/
def Context.expectsValue (context : Context) (text : List Char) : Bool :=
  match context.last with
  | none => true
  | some kind =>
    !kind.endsValue
      || (kind == .ident && context.spaced && !isGap (peek text 1) && peek text 1 != '=')

/-- After a dot or `def` every word is a method name. -/
def Context.expectsName (context : Context) : Bool :=
  match context.last with
  | none => false
  | some kind => kind.beforeName

end XhrKeywords.Token
