import XhrKeywords.Syntax.Kind
import XhrKeywords.Token.Basic

/-!
# What cannot be read as Ruby

A syntax error has a cause and the token at which it was noticed.
-/

namespace XhrKeywords

namespace SyntaxError

/-- Why tokens do not form a program. -/
inductive Cause
  /-- A token of one kind is needed and one of another kind is there. -/
  | expected (wanted found : Token.Kind)
  /-- No construction goes on with this token. -/
  | unexpected (found : Token.Kind)
  | unexpectedAfterStatement (found : Token.Kind)
  | unexpectedParameter (found : Token.Kind)
  | unexpectedAlias (found : Token.Kind)
  /-- A construction lacks the mark that closes it. -/
  | unclosed (mark construction : String)
  | unclosedArguments (closer found : Token.Kind)
  | missingThen (found : Token.Kind)
  | missingLineBreak (found : Token.Kind)
  | missingTernaryColon
  | missingMethodName (found : Token.Kind)
  | missingConstantName (found : Token.Kind)
  | missingRocket (found : Token.Kind)
  | missingLambdaBody (found : Token.Kind)
  | missingLabelValue
  | missingLoopVariable
  | missingLoopCollection
  | missingWhen
  | labelAfterDot
  | notAssignable (kind : Syntax.Kind)
  | patternMatching
  /-- More nesting or repetition than there are tokens. -/
  | beyondLimit
  deriving DecidableEq, Repr

/-- The wording of a cause. -/
def Cause.message : Cause → String
  | expected wanted found => "Expected " ++ wanted.name ++ ", got " ++ found.name
  | unexpected found => "Unexpected " ++ found.name
  | unexpectedAfterStatement found => "Unexpected " ++ found.name ++ " after statement"
  | unexpectedParameter found => "Unexpected " ++ found.name ++ " in parameter list"
  | unexpectedAlias found => "Unexpected " ++ found.name ++ " in alias"
  | unclosed mark construction => "Expected '" ++ mark ++ "' to close " ++ construction
  | unclosedArguments closer found =>
    "Expected " ++ closer.name ++ " to close argument list, got " ++ found.name
  | missingThen found => "Expected 'then' or newline, got " ++ found.name
  | missingLineBreak found => "Expected newline, got " ++ found.name
  | missingTernaryColon => "Expected ':' in ternary expression"
  | missingMethodName found => "Expected method name, got " ++ found.name
  | missingConstantName found => "Expected constant name, got " ++ found.name
  | missingRocket found => "Expected '=>' in hash literal, got " ++ found.name
  | missingLambdaBody found => "Expected lambda body, got " ++ found.name
  | missingLabelValue => "Missing value for string key"
  | missingLoopVariable => "Expected loop variable"
  | missingLoopCollection => "Expected 'in' in for loop"
  | missingWhen => "case without when"
  | labelAfterDot => "Unexpected label after '.'"
  | notAssignable kind => "Cannot assign to " ++ kind.name
  | patternMatching => "case/in pattern matching is not supported"
  | beyondLimit => "Nesting exceeds the number of tokens"

end SyntaxError

/-- A cause and the token at which it was noticed. -/
structure SyntaxError where
  cause : SyntaxError.Cause
  token : Token
  deriving DecidableEq, Repr

/-- The report of an error, with the position of its token. -/
def SyntaxError.message (e : SyntaxError) : String :=
  e.cause.message ++ s!" at line {e.token.line}, col {e.token.column}"

end XhrKeywords
