import XhrKeywords.Grammar.Statement
import XhrKeywords.Token.Lexer

/-!
# Programs

The circle of the grammar closes here: the phrases are read by the productions, over rules for
one level of nesting less. A program is a list of statements up to the end of the source.
-/

namespace XhrKeywords

namespace Grammar

open Syntax hiding Kind

/-- The production of a phrase. -/
def production (g : Rules) : Phrase → Parser Node
  | .statement => statement g
  | .sequence => sequence g
  | .negation => negation g
  | .assignment => assignment g
  | .choice => choice g
  | .operation => operation g binaryLevels
  | .signed => signed g
  | .unary => unary g
  | .operand => operand g
  | .parameterGroup opener inBlock => parameterGroup g opener inBlock
  | .targetGroup opener => targetGroup g opener
  | .conditional keyword => conditional g (sequence g) keyword

/-- The reading of phrases down to a depth of nesting. -/
def readTo : Nat → Phrase → Parser Node
  | 0, _ => fail fun _ => .beyondLimit
  | depth + 1, phrase => production ⟨depth, readTo depth⟩ phrase

/-- The rules for a number of tokens. -/
def rulesFor (tokens : Nat) : Rules := ⟨tokens + 1, readTo (tokens + 1)⟩

/-- A program up to the end of the source. -/
def program (g : Rules) : Parser Node := do
  let start ← current
  let found ← statements g []
  let _ ← expectOr .eof .unexpected
  build .program found (ofToken start)

/-- The state in front of a list of tokens. -/
def State.start (first : Token) (others : List Token) : State :=
  { current := first, ahead := others
    previous :=
      { kind := .eof, text := "", line := 1, column := 1, start := 0, spaced := false
        endLine := 1, endColumn := 1, stop := 0 }
    blocked := 0, scope := [], outer := [] }

/-- The tree of a list of tokens; a list without its end marker is read as an empty source. -/
def parseTokens : List Token → Except SyntaxError Node
  | [] => .ok (hollow .program default)
  | first :: others => do
    let (tree, _) ← (program (rulesFor (others.length + 1))).run (.start first others)
    return tree

end Grammar

/-- Why a source cannot be read. -/
inductive ReadError
  | lex (error : LexError)
  | grammar (error : SyntaxError)
  deriving DecidableEq, Repr

/-- The report of an error. -/
def ReadError.message : ReadError → String
  | lex error => error.message
  | grammar error => error.message

/-- The tree of a source. -/
def parse (source : String) : Except ReadError Syntax.Node := do
  let tokens ← (Token.tokenize source).mapError .lex
  (Grammar.parseTokens tokens).mapError .grammar

end XhrKeywords
