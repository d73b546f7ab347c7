import XhrKeywords.Token.Basic
import XhrKeywords.Token.Error

/-!
# Operators and punctuation

The operators in the order in which they are tried: longer ones come before those they start with.
-/

namespace XhrKeywords.Operator

/-- The spellings of operators with their kinds, longest first. -/
def table : List (List Char × Token.Kind) :=
  [("**=".toList, .opAssign), ("<<=".toList, .opAssign), (">>=".toList, .opAssign),
    ("&&=".toList, .opAssign), ("||=".toList, .opAssign), ("<=>".toList, .cmp),
    ("===".toList, .eqq), ("...".toList, .dot3),
    ("**".toList, .pow), ("==".toList, .eq), ("!=".toList, .neq), ("=~".toList, .eqTilde),
    ("!~".toList, .bangTilde), ("<=".toList, .lte), (">=".toList, .gte), ("<<".toList, .lshift),
    (">>".toList, .rshift), ("&&".toList, .andAnd), ("||".toList, .orOr),
    ("+=".toList, .opAssign), ("-=".toList, .opAssign), ("*=".toList, .opAssign),
    ("/=".toList, .opAssign), ("%=".toList, .opAssign), ("|=".toList, .opAssign),
    ("&=".toList, .opAssign), ("^=".toList, .opAssign), ("=>".toList, .assoc),
    ("->".toList, .arrow), ("&.".toList, .andDot), ("::".toList, .colon2), ("..".toList, .dot2),
    (['+'], .plus), (['-'], .minus), (['*'], .star), (['/'], .slash), (['%'], .percent),
    (['<'], .lt), (['>'], .gt), (['!'], .bang), (['~'], .tilde), (['&'], .amp), (['|'], .pipe),
    (['^'], .caret), (['='], .assign), (['.'], .dot), ([','], .comma), ([';'], .semi),
    (['('], .lpar), ([')'], .rpar), (['['], .lbrack), ([']'], .rbrack), (['\x7b'], .lbrace),
    (['\x7d'], .rbrace), (['?'], .qmark), ([':'], .colon)]

/-- The operators that are method names and may follow a colon as a symbol, longest first. -/
def symbols : List (List Char) :=
  ["[]=".toList, "[]".toList, "<=>".toList, "===".toList, "==".toList, "=~".toList, "!=".toList,
    "!~".toList, "**".toList, "+@".toList, "-@".toList, "<<".toList, ">>".toList, "<=".toList,
    ">=".toList, ['+'], ['-'], ['*'], ['/'], ['%'], ['<'], ['>'], ['!'], ['~'], ['&'], ['|'],
    ['^']]

/-- The operator at the head of a text. -/
def read (text : List Char) : Except Fault Lexeme :=
  match table.find? fun entry => entry.1.isPrefixOf text with
  | some (spelling, kind) =>
    .ok { kind, text := .ofList spelling, length := spelling.length }
  | none => .error ⟨.unexpectedCharacter (peek text 0), 0⟩

end XhrKeywords.Operator
