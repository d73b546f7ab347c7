import XhrKeywords.Grammar.Call
import XhrKeywords.Grammar.Control
import XhrKeywords.Grammar.Definition
import XhrKeywords.Grammar.Literal

/-!
# Primaries

The expressions that the first token tells apart.
-/

namespace XhrKeywords.Grammar

open Syntax hiding Kind
open Token (Kind)

/-- A constant, or a call when parentheses touch the name. -/
def constant (g : Rules) : Parser Node := do
  let t ← advance
  if ← seesGlued .lpar then
    let found ← delimitedArguments g .rpar
    build .call (.absent :: nameLeaf t :: found) (ofToken t)
  else build .const [.absent, leafOf t] (ofToken t)

/-- A constant of the outermost namespace. -/
def rootConstant : Parser Node := do
  let t ← advance
  let base ← build .cbase [] (ofToken t)
  let name ← expect .const
  build .const [base, leafOf name] (ofToken t)

/-- An array in brackets. -/
def array (g : Rules) : Parser Node := do
  let t ← current
  let found ← delimitedArguments g .rbrack
  build .array found (ofToken t)

/-- Statements in parentheses. -/
def parenthesized (g : Rules) : Parser Node := do
  let t ← advance
  let found ← bracketed (statements g [.rpar])
  let _ ← expect .rpar
  build .paren found (ofToken t)

/-- A range without a lower bound. -/
def openRange (g : Rules) : Parser Node := do
  let t ← advance
  let upper ← g.read .operation
  build .range [.absent, leafAs .operator t, upper] (ofToken t)

/-- A negation where an operand is needed. -/
def negatedOperand (g : Rules) : Parser Node := do
  let t ← advance
  let operand ← g.read .assignment
  build .unop [leafAs .operator t, operand] (ofToken t)

/-- The values that a jump carries. -/
def jumpValues (g : Rules) : Parser (List Node) := do
  if ← seesClass Kind.stopsValue then return [] else arguments g none

/-- A jump with the values that it carries. -/
def jump (g : Rules) (kind : Syntax.Kind) : Parser Node := do
  let t ← advance
  let values ← jumpValues g
  build kind values (ofToken t)

/-- The values that the block of the method is called with. -/
def yieldValues (g : Rules) : Parser (List Node) := do
  if ← seesGlued .lpar then delimitedArguments g .rpar
  else if ← commandStart then arguments g none
  else return []

/-- A call of the block of the method. -/
def yieldCall (g : Rules) : Parser Node := do
  let t ← advance
  let values ← yieldValues g
  build .yieldCall values (ofToken t)

/-- A call of the overridden method, with arguments of its own or those of the method. -/
def superCall (g : Rules) : Parser Node := do
  let t ← advance
  if ← seesGlued .lpar then
    let values ← delimitedArguments g .rpar
    build .superCall values (ofToken t)
  else if ← commandStart then command g .superCall [] (ofToken t)
  else build .zsuper [] (ofToken t)

/-- Another name for a method or a global variable. -/
def aliasStatement : Parser Node := do
  let t ← advance
  let new ← aliasName
  let old ← aliasName
  build .aliasStmt [new, old] (ofToken t)

/-- A body between `begin` and `end`. -/
def beginBlock (g : Rules) : Parser Node := do
  let t ← advance
  let inner ← bracketedBody g "begin"
  build .kwBegin [inner] (ofToken t)

/-- The primary that starts with the next token. -/
def primary (g : Rules) : Parser Node := do
  match (← current).kind with
  | .int => single .int
  | .float => single .float
  | .string => strings g
  | .xstring => single .xstr
  | .regex => single .regexp
  | .words => single .words
  | .symbol => singleAs .sym (.token .ident)
  | .dsym => singleAs .sym (.token .string)
  | .kwNil => bare .nilLit
  | .kwTrue => bare .trueLit
  | .kwFalse => bare .falseLit
  | .kwSelf => bare .selfRef
  | .ivar => single .ivar
  | .gvar => single .gvar
  | .cvar => single .cvar
  | .ident => identifier g
  | .const => constant g
  | .colon2 => rootConstant
  | .lbrack => array g
  | .lbrace => hash g
  | .lpar => parenthesized g
  | .dot2 | .dot3 => openRange g
  | .arrow => lambda g
  | .kwNot => negatedOperand g
  | .kwReturn => jump g .returnStmt
  | .kwBreak => jump g .breakStmt
  | .kwNext => jump g .nextStmt
  | .kwRedo => bare .redoStmt
  | .kwRetry => bare .retryStmt
  | .kwYield => yieldCall g
  | .kwSuper => superCall g
  | .kwAlias => aliasStatement
  | .kwDef => definition g
  | .kwClass => classDefinition g
  | .kwModule => moduleDefinition g
  | .kwIf | .kwUnless => condition g
  | .kwWhile | .kwUntil => whileLoop g
  | .kwFor => forLoop g
  | .kwCase => caseChoice g
  | .kwBegin => beginBlock g
  | _ => fail .unexpected

end XhrKeywords.Grammar
