import XhrKeywords.Grammar.Expression

/-!
# Statements

A statement is a multiple assignment or an expression, behind which modifiers may stand.
-/

namespace XhrKeywords.Grammar

open Syntax hiding Kind
open Token (Kind)

/-- Tokens that rule out a multiple assignment in front of them. -/
def endsTargets : Kind → Bool
  | .newline | .semi | .eof | .kwDo | .label | .stringLabel | .assoc | .kwIf | .kwUnless | .kwWhile
  | .kwUntil | .opAssign => true
  | _ => false

/-- Whether the tokens hold a comma and then an equals sign outside of brackets, of which `depth`
are open. -/
def hasTargets (depth : Nat) (comma : Bool) : List Token → Bool
  | [] => false
  | t :: others =>
    match t.kind with
    | .lpar | .lbrack | .lbrace => hasTargets (depth + 1) comma others
    | .rpar | .rbrack | .rbrace =>
      match depth with
      | 0 => false
      | outer + 1 => hasTargets outer comma others
    | kind =>
      if depth != 0 then hasTargets depth comma others
      else if kind == .comma then hasTargets depth true others
      else if kind == .assign then comma
      else if endsTargets kind then false
      else hasTargets depth comma others

/-- Whether a multiple assignment follows; a call with arguments is none. -/
def seesTargets : Parser Bool := do
  let s ← get
  let head := s.current
  let next := s.second
  if head.kind == .ident && !(← isLocal head.text) && next.spaced && next.kind.startsArgument then
    return false
  return hasTargets 0 false (head :: s.ahead)

/-- An operand that is assigned to. -/
def targetOperand (g : Rules) : Parser Node := do toTarget (← operand g)

/-- The variable of a splat among targets, which may be left out. -/
def splatVariable (g : Rules) (closer : Kind) : Parser (List Node) := do
  if ← seesAny [.comma, closer] then return [] else return [← targetOperand g]

/-- A splat among targets. -/
def splatTarget (g : Rules) (closer : Kind) : Parser Node := do
  let star ← advance
  let inner ← splatVariable g closer
  build .splat inner (ofToken star)

/-- One target. -/
def target (g : Rules) (closer : Kind) : Parser Node := do
  if ← sees .star then splatTarget g closer
  else if ← sees .lpar then
    let opener ← advance
    g.read (.targetGroup opener)
  else targetOperand g

/-- One target with the comma behind it, or the last one. -/
def targetRound (g : Rules) (closer : Kind) (found : List Node) :
    Parser (Round (List Node) (List Node)) := do
  let next ← target g closer
  if ← accept .comma then
    if ← sees closer then return .done (found ++ [next])
    return .again (found ++ [next])
  return .done (found ++ [next])

/-- The targets of a multiple assignment. -/
def targets (g : Rules) (closer : Kind) : Parser (List Node) :=
  g.loop (targetRound g closer) []

/-- The targets behind an opening parenthesis. -/
def targetGroup (g : Rules) (opener : Token) : Parser Node := do
  let inner ← targets g .rpar
  let _ ← expect .rpar
  build .mlhs inner (ofToken opener)

/-- The right side of a multiple assignment; several values are an array without brackets. -/
def assignedValues (g : Rules) : Parser Node := do
  match ← elements g (splatOr (g.read .assignment)) with
  | [] => fail .unexpected
  | [only] => return only
  | first :: others => build .array (first :: others) (ofNode first)

/-- Several targets, an equals sign and their values. -/
def multipleAssignment (g : Rules) : Parser Node := do
  let start ← current
  let left ← targets g .assign
  let tuple ← build .mlhs left (ofToken start)
  let _ ← expect .assign
  skipNewlines
  let value ← assignedValues g
  build .masgn [tuple, value] (ofToken start)

/-- A modifier with a condition. -/
def conditionModifier (g : Rules) (kind : Syntax.Kind) (n : Node) : Parser Node := do
  let keyword ← advance
  let test ← sequence g
  build kind [leafAs .keyword keyword, n, test] (ofNode n)

/-- A modifier with a value for the case of an exception. -/
def rescueModifier (g : Rules) (n : Node) : Parser Node := do
  let _ ← advance
  let fallback ← sequence g
  build .rescueMod [n, fallback] (ofNode n)

/-- One more modifier, or the end of the statement. -/
def modifierRound (g : Rules) (n : Node) : Parser (Round Node Node) := do
  match (← current).kind with
  | .kwIf | .kwUnless => again (conditionModifier g .ifMod n)
  | .kwWhile | .kwUntil => again (conditionModifier g .whileMod n)
  | .kwRescue => again (rescueModifier g n)
  | _ => return .done n

/-- A statement without its modifiers. -/
def statementHead (g : Rules) : Parser Node := do
  if ← seesTargets then multipleAssignment g else sequence g

/-- A statement with its modifiers. -/
def statement (g : Rules) : Parser Node := do
  let first ← statementHead g
  g.loop (modifierRound g) first

end XhrKeywords.Grammar
