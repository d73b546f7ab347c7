import XhrKeywords.Grammar.Primary

/-!
# Expressions

Each level of precedence is a production over the next tighter one: operands with their trailers,
unary operators, powers, the binary operators in nine levels, ranges, choices, assignments,
negations and sequences.
-/

namespace XhrKeywords.Grammar

open Syntax hiding Kind
open Token (Kind)

/-- Whether a block may follow an expression. -/
def takesBlock : Node → Bool
  | .tree .call _ _ | .tree .csend _ _ | .tree .superCall _ _ | .tree .zsuper _ _ => true
  | _ => false

/-- Whether an expression is a variable; a spaced bracket behind it is an index all the same. -/
def isVariable : Node → Bool
  | .tree .lvar _ _ | .tree .ivar _ _ | .tree .gvar _ _ | .tree .cvar _ _ => true
  | _ => false

/-- A constant or a method call behind a double colon. -/
def scopeTrailer (g : Rules) (n : Node) : Parser Node := do
  let _ ← advance
  let behind ← second
  if (← sees .const) && !(behind.kind == .lpar && !behind.spaced) then
    let name ← advance
    build .const [n, leafOf name] (ofNode n)
  else methodCall g n .colon2

/-- A method call behind a dot or a safe navigation operator, which line breaks may follow. -/
def callTrailer (g : Rules) (n : Node) : Parser Node := do
  let operator ← advance
  skipNewlines
  methodCall g n operator.kind

/-- An index in brackets. -/
def indexTrailer (g : Rules) (n : Node) : Parser Node := do
  let found ← delimitedArguments g .rbrack
  build .index (n :: found) (ofNode n)

/-- One more trailer of an operand, or its end. -/
def trailerRound (g : Rules) (n : Node) : Parser (Round Node Node) := do
  let t ← current
  match t.kind with
  | .dot | .andDot => again (callTrailer g n)
  | .colon2 => if t.spaced then return .done n else again (scopeTrailer g n)
  | .lbrack =>
    if t.spaced && !isVariable n then return .done n else again (indexTrailer g n)
  | .lbrace => if takesBlock n then again (block g n) else return .done n
  | .kwDo => if (← doBinds) && takesBlock n then again (block g n) else return .done n
  | _ => return .done n

/-- A primary with its method calls, constants, indexes and blocks. -/
def operand (g : Rules) : Parser Node := do
  g.loop (trailerRound g) (← primary g)

/-- The operand of `defined?`, in parentheses that touch it or without any. -/
def testedOperand (g : Rules) : Parser Node := do
  if ← seesGlued .lpar then
    let _ ← advance
    skipNewlines
    let inner ← g.read .sequence
    skipNewlines
    let _ ← expect .rpar
    return inner
  else g.read .unary

/-- A test with `defined?`. -/
def definedTest (g : Rules) : Parser Node := do
  let keyword ← advance
  let tested ← testedOperand g
  build .defined [tested] (ofToken keyword)

/-- A unary operator in front of a phrase. -/
def unaryOperation (g : Rules) (tighter : Phrase) : Parser Node := do
  let operator ← advance
  let inner ← g.read tighter
  build .unop [leafAs .operator operator, inner] (ofToken operator)

/-- An operand behind unary operators. -/
def unary (g : Rules) : Parser Node := do
  if ← seesAny [.bang, .tilde, .plus] then unaryOperation g .unary
  else if ← sees .kwDefined then definedTest g
  else operand g

/-- A base with its exponent, if one follows. -/
def power (g : Rules) (base : Node) : Parser Node := do
  if ← sees .pow then
    let operator ← advance
    skipNewlines
    let exponent ← g.read .signed
    build .binop [base, leafAs .operator operator, exponent] (ofNode base)
  else return base

/-- A number that a minus sign touches; the sign belongs to it. -/
def negativeNumber (sign : Token) : Parser Node := do
  let number ← advance
  let kind := if number.kind == .int then Syntax.Kind.int else .float
  build kind [leafWith (.token number.kind) ("-" ++ number.text) number] (ofToken sign)

/-- An operand behind minus signs, with its power; a negative number is the base of its power and
any other sign applies to the power. -/
def signed (g : Rules) : Parser Node := do
  if ← sees .minus then
    let sign ← advance
    let number ← current
    if (number.kind == .int || number.kind == .float) && number.start == sign.stop then
      power g (← negativeNumber sign)
    else
      let inner ← g.read .signed
      build .unop [leafAs .operator sign, inner] (ofToken sign)
  else power g (← unary g)

/-- The binary operators, those that bind loosest first. -/
def binaryLevels : List (List Kind) :=
  [[.orOr], [.andAnd], [.cmp, .eq, .eqq, .neq, .eqTilde, .bangTilde], [.lt, .lte, .gt, .gte],
    [.pipe, .caret], [.amp], [.lshift, .rshift], [.plus, .minus], [.star, .slash, .percent]]

/-- One more operator with its right operand, or the end of the operation. -/
def binaryRound (operators : List Kind) (tighter : Parser Node) (left : Node) :
    Parser (Round Node Node) := do
  if ← seesAny operators then
    let operator ← advance
    skipNewlines
    let right ← tighter
    again (build .binop [left, leafAs .operator operator, right] (ofNode left))
  else return .done left

/-- Operands joined by operators of one level, from left to right. -/
def leftAssociative (g : Rules) (operators : List Kind) (tighter : Parser Node) :
    Parser Node := do
  g.loop (binaryRound operators tighter) (← tighter)

/-- Operands joined by the operators of several levels. -/
def operation (g : Rules) : List (List Kind) → Parser Node
  | [] => signed g
  | operators :: tighter => leftAssociative g operators (operation g tighter)

/-- The upper bound of a range, if there is one. -/
def upperBound (g : Rules) : Parser Node := do
  if ← seesClass Kind.stopsValue then return .absent else operation g binaryLevels

/-- An operation or a range. -/
def range (g : Rules) : Parser Node := do
  let lower ← operation g binaryLevels
  if ← seesAny [.dot2, .dot3] then
    let operator ← advance
    let upper ← upperBound g
    build .range [lower, leafAs .operator operator, upper] (ofNode lower)
  else return lower

/-- A branch up to its colon. -/
def chosenBranch (g : Rules) : Parser Node := do
  let chosen ← g.read .choice
  skipNewlines
  let _ ← expectOr .colon fun _ => .missingTernaryColon
  return chosen

/-- The branch between the question mark and the colon; a label is a name or text and its colon. -/
def firstBranch (g : Rules) : Parser Node := do
  let t ← current
  match t.kind with
  | .label => nameReference (← advance)
  | .stringLabel => return mapSpan shorten (← singleAs .str (.token .string))
  | _ => chosenBranch g

/-- A range, or a choice between two branches. -/
def choice (g : Rules) : Parser Node := do
  let test ← range g
  if ← accept .qmark then
    skipNewlines
    let first ← firstBranch g
    skipNewlines
    let other ← g.read .choice
    build .ternary [test, first, other] (ofNode test)
  else return test

/-- An assignment, which groups to the right, or a choice. -/
def assignment (g : Rules) : Parser Node := do
  let left ← choice g
  if (← seesAny [.assign, .opAssign]) && isAssignable left then
    let operator ← advance
    skipNewlines
    let target ← toTarget left
    let value ← g.read .assignment
    build .asgn [target, leafAs .operator operator, value] (ofNode target)
  else return left

/-- An assignment behind any number of `not`. -/
def negation (g : Rules) : Parser Node := do
  if ← sees .kwNot then unaryOperation g .negation else assignment g

/-- Negations joined by `and` and `or`, from left to right. -/
def sequence (g : Rules) : Parser Node :=
  leftAssociative g [.kwAnd, .kwOr] (negation g)

end XhrKeywords.Grammar
