import XhrKeywords.Grammar.Block

/-!
# Calls

A call has a receiver or none, a name and arguments, which stand in parentheses that touch the
name or follow it behind a space. In front of its arguments without parentheses, a `do` waits for
the outermost call.
-/

namespace XhrKeywords.Grammar

open Syntax hiding Kind
open Token (Kind)

/-- The arguments of a call without parentheses, and a `do` block behind the outermost call. -/
def command (g : Rules) (kind : Syntax.Kind) (head : List Node) (start : Mark) :
    Parser Node := do
  let found ← keepingDo (arguments g none)
  let node ← build kind (head ++ found) start
  if (← doBinds) && (← sees .kwDo) then block g node else return node

/-- The arguments of a call behind its name. -/
def callArguments (g : Rules) (kind : Syntax.Kind) (head : List Node) (start : Mark) :
    Parser Node := do
  if ← seesGlued .lpar then
    let found ← delimitedArguments g .rpar
    build kind (head ++ found) start
  else if ← commandStart then command g kind head start
  else build kind head start

/-- The name of a method behind a dot; in front of a parenthesis it is `call`. -/
def methodName : Parser Node := do
  let t ← current
  match t.kind with
  | .lpar => return .word (.token .ident) "call"
  | .ident | .const => takeName
  | .label => fail fun _ => .labelAfterDot
  | kind => if kind.isOperatorMethod then takeName else fail .missingMethodName

/-- A method call behind a dot, a safe navigation operator or a double colon. -/
def methodCall (g : Rules) (receiver : Node) (operator : Kind) : Parser Node := do
  let kind : Syntax.Kind := if operator == .andDot then .csend else .call
  let name ← methodName
  callArguments g kind [receiver, name] (ofNode receiver)

/-- A bare name: a local variable unless parentheses touch it, and a call otherwise. -/
def identifier (g : Rules) : Parser Node := do
  let t ← advance
  let known ← isLocal t.text
  if known && !(← seesGlued .lpar) then build .lvar [leafOf t] (ofToken t)
  else callArguments g .call [.absent, leafOf t] (ofToken t)

end XhrKeywords.Grammar
