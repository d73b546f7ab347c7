import XhrKeywords.Grammar.Argument
import XhrKeywords.Grammar.Target

/-!
# Statement lists

Statements are separated by line breaks and semicolons. A body is a list of statements up to a
keyword or bracket; bodies of definitions and blocks may go on with `rescue`, `else` and `ensure`.
-/

namespace XhrKeywords.Grammar

open Syntax hiding Kind
open Token (Kind)

/-- One statement with the separators in front of it, or the end of the list. -/
def statementRound (g : Rules) (stops : List Kind) (found : List Node) :
    Parser (Round (List Node) (List Node)) := do
  skipSeparators
  if ← seesAny (.eof :: stops) then return .done found
  let next ← g.read .statement
  if ← seesAny (.newline :: .semi :: .eof :: stops) then return .again (found ++ [next])
  else fail .unexpectedAfterStatement

/-- The statements up to the end of the source or one of the stops. -/
def statements (g : Rules) (stops : List Kind) : Parser (List Node) :=
  g.loop (statementRound g stops) []

/-- The statements up to one of the stops as one tree. -/
def body (g : Rules) (stops : List Kind) : Parser Node := do
  let start ← current
  match ← statements g stops with
  | [] => return hollow .body start
  | first :: others =>
    return enclose .body (first :: others) first ((first :: others).getLastD first)

/-- The separator behind a condition: a line break, a semicolon or `then`. -/
def separator : Parser Unit := do
  let separated ← seesClass isSeparator
  skipSeparators
  if ← accept .kwThen then return
  if separated then return
  fail .missingThen

/-- One element with the comma behind it, or the end of a list. -/
def elementRound (element : Parser Node) (found : List Node) :
    Parser (Round (List Node) (List Node)) := do
  let next ← element
  listRound (found ++ [next])

/-- Elements with commas between them. -/
def elements (g : Rules) (element : Parser Node) : Parser (List Node) :=
  g.loop (elementRound element) []

/-- The stops of a body that may go on with clauses. -/
def clauseStops : List Kind := [.kwRescue, .kwElse, .kwEnsure, .kwEnd]

/-- The exception classes of a `rescue` clause, if there are any. -/
def rescueClasses (g : Rules) : Parser (List Node) := do
  if ← seesAny [.assoc, .kwThen, .newline, .semi] then return []
  else elements g (splatOr (g.read .choice))

/-- The variable of a `rescue` clause, if there is one. -/
def rescueVariable (g : Rules) : Parser Node := do
  if ← accept .assoc then toTarget (← g.read .operand)
  else return .absent

/-- One `rescue` clause: exception classes, a variable and a body. -/
def rescueClause (g : Rules) : Parser Node := do
  let keyword ← advance
  let classes ← rescueClasses g
  let bound ← rescueVariable g
  separator
  let handler ← body g clauseStops
  let exceptions ← build .excList classes (ofToken keyword)
  build .resBody [exceptions, bound, handler] (ofToken keyword)

/-- One more `rescue` clause, or the end of them. -/
def rescueRound (g : Rules) (found : List Node) :
    Parser (Round (List Node) (List Node)) := do
  if ← sees .kwRescue then againWith found (rescueClause g)
  else return .done found

/-- A clause of one body behind its keyword, if the keyword is there. -/
def bodyClause (g : Rules) (keyword : Kind) (kind : Syntax.Kind) (stops : List Kind) :
    Parser (List Node) := do
  if ← sees keyword then
    let start ← advance
    let inner ← body g stops
    return [← build kind [inner] (ofToken start)]
  return []

/-- A body up to `end` with its clauses. -/
def bodyStatement (g : Rules) : Parser Node := do
  let start ← current
  let main ← body g clauseStops
  if ← seesAny [.kwRescue, .kwElse, .kwEnsure] then
    let rescues ← g.loop (rescueRound g) []
    let otherwise ← bodyClause g .kwElse .elseClause [.kwEnsure, .kwEnd]
    let atLast ← bodyClause g .kwEnsure .ensureClause [.kwEnd]
    build .bodyStmt (main :: rescues ++ otherwise ++ atLast) (ofToken start)
  else return main

/-- A body with its clauses and the `end` behind it. -/
def closedBody (g : Rules) (construction : String) : Parser Node := do
  let inner ← bodyStatement g
  let _ ← expectEnd construction
  return inner

/-- The same where a `do` inside belongs to the nearest call again. -/
def bracketedBody (g : Rules) (construction : String) : Parser Node := do
  let inner ← bracketed (bodyStatement g)
  let _ ← expectEnd construction
  return inner

end XhrKeywords.Grammar
