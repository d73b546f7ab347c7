import XhrKeywords.Grammar.Body

/-!
# Conditions and loops

In front of the body of a loop a `do` belongs to the loop and not to a call in its condition.
-/

namespace XhrKeywords.Grammar

open Syntax hiding Kind
open Token (Kind)

/-- The body of a branch or a loop. -/
def branch (g : Rules) (stops : List Kind) : Parser Node := bracketed (body g stops)

/-- The body behind `else`, if there is one. -/
def otherwiseBranch (g : Rules) : Parser Node := do
  if ← accept .kwElse then branch g [.kwEnd] else return .absent

/-- The condition behind `elsif`, which `unless` has none of, or the body behind `else`. -/
def nextBranch (g : Rules) (keyword : Token) : Parser Node := do
  if keyword.kind != .kwUnless && (← sees .kwElsif) then
    let next ← advance
    g.read (.conditional next)
  else otherwiseBranch g

/-- The condition, read by `test`, and the branches behind `if`, `unless` or `elsif`, up to
`end`. -/
def conditional (g : Rules) (test : Parser Node) (keyword : Token) : Parser Node := do
  let condition ← bracketed test
  separator
  let inner ← branch g [.kwElsif, .kwElse, .kwEnd]
  let otherwise ← nextBranch g keyword
  build .ifStmt [leafAs .keyword keyword, condition, inner, otherwise] (ofToken keyword)

/-- A condition with its branches and `end`. -/
def condition (g : Rules) : Parser Node := do
  let keyword ← advance
  let node ← conditional g (g.read .sequence) keyword
  let closer ← expectEnd keyword.text
  return mapSpan
    (fun span => { span with
      endLine := closer.endLine, endColumn := closer.endColumn, stop := closer.stop }) node

/-- The mark in front of the body of a loop: `do`, a line break or a semicolon. -/
def loopOpener : Parser Unit := do
  if ← accept .kwDo then return
  if ← seesClass isSeparator then return
  fail .missingLineBreak

/-- The body of a loop up to `end`. -/
def loopBody (g : Rules) (construction : String) : Parser Node := do
  loopOpener
  let inner ← branch g [.kwEnd]
  let _ ← expectEnd construction
  return inner

/-- A loop with a condition. -/
def whileLoop (g : Rules) : Parser Node := do
  let keyword ← advance
  let test ← keepingDo (g.read .sequence)
  let inner ← loopBody g keyword.text
  build .whileStmt [leafAs .keyword keyword, test, inner] (ofToken keyword)

/-- A variable of a loop over a collection. -/
def loopVariable : Parser Node := do
  let name ← expectOr .ident fun _ => .missingLoopVariable
  declare name.text
  build .lvar [leafOf name] (ofToken name)

/-- One variable with the comma behind it, or the last one. -/
def loopVariableRound (found : List Node) : Parser (Round (List Node) (List Node)) := do
  let next ← loopVariable
  commaRound (found ++ [next])

/-- The variable of a loop, or several of them as one target. -/
def loopTarget (start : Token) : List Node → Parser Node
  | [only] => return only
  | several => build .mlhs several (ofToken start)

/-- A loop over a collection. -/
def forLoop (g : Rules) : Parser Node := do
  let start ← expect .kwFor
  let targets ← g.loop loopVariableRound []
  let bound ← loopTarget start targets
  let _ ← expectOr .kwIn fun _ => .missingLoopCollection
  let collection ← keepingDo (g.read .sequence)
  let inner ← loopBody g "for"
  build .forStmt [bound, collection, inner] (ofToken start)

/-- A `when` clause: values and a body. -/
def whenClause (g : Rules) : Parser Node := do
  let keyword ← advance
  let values ← elements g (splatOr (g.read .choice))
  separator
  let inner ← branch g [.kwWhen, .kwElse, .kwEnd]
  build .whenClause (values ++ [inner]) (ofToken keyword)

/-- One more `when` clause, or the end of them. -/
def whenRound (g : Rules) (found : List Node) : Parser (Round (List Node) (List Node)) := do
  if ← sees .kwWhen then againWith found (whenClause g)
  else return .done found

/-- The `when` clauses, of which there is one at least. -/
def whenClauses (g : Rules) : Parser (List Node) := do
  let clauses ← g.loop (whenRound g) []
  if ← sees .kwIn then fail fun _ => .patternMatching
  else if clauses.isEmpty then fail fun _ => .missingWhen
  else return clauses

/-- What a choice is about, if anything. -/
def caseSubject (g : Rules) : Parser Node := do
  if ← seesClass isSeparator then return .absent else g.read .sequence

/-- A choice between cases. -/
def caseChoice (g : Rules) : Parser Node := do
  let start ← expect .kwCase
  let subject ← caseSubject g
  skipSeparators
  let clauses ← whenClauses g
  let otherwise ← otherwiseBranch g
  let _ ← expectEnd "case"
  build .caseStmt (subject :: clauses ++ [otherwise]) (ofToken start)

end XhrKeywords.Grammar
