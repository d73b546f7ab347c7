import XhrKeywords.Grammar.Body
import XhrKeywords.Grammar.Parameter

/-!
# Blocks and lambdas

A block is attached to a call and a lambda stands alone. Both see the local variables around them
and keep their own to themselves.
-/

namespace XhrKeywords.Grammar

open Syntax hiding Kind

/-- The leaf that tells braces from `do` and `end`. -/
def styleLeaf (braces : Bool) : Node :=
  .word .style (if braces then "\x7b" else "do")

/-- The parameters between the bars of a block; two bars in a row hold none. -/
def blockParameters (g : Rules) : Parser Node := do
  if ← sees .orOr then bare .args
  else if ← sees .pipe then
    let bar ← advance
    let found ← parameters g [.pipe] true
    let _ ← expectCloser .pipe "|" "block parameters"
    build .args found (ofToken bar)
  else return .absent

/-- The body behind an opening brace. -/
def bracedBody (g : Rules) (construction : String) : Parser Node := do
  let inner ← body g [.rbrace]
  let _ ← expectCloser .rbrace "\x7d" construction
  return inner

/-- The parameters and the body of a block. -/
def blockParts (g : Rules) (braces : Bool) : Parser (Node × Node) := do
  let bound ← blockParameters g
  let inner ← if braces then bracedBody g "block" else closedBody g "do block"
  return (bound, inner)

/-- A block attached to a call. -/
def block (g : Rules) (call : Node) : Parser Node := do
  let opener ← advance
  let braces := opener.kind != .kwDo
  let (bound, inner) ← bracketed (inScope true (blockParts g braces))
  build .block [call, bound, inner, styleLeaf braces] (ofNode call)

/-- The parameters of a lambda, with or without parentheses. A parenthesized list keeps the end
line and column of its last parameter and the offset behind its parenthesis. -/
def lambdaParameters (g : Rules) : Parser Node := do
  if ← sees .lpar then
    let opener ← advance
    let found ← parameters g [.rpar] false
    let args ← build .args found (ofToken opener)
    let closer ← expect .rpar
    return mapSpan (fun span => { span with stop := closer.stop }) args
  else if ← seesAny [.ident, .star, .amp, .label] then
    let start ← current
    let found ← parameters g [.lbrace, .kwDo] false
    build .args found (ofToken start)
  else return .absent

/-- The body of a lambda, and whether it stands in braces. -/
def lambdaBody (g : Rules) : Parser (Node × Bool) := do
  if ← accept .lbrace then return (← bracedBody g "lambda", true)
  else
    let _ ← expectOr .kwDo .missingLambdaBody
    return (← closedBody g "lambda", false)

/-- The parameters and the body of a lambda, and whether the body stands in braces. -/
def lambdaParts (g : Rules) : Parser (Node × Node × Bool) := do
  let bound ← lambdaParameters g
  let inner ← bracketed (lambdaBody g)
  return (bound, inner)

/-- A lambda with its parameters and body. -/
def lambda (g : Rules) : Parser Node := do
  let start ← expect .arrow
  let (bound, inner, braces) ← inScope true (lambdaParts g)
  build .lambda [bound, inner, styleLeaf braces] (ofToken start)

end XhrKeywords.Grammar
