import XhrKeywords.Grammar.Build
import XhrKeywords.Grammar.Phrase

/-!
# Arguments

An argument list holds values, splats, a block and pairs. Neighbouring pairs without braces form
one hash, which stands where the next other argument or the end of the list is reached.
-/

namespace XhrKeywords.Grammar

open Syntax hiding Kind
open Token (Kind)

/-- Whether the next token begins the arguments of a call without parentheses: it is spaced, and
an operator touches what is behind it. -/
def commandStart : Parser Bool := do
  let t ← current
  let next ← second
  return t.spaced
    && (t.kind.startsArgument
      || (t.kind.startsGluedArgument && next.start == t.stop && next.kind != .newline
        && next.kind != .eof))

/-- The name in front of the colon of a label, read as a variable or a call. -/
def nameReference (label : Token) : Parser Node := do
  let span := shorten label.span
  let name := Node.leaf { role := .token .ident, text := label.text, place := span.place }
  if ← isLocal label.text then return .tree .lvar (some span) [name]
  else return .tree .call (some span) [.absent, name]

/-- The text in front of the colon of a label, as the key of a pair. -/
def labelKey (label : Token) : Parser Node :=
  let role := if label.kind == .label then Kind.ident else .string
  build .sym [leafAs (.token role) label] (ofToken label)

/-- Whether the next token closes the list that is being read. -/
def seesCloser : Option Kind → Parser Bool
  | none => return false
  | some closer => sees closer

/-- The value of a label. Without one, the name of the label is the value. -/
def labelValue (g : Rules) (closer : Option Kind) (label : Token) : Parser Node := do
  if (← seesClass Kind.stopsLabelValue) || (← seesCloser closer) then
    if label.kind == .label then nameReference label else failAt label .missingLabelValue
  else g.read .assignment

/-- A label and its value. -/
def labelPair (g : Rules) (closer : Option Kind) : Parser Node := do
  let label ← advance
  let key ← labelKey label
  let value ← labelValue g closer label
  build .pair [key, value] (ofToken label)

/-- A splat of pairs. -/
def doubleSplat (g : Rules) : Parser Node := do
  let mark ← advance
  let inner ← g.read .assignment
  build .kwsplat [inner] (ofToken mark)

/-- A key with the value behind its arrow. -/
def arrowPair (g : Rules) (key : Node) : Parser Node := do
  skipNewlines
  let value ← g.read .assignment
  build .pair [key, value] (ofNode key)

/-- A splat of a phrase, or the phrase itself. -/
def splatOr (element : Parser Node) : Parser Node := do
  if ← sees .star then
    let star ← advance
    let inner ← element
    build .splat [inner] (ofToken star)
  else element

/-- The arguments read so far and the pairs that no hash has taken up yet. -/
structure Collected where
  arguments : List Node
  pairs : List Node

namespace Collected

/-- Nothing read yet. -/
def empty : Collected := ⟨[], []⟩

/-- Gathers the waiting pairs into a hash. -/
def flush (c : Collected) : List Node :=
  match c.pairs with
  | [] => c.arguments
  | first :: others =>
    c.arguments ++ [enclose .hash c.pairs first ((first :: others).getLastD first)]

/-- An argument behind the waiting pairs. -/
def add (c : Collected) (argument : Node) : Collected := ⟨c.flush ++ [argument], []⟩

/-- One more pair. -/
def addPair (c : Collected) (pair : Node) : Collected := ⟨c.arguments, c.pairs ++ [pair]⟩

end Collected

/-- The value behind a mark, which may be left out. -/
def markedValue (g : Rules) (closer : Option Kind) : Parser (List Node) := do
  if (← sees .comma) || (← seesCloser closer) then return []
  else return [← g.read .assignment]

/-- A splat or block argument behind its mark. -/
def markedArgument (g : Rules) (closer : Option Kind) (kind : Syntax.Kind) : Parser Node := do
  let mark ← advance
  let inner ← markedValue g closer
  build kind inner (ofToken mark)

/-- A value, or a pair if an arrow follows. Between delimiters a value may be a negation. -/
def valueOrPair (g : Rules) (closer : Option Kind) (c : Collected) : Parser Collected := do
  let value ← g.read (if closer.isSome then .negation else .assignment)
  if ← accept .assoc then return c.addPair (← arrowPair g value)
  else return c.add value

/-- One argument or pair. -/
def argument (g : Rules) (closer : Option Kind) (c : Collected) : Parser Collected := do
  let t ← current
  match t.kind with
  | .star => return c.add (← markedArgument g closer .splat)
  | .amp => return c.add (← markedArgument g closer .blockPass)
  | .pow => return c.addPair (← doubleSplat g)
  | .label | .stringLabel => return c.addPair (← labelPair g closer)
  | _ => valueOrPair g closer c

/-- Line breaks mean nothing between delimiters. -/
def skipNewlinesWithin (closer : Option Kind) : Parser Unit :=
  if closer.isSome then skipNewlines else pure ()

/-- One argument with the comma behind it, or the end of the list. -/
def argumentRound (g : Rules) (closer : Option Kind) (c : Collected) :
    Parser (Round Collected Collected) := do
  skipNewlinesWithin closer
  if ← seesCloser closer then return .done c
  let more ← argument g closer c
  skipNewlinesWithin closer
  listRound more

/-- The arguments up to a closer, or up to the first one that no comma follows. -/
def arguments (g : Rules) (closer : Option Kind) : Parser (List Node) := do
  let collected ← g.loop (argumentRound g closer) .empty
  match closer with
  | none => return collected.flush
  | some kind =>
    let _ ← expectOr kind (.unclosedArguments kind)
    return collected.flush

/-- The arguments behind an opening delimiter that touches the token before it. -/
def delimitedArguments (g : Rules) (closer : Kind) : Parser (List Node) := do
  let _ ← advance
  bracketed (arguments g (some closer))

end XhrKeywords.Grammar
