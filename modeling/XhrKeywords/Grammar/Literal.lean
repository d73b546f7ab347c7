import XhrKeywords.Grammar.Argument

/-!
# Literals with parts

Neighbouring strings, hashes in braces and the names of an alias.
-/

namespace XhrKeywords.Grammar

open Syntax hiding Kind
open Token (Kind)

/-- One more string on the line on which the last one ended, or the end of them. -/
def stringRound (found : List Node) : Parser (Round (List Node) (List Node)) := do
  let t ← current
  let last ← previous
  if t.kind == .string && (found.isEmpty || t.line == last.endLine) then
    againWith found (single .str)
  else return .done found

/-- Neighbouring strings are one text. -/
def strings (g : Rules) : Parser Node := do
  match ← g.loop stringRound [] with
  | [] => fail .unexpected
  | [only] => return only
  | first :: others => build .dstr (first :: others) (ofNode first)

/-- A key, an arrow and a value; line breaks may stand around the arrow. -/
def rocketPair (g : Rules) : Parser Node := do
  let key ← g.read .assignment
  skipNewlines
  let _ ← expectOr .assoc .missingRocket
  arrowPair g key

/-- A pair or a splat of a hash in braces. -/
def hashElement (g : Rules) : Parser Node := do
  let t ← current
  match t.kind with
  | .pow => doubleSplat g
  | .label | .stringLabel => labelPair g (some .rbrace)
  | _ => rocketPair g

/-- One pair with the comma behind it, or the end of the hash. -/
def hashRound (g : Rules) (found : List Node) : Parser (Round (List Node) (List Node)) := do
  skipNewlines
  if ← sees .rbrace then return .done found
  let next ← hashElement g
  skipNewlines
  commaRound (found ++ [next])

/-- The hash of the pairs in front of a closing brace. -/
def closedHash (start : Token) (pairs : List Node) : Parser Node := do
  skipNewlines
  let _ ← expectCloser .rbrace "\x7d" "hash literal"
  build .hash pairs (ofToken start)

/-- A hash in braces. -/
def hash (g : Rules) : Parser Node := bracketed do
  let start ← expect .lbrace
  let pairs ← g.loop (hashRound g) []
  closedHash start pairs

/-- A name of an alias: a method name or a global variable. -/
def aliasName : Parser Node := do
  let t ← current
  match t.kind with
  | .ident | .const | .symbol => singleAs .sym (.token .ident)
  | .gvar => single .gvar
  | kind =>
    if kind.isOperatorMethod then singleAs .sym (.token .ident) else fail .unexpectedAlias

end XhrKeywords.Grammar
