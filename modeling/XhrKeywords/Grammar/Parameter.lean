import XhrKeywords.Grammar.Build
import XhrKeywords.Grammar.Phrase

/-!
# Parameters

The formal parameters of methods, blocks and lambdas. Every parameter is a local variable from its
place on.
-/

namespace XhrKeywords.Grammar

open Syntax hiding Kind
open Token (Kind)

/-- The phrase of a default value; in a block a bar must not be read as an operator. -/
def defaultPhrase (inBlock : Bool) : Phrase :=
  if inBlock then .operand else .choice

/-- The name behind a mark, if there is one. -/
def markedName : Parser (List Node) := do
  if ← sees .ident then return [← takeName] else return []

/-- A parameter behind a mark, with or without a name. -/
def markedParameter (kind : Syntax.Kind) : Parser Node := do
  let mark ← advance
  let name ← markedName
  build kind name (ofToken mark)

/-- A keyword parameter with or without a default. -/
def keywordParameter (g : Rules) (closers : List Kind) (inBlock : Bool) : Parser Node := do
  let label ← advance
  if ← seesAny (.comma :: .newline :: closers) then
    build .kwArg [nameLeaf label] (ofToken label)
  else
    let value ← g.read (defaultPhrase inBlock)
    build .kwOptArg [nameLeaf label, value] (ofToken label)

/-- A positional parameter with or without a default. -/
def positionalParameter (g : Rules) (inBlock : Bool) : Parser Node := do
  let name ← advance
  if ← accept .assign then
    let value ← g.read (defaultPhrase inBlock)
    build .optArg [leafOf name, value] (ofToken name)
  else build .arg [leafOf name] (ofToken name)

/-- One parameter that is no block-local variable. -/
def parameter (g : Rules) (closers : List Kind) (inBlock : Bool) : Parser Node := do
  let t ← current
  match t.kind with
  | .star => markedParameter .restArg
  | .pow => markedParameter .kwRestArg
  | .amp => markedParameter .blockArg
  | .label => keywordParameter g closers inBlock
  | .lpar =>
    let opener ← advance
    g.read (.parameterGroup opener inBlock)
  | .ident => positionalParameter g inBlock
  | _ => fail .unexpectedParameter

/-- The name of a parameter that has one of its own. -/
def parameterName? : Node → Option String
  | .tree _ _ (.leaf name :: _) => if name.role = .token .ident then some name.text else none
  | _ => none

/-- Declares the name of a parameter that has one. -/
def declareParameter (n : Node) : Parser Unit :=
  match parameterName? n with
  | some name => declare name
  | none => return

/-- One block-local variable. -/
def shadowParameter : Parser Node := do
  let name ← advance
  declare name.text
  build .shadowArg [leafOf name] (ofToken name)

/-- One block-local variable with the comma behind it, or their end. -/
def shadowRound (found : List Node) : Parser (Round (List Node) (List Node)) := do
  if ← sees .ident then
    let next ← shadowParameter
    commaRound (found ++ [next])
  else return .done found

/-- One parameter with the comma behind it, or the block-local variables behind a semicolon, or the
end of the list. -/
def parameterRound (g : Rules) (closers : List Kind) (inBlock : Bool) (found : List Node) :
    Parser (Round (List Node) (List Node)) := do
  if ← seesAny closers then return .done found
  if ← accept .semi then again (g.loop shadowRound found)
  else
    let next ← parameter g closers inBlock
    declareParameter next
    listRound (found ++ [next])

/-- The parameters up to one of the closers. -/
def parameters (g : Rules) (closers : List Kind) (inBlock : Bool) : Parser (List Node) :=
  g.loop (parameterRound g closers inBlock) []

/-- The parameters behind an opening parenthesis in a parameter list. -/
def parameterGroup (g : Rules) (opener : Token) (inBlock : Bool) : Parser Node := do
  let inner ← parameters g [.rpar] inBlock
  let _ ← expect .rpar
  build .mlhs inner (ofToken opener)

end XhrKeywords.Grammar
