import XhrKeywords.Migration.Arguments

/-!
# Calls in keyword style

The replacement of a legacy call is a call of the verb with the path and the keywords `headers`,
`params` and `xhr`, in this order. Parameters without content are left out.
-/

namespace XhrKeywords.Migration

open Syntax

/-- A pair of a symbol and a value. -/
def keyword (name : String) (value : Node) : Node :=
  .made .pair [.symbol name, value]

/-- The keyword for the headers, if there are any. -/
def headersKeyword (headers : Node) : List Node :=
  if headers.isAbsent then [] else [keyword "headers" headers]

/-- The keyword for the parameters, unless they have no content. -/
def paramsKeyword (params : Node) : List Node :=
  if params.children.isEmpty then [] else [keyword "params" params]

/-- The keywords of a request. -/
def keywords (params headers : Node) : Node :=
  .made .hash
    (headersKeyword headers ++ paramsKeyword params ++ [keyword legacyMethod (.made .trueLit [])])

/-- The call of `verb` with a path, the keywords for the arguments and a passed block. -/
def replacementFor (verb : String) (path : Node) (arguments : List Node)
    (block : Option Node) : Node :=
  let params := arguments.headD .absent
  let headers := arguments.tail.headD .absent
  .made .call
    ([.absent, .word (.token .ident) verb, path, keywords params headers] ++ block.toList)

/-- The call in keyword style for a call and its arguments. -/
def replacement (call : Node) (arguments : List Node) : Node :=
  match verbAndPath? call with
  | some (verb, path) =>
    replacementFor (verb.symbolName?.getD "") path arguments (passedBlock? call)
  | none => call

end XhrKeywords.Migration
