import XhrKeywords.Syntax.Node

/-!
# Legacy calls

A legacy call is a call of the method `xhr`, whatever its receiver. It holds a symbol for the
verb, the path, and then the parameters and the headers of the request; a block may be passed
behind them.
-/

namespace XhrKeywords.Migration

open Syntax

/-- The method that legacy calls name. -/
def legacyMethod : String := "xhr"

/-- Whether a node is a call of the legacy method. -/
def isLegacyCall : Node → Bool
  | .tree .call _ (_ :: .leaf name :: _) => name.text == legacyMethod
  | _ => false

/-- The block passed behind the arguments of a call. -/
def passedBlock? (call : Node) : Option Node :=
  match call.children with
  | _ :: _ :: arguments => arguments.getLast?.filter (·.isKind .blockPass)
  | _ => none

/-- The arguments behind the verb and the path, a passed block aside. -/
def trailingArguments (call : Node) : List Node :=
  let behind := call.children.drop 4
  if (passedBlock? call).isSome then behind.dropLast else behind

/-- The node at the place of the verb, when there is a path behind it. -/
def verbAndPath? (call : Node) : Option (Node × Node) :=
  match call.children with
  | _ :: _ :: verb :: path :: _ => some (verb, path)
  | _ => none

/-- A legacy call in a tree, and whether it is a statement of its own. -/
structure Occurrence where
  call : Node
  isStatement : Bool

mutual

/-- All trees of a node, each before the trees in it, with whether they are statements. -/
def statementTrees (isStatement : Bool) : Node → List (Node × Bool)
  | .tree kind span children =>
    (.tree kind span children, isStatement)
      :: statementTreesAll kind.isStatementList children
  | _ => []

/-- The trees of several nodes, one node after the other. -/
def statementTreesAll (areStatements : Bool) : List Node → List (Node × Bool)
  | [] => []
  | n :: others => statementTrees areStatements n ++ statementTreesAll areStatements others

end

/-- The legacy calls of a tree, each before those in it. -/
def occurrences (tree : Node) : List Occurrence :=
  (statementTrees false tree).filterMap fun (n, isStatement) =>
    if isLegacyCall n then some ⟨n, isStatement⟩ else none

end XhrKeywords.Migration
