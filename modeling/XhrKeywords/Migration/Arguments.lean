import XhrKeywords.Migration.Call
import XhrKeywords.Migration.Refusal

/-!
# Checking a call

A call is converted only if its verb, path, parameters and headers can be told apart. The causes
against it are looked for in a fixed order, so each refused call has one cause.
-/

namespace XhrKeywords.Migration

open Syntax

/-- The keys of a call in keyword style. -/
def migratedKeys : List String := ["params", "headers"]

/-- The symbol that is the first key of a hash. -/
def firstKey? : Node → Option String
  | .tree .hash _ (.tree .pair _ (key :: _) :: _) => key.symbolName?
  | _ => none

/-- Whether the arguments are a single hash in keyword style. -/
def areMigrated : List Node → Bool
  | [only] => (firstKey? only).any migratedKeys.contains
  | _ => false

/-- Whether a node passes several arguments or a block. -/
def isSplatted (n : Node) : Bool :=
  n.isKind .splat || n.isKind .blockPass

/-- Whether a string is a heredoc that opens before the given line. -/
def opensHeredocBefore (line : Nat) : Node → Bool
  | .tree .str _ (.leaf content :: _) =>
    ['<', '<'].isPrefixOf content.text.toList && content.place.line.any (· < line)
  | _ => false

/-- Whether the body of a heredoc of a call lies in front of the end of the call. -/
def hasHeredocInside : Node → Bool
  | .tree kind (some span) children =>
    (Node.tree kind (some span) children).subtrees.any (opensHeredocBefore span.endLine)
  | _ => false

/-- The name of the verb of a call that has a path; the path is one argument and the verb is a
symbol that can be the name of a method. -/
def verb? (call : Node) : Option String :=
  match verbAndPath? call with
  | some (verb, path) =>
    verb.symbolName?.filter fun name => Unicode.isIdentifier name && !isSplatted path
  | none => none

/-- What speaks against converting a call: the first cause that applies. -/
def objection? (call : Node) : Option Cause :=
  let arguments := trailingArguments call
  if areMigrated arguments then some .alreadyMigrated
  else if 2 < arguments.length then some (.tooManyArguments arguments.length)
  else if (verb? call).isNone then some .noVerbOrPath
  else if arguments.any isSplatted then some .splattedArgument
  else if hasHeredocInside call then some .heredocInside
  else none

/-- The refusal of a call, which shows its text in command style. -/
def refuse (call : Node) (cause : Cause) : Failure :=
  match call.print true with
  | .ok text => .refused ⟨cause, text, call.line?⟩
  | .error error => .print error

/-- The parameters and headers of a call that can be converted. -/
def arguments (call : Node) : Except Failure (List Node) :=
  match objection? call with
  | some cause => .error (refuse call cause)
  | none => .ok (trailingArguments call)

end XhrKeywords.Migration
