import XhrKeywords.Grammar.Build
import XhrKeywords.Unicode.Case

/-!
# Assignment targets

Variables, constants, indexes and calls without arguments may be assigned to. A bare call that is
assigned to was a local variable all along and is declared as one.
-/

namespace XhrKeywords.Grammar

open Syntax

/-- Whether a name may be assigned to behind a receiver or, without one, as a variable. -/
def isAssignableName (receiver : Node) (name : String) : Bool :=
  let last := name.toList.getLastD '\x00'
  let first := name.toList.headD '\x00'
  last != '?' && last != '!' && (!receiver.isAbsent || Unicode.isLower first || first == '_')

/-- Whether an expression may stand in front of an assignment operator. -/
def isAssignable : Node → Bool
  | .tree .lvar _ _ | .tree .ivar _ _ | .tree .gvar _ _ | .tree .cvar _ _ | .tree .const _ _
  | .tree .index _ _ => true
  | .tree .call _ [receiver, .leaf name] | .tree .csend _ [receiver, .leaf name] =>
    isAssignableName receiver name.text
  | _ => false

/-- Whether an expression may stand among the targets of an assignment. -/
def isTarget (n : Node) : Bool :=
  isAssignable n || n.isKind .splat || n.isKind .mlhs

/-- Turns an expression into a target; a bare call becomes a local variable. -/
def toTarget : Node → Parser Node
  | .tree .call span [.absent, .leaf name] => do
    declare name.text
    return .tree .lvar span [.leaf { name with role := .token .ident }]
  | n => if isTarget n then return n else fail fun _ => .notAssignable (n.kind?.getD .body)

end XhrKeywords.Grammar
