import XhrKeywords.Syntax.Kind
import XhrKeywords.Token.Basic

/-!
# Syntax nodes

A node is a leaf with a text, a tree with a kind and children, or the absence of an optional child.
Nodes read from a source know their place in it; nodes made otherwise have none.
-/

namespace XhrKeywords.Syntax

/-- The stretch of source that a tree covers. -/
structure Span where
  line : Nat
  column : Nat
  start : Nat
  endLine : Nat
  endColumn : Nat
  stop : Nat
  deriving DecidableEq, Repr, Inhabited

/-- What is known of the place of a leaf. -/
structure Place where
  line : Option Nat := none
  column : Option Nat := none
  start : Option Nat := none
  endLine : Option Nat := none
  endColumn : Option Nat := none
  stop : Option Nat := none
  deriving DecidableEq, Repr, Inhabited

/-- The place of a leaf of which nothing is known. -/
def Place.unknown : Place := {}

/-- A leaf that covers a stretch of source knows its whole place. -/
def Span.place (s : Span) : Place :=
  ⟨some s.line, some s.column, some s.start, some s.endLine, some s.endColumn, some s.stop⟩

/-- A text with its role. -/
structure Leaf where
  role : Role
  text : String
  place : Place := .unknown
  deriving DecidableEq, Repr, Inhabited

/-- A piece of syntax. -/
inductive Node
  /-- An optional child that is left out. -/
  | absent
  | leaf (content : Leaf)
  | tree (kind : Kind) (span : Option Span) (children : List Node)
  deriving Repr, Inhabited

namespace Node

/-- The children of a tree; other nodes have none. -/
def children : Node → List Node
  | tree _ _ children => children
  | _ => []

/-- The kind of a tree. -/
def kind? : Node → Option Kind
  | tree kind _ _ => some kind
  | _ => none

/-- Whether a node is a tree of the given kind. -/
def isKind (n : Node) (kind : Kind) : Bool :=
  n.kind? == some kind

/-- Whether a node is a leaf. -/
def isLeaf : Node → Bool
  | leaf _ => true
  | _ => false

/-- Whether a child is left out. -/
def isAbsent : Node → Bool
  | absent => true
  | _ => false

/-- A leaf without a place. -/
def word (role : Role) (text : String) : Node :=
  leaf { role, text }

/-- A tree without a place. -/
def made (kind : Kind) (children : List Node) : Node :=
  tree kind none children

/-- A symbol without a place. -/
def symbol (name : String) : Node :=
  made .sym [word (.token .ident) name]

/-- The start and end of the source that a node covers. -/
def extent? : Node → Option (Nat × Nat)
  | absent => none
  | leaf content => do return (← content.place.start, ← content.place.stop)
  | tree _ span _ => span.map fun s => (s.start, s.stop)

/-- The line on which a node starts. -/
def line? : Node → Option Nat
  | absent => none
  | leaf content => content.place.line
  | tree _ span _ => span.map (·.line)

/-- The text between the quotes of a quoted text. -/
def unquote (text : List Char) : List Char :=
  (text.drop 1).take (text.length - 2)

/-- Whether a text holds code. -/
def interpolates : List Char → Bool
  | '#' :: '\x7b' :: _ => true
  | _ :: rest => interpolates rest
  | [] => false

/-- The name of a symbol, bare or quoted; a quoted one with code in it has none. -/
def symbolName? : Node → Option String
  | tree .sym _ (leaf content :: _) =>
    if content.role = .token .string then
      let inner := unquote content.text.toList
      if interpolates inner then none else some (.ofList inner)
    else some content.text
  | _ => none

mutual

/-- All trees of a node, each before the trees in it, from left to right. -/
def subtrees : Node → List Node
  | tree kind span children => tree kind span children :: subtreesAll children
  | _ => []

/-- The trees of several nodes, one node after the other. -/
def subtreesAll : List Node → List Node
  | [] => []
  | n :: others => subtrees n ++ subtreesAll others

end

end Node

end XhrKeywords.Syntax
