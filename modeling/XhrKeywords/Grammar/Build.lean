import XhrKeywords.Grammar.State
import XhrKeywords.Syntax.Node

/-!
# Building nodes

A tree starts where its first token or node starts and ends with the last token taken, unless it
is given the node it ends with. An empty tree has an empty span at its start.
-/

namespace XhrKeywords

open Syntax

/-- The stretch of source of a token. -/
def Token.span (t : Token) : Span :=
  ⟨t.line, t.column, t.start, t.endLine, t.endColumn, t.stop⟩

namespace Grammar

/-- Where a node starts. -/
structure Mark where
  line : Nat
  column : Nat
  start : Nat
  deriving DecidableEq, Repr

/-- A node may start with a token. -/
def ofToken (t : Token) : Mark := ⟨t.line, t.column, t.start⟩

/-- The span of a tree; what has none lies at the start of everything. -/
def spanOf : Node → Span
  | .tree _ (some span) _ => span
  | _ => default

/-- A node may start with another node. -/
def ofNode (n : Node) : Mark :=
  let span := spanOf n
  ⟨span.line, span.column, span.start⟩

/-- The span from a mark to an end; an end in front of the mark is moved to it. -/
def Mark.upTo (m : Mark) (endLine endColumn stop : Nat) : Span :=
  if stop < m.start then ⟨m.line, m.column, m.start, m.line, m.column, m.start⟩
  else ⟨m.line, m.column, m.start, endLine, endColumn, stop⟩

/-- The tree from a mark to the last token taken. -/
def build (kind : Syntax.Kind) (children : List Node) (start : Mark) : Parser Node := do
  let last ← previous
  return .tree kind (some (start.upTo last.endLine last.endColumn last.stop)) children

/-- The tree from one node to another. -/
def enclose (kind : Syntax.Kind) (children : List Node) (first last : Node) : Node :=
  let behind := spanOf last
  .tree kind (some ((ofNode first).upTo behind.endLine behind.endColumn behind.stop)) children

/-- A tree without children or extent in front of a token. -/
def hollow (kind : Syntax.Kind) (t : Token) : Node :=
  .tree kind (some ⟨t.line, t.column, t.start, t.line, t.column, t.start⟩) []

/-- The leaf of a token in a role with a text. -/
def leafWith (role : Role) (text : String) (t : Token) : Node :=
  .leaf { role, text, place := t.span.place }

/-- The leaf of a token in a role. -/
def leafAs (role : Role) (t : Token) : Node := leafWith role t.text t

/-- The leaf of a token. -/
def leafOf (t : Token) : Node := leafAs (.token t.kind) t

/-- The leaf of a token that is read as a name. -/
def nameLeaf (t : Token) : Node := leafAs (.token .ident) t

/-- Takes the next token as a name. -/
def takeName : Parser Node := do return nameLeaf (← advance)

/-- Takes the next token as a tree with one leaf. -/
def single (kind : Syntax.Kind) : Parser Node := do
  let t ← advance
  build kind [leafOf t] (ofToken t)

/-- Takes the next token as a tree with one leaf in a role. -/
def singleAs (kind : Syntax.Kind) (role : Role) : Parser Node := do
  let t ← advance
  build kind [leafAs role t] (ofToken t)

/-- Takes the next token as a tree without leaves. -/
def bare (kind : Syntax.Kind) : Parser Node := do
  let t ← advance
  build kind [] (ofToken t)

/-- A span that ends one column earlier. -/
def shorten (span : Span) : Span :=
  { span with endColumn := span.endColumn - 1, stop := span.stop - 1 }

/-- Gives a tree another span. -/
def mapSpan (change : Span → Span) : Node → Node
  | .tree kind span children => .tree kind (span.map change) children
  | other => other

end Grammar

end XhrKeywords
