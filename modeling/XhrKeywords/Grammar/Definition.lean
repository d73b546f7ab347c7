import XhrKeywords.Grammar.Body
import XhrKeywords.Grammar.Parameter

/-!
# Definitions

Methods, classes and modules. Their bodies start without local variables.
-/

namespace XhrKeywords.Grammar

open Syntax hiding Kind
open Token (Kind)

/-- The object that a name in front of a dot stands for. -/
def singletonOwner (t : Token) : Parser Node := do
  if t.text == "self" then bare .selfRef
  else if t.kind == .const then
    let name ← advance
    build .const [.absent, leafOf name] (ofToken name)
  else single .lvar

/-- The object of a singleton method, in front of a dot. -/
def singleton : Parser Node := do
  let t ← current
  let next ← second
  if (t.kind == .ident || t.kind == .const) && next.kind == .dot then
    let owner ← singletonOwner t
    let _ ← advance
    return owner
  else return .absent

/-- The name of a method; an equals sign in front of a parenthesis belongs to it. -/
def plainName : Parser Node := do
  let t ← advance
  let next ← second
  if (← seesGlued .assign) && next.kind == .lpar then
    let _ ← advance
    return leafWith (.token .ident) (t.text ++ "=") t
  else return nameLeaf t

/-- The name of the method behind an index or an assignment to it. -/
def indexName : Parser Node := do
  let t ← advance
  let _ ← expect .rbrack
  if ← seesGlued .assign then
    let _ ← advance
    return leafWith (.token .ident) "[]=" t
  else return leafWith (.token .ident) "[]" t

/-- The name of a method. -/
def definedName : Parser Node := do
  let t ← current
  match t.kind with
  | .ident | .const => plainName
  | .lbrack => indexName
  | kind => if kind.isOperatorMethod then takeName else fail .missingMethodName

/-- The parameters of a method, with or without parentheses. -/
def definedParameters (g : Rules) : Parser Node := do
  let start ← current
  if ← accept .lpar then
    let found ← parameters g [.rpar] false
    skipNewlines
    let _ ← expectCloser .rpar ")" "parameter list"
    build .args found (ofToken start)
  else if ← seesAny [.newline, .semi, .assign] then build .args [] (ofToken start)
  else
    let found ← parameters g [.newline, .semi] false
    build .args found (ofToken start)

/-- The body of a method: a statement behind an equals sign, or a body up to `end`. -/
def definedBody (g : Rules) : Parser Node := bracketed do
  if ← accept .assign then
    skipNewlines
    let only ← g.read .statement
    build .body [only] (ofNode only)
  else closedBody g "def"

/-- The parameters and the body of a method. -/
def definedParts (g : Rules) : Parser (Node × Node) := do
  let args ← definedParameters g
  let inner ← definedBody g
  return (args, inner)

/-- The definition of a method. -/
def definition (g : Rules) : Parser Node := do
  let start ← expect .kwDef
  let owner ← singleton
  let name ← definedName
  let (args, inner) ← inScope false (definedParts g)
  build .defStmt [owner, name, args, inner] (ofToken start)

/-- One more constant behind a double colon, or the end of the path. -/
def pathRound (start : Token) (scope : Node) : Parser (Round Node Node) := do
  if ← accept .colon2 then
    let name ← expect .const
    again (build .const [scope, leafOf name] (ofToken start))
  else return .done scope

/-- The outermost namespace, if a path starts there. -/
def pathBase (start : Token) : Parser Node := do
  if ← accept .colon2 then build .cbase [] (ofToken start) else return .absent

/-- The name of a class or module: constants with double colons between them. -/
def constantPath (g : Rules) : Parser Node := do
  let start ← current
  let base ← pathBase start
  let name ← expectOr .const .missingConstantName
  let first ← build .const [base, leafOf name] (ofToken start)
  g.loop (pathRound start) first

/-- The body of a class or module up to `end`. -/
def enclosedBody (g : Rules) (construction : String) : Parser Node :=
  inScope false (bracketedBody g construction)

/-- The class that another one is derived from, if it is named. -/
def superclass (g : Rules) : Parser Node := do
  if ← accept .lt then g.read .choice else return .absent

/-- The definition of a class, or of methods on a single object. -/
def classDefinition (g : Rules) : Parser Node := do
  let start ← expect .kwClass
  if ← accept .lshift then
    let target ← g.read .sequence
    let inner ← enclosedBody g "class << self"
    build .sclass [target, inner] (ofToken start)
  else
    let path ← constantPath g
    let parent ← superclass g
    let inner ← enclosedBody g "class"
    build .classStmt [path, parent, inner] (ofToken start)

/-- The definition of a module. -/
def moduleDefinition (g : Rules) : Parser Node := do
  let start ← expect .kwModule
  let path ← constantPath g
  let inner ← enclosedBody g "module"
  build .moduleStmt [path, inner] (ofToken start)

end XhrKeywords.Grammar
