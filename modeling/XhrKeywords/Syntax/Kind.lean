import XhrKeywords.Token.Kind

/-!
# Kinds of syntax nodes

The constructions of Ruby that get a node of their own, with the name of each. Trees made by hand
may carry any other name.
-/

namespace XhrKeywords.Syntax

/-- What a tree stands for. -/
inductive Kind
  -- statement lists
  | program | body | bodyStmt | excList | resBody | elseClause | ensureClause
  -- modifiers and operators
  | ifMod | whileMod | rescueMod | binop | unop | asgn | masgn | mlhs | ternary | range | defined
  -- literals
  | int | float | str | dstr | xstr | regexp | words | sym | array | hash | pair | kwsplat
  | nilLit | trueLit | falseLit | selfRef | lambda
  -- names
  | lvar | ivar | gvar | cvar | const | cbase
  -- calls
  | call | csend | index | splat | blockPass | block | paren | yieldCall | superCall | zsuper
  -- parameters
  | args | arg | optArg | restArg | kwArg | kwOptArg | kwRestArg | blockArg | shadowArg
  -- jumps
  | returnStmt | breakStmt | nextStmt | redoStmt | retryStmt
  -- definitions
  | aliasStmt | defStmt | classStmt | sclass | moduleStmt
  -- control flow
  | ifStmt | whileStmt | forStmt | caseStmt | whenClause | kwBegin
  -- anything else
  | other (name : String)
  deriving DecidableEq, Repr, Inhabited

namespace Kind

/-- The name of a kind. -/
def name : Kind → String
  | program => "program" | body => "body" | bodyStmt => "bodystmt" | excList => "exc_list"
  | resBody => "resbody" | elseClause => "else" | ensureClause => "ensure"
  | ifMod => "if_mod" | whileMod => "while_mod" | rescueMod => "rescue_mod"
  | binop => "binop" | unop => "unop" | asgn => "asgn" | masgn => "masgn" | mlhs => "mlhs"
  | ternary => "ternary" | range => "range" | defined => "defined"
  | int => "int" | float => "float" | str => "str" | dstr => "dstr" | xstr => "xstr"
  | regexp => "regexp" | words => "words" | sym => "sym" | array => "array" | hash => "hash"
  | pair => "pair" | kwsplat => "kwsplat" | nilLit => "nil" | trueLit => "true"
  | falseLit => "false" | selfRef => "self" | lambda => "lambda"
  | lvar => "lvar" | ivar => "ivar" | gvar => "gvar" | cvar => "cvar" | const => "const"
  | cbase => "cbase"
  | call => "call" | csend => "csend" | index => "index" | splat => "splat"
  | blockPass => "block_pass" | block => "block" | paren => "paren" | yieldCall => "yield"
  | superCall => "super" | zsuper => "zsuper"
  | args => "args" | arg => "arg" | optArg => "optarg" | restArg => "restarg"
  | kwArg => "kwarg" | kwOptArg => "kwoptarg" | kwRestArg => "kwrestarg"
  | blockArg => "blockarg" | shadowArg => "shadowarg"
  | returnStmt => "return" | breakStmt => "break" | nextStmt => "next" | redoStmt => "redo"
  | retryStmt => "retry"
  | aliasStmt => "alias" | defStmt => "def" | classStmt => "class" | sclass => "sclass"
  | moduleStmt => "module"
  | ifStmt => "if" | whileStmt => "while" | forStmt => "for" | caseStmt => "case"
  | whenClause => "when" | kwBegin => "kwbegin"
  | other name => name

/-- The kinds with a name of their own. -/
def named : List Kind :=
  [program, body, bodyStmt, excList, resBody, elseClause, ensureClause,
    ifMod, whileMod, rescueMod, binop, unop, asgn, masgn, mlhs, ternary, range, defined,
    int, float, str, dstr, xstr, regexp, words, sym, array, hash, pair, kwsplat,
    nilLit, trueLit, falseLit, selfRef, lambda,
    lvar, ivar, gvar, cvar, const, cbase,
    call, csend, index, splat, blockPass, block, paren, yieldCall, superCall, zsuper,
    args, arg, optArg, restArg, kwArg, kwOptArg, kwRestArg, blockArg, shadowArg,
    returnStmt, breakStmt, nextStmt, redoStmt, retryStmt,
    aliasStmt, defStmt, classStmt, sclass, moduleStmt,
    ifStmt, whileStmt, forStmt, caseStmt, whenClause, kwBegin]

/-- The kind with the given name. -/
def ofName (text : String) : Kind :=
  (named.find? fun k => k.name == text).getD (other text)

/-- The kinds whose children are whole statements. -/
def isStatementList : Kind → Bool
  | program | body => true
  | _ => false

end Kind

/-- What a leaf stands for in its tree. -/
inductive Role
  /-- A literal or a name. -/
  | token (kind : Token.Kind)
  /-- The operator of an operation or an assignment. -/
  | operator
  /-- The keyword of a condition or a loop. -/
  | keyword
  /-- The delimiter of a block. -/
  | style
  | other (name : String)
  deriving DecidableEq, Repr, Inhabited

namespace Role

/-- The name of a role. -/
def name : Role → String
  | token kind => kind.name
  | operator => "OP"
  | keyword => "KEYWORD"
  | style => "STYLE"
  | other name => name

/-- The role with the given name. -/
def ofName (text : String) : Role :=
  match text with
  | "OP" => operator
  | "KEYWORD" => keyword
  | "STYLE" => style
  | _ =>
    match Token.Kind.ofName? text with
    | some kind => token kind
    | none => other text

end Role

end XhrKeywords.Syntax
