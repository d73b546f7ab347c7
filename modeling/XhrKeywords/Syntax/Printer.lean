import XhrKeywords.Syntax.Node
import XhrKeywords.Text.Quoted
import XhrKeywords.Unicode.Identifier

/-!
# Printing

Any node can be printed as Ruby. Literals keep their text. Parentheses of the source are nodes of
their own, so the printer adds none for precedence. Calls with arguments print with parentheses,
except the outermost one where command style is asked for, and a hash in the last place of an
argument list prints without braces. Constructions of several lines indent by two spaces.
-/

namespace XhrKeywords.Syntax

/-- Why a node cannot be printed. -/
inductive PrintError
  /-- Trees of this kind have no form of their own. -/
  | unprintable (kind : Kind)
  /-- A tree of this kind lacks children that its form needs. -/
  | malformed (kind : Kind)
  deriving DecidableEq, Repr

/-- The report of an error. -/
def PrintError.message : PrintError → String
  | unprintable kind => "Cannot print node kind " ++ Text.quoted kind.name
  | malformed kind => "Cannot print the children of node kind " ++ Text.quoted kind.name

namespace Printer

/-- What printing answers. -/
abbrev Result := Except PrintError String

/-- The indentation of a level; below zero there is none. -/
def indent (level : Int) : String :=
  .ofList (List.replicate (2 * level.toNat) ' ')

/-- Texts with a separator between them. -/
def joined (separator : String) (texts : List String) : String :=
  separator.intercalate texts

/-- A text that is not empty takes a line of its own. -/
def asLine (text : String) : String :=
  if text.isEmpty then "" else text ++ "\n"

/-- Removes the line feeds at the end of a text. -/
def dropFinalNewlines (text : String) : String :=
  .ofList (text.toList.reverse.dropWhile (· == '\n')).reverse

/-- Whether a name can be written in front of a colon: a word with an optional question or
exclamation mark; a line feed at its end is let pass. -/
def isLabelSafe (name : String) : Bool :=
  let text := name.toList
  let word := if text.getLast? = some '\n' then text.dropLast else text
  let bare :=
    if word.getLast? = some '?' || word.getLast? = some '!' then word.dropLast else word
  match bare with
  | [] => false
  | first :: others =>
    (Unicode.isAsciiLetter first || first == '_')
      && others.all fun c => Unicode.isAsciiLetter c || Unicode.isAsciiDigit c || c == '_'

/-- The key of a pair in front of its colon; keys that need an arrow have none. -/
def label? : Node → Option String
  | .tree .sym _ (.leaf content :: _) =>
    if content.role = .token .string || isLabelSafe content.text then
      some (content.text ++ ":")
    else none
  | _ => none

/-- The name in front of the equals sign of a setter call. -/
def setterName? (name : String) : Option String :=
  let text := name.toList
  let bare := String.ofList text.dropLast
  if text.getLast? = some '=' && Unicode.isIdentifier bare then some bare else none

/-- The name that a call assigns to: that of a setter with a receiver and one argument. -/
def assignedName? (receiver : Node) (name : String) (arguments : List Node) : Option String :=
  if receiver.isAbsent || arguments.length != 1 then none else setterName? name

/-- Whether an array of a source was written without brackets: it starts with its first element. -/
def isBareArray (array : Node) : Bool :=
  match array.extent?, array.children.head?.bind Node.extent? with
  | some whole, some first => whole.1 == first.1
  | _, _ => false

/-- The text of the first child, which has to be a leaf. -/
def headText (kind : Kind) : List Node → Result
  | .leaf content :: _ => .ok content.text
  | _ => .error (.malformed kind)

/-- The text of a symbol without its colon. -/
def symbolText? : Node → Option String
  | .tree .sym _ (.leaf content :: _) => some content.text
  | _ => none

/-- A parameter list: the parameters and, behind a semicolon, the block-local variables. -/
def parameterText (plain shadow : List String) : String :=
  joined ", " plain ++ (if shadow.isEmpty then "" else "; " ++ joined ", " shadow)

/-- The name of a parameter; it may be left out. -/
def parameterName : List Node → String
  | .leaf content :: _ => content.text
  | _ => ""

/-- Pairs in braces. -/
def braced (pairs : String) : String :=
  "\x7b " ++ pairs ++ " \x7d"

/-- A heading with a body below it and an end in line with the heading. -/
def enclosed (level : Int) (heading body closer : String) : String :=
  heading ++ "\n" ++ asLine body ++ indent level ++ closer

/-- A keyword with a condition and a body below it. -/
def branch (keyword condition body : String) : String :=
  keyword ++ " " ++ condition ++ "\n" ++ asLine body

mutual

/-- The text of a node at a level of indentation. -/
def print (level : Int) : Node → Result
  | .absent => .ok ""
  | .leaf content => .ok content.text
  | .tree kind _ children =>
    match kind with
    | .int | .float | .str | .xstr | .regexp | .words | .ivar | .gvar | .cvar | .lvar =>
      headText kind children
    | .nilLit | .trueLit | .falseLit | .selfRef | .redoStmt | .retryStmt => .ok kind.name
    | .zsuper => .ok "super"
    | .cbase => .ok ""
    | .sym => return ":" ++ (← headText kind children)
    | .dstr => return joined " " (← printAll level children)
    | .splat => return "*" ++ (← printFirst level children)
    | .blockPass => return "&" ++ (← printFirst level children)
    | .kwsplat => return "**" ++ (← printSingle kind level children)
    | .defined => return "defined?(" ++ (← printSingle kind level children) ++ ")"
    | .paren => return "(" ++ joined "; " (← printAll level children) ++ ")"
    | .array => return "[" ++ joined ", " (← printAll level children) ++ "]"
    | .mlhs => return "(" ++ joined ", " (← printAll level children) ++ ")"
    | .returnStmt | .breakStmt | .nextStmt =>
      if children.isEmpty then .ok kind.name
      else return kind.name ++ " " ++ joined ", " (← printArguments level children)
    | .yieldCall | .superCall =>
      if children.isEmpty then .ok kind.name
      else return kind.name ++ "(" ++ joined ", " (← printArguments level children) ++ ")"
    | .aliasStmt => printAlias children
    | .program | .body => return joined "\n" (← printStatements level children)
    | .call => printCall "." true level children
    | .csend => printCall "&." true level children
    | .index => printIndex level children
    | .block => printBlock level children
    | .lambda => printLambda level children
    | .hash =>
      if children.isEmpty then .ok "\x7b\x7d"
      else return braced (joined ", " (← printAll level children))
    | .pair => printPair level children
    | .binop | .asgn => printBinary kind " " level children
    | .range => printBinary kind "" level children
    | .unop => printUnary level children
    | .masgn => printTuple level children
    | .ternary => printChoice level children
    | .const => printConstant level children
    | .ifMod | .whileMod => printModifier kind level children
    | .rescueMod => printRescue level children
    | .defStmt => printDefinition level children
    | .classStmt => printClass level children
    | .sclass => printNamed kind "class << " level children
    | .moduleStmt => printNamed kind "module " level children
    | .ifStmt => return (← printBranches none level children) ++ indent level ++ "end"
    | .whileStmt => printWhile level children
    | .forStmt => printFor level children
    | .caseStmt => printCase level children
    | .kwBegin => printBegin level children
    | .bodyStmt => return dropFinalNewlines (← printClauses (level - 1) children)
    | _ => .error (.unprintable kind)

/-- The texts of several nodes. -/
def printAll (level : Int) : List Node → Except PrintError (List String)
  | [] => .ok []
  | n :: others => return (← print level n) :: (← printAll level others)

/-- The text of the first node, if there is one. -/
def printFirst (level : Int) : List Node → Result
  | [] => .ok ""
  | n :: _ => print level n

/-- The text of the first node, which has to be there. -/
def printSingle (kind : Kind) (level : Int) : List Node → Result
  | [] => .error (.malformed kind)
  | n :: _ => print level n

/-- Statements, each indented to the level. -/
def printStatements (level : Int) : List Node → Except PrintError (List String)
  | [] => .ok []
  | n :: others =>
    return (indent level ++ (← print level n)) :: (← printStatements level others)

/-- The arguments of a call; a hash that only block arguments follow has no braces. -/
def printArguments (level : Int) : List Node → Except PrintError (List String)
  | [] => .ok []
  | .tree .hash _ (pair :: pairs) :: others => do
    let first ← print level pair
    let listed := joined ", " (first :: (← printAll level pairs))
    let text := if others.all (·.isKind .blockPass) then listed else braced listed
    return text :: (← printArguments level others)
  | n :: others => return (← print level n) :: (← printArguments level others)

/-- A call with its receiver, the dot `dot`, its name and its arguments. -/
def printCall (dot : String) (parens : Bool) (level : Int) : List Node → Result
  | receiver :: .leaf name :: arguments => do
    let object ← print level receiver
    match assignedName? receiver name.text arguments with
    | some target => return object ++ dot ++ target ++ " = " ++ (← printFirst level arguments)
    | none =>
      let head := if receiver.isAbsent then name.text else object ++ dot ++ name.text
      if arguments.isEmpty then return head
      let listed := joined ", " (← printArguments level arguments)
      return if parens then head ++ "(" ++ listed ++ ")" else head ++ " " ++ listed
  | _ => .error (.malformed .call)

/-- An element of a collection. -/
def printIndex (level : Int) : List Node → Result
  | receiver :: arguments => do
    let head ← print level receiver
    return head ++ "[" ++ joined ", " (← printArguments level arguments) ++ "]"
  | [] => .error (.malformed .index)

/-- Parameters, those before and the block-local variables among them being given. -/
def printParameters (level : Int) (plain shadow : List String) : List Node → Result
  | [] => .ok (parameterText plain shadow)
  | .tree kind _ children :: others => do
    let name := parameterName children
    match kind with
    | .arg => printParameters level (plain ++ [name]) shadow others
    | .optArg =>
      let value ← printSecond kind level children
      printParameters level (plain ++ [name ++ " = " ++ value]) shadow others
    | .restArg => printParameters level (plain ++ ["*" ++ name]) shadow others
    | .kwArg => printParameters level (plain ++ [name ++ ":"]) shadow others
    | .kwOptArg =>
      let value ← printSecond kind level children
      printParameters level (plain ++ [name ++ ": " ++ value]) shadow others
    | .kwRestArg => printParameters level (plain ++ ["**" ++ name]) shadow others
    | .blockArg => printParameters level (plain ++ ["&" ++ name]) shadow others
    | .shadowArg => printParameters level plain (shadow ++ [name]) others
    | .mlhs =>
      let inner ← printParameters level [] [] children
      printParameters level (plain ++ ["(" ++ inner ++ ")"]) shadow others
    | _ => printParameters level plain shadow others
  | _ :: _ => .error (.malformed .args)

/-- The text of the second node, which has to be there. -/
def printSecond (kind : Kind) (level : Int) : List Node → Result
  | _ :: n :: _ => print level n
  | _ => .error (.malformed kind)

/-- A parameter list between two marks; without one there is nothing. -/
def printSignature (opener closer : String) (level : Int) : Node → Result
  | .absent => .ok ""
  | .tree _ _ parameters =>
    return opener ++ (← printParameters level [] [] parameters) ++ closer
  | .leaf _ => .error (.malformed .args)

/-- The first statement of a body, for constructions of one line. -/
def printFirstStatement (level : Int) : Node → Result
  | .tree _ _ (first :: _) => print level first
  | _ => .ok ""

/-- The statements of a body, for constructions of one line. -/
def printAllStatements (level : Int) : Node → Except PrintError (List String)
  | .tree _ _ statements => printAll level statements
  | _ => .ok []

/-- A call with its block: in braces on one line when it holds one statement at most. -/
def printBlock (level : Int) : List Node → Result
  | [call, parameters, body, .leaf style] => do
    let head ← print level call
    let bars ← printSignature " |" "|" level parameters
    if style.text = "\x7b" then
      match body.children.length with
      | 0 => return head ++ " \x7b" ++ bars ++ " \x7d"
      | 1 =>
        return head ++ " \x7b" ++ bars ++ " " ++ (← printFirstStatement level body) ++ " \x7d"
      | _ => return enclosed level (head ++ " \x7b" ++ bars) (← print (level + 1) body) "\x7d"
    else return enclosed level (head ++ " do" ++ bars) (← print (level + 1) body) "end"
  | _ => .error (.malformed .block)

/-- A lambda; in braces its statements stand on one line. -/
def printLambda (level : Int) : List Node → Result
  | [parameters, body, .leaf style] => do
    let signature ← printSignature "(" ")" level parameters
    if style.text = "\x7b" then
      match ← printAllStatements level body with
      | [] => return "->" ++ signature ++ " \x7b \x7d"
      | texts => return "->" ++ signature ++ " \x7b " ++ joined "; " texts ++ " \x7d"
    else return enclosed level ("->" ++ signature ++ " do") (← print (level + 1) body) "end"
  | _ => .error (.malformed .lambda)

/-- A pair: a label where the key can be written as one, an arrow otherwise. -/
def printPair (level : Int) : List Node → Result
  | [key, value] =>
    match label? key with
    | some label => return label ++ " " ++ (← print level value)
    | none => return (← print level key) ++ " => " ++ (← print level value)
  | _ => .error (.malformed .pair)

/-- The names of an alias, without the colons of symbols. -/
def printAlias : List Node → Result
  | new :: old :: _ => do
    let first ← match symbolText? new with
      | some text => pure text
      | none => print 0 new
    let second ← match symbolText? old with
      | some text => pure text
      | none => print 0 old
    return "alias " ++ first ++ " " ++ second
  | _ => .error (.malformed .aliasStmt)

/-- Two operands around an operator with a gap on both sides. -/
def printBinary (kind : Kind) (gap : String) (level : Int) : List Node → Result
  | [left, .leaf operator, right] => do
    let before ← print level left
    return before ++ gap ++ operator.text ++ gap ++ (← print level right)
  | _ => .error (.malformed kind)

/-- An operator in front of its operand; only a word needs a space. -/
def printUnary (level : Int) : List Node → Result
  | [.leaf operator, operand] =>
    return operator.text ++ (if operator.text = "not" then " " else "") ++ (← print level operand)
  | _ => .error (.malformed .unop)

/-- A multiple assignment; values that were written without brackets print without them. -/
def printTuple (level : Int) : List Node → Result
  | [.tree _ _ targets, .tree .array span values] => do
    let left := joined ", " (← printAll level targets)
    let right := joined ", " (← printAll level values)
    if isBareArray (.tree .array span values) then return left ++ " = " ++ right
    else return left ++ " = [" ++ right ++ "]"
  | [.tree _ _ targets, value] => do
    let left := joined ", " (← printAll level targets)
    return left ++ " = " ++ (← print level value)
  | _ => .error (.malformed .masgn)

/-- A choice by question mark and colon. -/
def printChoice (level : Int) : List Node → Result
  | [test, first, other] => do
    let before ← print level test
    let chosen ← print level first
    return before ++ " ? " ++ chosen ++ " : " ++ (← print level other)
  | _ => .error (.malformed .ternary)

/-- A constant behind its namespace. -/
def printConstant (level : Int) : List Node → Result
  | [.absent, .leaf name] => .ok name.text
  | [scope, .leaf name] => return (← print level scope) ++ "::" ++ name.text
  | _ => .error (.malformed .const)

/-- A statement with a condition behind it. -/
def printModifier (kind : Kind) (level : Int) : List Node → Result
  | [.leaf keyword, statement, test] => do
    let before ← print level statement
    return before ++ " " ++ keyword.text ++ " " ++ (← print level test)
  | _ => .error (.malformed kind)

/-- A statement with a value for the case of an exception. -/
def printRescue (level : Int) : List Node → Result
  | [statement, fallback] => do
    let before ← print level statement
    return before ++ " rescue " ++ (← print level fallback)
  | _ => .error (.malformed .rescueMod)

/-- The definition of a method. -/
def printDefinition (level : Int) : List Node → Result
  | [owner, .leaf name, .tree _ _ parameters, body] => do
    let object ← print level owner
    let listed ← printParameters level [] [] parameters
    let head := "def " ++ (if owner.isAbsent then "" else object ++ ".") ++ name.text
      ++ (if parameters.isEmpty then "" else "(" ++ listed ++ ")")
    return enclosed level head (← print (level + 1) body) "end"
  | _ => .error (.malformed .defStmt)

/-- The definition of a class. -/
def printClass (level : Int) : List Node → Result
  | [path, parent, body] => do
    let name ← print level path
    let above ← print level parent
    let head := "class " ++ name ++ (if parent.isAbsent then "" else " < " ++ above)
    return enclosed level head (← print (level + 1) body) "end"
  | _ => .error (.malformed .classStmt)

/-- A body under a heading. -/
def printNamed (kind : Kind) (heading : String) (level : Int) : List Node → Result
  | [name, body] => do
    let head ← print level name
    return enclosed level (heading ++ head) (← print (level + 1) body) "end"
  | _ => .error (.malformed kind)

/-- The branches of a condition, with another keyword than its own if one is given. -/
def printBranches (keyword : Option String) (level : Int) : List Node → Result
  | [.leaf own, test, body, .tree .ifStmt _ children] => do
    let condition ← print level test
    let inner ← print (level + 1) body
    let others ← printBranches (some "elsif") level children
    return branch (keyword.getD own.text) condition inner ++ indent level ++ others
  | [.leaf own, test, body, otherwise] => do
    let condition ← print level test
    let inner ← print (level + 1) body
    let other ← print (level + 1) otherwise
    return branch (keyword.getD own.text) condition inner
      ++ (if otherwise.isAbsent then "" else indent level ++ "else\n" ++ asLine other)
  | _ => .error (.malformed .ifStmt)

/-- A loop with a condition. -/
def printWhile (level : Int) : List Node → Result
  | [.leaf keyword, test, body] => do
    let condition ← print level test
    return branch keyword.text condition (← print (level + 1) body) ++ indent level ++ "end"
  | _ => .error (.malformed .whileStmt)

/-- A loop over a collection; several variables print without parentheses. -/
def printFor (level : Int) : List Node → Result
  | [.tree .mlhs _ targets, collection, body] => do
    let names := joined ", " (← printAll level targets)
    let heading := "for " ++ names ++ " in " ++ (← print level collection)
    return enclosed level heading (← print (level + 1) body) "end"
  | [bound, collection, body] => do
    let name ← print level bound
    let heading := "for " ++ name ++ " in " ++ (← print level collection)
    return enclosed level heading (← print (level + 1) body) "end"
  | _ => .error (.malformed .forStmt)

/-- A choice between cases. -/
def printCase (level : Int) : List Node → Result
  | subject :: clause :: clauses => do
    let value ← print level subject
    let head := "case" ++ (if subject.isAbsent then "" else " " ++ value) ++ "\n"
    return head ++ (← printCases level (clause :: clauses)) ++ indent level ++ "end"
  | _ => .error (.malformed .caseStmt)

/-- The clauses of a choice; the last child is the body for all other cases. -/
def printCases (level : Int) : List Node → Result
  | [] => .error (.malformed .caseStmt)
  | [.absent] => .ok ""
  | [otherwise] => return indent level ++ "else\n" ++ asLine (← print (level + 1) otherwise)
  | .tree _ _ children :: others => do
    let clause ← printWhen level [] children
    return clause ++ (← printCases level others)
  | _ :: _ => .error (.malformed .whenClause)

/-- A clause: its values, those before being given, and its body as the last child. -/
def printWhen (level : Int) (values : List String) : List Node → Result
  | [] => .error (.malformed .whenClause)
  | [body] =>
    return indent level ++ "when " ++ joined ", " values ++ "\n" ++ asLine (← print (level + 1) body)
  | value :: others => do
    let text ← print level value
    printWhen level (values ++ [text]) others

/-- A body between `begin` and `end`. -/
def printBegin (level : Int) : List Node → Result
  | .tree .bodyStmt _ children :: _ =>
    return "begin\n" ++ (← printClauses level children) ++ indent level ++ "end"
  | body :: _ => return "begin\n" ++ asLine (← print (level + 1) body) ++ indent level ++ "end"
  | [] => .error (.malformed .kwBegin)

/-- A body, one level deeper than the keywords of its clauses. -/
def printClauses (level : Int) : List Node → Result
  | body :: clauses => do
    let main ← print (level + 1) body
    return asLine main ++ (← printClauseList level clauses)
  | [] => .error (.malformed .bodyStmt)

/-- The clauses of a body. -/
def printClauseList (level : Int) : List Node → Result
  | [] => .ok ""
  | .tree kind _ children :: others => do
    let clause ←
      match kind with
      | .resBody => printRescueClause level children
      | .elseClause => printBodyClause "else" kind level children
      | .ensureClause => printBodyClause "ensure" kind level children
      | _ => pure ""
    return clause ++ (← printClauseList level others)
  | _ :: _ => .error (.malformed .bodyStmt)

/-- A `rescue` clause. -/
def printRescueClause (level : Int) : List Node → Result
  | [.tree _ _ classes, bound, body] => do
    let listed ← printAll level classes
    let target ← print level bound
    let head := "rescue" ++ (if classes.isEmpty then "" else " " ++ joined ", " listed)
      ++ (if bound.isAbsent then "" else " => " ++ target)
    return indent level ++ head ++ "\n" ++ asLine (← print (level + 1) body)
  | _ => .error (.malformed .resBody)

/-- A clause of one body behind its keyword. -/
def printBodyClause (keyword : String) (kind : Kind) (level : Int) : List Node → Result
  | body :: _ => return indent level ++ keyword ++ "\n" ++ asLine (← print (level + 1) body)
  | [] => .error (.malformed kind)

end

end Printer

/-- The text of a node; in command style an outermost call has no parentheses. -/
def Node.print (n : Node) (command : Bool := false) : Except PrintError String :=
  match command, n with
  | true, .tree .call _ children => Printer.printCall "." false 0 children
  | true, .tree .csend _ children => Printer.printCall "&." false 0 children
  | _, n => Printer.print 0 n

end XhrKeywords.Syntax
