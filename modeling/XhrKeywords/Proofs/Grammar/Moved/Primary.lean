import XhrKeywords.Grammar.Primary
import XhrKeywords.Proofs.Grammar.Moved.Body

/-!
# Calls, definitions and primaries on moved tokens

A call starts at its receiver or at its name, a definition and a control structure at their
keyword. These marks are taken before the parts are read, so the node around them starts at a token
of the source.
-/

namespace XhrKeywords.Grammar

open Syntax hiding Kind
open Token (Kind)

variable {d : Nat} {taken : Bool} {g : Rules}

/-- A call in command style starts where its head starts, which has been moved. -/
theorem moves_command (hg : g.Moving d) (kind : Syntax.Kind) (head : List Node) (start : Mark) :
    Moves d true true IsPlaced (command g kind head start)
      (command g kind (moved d head) (moved d start)) := by
  refine (moves_arguments hg none).keepingDo.bind fun found _ =>
    (moves_build kind (moved_append head found).symm rfl).bind fun node hnode => ?_
  exact moves_doBinds.bind fun _ _ => (moves_sees .kwDo).bind fun _ _ =>
    .ite Iff.rfl (moves_block hg hnode) (moves_pure hnode rfl)

/-- Arguments in parentheses that touch the name, or else in command style. -/
theorem moves_callArguments (hg : g.Moving d) (kind : Syntax.Kind) (head : List Node)
    (start : Mark) :
    Moves d true true IsPlaced (callArguments g kind head start)
      (callArguments g kind (moved d head) (moved d start)) := by
  refine (moves_seesGlued .lpar).bind fun _ _ => .ite Iff.rfl ?_ ?_
  · exact (moves_delimitedArguments hg .rpar).bind fun found _ =>
      moves_build kind (moved_append head found).symm rfl
  · exact moves_commandStart.bind fun _ _ =>
      .ite Iff.rfl (moves_command hg kind head start) (moves_build kind rfl rfl)

/-- The name behind a dot. -/
theorem moves_methodName : Moves d true true Anything methodName methodName := by
  refine moves_current.bind fun t _ => ?_
  rw [kind_moved]
  split
  · exact moves_pure trivial rfl
  · exact moves_takeName
  · exact moves_takeName
  · exact moves_fail _
  · exact .ite Iff.rfl moves_takeName (moves_fail _)

/-- A call on a receiver starts where the receiver starts. -/
theorem moves_methodCall (hg : g.Moving d) {receiver : Node} (hreceiver : IsPlaced receiver)
    (operator : Kind) :
    Moves d true true IsPlaced (methodCall g receiver operator)
      (methodCall g (moved d receiver) operator) := by
  refine moves_methodName.bind fun name _ => ?_
  rw [ofNode_moved hreceiver]
  exact moves_callArguments hg _ [receiver, name] _

/-- A bare name is a variable or a call, by the names declared so far. -/
theorem moves_identifier (hg : g.Moving d) :
    Moves d taken true IsPlaced (identifier g) (identifier g) := by
  refine moves_advance.bind fun t _ => (moves_isLocal t.text).bind fun known _ =>
    (moves_seesGlued .lpar).bind fun _ _ => .ite Iff.rfl ?_ ?_
  · exact moves_build .lvar rfl rfl
  · exact moves_callArguments hg .call [.absent, leafOf t] (ofToken t)

/-- The statements of a branch, up to the keyword of the next one. -/
theorem moves_branch (hg : g.Moving d) (stops : List Kind) :
    Moves d true true IsPlaced (branch g stops) (branch g stops) :=
  (moves_body hg stops).bracketed

/-- The statements behind `else`, if there is one. -/
theorem moves_otherwiseBranch (hg : g.Moving d) :
    Moves d true true Anything (otherwiseBranch g) (otherwiseBranch g) :=
  (moves_accept .kwElse).bind fun _ _ =>
    .ite Iff.rfl (moves_branch hg _).anything (moves_pure trivial rfl)

/-- What follows a branch: an `elsif`, an `else` or nothing. -/
theorem moves_nextBranch (hg : g.Moving d) (keyword : Token) :
    Moves d true true Anything (nextBranch g keyword) (nextBranch g (moved d keyword)) :=
  (moves_sees .kwElsif).bind fun _ _ => .ite Iff.rfl
    (moves_advance.bind fun next _ => (hg (.conditional next)).anything)
    (moves_otherwiseBranch hg)

/-- A condition with its test and branches starts at its keyword. -/
theorem moves_conditional (hg : g.Moving d) {test : Parser Node}
    (htest : Moves d taken true IsPlaced test test) (keyword : Token) :
    Moves d taken true IsPlaced (conditional g test keyword)
      (conditional g test (moved d keyword)) :=
  htest.bracketed.bind fun _ _ => moves_separator.bind fun _ _ => (moves_branch hg _).bind
    fun _ _ => (moves_nextBranch hg keyword).bind fun _ _ => moves_build .ifStmt rfl rfl

/-- `if` and `unless` differ in the order of their branches only. -/
theorem moves_condition (hg : g.Moving d) :
    Moves d taken true IsPlaced (condition g) (condition g) := by
  refine moves_advance.bind fun keyword _ => (moves_conditional hg (hg .sequence) keyword).bind
    fun node hnode => (moves_expectEnd _).bind fun closer _ => ?_
  obtain ⟨kind, span, children, rfl⟩ := hnode
  exact moves_pure (isPlaced_tree ..) rfl

/-- The `do` of a loop may be left out. -/
theorem moves_loopOpener : Moves d true true Anything loopOpener loopOpener :=
  (moves_accept .kwDo).bind fun _ _ => .ite Iff.rfl (moves_pure trivial rfl) <|
    (moves_seesClass _).bind fun _ _ => .ite Iff.rfl (moves_pure trivial rfl) (moves_fail _)

/-- The statements of a loop up to its `end`. -/
theorem moves_loopBody (hg : g.Moving d) (construction : String) :
    Moves d true true IsPlaced (loopBody g construction) (loopBody g construction) :=
  moves_loopOpener.bind fun _ _ => (moves_branch hg _).bind fun _ hn =>
    (moves_expectEnd _).bind fun _ _ => moves_pure hn rfl

/-- A `while` or `until` loop starts at its keyword. -/
theorem moves_whileLoop (hg : g.Moving d) :
    Moves d taken true IsPlaced (whileLoop g) (whileLoop g) :=
  moves_advance.bind fun keyword _ => (hg .sequence).keepingDo.bind fun _ _ =>
    (moves_loopBody hg keyword.text).bind fun _ _ => moves_build .whileStmt rfl rfl

/-- A variable of a `for` loop is declared as it is read. -/
theorem moves_loopVariable : Moves d taken true IsPlaced loopVariable loopVariable :=
  (moves_expectOr .ident _).bind fun name _ => (moves_declare name.text).bind fun _ _ =>
    moves_build .lvar rfl rfl

/-- One round of the variables of a `for` loop. -/
theorem moves_loopVariableRound {found : List Node} (hfound : ArePlaced found) :
    Moves d true true (Rounded ArePlaced ArePlaced) (loopVariableRound found)
      (loopVariableRound (moved d found)) :=
  moves_loopVariable.bind fun next hnext =>
    moves_commaRound (hfound.concat hnext) (moved_append found [next]).symm

/-- Several variables are put under one node, which starts at the first of them. -/
theorem moves_loopTarget (start : Token) (targets : List Node) :
    Moves d true true Anything (loopTarget start targets)
      (loopTarget (moved d start) (moved d targets)) := by
  match targets with
  | [only] => exact moves_pure trivial rfl
  | [] | _ :: _ :: _ => exact (moves_build .mlhs rfl rfl).anything

/-- A `for` loop: its variables, what it goes through and its body. -/
theorem moves_forLoop (hg : g.Moving d) : Moves d taken true IsPlaced (forLoop g) (forLoop g) := by
  refine (moves_expect .kwFor).bind fun start _ => ?_
  refine (moves_rounds g.limit (moves_loopVariableRound arePlaced_nil)
    fun _ => moves_loopVariableRound).bind fun targets _ => ?_
  refine (moves_loopTarget start targets).bind fun bound _ => ?_
  exact (moves_expectOr .kwIn _).bind fun _ _ => (hg .sequence).keepingDo.bind fun _ _ =>
    (moves_loopBody hg _).bind fun _ _ => moves_build .forStmt rfl rfl

/-- A `when` with its values and statements. -/
theorem moves_whenClause (hg : g.Moving d) :
    Moves d taken true IsPlaced (whenClause g) (whenClause g) := by
  refine moves_advance.bind fun keyword _ =>
    (moves_elements fun _ => moves_splatOr fun _ => hg .choice).bind fun values _ =>
      moves_separator.bind fun _ _ => (moves_branch hg _).bind fun inner _ =>
        moves_build .whenClause ?_ rfl
  exact (moved_append values [inner]).symm

/-- One round of the `when` clauses. -/
theorem moves_whenRound (hg : g.Moving d) {found : List Node} (hfound : ArePlaced found) :
    Moves d true true (Rounded ArePlaced ArePlaced) (whenRound g found)
      (whenRound g (moved d found)) :=
  (moves_sees .kwWhen).bind fun _ _ => .ite Iff.rfl
    ((moves_whenClause hg).againWith hfound) (moves_pure hfound rfl)

/-- The first `when` must be there, the others may. -/
theorem moves_whenClauses (hg : g.Moving d) :
    Moves d true true Anything (whenClauses g) (whenClauses g) := by
  refine (moves_rounds g.limit (moves_whenRound hg arePlaced_nil)
    fun _ => moves_whenRound hg).bind fun clauses _ => ?_
  refine (moves_sees .kwIn).bind fun _ _ => .ite Iff.rfl (moves_fail _) ?_
  refine .ite ?_ (moves_fail _) (moves_pure trivial rfl)
  cases clauses <;> exact Iff.rfl

/-- The value a `case` looks at may be left out. -/
theorem moves_caseSubject (hg : g.Moving d) :
    Moves d true true Anything (caseSubject g) (caseSubject g) :=
  (moves_seesClass _).bind fun _ _ =>
    .ite Iff.rfl (moves_pure trivial rfl) (hg .sequence).anything

/-- A `case` starts at its keyword and ends at its `end`. -/
theorem moves_caseChoice (hg : g.Moving d) :
    Moves d taken true IsPlaced (caseChoice g) (caseChoice g) := by
  refine (moves_expect .kwCase).bind fun start _ => (moves_caseSubject hg).bind fun subject _ =>
    moves_skipSeparators.bind fun _ _ => (moves_whenClauses hg).bind fun clauses _ => ?_
  refine (moves_otherwiseBranch hg).bind fun otherwise _ => (moves_expectEnd _).bind fun _ _ =>
    moves_build .caseStmt ?_ rfl
  rw [moved_append, moved_cons]
  rfl

/-- The owner of a singleton method is `self` or a name. -/
theorem moves_singletonOwner (t : Token) :
    Moves d true true Anything (singletonOwner t) (singletonOwner (moved d t)) := by
  refine .ite Iff.rfl (moves_bare .selfRef).anything (.ite Iff.rfl ?_ (moves_single .lvar).anything)
  exact moves_advance.bind fun _ _ => (moves_build .const rfl rfl).anything

/-- The owner and its dot in front of the name of a method. -/
theorem moves_singleton : Moves d true true Anything singleton singleton :=
  moves_current.bind fun t _ => moves_second.bind fun _ _ => .ite Iff.rfl
    ((moves_singletonOwner t).bind fun _ _ => moves_advance.bind fun _ _ => moves_pure trivial rfl)
    (moves_pure trivial rfl)

/-- The name of a method that is defined, with its `=` where it touches. -/
theorem moves_plainName : Moves d true true Anything plainName plainName :=
  moves_advance.bind fun _ _ => moves_second.bind fun _ _ => (moves_seesGlued .assign).bind
    fun _ _ => .ite Iff.rfl (moves_advance.bind fun _ _ => moves_pure trivial rfl)
      (moves_pure trivial rfl)

/-- The names `[]` and `[]=`. -/
theorem moves_indexName : Moves d true true Anything indexName indexName :=
  moves_advance.bind fun _ _ => (moves_expect .rbrack).bind fun _ _ =>
    (moves_seesGlued .assign).bind fun _ _ => .ite Iff.rfl
      (moves_advance.bind fun _ _ => moves_pure trivial rfl) (moves_pure trivial rfl)

/-- The name of a method that is defined, by its first token. -/
theorem moves_definedName : Moves d true true Anything definedName definedName := by
  refine moves_current.bind fun t _ => ?_
  rw [kind_moved]
  split
  · exact moves_plainName
  · exact moves_plainName
  · exact moves_indexName
  · exact .ite Iff.rfl moves_takeName (moves_fail _)

/-- The parameters of a method, in parentheses or up to the line end. -/
theorem moves_definedParameters (hg : g.Moving d) :
    Moves d true true IsPlaced (definedParameters g) (definedParameters g) := by
  refine moves_current.bind fun start _ => (moves_accept .lpar).bind fun _ _ => .ite Iff.rfl ?_ ?_
  · exact (moves_parameters hg _ false).bind fun _ _ => moves_skipNewlines.bind fun _ _ =>
      (moves_expectCloser .rpar _ _).bind fun _ _ => moves_build .args rfl rfl
  · refine (moves_seesAny _).bind fun _ _ => .ite Iff.rfl (moves_build .args rfl rfl) ?_
    exact (moves_parameters hg _ false).bind fun _ _ => moves_build .args rfl rfl

/-- The body of a method, behind `=` or up to its `end`. -/
theorem moves_definedBody (hg : g.Moving d) :
    Moves d true true IsPlaced (definedBody g) (definedBody g) := by
  refine Moves.bracketed ((moves_accept .assign).bind fun _ _ => .ite Iff.rfl ?_ ?_)
  · exact moves_skipNewlines.bind fun _ _ => (hg .statement).bind fun _ hn =>
      moves_build .body rfl (ofNode_moved hn)
  · exact moves_closedBody hg _

/-- The parameters and the body are read in a scope of their own. -/
theorem moves_definedParts (hg : g.Moving d) :
    Moves d true true Anything (definedParts g) (definedParts g) :=
  (moves_definedParameters hg).bind fun _ _ => (moves_definedBody hg).bind fun _ _ =>
    moves_pure trivial rfl

/-- A definition of a method starts at its `def`. -/
theorem moves_definition (hg : g.Moving d) :
    Moves d taken true IsPlaced (definition g) (definition g) :=
  (moves_expect .kwDef).bind fun _ _ => moves_singleton.bind fun _ _ => moves_definedName.bind
    fun _ _ => ((moves_definedParts hg).inScope false).bind fun _ _ => moves_build .defStmt rfl rfl

/-- A further constant of a path encloses what has been read of it. -/
theorem moves_pathRound (start : Token) {scope : Node} (hscope : IsPlaced scope) :
    Moves d true true (Rounded IsPlaced IsPlaced) (pathRound start scope)
      (pathRound (moved d start) (moved d scope)) := by
  refine (moves_accept .colon2).bind fun _ _ => .ite Iff.rfl ?_ (moves_pure hscope rfl)
  exact (moves_expect .const).bind fun _ _ => (moves_build .const rfl rfl).again

/-- The first constant of a path may follow `::`. -/
theorem moves_pathBase (start : Token) :
    Moves d true true Anything (pathBase start) (pathBase (moved d start)) :=
  (moves_accept .colon2).bind fun _ _ =>
    .ite Iff.rfl (moves_build .cbase rfl rfl).anything (moves_pure trivial rfl)

/-- The name of a class or module. -/
theorem moves_constantPath (g : Rules) :
    Moves d true true IsPlaced (constantPath g) (constantPath g) :=
  moves_current.bind fun start _ => (moves_pathBase start).bind fun _ _ =>
    (moves_expectOr .const _).bind fun _ _ => (moves_build .const rfl rfl).bind fun _ hfirst =>
      moves_rounds g.limit (moves_pathRound start hfirst) fun _ => moves_pathRound start

/-- The body of a class or module is read in a scope of its own. -/
theorem moves_enclosedBody (hg : g.Moving d) (construction : String) :
    Moves d true true IsPlaced (enclosedBody g construction) (enclosedBody g construction) :=
  (moves_bracketedBody hg construction).inScope false

/-- The superclass may be left out. -/
theorem moves_superclass (hg : g.Moving d) :
    Moves d true true Anything (superclass g) (superclass g) :=
  (moves_accept .lt).bind fun _ _ =>
    .ite Iff.rfl (hg .choice).anything (moves_pure trivial rfl)

/-- A class, or the singleton class of a value. -/
theorem moves_classDefinition (hg : g.Moving d) :
    Moves d taken true IsPlaced (classDefinition g) (classDefinition g) := by
  refine (moves_expect .kwClass).bind fun start _ => (moves_accept .lshift).bind fun _ _ =>
    .ite Iff.rfl ?_ ?_
  · exact (hg .sequence).bind fun _ _ => (moves_enclosedBody hg _).bind fun _ _ =>
      moves_build .sclass rfl rfl
  · exact (moves_constantPath g).bind fun _ _ => (moves_superclass hg).bind fun _ _ =>
      (moves_enclosedBody hg _).bind fun _ _ => moves_build .classStmt rfl rfl

/-- A module starts at its keyword. -/
theorem moves_moduleDefinition (hg : g.Moving d) :
    Moves d taken true IsPlaced (moduleDefinition g) (moduleDefinition g) :=
  (moves_expect .kwModule).bind fun _ _ => (moves_constantPath g).bind fun _ _ =>
    (moves_enclosedBody hg _).bind fun _ _ => moves_build .moduleStmt rfl rfl

/-- A capitalised name is a call only if parentheses touch it. -/
theorem moves_constant (hg : g.Moving d) :
    Moves d taken true IsPlaced (constant g) (constant g) := by
  refine moves_advance.bind fun t _ => (moves_seesGlued .lpar).bind fun _ _ => .ite Iff.rfl ?_ ?_
  · exact (moves_delimitedArguments hg .rpar).bind fun _ _ => moves_build .call rfl rfl
  · exact moves_build .const rfl rfl

/-- A constant behind `::`. -/
theorem moves_rootConstant : Moves d taken true IsPlaced rootConstant rootConstant :=
  moves_advance.bind fun _ _ => (moves_build .cbase rfl rfl).bind fun _ _ =>
    (moves_expect .const).bind fun _ _ => moves_build .const rfl rfl

/-- An array literal starts at its bracket. -/
theorem moves_array (hg : g.Moving d) : Moves d taken true IsPlaced (array g) (array g) :=
  moves_current.bind fun _ _ => (moves_delimitedArguments hg .rbrack).bind fun _ _ =>
    moves_build .array rfl rfl

/-- Parentheses hold statements, and names declared there stay declared. -/
theorem moves_parenthesized (hg : g.Moving d) :
    Moves d taken true IsPlaced (parenthesized g) (parenthesized g) :=
  moves_advance.bind fun _ _ => (moves_statements hg _).bracketed.bind fun _ _ =>
    (moves_expect .rpar).bind fun _ _ => moves_build .paren rfl rfl

/-- A range without a lower bound starts at its dots. -/
theorem moves_openRange (hg : g.Moving d) :
    Moves d taken true IsPlaced (openRange g) (openRange g) :=
  moves_advance.bind fun _ _ => (hg .operation).bind fun _ _ => moves_build .range rfl rfl

/-- `!` in front of an operand. -/
theorem moves_negatedOperand (hg : g.Moving d) :
    Moves d taken true IsPlaced (negatedOperand g) (negatedOperand g) :=
  moves_advance.bind fun _ _ => (hg .assignment).bind fun _ _ => moves_build .unop rfl rfl

/-- The values of a jump, in parentheses or without, or none. -/
theorem moves_jumpValues (hg : g.Moving d) :
    Moves d true true Anything (jumpValues g) (jumpValues g) :=
  (moves_seesClass _).bind fun _ _ =>
    .ite Iff.rfl (moves_pure trivial rfl) (moves_arguments hg none)

/-- `return`, `break` and `next` take arguments where one may start. -/
theorem moves_jump (hg : g.Moving d) (kind : Syntax.Kind) :
    Moves d taken true IsPlaced (jump g kind) (jump g kind) :=
  moves_advance.bind fun _ _ => (moves_jumpValues hg).bind fun _ _ => moves_build kind rfl rfl

/-- The values of a `yield`, in parentheses or without. -/
theorem moves_yieldValues (hg : g.Moving d) :
    Moves d true true Anything (yieldValues g) (yieldValues g) :=
  (moves_seesGlued .lpar).bind fun _ _ => .ite Iff.rfl (moves_delimitedArguments hg .rpar) <|
    moves_commandStart.bind fun _ _ =>
      .ite Iff.rfl (moves_arguments hg none) (moves_pure trivial rfl)

/-- A `yield` starts at its keyword. -/
theorem moves_yieldCall (hg : g.Moving d) :
    Moves d taken true IsPlaced (yieldCall g) (yieldCall g) :=
  moves_advance.bind fun _ _ => (moves_yieldValues hg).bind fun _ _ =>
    moves_build .yieldCall rfl rfl

/-- A `super` with or without arguments. -/
theorem moves_superCall (hg : g.Moving d) :
    Moves d taken true IsPlaced (superCall g) (superCall g) := by
  refine moves_advance.bind fun t _ => (moves_seesGlued .lpar).bind fun _ _ => .ite Iff.rfl ?_ ?_
  · exact (moves_delimitedArguments hg .rpar).bind fun _ _ => moves_build .superCall rfl rfl
  · exact moves_commandStart.bind fun _ _ =>
      .ite Iff.rfl (moves_command hg .superCall [] (ofToken t)) (moves_build .zsuper rfl rfl)

/-- An `alias` takes two names. -/
theorem moves_aliasStatement : Moves d taken true IsPlaced aliasStatement aliasStatement :=
  moves_advance.bind fun _ _ => moves_aliasName.bind fun _ _ => moves_aliasName.bind fun _ _ =>
    moves_build .aliasStmt rfl rfl

/-- `begin` with its body and clauses. -/
theorem moves_beginBlock (hg : g.Moving d) :
    Moves d taken true IsPlaced (beginBlock g) (beginBlock g) :=
  moves_advance.bind fun _ _ => (moves_bracketedBody hg _).bind fun _ _ =>
    moves_build .kwBegin rfl rfl

/-- A primary is chosen by the kind of its first token, which does not move. -/
theorem moves_primary (hg : g.Moving d) :
    Moves d taken true IsPlaced (primary g) (primary g) := by
  refine moves_current.bind fun t _ => ?_
  rw [kind_moved]
  split
  · exact moves_single .int
  · exact moves_single .float
  · exact moves_strings g
  · exact moves_single .xstr
  · exact moves_single .regexp
  · exact moves_single .words
  · exact moves_singleAs .sym _
  · exact moves_singleAs .sym _
  · exact moves_bare .nilLit
  · exact moves_bare .trueLit
  · exact moves_bare .falseLit
  · exact moves_bare .selfRef
  · exact moves_single .ivar
  · exact moves_single .gvar
  · exact moves_single .cvar
  · exact moves_identifier hg
  · exact moves_constant hg
  · exact moves_rootConstant
  · exact moves_array hg
  · exact moves_hash hg
  · exact moves_parenthesized hg
  · exact moves_openRange hg
  · exact moves_openRange hg
  · exact moves_lambda hg
  · exact moves_negatedOperand hg
  · exact moves_jump hg .returnStmt
  · exact moves_jump hg .breakStmt
  · exact moves_jump hg .nextStmt
  · exact moves_bare .redoStmt
  · exact moves_bare .retryStmt
  · exact moves_yieldCall hg
  · exact moves_superCall hg
  · exact moves_aliasStatement
  · exact moves_definition hg
  · exact moves_classDefinition hg
  · exact moves_moduleDefinition hg
  · exact moves_condition hg
  · exact moves_condition hg
  · exact moves_whileLoop hg
  · exact moves_whileLoop hg
  · exact moves_forLoop hg
  · exact moves_caseChoice hg
  · exact moves_beginBlock hg
  · exact moves_fail _

end XhrKeywords.Grammar
