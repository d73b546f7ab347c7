import XhrKeywords.Proofs.Grammar.Progress.Body

/-!
# Primaries take tokens

Calls, conditions, loops, definitions and all other primaries take the token that tells them
apart. Behind it they leave no more tokens ahead than there were.
-/

namespace XhrKeywords.Grammar

open Syntax hiding Kind
open Token (Kind)

variable {T pre : Token → Prop} {k m n : Nat} {g : Rules}

/-- A look whether arguments without parentheses start. -/
theorem leaves_commandStart : LeavesAt T pre k k commandStart :=
  promises_look current_run fun _ => promises_look second_run fun _ => leaves_pure _

/-- The name behind a dot may be left out in front of a parenthesis. -/
theorem keeps_methodName : Keeps T k methodName := by
  apply promises_look current_run
  intro t
  split
  · exact leaves_pure _
  · exact leaves_takeName
  · exact leaves_takeName
  · exact promises_fail fun _ => nofun
  · exact leaves_takeName.ite (promises_fail fun _ => nofun)

section Calls

variable (hg : g.Bounded T n) (hk : k ≤ n)

include hg hk

/-- Arguments in command style, and a block behind them. -/
theorem keeps_command (kind : Syntax.Kind) (head : List Node) (start : Mark) :
    Keeps T k (command g kind head start) := by
  apply (leaves_keepingDo (keeps_arguments hg hk none)).bind
  intro found
  apply (leaves_build ..).bind
  intro node
  apply promises_look doBinds_run
  intro binds
  apply promises_if_seesToo
  · exact (lowersAt_block hg hk node).fewer.at_kind .kwDo nofun
  · exact leaves_pure _

/-- Arguments between parentheses, where a parenthesis is there to be taken. -/
theorem keeps_delimitedArguments (closer : Kind) :
    LeavesAt T (·.kind = .lpar) k k (delimitedArguments g closer) :=
  (lowersAt_delimitedArguments hg hk closer).fewer.at_kind .lpar nofun

/-- A call need not have arguments. -/
theorem keeps_callArguments (kind : Syntax.Kind) (head : List Node) (start : Mark) :
    Keeps T k (callArguments g kind head start) := by
  apply promises_if_seesGlued
  · exact (keeps_delimitedArguments hg hk .rpar).bind fun _ => leaves_build ..
  · apply leaves_commandStart.cond
    · exact keeps_command hg hk ..
    · exact leaves_build ..

/-- A call on a receiver, behind its dot. -/
theorem keeps_methodCall (receiver : Node) (operator : Kind) :
    Keeps T k (methodCall g receiver operator) := by
  apply keeps_methodName.bind
  intro name
  exact keeps_callArguments hg hk ..

/-- A bare name takes its token, and then perhaps arguments. -/
theorem lowersAt_identifier : LowersAt T k (identifier g) := by
  apply promises_take
  intro t _
  apply promises_look fun s => isLocal_run s _
  intro known
  apply promises_look fun s => seesGlued_run s .lpar
  intro glued
  apply Promises.ite
  · exact leaves_build ..
  · exact keeps_callArguments hg hk ..

/-- A capitalised name takes its token. -/
theorem lowersAt_constant : LowersAt T k (constant g) := by
  apply promises_take
  intro t _
  apply promises_if_seesGlued
  · exact (keeps_delimitedArguments hg hk .rpar).bind fun _ => leaves_build ..
  · exact leaves_build ..

end Calls

section Control

variable (hg : g.Bounded T n) (hk : k ≤ n)

include hg hk

/-- A branch may be empty. -/
theorem keeps_branch (stops : List Kind) : Keeps T k (branch g stops) :=
  leaves_bracketed (keeps_body hg hk stops)

/-- An `else` may be left out. -/
theorem keeps_otherwiseBranch : Keeps T k (otherwiseBranch g) := by
  apply (leaves_accept .kwElse).cond
  · exact keeps_branch hg hk _
  · exact leaves_pure _

/-- A condition need not go on. -/
theorem keeps_nextBranch (keyword : Token) : Keeps T k (nextBranch g keyword) := by
  apply promises_if_seesToo
  · exact (leaves_advance.bind fun _ => hg.keeps _ hk).at_kind .kwElsif nofun
  · exact keeps_otherwiseBranch hg hk

/-- A conditional takes what its test takes. -/
theorem leaves_conditional {test : Parser Node} (htest : LeavesAt T AnyToken m k test)
    (keyword : Token) : LeavesAt T AnyToken m k (conditional g test keyword) := by
  apply (leaves_bracketed htest).bind
  intro condition
  apply leaves_separator.bind
  intro _
  apply (keeps_branch hg hk _).bind
  intro inner
  apply (keeps_nextBranch hg hk keyword).bind
  intro otherwise
  exact leaves_build ..

/-- A condition takes its keyword. -/
theorem lowersAt_condition : LowersAt T k (condition g) := by
  apply promises_take
  intro keyword _
  apply (leaves_conditional hg hk (hg.keeps .sequence hk) keyword).bind
  intro n
  exact (leaves_expectEnd _).bind fun _ => leaves_pure _

/-- The body of a loop up to its `end`. -/
theorem keeps_loopBody (construction : String) : Keeps T k (loopBody g construction) := by
  have hopener : Keeps T k loopOpener := by
    apply (leaves_accept .kwDo).cond
    · exact leaves_pure _
    · apply (leaves_look fun s => seesClass_run s _).cond
      · exact leaves_pure _
      · exact promises_fail fun _ => nofun
  apply hopener.bind
  intro _
  apply (keeps_branch hg hk _).bind
  intro inner
  exact (leaves_expectEnd _).bind fun _ => leaves_pure _

/-- A `while` or `until` loop takes its keyword. -/
theorem lowersAt_whileLoop : LowersAt T k (whileLoop g) := by
  apply promises_take
  intro keyword _
  apply (leaves_keepingDo (hg.keeps .sequence hk)).bind
  intro test
  apply (keeps_loopBody hg hk _).bind
  intro inner
  exact leaves_build ..

omit hg hk in
/-- A round of the variables of a `for` loop takes a variable. -/
theorem lowers_loopVariableRound (found : List Node) :
    Lowers T k (loopVariableRound found) := by
  have hvariable : Lowers T k loopVariable := by
    apply (lowers_expectOr .ident nofun (fun _ => .missingLoopVariable) fun _ => nofun).bind
    intro name
    exact (leaves_declare _).bind fun _ => leaves_build ..
  apply hvariable.bind
  intro next
  exact leaves_commaRound _

omit hg hk in
/-- Several variables are put under one node without taking a token. -/
theorem leaves_loopTarget (start : Token) (found : List Node) :
    LeavesAt T pre k k (loopTarget start found) := by
  rw [loopTarget.eq_def]
  split
  · exact leaves_pure _
  · exact leaves_build ..

/-- A `for` loop takes its keyword. -/
theorem lowers_forLoop : Lowers T k (forLoop g) := by
  apply (lowers_expect .kwFor nofun).bind
  intro start
  apply (hg.keeps_loop (fun _ _ => turns_of_lowers lowers_loopVariableRound) hk []).bind
  intro targets
  apply (leaves_loopTarget start targets).bind
  intro bound
  apply (leaves_expectOr .kwIn (fun _ => .missingLoopCollection) fun _ => nofun).bind
  intro _
  apply (leaves_keepingDo (hg.keeps .sequence hk)).bind
  intro collection
  apply (keeps_loopBody hg hk _).bind
  intro inner
  exact leaves_build ..

/-- A `when` takes its keyword. -/
theorem lowersAt_whenClause : LowersAt T k (whenClause g) := by
  apply promises_take
  intro keyword _
  apply (keeps_elements hg hk fun _ hj => lowers_splatOr (hg.read .choice hj)).bind
  intro values
  apply leaves_separator.bind
  intro _
  apply (keeps_branch hg hk _).bind
  intro inner
  exact leaves_build ..

/-- A round of the `when` clauses takes a clause, or it is the last one. -/
theorem turns_whenRound : Turns T k (whenRound g) := by
  intro found
  apply promises_if_sees
  · exact ((lowersAt_whenClause hg hk).at_kind .kwWhen nofun).againWith.lowered
  · exact lowered_pure _

/-- The first `when` must be there, so it is no matter what the others take. -/
theorem keeps_whenClauses : Keeps T k (whenClauses g) := by
  apply (hg.keeps_loop (fun _ hj => turns_whenRound hg (Nat.le_of_lt hj)) hk []).bind
  intro clauses
  apply (leaves_look fun s => sees_run s .kwIn).cond
  · exact promises_fail fun _ => nofun
  · apply Promises.ite
    · exact promises_fail fun _ => nofun
    · exact leaves_pure _

/-- The value a `case` looks at may be left out. -/
theorem keeps_caseSubject : Keeps T k (caseSubject g) := by
  apply (leaves_look fun s => seesClass_run s _).cond
  · exact leaves_pure _
  · exact hg.keeps .sequence hk

/-- A `case` takes its keyword. -/
theorem lowers_caseChoice : Lowers T k (caseChoice g) := by
  apply (lowers_expect .kwCase nofun).bind
  intro start
  apply (keeps_caseSubject hg hk).bind
  intro subject
  apply leaves_skipSeparators.bind
  intro _
  apply (keeps_whenClauses hg hk).bind
  intro clauses
  apply (keeps_otherwiseBranch hg hk).bind
  intro otherwise
  exact (leaves_expectEnd _).bind fun _ => leaves_build ..

end Control

section Names

/-- The owner of a method may be left out. -/
theorem keeps_singleton : Keeps T k singleton := by
  have howner (t : Token) : Keeps T k (singletonOwner t) := by
    apply Promises.ite
    · exact leaves_advance.bind fun _ => leaves_build ..
    · apply Promises.ite
      · exact leaves_advance.bind fun _ => leaves_build ..
      · exact leaves_advance.bind fun _ => leaves_build ..
  apply promises_look current_run
  intro t
  apply promises_look second_run
  intro next
  apply Promises.ite
  · apply (howner t).bind
    intro owner
    exact leaves_advance.bind fun _ => leaves_pure _
  · exact leaves_pure _

/-- The name of a method that is defined, with its `=` where it touches. -/
theorem keeps_plainName : Keeps T k plainName := by
  apply leaves_advance.bind
  intro t
  apply promises_look second_run
  intro next
  apply promises_look fun s => seesGlued_run s .assign
  intro glued
  apply Promises.ite
  · exact leaves_advance.bind fun _ => leaves_pure _
  · exact leaves_pure _

/-- The names `[]` and `[]=`. -/
theorem keeps_indexName : Keeps T k indexName := by
  apply leaves_advance.bind
  intro t
  apply (leaves_expect .rbrack).bind
  intro _
  apply (leaves_look fun s => seesGlued_run s .assign).cond
  · exact leaves_advance.bind fun _ => leaves_pure _
  · exact leaves_pure _

/-- The name of a method that is defined, by its first token. -/
theorem keeps_definedName : Keeps T k definedName := by
  apply promises_look current_run
  intro t
  split
  · exact keeps_plainName
  · exact keeps_plainName
  · exact keeps_indexName
  · exact leaves_takeName.ite (promises_fail fun _ => nofun)

/-- A round of a path takes a constant, or it is the last one. -/
theorem turns_pathRound (start : Token) : Turns T k (pathRound start) := by
  intro scope
  apply promises_if_accepts .colon2 nofun
  · exact (((leaves_expect .const).bind fun _ => (leaves_build ..).again).mono fun _ _ => Or.inl)
  · exact lowered_pure _

end Names

section Definitions

variable (hg : g.Bounded T n) (hk : k ≤ n)

include hg hk

/-- The name of a class or module. -/
theorem keeps_constantPath : Keeps T k (constantPath g) := by
  apply promises_look current_run
  intro start
  have hbase : Keeps T k (pathBase start) := by
    apply (leaves_accept .colon2).cond
    · exact leaves_build ..
    · exact leaves_pure _
  apply hbase.bind
  intro base
  apply (leaves_expectOr .const .missingConstantName fun _ => nofun).bind
  intro name
  apply (leaves_build ..).bind
  intro first
  exact hg.keeps_loop (fun _ _ => turns_pathRound start) hk first

/-- A method may be without parameters. -/
theorem keeps_definedParameters : Keeps T k (definedParameters g) := by
  apply promises_look current_run
  intro start
  apply (leaves_accept .lpar).cond
  · apply (keeps_parameters hg hk _ false).bind
    intro found
    apply leaves_skipNewlines.bind
    intro _
    exact (leaves_expectCloser ..).bind fun _ => leaves_build ..
  · apply (leaves_look fun s => seesAny_run s _).cond
    · exact leaves_build ..
    · exact (keeps_parameters hg hk _ false).bind fun _ => leaves_build ..

/-- The body of a method, behind `=` or up to its `end`. -/
theorem keeps_definedBody : Keeps T k (definedBody g) := by
  apply leaves_bracketed
  apply (leaves_accept .assign).cond
  · apply leaves_skipNewlines.bind
    intro _
    exact (hg.keeps .statement hk).bind fun _ => leaves_build ..
  · exact keeps_closedBody hg hk _

/-- The parameters and the body of a method. -/
theorem keeps_definedParts : Keeps T k (definedParts g) := by
  apply (keeps_definedParameters hg hk).bind
  intro args
  exact (keeps_definedBody hg hk).bind fun _ => leaves_pure _

/-- A definition takes its `def`. -/
theorem lowers_definition : Lowers T k (definition g) := by
  apply (lowers_expect .kwDef nofun).bind
  intro start
  apply keeps_singleton.bind
  intro owner
  apply keeps_definedName.bind
  intro name
  apply (leaves_inScope false (keeps_definedParts hg hk)).bind
  intro parts
  exact leaves_build ..

/-- The body of a class or module. -/
theorem keeps_enclosedBody (construction : String) : Keeps T k (enclosedBody g construction) :=
  leaves_inScope false (keeps_bracketedBody hg hk construction)

/-- A class takes its keyword. -/
theorem lowers_classDefinition : Lowers T k (classDefinition g) := by
  apply (lowers_expect .kwClass nofun).bind
  intro start
  apply (leaves_accept .lshift).cond
  · apply (hg.keeps .sequence hk).bind
    intro target
    exact (keeps_enclosedBody hg hk _).bind fun _ => leaves_build ..
  · have hsuperclass : Keeps T k (superclass g) :=
      (leaves_accept .lt).cond (hg.keeps .choice hk) (leaves_pure _)
    apply (keeps_constantPath hg hk).bind
    intro path
    apply hsuperclass.bind
    intro parent
    exact (keeps_enclosedBody hg hk _).bind fun _ => leaves_build ..

/-- A module takes its keyword. -/
theorem lowers_moduleDefinition : Lowers T k (moduleDefinition g) := by
  apply (lowers_expect .kwModule nofun).bind
  intro start
  apply (keeps_constantPath hg hk).bind
  intro path
  exact (keeps_enclosedBody hg hk _).bind fun _ => leaves_build ..

end Definitions

/-- A constant behind `::` takes the two colons. -/
theorem lowersAt_rootConstant : LowersAt T k rootConstant := by
  apply promises_take
  intro t _
  apply (leaves_build ..).bind
  intro base
  exact (leaves_expect .const).bind fun _ => leaves_build ..

/-- An `alias` takes its keyword. -/
theorem lowersAt_aliasStatement : LowersAt T k aliasStatement := by
  apply promises_take
  intro t _
  apply lowers_aliasName.fewer.bind
  intro new
  exact lowers_aliasName.fewer.bind fun _ => leaves_build ..

section Primaries

variable (hg : g.Bounded T n) (hk : k ≤ n)

include hg hk

/-- An array literal takes its bracket. -/
theorem lowersAt_array : LowersAt T k (array g) := by
  apply promises_look current_run
  intro t
  exact (lowersAt_delimitedArguments hg hk .rbrack).bind fun _ => leaves_build ..

/-- Parentheses take the opening one. -/
theorem lowersAt_parenthesized : LowersAt T k (parenthesized g) := by
  apply promises_take
  intro t _
  apply (leaves_bracketed (keeps_statements hg hk [.rpar])).bind
  intro found
  exact (leaves_expect .rpar).bind fun _ => leaves_build ..

/-- A range without a lower bound takes its dots. -/
theorem lowersAt_openRange : LowersAt T k (openRange g) :=
  promises_take fun _ _ => (hg.keeps .operation hk).bind fun _ => leaves_build ..

/-- `!` is taken in front of its operand. -/
theorem lowersAt_negatedOperand : LowersAt T k (negatedOperand g) :=
  promises_take fun _ _ => (hg.keeps .assignment hk).bind fun _ => leaves_build ..

/-- `return`, `break` and `next` take their keywords. -/
theorem lowersAt_jump (kind : Syntax.Kind) : LowersAt T k (jump g kind) := by
  have hvalues : Keeps T k (jumpValues g) := by
    apply (leaves_look fun s => seesClass_run s _).cond
    · exact leaves_pure _
    · exact keeps_arguments hg hk none
  exact promises_take fun _ _ => hvalues.bind fun _ => leaves_build ..

/-- A `yield` need not have values. -/
theorem keeps_yieldValues : Keeps T k (yieldValues g) := by
  apply promises_if_seesGlued
  · exact keeps_delimitedArguments hg hk .rpar
  · apply leaves_commandStart.cond
    · exact keeps_arguments hg hk none
    · exact leaves_pure _

/-- A `yield` takes its keyword. -/
theorem lowersAt_yieldCall : LowersAt T k (yieldCall g) :=
  promises_take fun _ _ => (keeps_yieldValues hg hk).bind fun _ => leaves_build ..

/-- A `super` takes its keyword. -/
theorem lowersAt_superCall : LowersAt T k (superCall g) := by
  apply promises_take
  intro t _
  apply promises_if_seesGlued
  · exact (keeps_delimitedArguments hg hk .rpar).bind fun _ => leaves_build ..
  · apply leaves_commandStart.cond
    · exact keeps_command hg hk ..
    · exact leaves_build ..

/-- A `begin` takes its keyword. -/
theorem lowersAt_beginBlock : LowersAt T k (beginBlock g) :=
  promises_take fun _ _ => (keeps_bracketedBody hg hk _).bind fun _ => leaves_build ..

/-- A primary takes the token that tells it apart. -/
theorem lowers_primary : Lowers T k (primary g) := by
  have hsymbol := fun role => lowersAt_singleAs (T := T) (k := k) .sym role
  apply promises_at_current
  intro t
  split
  case h_3 => exact (lowers_strings hg hk).any
  case h_7 | h_8 => exact (hsymbol _).at_token ‹_› (by decide)
  case h_9 | h_10 | h_11 | h_12 | h_29 | h_30 =>
    exact (lowersAt_bare _).at_token ‹_› (by decide)
  case h_16 => exact (lowersAt_identifier hg hk).at_token ‹_› (by decide)
  case h_17 => exact (lowersAt_constant hg hk).at_token ‹_› (by decide)
  case h_18 => exact lowersAt_rootConstant.at_token ‹_› (by decide)
  case h_19 => exact (lowersAt_array hg hk).at_token ‹_› (by decide)
  case h_20 => exact (lowers_hash hg hk).any
  case h_21 => exact (lowersAt_parenthesized hg hk).at_token ‹_› (by decide)
  case h_22 | h_23 => exact (lowersAt_openRange hg hk).at_token ‹_› (by decide)
  case h_24 => exact (lowers_lambda hg hk).any
  case h_25 => exact (lowersAt_negatedOperand hg hk).at_token ‹_› (by decide)
  case h_26 | h_27 | h_28 => exact (lowersAt_jump hg hk _).at_token ‹_› (by decide)
  case h_31 => exact (lowersAt_yieldCall hg hk).at_token ‹_› (by decide)
  case h_32 => exact (lowersAt_superCall hg hk).at_token ‹_› (by decide)
  case h_33 => exact lowersAt_aliasStatement.at_token ‹_› (by decide)
  case h_34 => exact (lowers_definition hg hk).any
  case h_35 => exact (lowers_classDefinition hg hk).any
  case h_36 => exact (lowers_moduleDefinition hg hk).any
  case h_37 | h_38 => exact (lowersAt_condition hg hk).at_token ‹_› (by decide)
  case h_39 | h_40 => exact (lowersAt_whileLoop hg hk).at_token ‹_› (by decide)
  case h_41 => exact (lowers_forLoop hg hk).any
  case h_42 => exact (lowers_caseChoice hg hk).any
  case h_43 => exact (lowersAt_beginBlock hg hk).at_token ‹_› (by decide)
  case h_44 => exact promises_fail fun _ => nofun
  all_goals exact (lowersAt_single _).at_token ‹_› (by decide)

end Primaries

end XhrKeywords.Grammar
