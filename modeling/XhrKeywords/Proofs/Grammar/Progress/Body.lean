import XhrKeywords.Proofs.Grammar.Progress.Argument

/-!
# Bodies, parameters and blocks end

Every statement of a list takes a token, and so do every clause, every parameter and every element
that commas separate. Bodies and parameter lists may be empty, so they only leave no more tokens
ahead.
-/

namespace XhrKeywords.Grammar

open Syntax hiding Kind
open Token (Kind)

variable {T pre : Token → Prop} {k n : Nat} {g : Rules}

/-- What separates a head from its body need not take a token. -/
theorem leaves_separator : LeavesAt T pre k k separator := by
  apply promises_look fun s => seesClass_run s _
  intro separated
  apply leaves_skipSeparators.bind
  intro _
  apply (leaves_accept .kwThen).cond
  · exact leaves_pure _
  · exact (leaves_pure _).ite (promises_fail fun _ => nofun)

/-- What may be assigned to takes no token by itself. -/
theorem keeps_toTarget (n : Node) : Keeps T k (toTarget n) := by
  rw [toTarget.eq_def]
  split
  · exact (leaves_declare _).bind fun _ => leaves_pure _
  · exact (leaves_pure _).ite (promises_fail fun _ => nofun)

/-- A round of a list takes an element, also where it is the last one. -/
theorem lowers_elementRound {element : Parser Node} (helement : Lowers T k element)
    (found : List Node) : Lowers T k (elementRound element found) := by
  apply helement.bind
  intro next
  exact leaves_listRound _

/-- The elements of a list are read while tokens are left. -/
theorem keeps_elements (hg : g.Bounded T n) (hk : k ≤ n) {element : Parser Node}
    (helement : ∀ j, j < n → Lowers T j element) : Keeps T k (elements g element) :=
  hg.keeps_loop (fun j hj => turns_of_lowers (lowers_elementRound (helement j hj))) hk []

/-- A round of statements takes a statement, or it is the last one. -/
theorem turns_statementRound (hg : g.Bounded T n) (hk : k < n) (stops : List Kind) :
    Turns T k (statementRound g stops) := by
  intro found
  apply leaves_skipSeparators.bind
  intro _
  apply (leaves_look fun s => seesAny_run s _).cond
  · exact lowered_pure _
  · apply Promises.lowered
    apply (hg.read .statement hk).bind
    intro next
    apply (leaves_look fun s => seesAny_run s _).cond
    · exact leaves_pure _
    · exact promises_fail fun _ => nofun

section Bodies

variable (hg : g.Bounded T n) (hk : k ≤ n)

include hg hk

/-- There may be no statements. -/
theorem keeps_statements (stops : List Kind) : Keeps T k (statements g stops) :=
  hg.keeps_loop (fun _ hj => turns_statementRound hg hj stops) hk []

/-- A body may be empty. -/
theorem keeps_body (stops : List Kind) : Keeps T k (body g stops) := by
  apply promises_look current_run
  intro start
  apply (keeps_statements hg hk stops).bind
  intro found
  cases found with
  | nil => exact leaves_pure _
  | cons first others => exact leaves_pure _

/-- The classes of a `rescue` may be left out. -/
theorem keeps_rescueClasses : Keeps T k (rescueClasses g) := by
  apply (leaves_look fun s => seesAny_run s _).cond
  · exact leaves_pure _
  · exact keeps_elements hg hk fun _ hj => lowers_splatOr (hg.read .choice hj)

/-- The variable of a `rescue` may be left out. -/
theorem keeps_rescueVariable : Keeps T k (rescueVariable g) := by
  apply (leaves_accept .assoc).cond
  · exact (hg.keeps .operand hk).bind keeps_toTarget
  · exact leaves_pure _

/-- A `rescue` takes its keyword. -/
theorem lowersAt_rescueClause : LowersAt T k (rescueClause g) := by
  apply promises_take
  intro keyword _
  apply (keeps_rescueClasses hg hk).bind
  intro classes
  apply (keeps_rescueVariable hg hk).bind
  intro bound
  apply leaves_separator.bind
  intro _
  apply (keeps_body hg hk _).bind
  intro handler
  exact (leaves_build ..).bind fun _ => leaves_build ..

/-- A round of the `rescue` clauses takes a clause, or it is the last one. -/
theorem turns_rescueRound : Turns T k (rescueRound g) := by
  intro found
  apply promises_if_sees
  · exact ((lowersAt_rescueClause hg hk).at_kind .kwRescue nofun).againWith.lowered
  · exact lowered_pure _

/-- An `else` or `ensure` clause may be left out. -/
theorem keeps_bodyClause (keyword : Kind) (kind : Syntax.Kind) (stops : List Kind) :
    Keeps T k (bodyClause g keyword kind stops) := by
  apply (leaves_look fun s => sees_run s keyword).cond
  · apply leaves_advance.bind
    intro start
    apply (keeps_body hg hk stops).bind
    intro inner
    exact (leaves_build ..).bind fun _ => leaves_pure _
  · exact leaves_pure _

/-- A body and its clauses may be empty. -/
theorem keeps_bodyStatement : Keeps T k (bodyStatement g) := by
  apply promises_look current_run
  intro start
  apply (keeps_body hg hk _).bind
  intro main
  apply (leaves_look fun s => seesAny_run s _).cond
  · apply (hg.keeps_loop (fun _ hj => turns_rescueRound hg (Nat.le_of_lt hj)) hk []).bind
    intro rescues
    apply (keeps_bodyClause hg hk ..).bind
    intro otherwise
    apply (keeps_bodyClause hg hk ..).bind
    intro atLast
    exact leaves_build ..
  · exact leaves_pure _

/-- A body up to its `end`. -/
theorem keeps_closedBody (construction : String) : Keeps T k (closedBody g construction) := by
  apply (keeps_bodyStatement hg hk).bind
  intro inner
  exact (leaves_expectEnd _).bind fun _ => leaves_pure _

/-- A body up to its `end`, where a `do` may be taken again. -/
theorem keeps_bracketedBody (construction : String) :
    Keeps T k (bracketedBody g construction) := by
  apply (leaves_bracketed (keeps_bodyStatement hg hk)).bind
  intro inner
  exact (leaves_expectEnd _).bind fun _ => leaves_pure _

/-- A body up to its brace. -/
theorem keeps_bracedBody (construction : String) : Keeps T k (bracedBody g construction) := by
  apply (keeps_body hg hk _).bind
  intro inner
  exact (leaves_expectCloser ..).bind fun _ => leaves_pure _

end Bodies

/-- A name takes its token, but none is asked for. -/
theorem leaves_takeName : LeavesAt T pre k k takeName :=
  leaves_advance.bind fun _ => leaves_pure _

/-- The name behind a mark may be left out. -/
theorem keeps_markedName : Keeps T k markedName := by
  apply (leaves_look fun s => sees_run s .ident).cond
  · exact leaves_takeName.bind fun _ => leaves_pure _
  · exact leaves_pure _

/-- A parameter `*name`, `**name` or `&name` takes its mark. -/
theorem lowersAt_markedParameter (kind : Syntax.Kind) : LowersAt T k (markedParameter kind) := by
  apply promises_take
  intro mark _
  exact keeps_markedName.bind fun _ => leaves_build ..

/-- A name local to a block takes its token. -/
theorem lowersAt_shadowParameter : LowersAt T k shadowParameter := by
  apply promises_take
  intro name _
  exact (leaves_declare _).bind fun _ => leaves_build ..

/-- A round of the names local to a block takes a name, or it is the last one. -/
theorem turns_shadowRound : Turns T k shadowRound := by
  intro found
  apply promises_if_sees
  · apply Promises.lowered
    apply (lowersAt_shadowParameter.at_kind .ident nofun).bind
    intro next
    exact leaves_commaRound _
  · exact lowered_pure _

/-- The name of a parameter is declared without taking a token. -/
theorem leaves_declareParameter (n : Node) : LeavesAt T pre k k (declareParameter n) := by
  rw [declareParameter]
  split
  · exact leaves_declare _
  · exact leaves_pure _

section Parameters

variable (hg : g.Bounded T n) (hk : k ≤ n) (closers : List Kind) (inBlock : Bool)

include hg hk

/-- A parameter `name:` takes its label. -/
theorem lowersAt_keywordParameter : LowersAt T k (keywordParameter g closers inBlock) := by
  apply promises_take
  intro label _
  apply (leaves_look fun s => seesAny_run s _).cond
  · exact leaves_build ..
  · exact (hg.keeps _ hk).bind fun _ => leaves_build ..

/-- A parameter takes its name. -/
theorem lowersAt_positionalParameter : LowersAt T k (positionalParameter g inBlock) := by
  apply promises_take
  intro name _
  apply (leaves_accept .assign).cond
  · exact (hg.keeps _ hk).bind fun _ => leaves_build ..
  · exact leaves_build ..

/-- A parameter takes a token whatever its first token is, or fails. -/
theorem lowers_parameter : Lowers T k (parameter g closers inBlock) := by
  apply promises_at_current
  intro t
  split
  · exact (lowersAt_markedParameter _).at_token ‹_› (by decide)
  · exact (lowersAt_markedParameter _).at_token ‹_› (by decide)
  · exact (lowersAt_markedParameter _).at_token ‹_› (by decide)
  · exact (lowersAt_keywordParameter hg hk closers inBlock).at_token ‹_› (by decide)
  · have hgroup :
        LowersAt T k (advance >>= fun opener => g.read (.parameterGroup opener inBlock)) :=
      promises_take fun _ _ => hg.keeps _ hk
    exact hgroup.at_token ‹_› (by decide)
  · exact (lowersAt_positionalParameter hg hk inBlock).at_token ‹_› (by decide)
  · exact promises_fail fun _ => nofun

/-- Behind a semicolon the rounds over block-local variables end as well. -/
theorem turns_parameterRound : Turns T k (parameterRound g closers inBlock) := by
  intro found
  apply (leaves_look fun s => seesAny_run s closers).cond
  · exact lowered_pure _
  · apply Promises.lowered
    apply promises_if_accepts .semi nofun
    · exact (hg.keeps_loop (fun _ _ => turns_shadowRound) hk found).again
    · apply (lowers_parameter hg hk closers inBlock).bind
      intro next
      apply (leaves_declareParameter next).bind
      intro _
      exact leaves_listRound _

/-- The bound need not exceed the number of tokens ahead by more than one. -/
theorem keeps_parameters_succ : Keeps T (k + 1) (parameters g closers inBlock) :=
  keeps_of_lowersUnless
    (hg.lowersUnless_loop (fun _ hj => turns_parameterRound hg hj closers inBlock) hk [])

/-- A parameter list may be empty. -/
theorem keeps_parameters : Keeps T k (parameters g closers inBlock) :=
  hg.keeps_loop (fun _ hj => turns_parameterRound hg (Nat.le_of_lt hj) closers inBlock) hk []

omit closers in
/-- A list in parentheses takes at least its closing one. -/
theorem lowers_parameterGroup (opener : Token) :
    Lowers T k (parameterGroup g opener inBlock) := by
  apply (keeps_parameters_succ hg hk [.rpar] inBlock).bind
  intro inner
  apply (lowers_expect .rpar nofun).bind
  intro _
  exact leaves_build ..

end Parameters

section Blocks

variable (hg : g.Bounded T n) (hk : k ≤ n)

include hg hk

/-- A block may be without parameters. -/
theorem keeps_blockParameters : Keeps T k (blockParameters g) := by
  apply promises_if_sees
  · exact ((lowersAt_bare .args).fewer).at_kind .orOr nofun
  · apply (leaves_look fun s => sees_run s .pipe).cond
    · apply leaves_advance.bind
      intro bar
      apply (keeps_parameters hg hk _ true).bind
      intro found
      exact (leaves_expectCloser ..).bind fun _ => leaves_build ..
    · exact leaves_pure _

/-- The parameters and the body of a block may be empty. -/
theorem keeps_blockParts (braces : Bool) : Keeps T k (blockParts g braces) := by
  apply (keeps_blockParameters hg hk).bind
  intro bound
  cases braces with
  | true => exact (keeps_bracedBody hg hk _).bind fun _ => leaves_pure _
  | false => exact (keeps_closedBody hg hk _).bind fun _ => leaves_pure _

/-- A block takes its `do` or its brace. -/
theorem lowersAt_block (call : Node) : LowersAt T k (block g call) := by
  apply promises_take
  intro opener _
  apply (leaves_bracketed (leaves_inScope true (keeps_blockParts hg hk _))).bind
  intro parts
  exact leaves_build ..

/-- A lambda may be without parameters. -/
theorem keeps_lambdaParameters : Keeps T k (lambdaParameters g) := by
  apply (leaves_look fun s => sees_run s .lpar).cond
  · apply leaves_advance.bind
    intro opener
    apply (keeps_parameters hg hk _ false).bind
    intro found
    apply (leaves_build ..).bind
    intro args
    exact (leaves_expect .rpar).bind fun _ => leaves_pure _
  · apply (leaves_look fun s => seesAny_run s _).cond
    · apply promises_look current_run
      intro start
      exact (keeps_parameters hg hk _ false).bind fun _ => leaves_build ..
    · exact leaves_pure _

/-- The body of a lambda may be empty. -/
theorem keeps_lambdaBody : Keeps T k (lambdaBody g) := by
  apply (leaves_accept .lbrace).cond
  · exact (keeps_bracedBody hg hk _).bind fun _ => leaves_pure _
  · apply (leaves_expectOr .kwDo .missingLambdaBody fun _ => nofun).bind
    intro _
    exact (keeps_closedBody hg hk _).bind fun _ => leaves_pure _

/-- The parameters and the body of a lambda. -/
theorem keeps_lambdaParts : Keeps T k (lambdaParts g) := by
  apply (keeps_lambdaParameters hg hk).bind
  intro bound
  exact (leaves_bracketed (keeps_lambdaBody hg hk)).bind fun _ => leaves_pure _

/-- A lambda takes its arrow. -/
theorem lowers_lambda : Lowers T k (lambda g) := by
  apply (lowers_expect .arrow nofun).bind
  intro start
  apply (leaves_inScope true (keeps_lambdaParts hg hk)).bind
  intro parts
  exact leaves_build ..

end Blocks

end XhrKeywords.Grammar
