import XhrKeywords.Proofs.Grammar.Progress.Primary

/-!
# Expressions and statements take tokens

Every level of precedence takes the token of its first operand, so the phrases of the grammar take
tokens at any depth of nesting that the tokens allow. Main statements: `bounded_rulesFor` and
`keeps_program`.
-/

namespace XhrKeywords.Grammar

open Syntax hiding Kind
open Token (Kind)

variable {T pre : Token → Prop} {k n : Nat} {g : Rules}

section Operands

variable (hg : g.Bounded T n) (hk : k ≤ n)

include hg hk

/-- A constant or a call behind `::` takes the two colons. -/
theorem lowersAt_scopeTrailer (node : Node) : LowersAt T k (scopeTrailer g node) := by
  apply promises_take
  intro _ _
  apply promises_look second_run
  intro behind
  apply promises_look fun s => sees_run s .const
  intro seen
  apply Promises.ite
  · exact leaves_advance.bind fun _ => leaves_build ..
  · exact keeps_methodCall hg hk ..

/-- A call behind a dot takes the dot. -/
theorem lowersAt_callTrailer (node : Node) : LowersAt T k (callTrailer g node) := by
  apply promises_take
  intro operator _
  apply leaves_skipNewlines.bind
  intro _
  exact keeps_methodCall hg hk ..

/-- An index takes its bracket. -/
theorem lowersAt_indexTrailer (node : Node) : LowersAt T k (indexTrailer g node) :=
  (lowersAt_delimitedArguments hg hk .rbrack).bind fun _ => leaves_build ..

/-- A trailer takes the token that tells it apart. -/
theorem turns_trailerRound : Turns T k (trailerRound g) := by
  intro node
  have hblock := lowersAt_block hg hk node
  apply promises_at_current
  intro t
  split
  · exact ((lowersAt_callTrailer hg hk node).at_token ‹_› (by decide)).again.lowered
  · exact ((lowersAt_callTrailer hg hk node).at_token ‹_› (by decide)).again.lowered
  · apply Promises.ite
    · exact lowered_pure _
    · exact ((lowersAt_scopeTrailer hg hk node).at_token ‹_› (by decide)).again.lowered
  · apply Promises.ite
    · exact lowered_pure _
    · exact ((lowersAt_indexTrailer hg hk node).at_token ‹_› (by decide)).again.lowered
  · apply Promises.ite
    · exact (hblock.at_token ‹_› (by decide)).again.lowered
    · exact lowered_pure _
  · apply promises_look doBinds_run
    intro binds
    apply Promises.ite
    · exact (hblock.at_token ‹_› (by decide)).again.lowered
    · exact lowered_pure _
  · exact lowered_pure _

/-- An operand takes what its primary does. -/
theorem lowers_operand : Lowers T k (operand g) := by
  apply (lowers_primary hg hk).bind
  intro n
  exact hg.keeps_loop (fun _ hj => turns_trailerRound hg (Nat.le_of_lt hj)) hk n

/-- What `defined?` asks about. -/
theorem keeps_testedOperand : Keeps T k (testedOperand g) := by
  apply (leaves_look fun s => seesGlued_run s .lpar).cond
  · apply leaves_advance.bind
    intro _
    apply leaves_skipNewlines.bind
    intro _
    apply (hg.keeps .sequence hk).bind
    intro inner
    apply leaves_skipNewlines.bind
    intro _
    exact (leaves_expect .rpar).bind fun _ => leaves_pure _
  · exact hg.keeps .unary hk

/-- A `defined?` takes its keyword. -/
theorem lowersAt_definedTest : LowersAt T k (definedTest g) :=
  promises_take fun _ _ => (keeps_testedOperand hg hk).bind fun _ => leaves_build ..

/-- A sign is taken in front of its operand. -/
theorem lowersAt_unaryOperation (tighter : Phrase) : LowersAt T k (unaryOperation g tighter) :=
  promises_take fun _ _ => (hg.keeps tighter hk).bind fun _ => leaves_build ..

/-- An operand takes its sign or what it takes without one. -/
theorem lowers_unary : Lowers T k (unary g) := by
  apply promises_if_seesAny (by decide)
  · exact lowersAt_unaryOperation hg hk .unary
  · apply promises_if_sees
    · exact (lowersAt_definedTest hg hk).at_kind .kwDefined nofun
    · exact lowers_operand hg hk

/-- A power need not have an exponent. -/
theorem keeps_power (base : Node) : Keeps T k (power g base) := by
  apply (leaves_look fun s => sees_run s .pow).cond
  · apply leaves_advance.bind
    intro operator
    apply leaves_skipNewlines.bind
    intro _
    exact (hg.keeps .signed hk).bind fun _ => leaves_build ..
  · exact leaves_pure _

/-- A minus sign is taken in front of its operand. -/
theorem lowers_signed : Lowers T k (signed g) := by
  apply promises_if_sees
  · apply promises_take_kind .minus nofun
    intro sign _
    apply promises_look current_run
    intro number
    apply Promises.ite
    · have hnumber : Keeps T k (negativeNumber sign) :=
        leaves_advance.bind fun _ => leaves_build ..
      exact hnumber.bind (keeps_power hg hk)
    · exact (hg.keeps .signed hk).bind fun _ => leaves_build ..
  · exact (lowers_unary hg hk).bind (keeps_power hg hk)

end Operands

/-- A round of a level takes an operator, or it is the last one. -/
theorem turns_binaryRound (operators : List Kind) {tighter : Parser Node}
    (htighter : Lowers T k tighter) : Turns T k (binaryRound operators tighter) := by
  intro left
  apply (leaves_look fun s => seesAny_run s operators).cond
  · apply Promises.lowered
    apply leaves_advance.bind
    intro operator
    apply leaves_skipNewlines.bind
    intro _
    apply htighter.bind
    intro right
    exact (leaves_build ..).again
  · exact lowered_pure _

section Levels

variable (hg : g.Bounded T n)

include hg

/-- The levels below have to be known for every number of tokens, since the rounds of a level are
read with fewer and fewer of them. -/
theorem lowers_leftAssociative (hk : k ≤ n) (operators : List Kind) {tighter : Parser Node}
    (htighter : ∀ j, j ≤ n → Lowers T j tighter) :
    Lowers T k (leftAssociative g operators tighter) := by
  apply (htighter k hk).bind
  intro left
  exact hg.keeps_loop
    (fun j hj => turns_binaryRound operators (htighter j (Nat.le_of_lt hj))) hk left

/-- All levels of operators take what their first operand does, by induction on the levels. -/
theorem lowers_operation (levels : List (List Kind)) (j : Nat) (hj : j ≤ n) :
    Lowers T j (operation g levels) := by
  induction levels generalizing j with
  | nil => exact lowers_signed hg hj
  | cons operators tighter ih => exact lowers_leftAssociative hg hj operators ih

variable (hk : k ≤ n)

include hk

/-- A range takes what its lower bound does. -/
theorem lowers_range : Lowers T k (range g) := by
  have hoperation := lowers_operation hg binaryLevels k hk
  have hupper : Keeps T k (upperBound g) := by
    apply (leaves_look fun s => seesClass_run s _).cond
    · exact leaves_pure _
    · exact hoperation.fewer
  apply hoperation.bind
  intro lower
  apply (leaves_look fun s => seesAny_run s _).cond
  · apply leaves_advance.bind
    intro operator
    exact hupper.bind fun _ => leaves_build ..
  · exact leaves_pure _

/-- The first branch of a choice, up to its colon. -/
theorem keeps_chosenBranch : Keeps T k (chosenBranch g) := by
  apply (hg.keeps .choice hk).bind
  intro chosen
  apply leaves_skipNewlines.bind
  intro _
  apply (leaves_expectOr .colon (fun _ => .missingTernaryColon) fun _ => nofun).bind
  intro _
  exact leaves_pure _

/-- A label in the first branch gives its colon back. -/
theorem keeps_firstBranch : Keeps T k (firstBranch g) := by
  apply promises_look current_run
  intro t
  split
  · exact leaves_advance.bind keeps_nameReference
  · exact ((leaves_advance.bind fun _ => leaves_build ..).bind fun _ => leaves_pure _)
  · exact keeps_chosenBranch hg hk

/-- A choice takes what its test does. -/
theorem lowers_choice : Lowers T k (choice g) := by
  apply (lowers_range hg hk).bind
  intro test
  apply (leaves_accept .qmark).cond
  · apply leaves_skipNewlines.bind
    intro _
    apply (keeps_firstBranch hg hk).bind
    intro first
    apply leaves_skipNewlines.bind
    intro _
    exact (hg.keeps .choice hk).bind fun _ => leaves_build ..
  · exact leaves_pure _

/-- An assignment takes what its target does. -/
theorem lowers_assignment : Lowers T k (assignment g) := by
  apply (lowers_choice hg hk).bind
  intro left
  apply promises_look fun s => seesAny_run s _
  intro seen
  apply Promises.ite
  · apply leaves_advance.bind
    intro operator
    apply leaves_skipNewlines.bind
    intro _
    apply (keeps_toTarget left).bind
    intro target
    exact (hg.keeps .assignment hk).bind fun _ => leaves_build ..
  · exact leaves_pure _

omit hk in
/-- `not` is taken in front of its expression. -/
theorem lowers_negation (j : Nat) (hj : j ≤ n) : Lowers T j (negation g) := by
  apply promises_if_sees
  · exact (lowersAt_unaryOperation hg hj .negation).at_kind .kwNot nofun
  · exact lowers_assignment hg hj

/-- Expressions joined by `and` and `or` take what the first one does. -/
theorem lowers_sequence : Lowers T k (sequence g) :=
  lowers_leftAssociative hg hk _ (lowers_negation hg)

end Levels

section Statements

variable (hg : g.Bounded T n) (hk : k ≤ n)

include hg hk

/-- A target takes what its operand does. -/
theorem lowers_targetOperand : Lowers T k (targetOperand g) :=
  (lowers_operand hg hk).bind keeps_toTarget

/-- A target with a star takes the star. -/
theorem lowersAt_splatTarget (closer : Kind) : LowersAt T k (splatTarget g closer) := by
  have hvariable : Keeps T k (splatVariable g closer) := by
    apply (leaves_look fun s => seesAny_run s _).cond
    · exact leaves_pure _
    · exact (lowers_targetOperand hg hk).fewer.bind fun _ => leaves_pure _
  exact promises_take fun _ _ => hvariable.bind fun _ => leaves_build ..

/-- A target takes a star, a parenthesis or an operand. -/
theorem lowers_target (closer : Kind) : Lowers T k (target g closer) := by
  apply promises_if_sees
  · exact (lowersAt_splatTarget hg hk closer).at_kind .star nofun
  · apply promises_if_sees
    · exact promises_take_kind .lpar nofun fun _ _ => hg.keeps _ hk
    · exact lowers_targetOperand hg hk

/-- A round of a list of targets takes a target, also where it is the last one. -/
theorem lowers_targetRound (closer : Kind) (found : List Node) :
    Lowers T k (targetRound g closer found) := by
  apply (lowers_target hg hk closer).bind
  intro next
  apply (leaves_accept .comma).cond
  · exact (leaves_look fun s => sees_run s closer).cond (leaves_pure _) (leaves_pure _)
  · exact leaves_pure _

/-- The bound need not exceed the number of tokens ahead by more than one. -/
theorem keeps_targets (closer : Kind) : Keeps T (k + 1) (targets g closer) :=
  keeps_of_lowersUnless (hg.lowersUnless_loop
    (fun _ hj => turns_of_lowers (lowers_targetRound hg hj closer)) hk [])

/-- Targets in parentheses take at least one target. -/
theorem lowers_targetGroup (opener : Token) : Lowers T k (targetGroup g opener) := by
  apply (keeps_targets hg hk .rpar).bind
  intro inner
  exact (lowers_expect .rpar nofun).bind fun _ => leaves_build ..

/-- The values on the right side of several targets. -/
theorem keeps_assignedValues : Keeps T k (assignedValues g) := by
  apply (keeps_elements hg hk fun _ hj => lowers_splatOr (hg.read .assignment hj)).bind
  intro values
  split
  · exact promises_fail fun _ => nofun
  · exact leaves_pure _
  · exact leaves_build ..

/-- The equals sign is taken, whatever there is in front of it. -/
theorem lowers_multipleAssignment : Lowers T k (multipleAssignment g) := by
  apply promises_look current_run
  intro start
  apply (keeps_targets hg hk .assign).bind
  intro left
  apply (leaves_build ..).bind
  intro tuple
  apply (lowers_expect .assign nofun).bind
  intro _
  apply leaves_skipNewlines.bind
  intro _
  exact (keeps_assignedValues hg hk).bind fun _ => leaves_build ..

/-- A condition behind a statement takes its keyword. -/
theorem lowersAt_conditionModifier (kind : Syntax.Kind) (node : Node) :
    LowersAt T k (conditionModifier g kind node) :=
  promises_take fun _ _ => (lowers_sequence hg hk).fewer.bind fun _ => leaves_build ..

/-- A `rescue` behind a statement takes its keyword. -/
theorem lowersAt_rescueModifier (node : Node) : LowersAt T k (rescueModifier g node) :=
  promises_take fun _ _ => (lowers_sequence hg hk).fewer.bind fun _ => leaves_build ..

/-- A round of modifiers takes a keyword, or it is the last one. -/
theorem turns_modifierRound : Turns T k (modifierRound g) := by
  intro node
  have hcondition := fun kind => lowersAt_conditionModifier hg hk kind node
  apply promises_at_current
  intro t
  split
  · exact ((hcondition _).at_token ‹_› (by decide)).again.lowered
  · exact ((hcondition _).at_token ‹_› (by decide)).again.lowered
  · exact ((hcondition _).at_token ‹_› (by decide)).again.lowered
  · exact ((hcondition _).at_token ‹_› (by decide)).again.lowered
  · exact ((lowersAt_rescueModifier hg hk node).at_token ‹_› (by decide)).again.lowered
  · exact lowered_pure _

omit hg hk in
/-- Looking for targets takes nothing. -/
theorem keeps_seesTargets : Keeps T k seesTargets := by
  have hget : ∀ s : State, (get : Parser State) s = .ok (s, s) := fun _ => rfl
  apply promises_look hget
  intro s
  apply promises_look fun s => isLocal_run s _
  intro known
  exact (leaves_pure _).ite (leaves_pure _)

/-- A statement takes what its head does. -/
theorem lowers_statement : Lowers T k (statement g) := by
  have hhead : Lowers T k (statementHead g) :=
    keeps_seesTargets.cond (lowers_multipleAssignment hg hk) (lowers_sequence hg hk)
  apply hhead.bind
  intro first
  exact hg.keeps_loop (fun _ hj => turns_modifierRound hg (Nat.le_of_lt hj)) hk first

/-- Every phrase takes a token, one more than the rules below it have to reckon with. -/
theorem lowers_production (phrase : Phrase) : Lowers T k (production g phrase) := by
  cases phrase with
  | statement => exact lowers_statement hg hk
  | sequence => exact lowers_sequence hg hk
  | negation => exact lowers_negation hg k hk
  | assignment => exact lowers_assignment hg hk
  | choice => exact lowers_choice hg hk
  | operation => exact lowers_operation hg binaryLevels k hk
  | signed => exact lowers_signed hg hk
  | unary => exact lowers_unary hg hk
  | operand => exact lowers_operand hg hk
  | parameterGroup opener inBlock => exact lowers_parameterGroup hg hk inBlock opener
  | targetGroup opener => exact lowers_targetGroup hg hk opener
  | conditional keyword => exact leaves_conditional hg hk (lowers_sequence hg hk) keyword

end Statements

/-- The rules for a number of tokens are bounded by it: nesting to that depth is enough. -/
theorem bounded_rulesFor (T : Token → Prop) (n : Nat) : (rulesFor n).Bounded T n := by
  induction n with
  | zero => exact ⟨Nat.zero_lt_one, fun _ _ hk => absurd hk (Nat.not_lt_zero _)⟩
  | succ n ih =>
    exact ⟨Nat.lt_succ_self _, fun phrase _ hk =>
      lowers_production ih (Nat.le_of_lt_succ hk) phrase⟩

/-- A program leaves no more tokens ahead than there are, and fails only for a reason in them. -/
theorem keeps_program (hg : g.Bounded T n) (hk : k ≤ n) : Keeps T k (program g) := by
  apply promises_look current_run
  intro start
  apply (keeps_statements hg hk []).bind
  intro found
  exact (leaves_expectOr .eof .unexpected fun _ => nofun).bind fun _ => leaves_build ..

end XhrKeywords.Grammar
