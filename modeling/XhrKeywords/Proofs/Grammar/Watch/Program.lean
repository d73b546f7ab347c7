import XhrKeywords.Grammar.Program
import XhrKeywords.Proofs.Grammar.Watch.Primary
import XhrKeywords.Proofs.Outcome

/-!
# Watching programs

Operands, operations and statements close the circle, so that every production over rules of every
depth builds trees of which the watch knows what it says. Main statements: `watched_readTo` and
`program_of_tokens`.
-/

namespace XhrKeywords.Grammar

open Syntax hiding Kind
open Token (Kind)

variable {W : Watch} {g : Rules} {found : List Node} {n : Node}

/-- An operation lies where its left operand starts. -/
theorem builds_joined {left right : Node} (hleft : W.Knows .value left)
    (hright : W.Knows .value right) (operator : Token) :
    W.Builds .value (build .binop [left, leafAs .operator operator, right] (ofNode left)) :=
  builds_rule (W.starts hleft) fun _ hspan =>
    .operation (.inl rfl) hspan hleft (W.operator operator) hright

section Operands

variable (hcalls : W.Calls) (hg : g.Watched W)

include hcalls hg

/-- Behind a double colon stands a constant or the name of a method. -/
theorem builds_scopeTrailer (hn : W.Knows .value n) :
    W.BuildsAt W.Takes .value (scopeTrailer g n) := by
  have hcall : W.Builds .value (methodCall g n .colon2) := hcalls.methodCall hg hn .colon2
  apply tells_take
  intro _ _
  apply tells_second.next
  intro behind
  apply tells_seen
  · apply Watch.TellsAt.ite
    · apply tells_take_kind .const nofun
      intro name hkind hname
      exact builds_rule (W.starts hn) fun _ hspan =>
        .const hspan (W.present hn) (hname.leafAs hkind rfl rfl)
    · exact hcall.any
  · exact hcall

/-- A call behind a dot is a value. -/
theorem builds_callTrailer (hn : W.Knows .value n) :
    W.BuildsAt W.Takes .value (callTrailer g n) := by
  apply tells_take
  intro operator _
  apply tells_skipNewlines.next
  intro _
  exact hcalls.methodCall hg hn operator.kind

omit hcalls in
/-- An index of a value is a value. -/
theorem builds_indexTrailer (hn : W.Knows .value n) :
    W.BuildsAt W.Takes .value (indexTrailer g n) := by
  apply (builds_delimitedArguments hg (W.takesAny [.rbrack] (by decide))).bind
  intro found hfound
  exact builds_rule (W.starts hn) fun _ hspan => .index hspan hn hfound

/-- A trailer is told apart by its first token. -/
theorem tells_trailerRound (hn : W.Knows .value n) : W.Grows (trailerRound g n) := by
  apply tells_at_current
  intro t _ _
  have hdone : W.TellsAt (· = t) (Round.All (W.Knows .value) (W.Knows .value))
      (pure (.done n)) := tells_pure hn
  have hblock (hkind : t.kind ≠ .eof) : W.TellsAt (· = t)
      (Round.All (W.Knows .value) (W.Knows .value)) (again (block g n)) :=
    tells_again ((builds_block hg hn).at_taken rfl hkind)
  split
  · exact tells_again ((builds_callTrailer hcalls hg hn).at_taken ‹_› (by decide))
  · exact tells_again ((builds_callTrailer hcalls hg hn).at_taken ‹_› (by decide))
  · exact hdone.ite (tells_again ((builds_scopeTrailer hcalls hg hn).at_taken ‹_› (by decide)))
  · exact hdone.ite (tells_again ((builds_indexTrailer hg hn).at_taken ‹_› (by decide)))
  · rename_i hkind
    exact (hblock (by rw [hkind]; decide)).ite hdone
  · rename_i hkind
    exact tells_look doBinds_run fun _ => (hblock (by rw [hkind]; decide)).ite hdone
  · exact hdone

/-- A primary stays a value with all that follows it. -/
theorem builds_operand : W.Builds .value (operand g) := by
  apply (builds_primary hcalls hg).bind
  intro n hn
  exact tells_loop (fun _ => tells_trailerRound hcalls hg) hn

omit hcalls in
/-- What `defined?` asks about is a value. -/
theorem builds_testedOperand : W.Builds .value (testedOperand g) := by
  apply tells_if_seesGlued
  · apply tells_take_kind .lpar nofun
    intro _ _ _
    apply tells_skipNewlines.next
    intro _
    apply (hg.value .sequence rfl).bind
    intro inner hinner
    apply tells_skipNewlines.next
    intro _
    exact (tells_expect .rpar nofun).next fun _ => tells_pure hinner
  · exact hg.value .unary rfl

omit hcalls in
/-- A `defined?` is a value. -/
theorem builds_definedTest : W.BuildsAt W.Takes .value (definedTest g) := by
  apply tells_take
  intro keyword hkeyword
  apply (builds_testedOperand hg).bind
  intro tested htested
  exact builds_rule hkeyword.starts fun _ hspan => .single (.inr rfl) hspan htested

omit hcalls in
/-- A sign with its operand is a value. -/
theorem builds_unaryOperation {tighter : Phrase} (htighter : tighter.isValue) :
    W.BuildsAt W.Takes .value (unaryOperation g tighter) := by
  apply tells_take
  intro operator hoperator
  apply (hg.value tighter htighter).bind
  intro inner hinner
  exact builds_rule hoperator.starts fun _ hspan => .unop hspan (W.operator operator) hinner

/-- An operand with or without a sign in front is a value. -/
theorem builds_unary : W.Builds .value (unary g) := by
  apply tells_if_seesAny (W.takesAny _ (by decide))
  · exact builds_unaryOperation hg rfl
  · apply tells_if_sees
    · exact (builds_definedTest hg).at_kind _ nofun
    · exact builds_operand hcalls hg

omit hcalls in
/-- A power of a value is a value. -/
theorem builds_power (hn : W.Knows .value n) : W.Builds .value (power g n) := by
  apply tells_if_sees
  · apply tells_take_kind .pow nofun
    intro operator _ _
    apply tells_skipNewlines.next
    intro _
    apply (hg.value .signed rfl).bind
    intro exponent hexponent
    exact builds_joined hn hexponent operator
  · exact tells_pure hn

omit hcalls hg in
/-- A minus sign belongs to the number that it touches. -/
theorem builds_negativeNumber {sign : Token} (hsign : W.Starts (ofToken sign)) :
    W.BuildsAt (fun t => t.kind = .int ∨ t.kind = .float) .value (negativeNumber sign) := by
  apply tells_take_at fun t hkind => W.takes (by rcases hkind with h | h <;> rw [h] <;> decide)
  intro number hkind hnumber
  have hword : W.Word ⟨.token number.kind, "-" ++ number.text, number.span.place⟩ :=
    W.negative hnumber.sound hkind rfl
  exact builds_rule hsign fun _ hspan => .literal (by split <;> rfl) hspan hword

/-- A minus sign with a number is a number, with anything else an operation. -/
theorem builds_signed : W.Builds .value (signed g) := by
  apply tells_if_sees
  · apply tells_take_kind .minus nofun
    intro sign _ hsign
    apply tells_at_current
    intro number _ _
    split
    · rename_i htouching
      have hkind : number.kind = .int ∨ number.kind = .float := by
        simp only [Bool.and_eq_true, Bool.or_eq_true, beq_iff_eq] at htouching
        exact htouching.1
      have hnumber : W.BuildsAt (· = number) .value (negativeNumber sign) :=
        (builds_negativeNumber hsign.starts).weaken fun _ h => h ▸ hkind
      apply hnumber.bind
      intro base hbase
      exact builds_power hg hbase
    · apply (hg.value .signed rfl).any.bind
      intro inner hinner
      exact builds_rule hsign.starts fun _ hspan => .unop hspan (W.operator sign) hinner
  · apply (builds_unary hcalls hg).bind
    intro base hbase
    exact builds_power hg hbase

omit hcalls hg in
/-- One operator of a level with its right operand makes a value grow. -/
theorem tells_binaryRound {operators : List Kind} (hoperators : W.TakesAny operators)
    {tighter : Parser Node} (h : W.Builds .value tighter) (hn : W.Knows .value n) :
    W.Grows (binaryRound operators tighter n) := by
  apply tells_if_seesAny hoperators
  · apply tells_take
    intro operator _
    apply tells_skipNewlines.next
    intro _
    apply h.bind
    intro right hright
    exact tells_again (builds_joined hn hright operator)
  · exact tells_pure hn

omit hcalls hg in
/-- The operands of a level, grouped from the left. -/
theorem builds_leftAssociative {operators : List Kind} (hoperators : W.TakesAny operators)
    {tighter : Parser Node} (h : W.Builds .value tighter) :
    W.Builds .value (leftAssociative g operators tighter) := by
  apply h.bind
  intro left hleft
  exact tells_loop (fun _ => tells_binaryRound hoperators h) hleft

/-- All levels of binary operators, by induction on the levels. -/
theorem builds_operation {levels : List (List Kind)}
    (hlevels : ∀ operators ∈ levels, W.TakesAny operators) :
    W.Builds .value (operation g levels) := by
  induction levels with
  | nil => exact builds_signed hcalls hg
  | cons operators tighter ih =>
    apply builds_leftAssociative (hlevels operators List.mem_cons_self)
    exact ih fun others hothers => hlevels others (List.mem_cons_of_mem _ hothers)

/-- No binary operator is the end of the source. -/
theorem builds_binaryLevels : W.Builds .value (operation g binaryLevels) :=
  builds_operation hcalls hg fun operators hoperators => W.takesAny operators <| by
    revert operators
    decide

/-- The upper bound of a range, or nothing. -/
theorem builds_upperBound : W.Builds .optional (upperBound g) := by
  apply (tells_seesClass _).cond
  · exact tells_pure W.absent
  · exact (builds_binaryLevels hcalls hg).mono fun _ => W.present

/-- A range is a value. -/
theorem builds_range : W.Builds .value (range g) := by
  apply (builds_binaryLevels hcalls hg).bind
  intro lower hlower
  apply tells_if_seesAny (W.takesAny _ (by decide))
  · apply tells_take
    intro operator _
    apply (builds_upperBound hcalls hg).bind
    intro upper hupper
    exact builds_rule (W.starts hlower) fun _ hspan =>
      .range hspan (W.present hlower) (W.operator operator) hupper
  · exact tells_pure hlower

omit hcalls in
/-- The first branch of a choice, up to its colon. -/
theorem builds_chosenBranch : W.Builds .value (chosenBranch g) := by
  apply (hg.value .choice rfl).bind
  intro chosen hchosen
  apply tells_skipNewlines.next
  intro _
  exact (tells_expectOr .colon nofun _).next fun _ => tells_pure hchosen

omit hcalls in
/-- A label in front of the colon of a choice names a variable or a call. -/
theorem builds_firstBranch : W.Builds .value (firstBranch g) := by
  apply tells_at_current
  intro t _ _
  split
  · have hname : W.BuildsAt (·.kind = .label) .value (advance >>= nameReference) :=
      tells_take_kind .label nofun fun _ hkind hlabel => builds_nameReference hlabel.sound hkind
    exact hname.at_token ‹_›
  · apply ((builds_singleAs rfl _).at_visible ‹_› rfl).bind
    intro n hn
    exact tells_pure (hn.mapSpan fun _ hspan => W.shortens hspan rfl)
  · exact (builds_chosenBranch hg).any

/-- A choice is a value, and so is its test alone. -/
theorem builds_choice : W.Builds .value (choice g) := by
  apply (builds_range hcalls hg).bind
  intro test htest
  apply (tells_accept .qmark nofun).cond
  · apply tells_skipNewlines.next
    intro _
    apply (builds_firstBranch hg).bind
    intro first hfirst
    apply tells_skipNewlines.next
    intro _
    apply (hg.value .choice rfl).bind
    intro other hother
    exact builds_rule (W.starts htest) fun _ hspan => .ternary hspan htest hfirst hother
  · exact tells_pure htest

/-- An assignment to what was read as a value. -/
theorem builds_assignment : W.Builds .value (assignment g) := by
  apply (builds_choice hcalls hg).bind
  intro left hleft
  apply tells_seenAny (W.takesAny _ (by decide))
  · apply Watch.TellsAt.ite
    · apply tells_take
      intro operator _
      apply tells_skipNewlines.next
      intro _
      apply (builds_toTarget hleft).bind
      intro target htarget
      apply (hg.value .assignment rfl).bind
      intro value hvalue
      exact builds_rule (W.starts htarget) fun _ hspan =>
        .operation (.inr rfl) hspan htarget (W.operator operator) hvalue
    · exact tells_pure hleft
  · exact tells_pure hleft

/-- `not` with its expression is a value. -/
theorem builds_negation : W.Builds .value (negation g) := by
  apply tells_if_sees
  · exact (builds_unaryOperation hg rfl).at_kind _ nofun
  · exact builds_assignment hcalls hg

/-- Expressions joined by `and` and `or` are a value. -/
theorem builds_sequence : W.Builds .value (sequence g) :=
  builds_leftAssociative (W.takesAny _ (by decide)) (builds_negation hcalls hg)

end Operands

section Statements

variable (hcalls : W.Calls) (hg : g.Watched W) (closer : Kind)

include hcalls hg

/-- A target is read as an operand first. -/
theorem builds_targetOperand : W.Builds .value (targetOperand g) := by
  apply (builds_operand hcalls hg).bind
  intro n hn
  exact builds_toTarget hn

/-- The variable behind a star may be left out. -/
theorem tells_splatVariable :
    W.Tells (fun nodes => W.KnowsAll .value nodes ∧ nodes.length ≤ 1) (splatVariable g closer) := by
  apply (tells_seesAny _).cond
  · exact tells_pure ⟨.nil, Nat.zero_le 1⟩
  · apply (builds_targetOperand hcalls hg).bind
    intro n hn
    exact tells_pure ⟨.one hn, le_rfl⟩

/-- A target with a star is a value. -/
theorem builds_splatTarget : W.BuildsAt W.Takes .value (splatTarget g closer) := by
  apply tells_take
  intro star hstar
  apply (tells_splatVariable hcalls hg closer).bind
  intro inner hinner
  exact builds_rule hstar.starts fun _ hspan => .mark (.inl rfl) hspan hinner.2 hinner.1

/-- One of several targets, by its first token. -/
theorem builds_target : W.Builds .value (target g closer) := by
  apply tells_if_sees
  · exact (builds_splatTarget hcalls hg closer).at_kind _ nofun
  · apply tells_if_sees
    · apply tells_take_kind .lpar nofun
      intro opener _ hopener
      exact hg.targets opener hopener.starts
    · exact builds_targetOperand hcalls hg

/-- One round of a list of targets. -/
theorem tells_targetRound (hfound : W.KnowsAll .value found) :
    W.Gathers .value (targetRound g closer found) := by
  apply (builds_target hcalls hg closer).bind
  intro next hnext
  have hall : W.KnowsAll .value (found ++ [next]) := hfound.concat hnext
  apply (tells_accept .comma nofun).cond
  · exact (tells_sees closer).cond (tells_pure hall) (tells_pure hall)
  · exact tells_pure hall

/-- A list of targets up to its closing mark. -/
theorem builds_targets : W.BuildsAll .value (targets g closer) :=
  tells_loop (fun _ => tells_targetRound hcalls hg closer) Watch.KnowsAll.nil

/-- Targets in parentheses are a value. -/
theorem builds_targetGroup {opener : Token} (hopener : W.Starts (ofToken opener)) :
    W.Builds .value (targetGroup g opener) := by
  apply (builds_targets hcalls hg .rpar).bind
  intro inner hinner
  apply (tells_expect .rpar nofun).next
  intro _
  exact builds_rule hopener fun _ hspan => .series rfl rfl hspan hinner

omit hcalls in
/-- Several values on the right side are one array. -/
theorem builds_assignedValues : W.Builds .value (assignedValues g) := by
  apply (builds_elements (builds_splatOr (hg.value .assignment rfl))).bind
  intro values hvalues
  split
  · exact tells_fail _
  · exact tells_pure (hvalues _ List.mem_cons_self)
  · exact builds_rule (W.starts (hvalues _ List.mem_cons_self)) fun _ hspan =>
      .series rfl rfl hspan hvalues

/-- An assignment to several targets is a value. -/
theorem builds_multipleAssignment : W.BuildsAt W.Takes .value (multipleAssignment g) := by
  apply tells_at_current
  intro start htakes hsound
  have hstart : W.Starts (ofToken start) := W.opens hsound htakes
  apply (builds_targets hcalls hg .assign).any.bind
  intro left hleft
  have htuple : W.Tells (fun n => ∃ tuple, n = .tree .mlhs tuple left ∧ W.Lies .mlhs tuple)
      (build .mlhs left (ofToken start)) :=
    builds_tree hstart fun span hspan => ⟨some span, rfl, hspan⟩
  apply htuple.bind
  rintro _ ⟨tuple, rfl, htuple⟩
  apply (tells_expect .assign nofun).next
  intro _
  apply tells_skipNewlines.next
  intro _
  apply (builds_assignedValues hg).bind
  intro value hvalue
  exact builds_rule hstart fun _ hspan => .masgn hspan htuple hleft hvalue

/-- A statement with a condition behind it is a value. -/
theorem builds_conditionModifier {kind : Syntax.Kind} (hkind : kind = .ifMod ∨ kind = .whileMod)
    (hn : W.Knows .value n) : W.BuildsAt W.Takes .value (conditionModifier g kind n) := by
  apply tells_take
  intro keyword _
  apply (builds_sequence hcalls hg).bind
  intro test htest
  exact builds_rule (W.starts hn) fun _ hspan =>
    .modifier hkind hspan rfl (W.keyword keyword) hn htest

/-- A statement with a `rescue` behind it is a value. -/
theorem builds_rescueModifier (hn : W.Knows .value n) :
    W.BuildsAt W.Takes .value (rescueModifier g n) := by
  apply tells_take
  intro _ _
  apply (builds_sequence hcalls hg).bind
  intro fallback hfallback
  exact builds_rule (W.starts hn) fun _ hspan => .couple (.inr (.inr rfl)) hspan hn hfallback

/-- One modifier makes a statement grow. -/
theorem tells_modifierRound (hn : W.Knows .value n) : W.Grows (modifierRound g n) := by
  have hif := builds_conditionModifier hcalls hg (.inl rfl) hn
  have hwhile := builds_conditionModifier hcalls hg (.inr rfl) hn
  apply tells_at_current
  intro t _ _
  split
  · exact tells_again (hif.at_taken ‹_› (by decide))
  · exact tells_again (hif.at_taken ‹_› (by decide))
  · exact tells_again (hwhile.at_taken ‹_› (by decide))
  · exact tells_again (hwhile.at_taken ‹_› (by decide))
  · exact tells_again ((builds_rescueModifier hcalls hg hn).at_taken ‹_› (by decide))
  · exact tells_pure hn

omit hcalls hg in
/-- Where targets are seen, the source has not ended. -/
theorem of_seesTargets {s t : State} {seen : Bool} (h : seesTargets s = .ok (seen, t)) :
    t = s ∧ (seen = true → s.current.kind ≠ .eof) := by
  have hend {others : List Token} (heof : s.current.kind = .eof) :
      hasTargets 0 false (s.current :: others) = false := by
    simp [hasTargets, heof, endsTargets]
  have hget : (get : Parser State) s = .ok (s, s) := rfl
  rw [seesTargets, bind_of_eq hget, bind_of_eq (isLocal_run ..)] at h
  split at h
  · cases h
    exact ⟨rfl, nofun⟩
  · cases h
    refine ⟨rfl, fun hseen heof => ?_⟩
    rw [hend heof] at hseen
    cases hseen

/-- A statement without its modifiers is a value. -/
theorem builds_statementHead : W.Builds .value (statementHead g) := by
  intro i s n u hs _ hrun
  obtain ⟨seen, t, hsees, hrun⟩ := of_bind hrun
  obtain ⟨rfl, hseen⟩ := of_seesTargets hsees
  cases seen with
  | true => exact builds_multipleAssignment hcalls hg hs (W.takes (hseen rfl)) hrun
  | false => exact builds_sequence hcalls hg hs trivial hrun

/-- A statement with its modifiers is a value. -/
theorem builds_statement : W.Builds .value (statement g) := by
  apply (builds_statementHead hcalls hg).bind
  intro first hfirst
  exact tells_loop (fun _ => tells_modifierRound hcalls hg) hfirst

/-- A condition behind `elsif` stands in the place of another branch. -/
theorem builds_elsif {keyword : Token} (hkeyword : W.Starts (ofToken keyword)) :
    W.Builds .otherwise (conditional g (sequence g) keyword) := by
  apply (builds_conditional hg (builds_sequence hcalls hg) hkeyword).mono
  intro n hn
  have hvalue : W.Knows .value n := hn.knows
  obtain ⟨span, children, rfl, -⟩ := hn
  exact W.rule (.conditional rfl hvalue)

/-- Every phrase that is a value is read as one if those it asks for are. -/
theorem builds_production {phrase : Phrase} (hvalue : phrase.isValue) :
    W.Builds .value (production g phrase) := by
  cases phrase with
  | statement => exact builds_statement hcalls hg
  | sequence => exact builds_sequence hcalls hg
  | negation => exact builds_negation hcalls hg
  | assignment => exact builds_assignment hcalls hg
  | choice => exact builds_choice hcalls hg
  | operation => exact builds_binaryLevels hcalls hg
  | signed => exact builds_signed hcalls hg
  | unary => exact builds_unary hcalls hg
  | operand => exact builds_operand hcalls hg
  | parameterGroup | targetGroup | conditional => cases hvalue

end Statements

/-- Rules of every depth are watched: each level of nesting is because the one below it is. -/
theorem watched_readTo (hcalls : W.Calls) (hallows : ∀ depth, W.Allows (rulesAt depth))
    {limit depth : Nat} (hlimit : W.Allows ⟨limit, readTo depth⟩) :
    Rules.Watched W ⟨limit, readTo depth⟩ := by
  induction depth generalizing limit with
  | zero =>
    have hfail (form : Form) (phrase : Phrase) : W.Builds form (readTo 0 phrase) := tells_fail _
    exact ⟨hlimit, fun phrase _ => hfail _ phrase,
      fun opener inBlock _ => hfail _ (.parameterGroup opener inBlock),
      fun opener _ => hfail _ (.targetGroup opener),
      fun keyword _ => hfail _ (.conditional keyword)⟩
  | succ depth ih =>
    have hg : Rules.Watched W (rulesAt depth) := ih (hallows depth)
    refine ⟨hlimit, ?_, ?_, ?_, ?_⟩
    · intro phrase hvalue
      exact builds_production hcalls hg hvalue
    · intro opener inBlock hopener
      exact builds_parameterGroup hg hopener inBlock
    · intro opener hopener
      exact builds_targetGroup hcalls hg hopener
    · intro keyword hkeyword
      exact builds_elsif hcalls hg hkeyword

/-- What is read from tokens in front of which the condition holds is a program of known
statements. -/
theorem program_of_tokens (hcalls : W.Calls) (hallows : ∀ depth, W.Allows (rulesAt depth))
    {first : Token} {others : List Token} {i : W.Index} (hs : W.Holds i (.start first others))
    (h : parseTokens (first :: others) = .ok n) :
    ∃ span found, n = .tree .program span found ∧ W.KnowsAll .value found := by
  obtain ⟨⟨n, s⟩, hrun, h⟩ := bind_eq_ok_iff.mp h
  cases h
  have hg : (rulesAt (others.length + 2)).Watched W := watched_readTo hcalls hallows (hallows _)
  change program (rulesAt (others.length + 2)) _ = _ at hrun
  rw [program, current_bind] at hrun
  obtain ⟨found, u, hfound, hrun⟩ := of_bind hrun
  obtain ⟨_, v, _, hrun⟩ := of_bind hrun
  cases hrun
  exact ⟨_, found, rfl, (builds_statements hg [] hs trivial hfound).2⟩

end XhrKeywords.Grammar
