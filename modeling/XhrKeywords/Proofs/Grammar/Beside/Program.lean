import XhrKeywords.Grammar.Program
import XhrKeywords.Proofs.Grammar.Beside.Expression

/-!
# Statements beside each other

The circle of the grammar closes here: the rules for any number of tokens read what stands between
braces as the rules for any other number read it between parentheses.
-/

namespace XhrKeywords.Grammar

open Syntax hiding Kind
open Token (Kind)

variable {k l : Int} {g g' : Rules}

/-- Whether a state is in front of a multiple assignment. -/
def State.seesTargets (s : State) : Bool :=
  if s.current.kind == .ident && !s.scope.contains s.current.text && s.second.spaced
      && s.second.kind.startsArgument then false
  else hasTargets 0 false (s.current :: s.ahead)

/-- Whether several targets follow is told by the state alone. -/
theorem seesTargets_eq (s : State) : seesTargets s = .ok (s.seesTargets, s) := by
  have hget : (get : Parser State) s = .ok (s, s) := rfl
  rw [seesTargets, bind_of_eq hget, bind_of_eq (isLocal_run ..), State.seesTargets]
  split <;> rfl

section Stuck

variable {kind : Kind} (hkind : kind = .rbrace ∨ kind = .rpar)

include hkind

/-- A class of kinds that holds of no closer and of no operator that may start an argument holds
of no token in front of which a list ends. -/
theorem State.Ends.holds {s : State} (h : s.Ends kind) (holds : Kind → Bool)
    (hclosers : holds .rbrace = false ∧ holds .rpar = false)
    (hmarks : ∀ mark ∈ [Kind.star, .amp, .pow, .minus, .plus, .colon2], holds mark = false) :
    holds s.current.kind = false := by
  rcases h with h | ⟨h, -⟩
  · rw [h]
    rcases hkind with rfl | rfl
    · exact hclosers.1
    · exact hclosers.2
  · rcases cases_of_startsGluedArgument h with h | h | h | h | h | h <;> rw [h] <;>
      exact hmarks _ (by decide)

/-- No primary starts with a closer, or with an operator that only a closer follows. -/
theorem stuck_primary : Stuck (State.Ends kind) (primary g) := by
  intro s r hs
  rw [primary, bind_of_eq (current_run s)]
  rcases hs with hs | ⟨hglued, hs⟩
  · rw [hs]
    rcases hkind with rfl | rfl <;> exact stuck_fail (C := fun _ => True) _ trivial
  · have hroot : rootConstant s ≠ .ok r := by
      intro hrun
      rw [rootConstant, bind_of_eq (advance_run s)] at hrun
      obtain ⟨_, _, ⟨⟩, hrun⟩ := of_bind hrun
      obtain ⟨_, _, hrun, -⟩ := of_bind hrun
      obtain ⟨_, _, ⟨⟩, hrun⟩ := of_bind hrun
      rw [State.current_advance, hs] at hrun
      rcases hkind with rfl | rfl <;> cases hrun
    rcases cases_of_startsGluedArgument hglued with h | h | h | h | h | h <;> rw [h]
    case inr.inr.inr.inr.inr => exact hroot
    all_goals exact stuck_fail (C := fun _ => True) _ trivial

/-- No operand starts with a closer. -/
theorem stuck_unary (hread : Stuck (State.Before kind) (g.read .unary)) :
    Stuck (State.Ends kind) (unary g) := by
  intro s r hs hrun
  rw [unary, bind_of_eq (seesAny_run ..)] at hrun
  have hdefined : (s.current.kind == .kwDefined) = false :=
    hs.holds hkind (· == .kwDefined) ⟨rfl, rfl⟩ (by decide)
  split at hrun
  · rename_i hoperator
    rcases hs with hs | ⟨-, hs⟩
    · rw [hs] at hoperator
      rcases hkind with rfl | rfl <;> cases hoperator
    · rw [unaryOperation, bind_of_eq (advance_run s)] at hrun
      refine hread.bind ?_ hrun
      rwa [State.Before, State.current_advance]
  · rw [bind_of_eq (sees_run ..), hdefined, if_neg Bool.false_ne_true] at hrun
    exact (stuck_primary hkind).bind hs hrun

/-- A minus sign that only a closer follows has no operand. -/
theorem stuck_signed (hunary : Stuck (State.Before kind) (g.read .unary))
    (hsigned : Stuck (State.Before kind) (g.read .signed)) :
    Stuck (State.Ends kind) (signed g) := by
  intro s r hs hrun
  rw [signed, bind_of_eq (sees_run ..)] at hrun
  split at hrun
  · rename_i hminus
    rcases hs with hs | ⟨-, hs⟩
    · rw [hs] at hminus
      rcases hkind with rfl | rfl <;> cases hminus
    · have hkind' : s.advance.current.kind = kind := by rwa [State.current_advance]
      have hnumber : (kind == .int || kind == .float) = false := by
        rcases hkind with rfl | rfl <;> rfl
      rw [bind_of_eq (advance_run s), bind_of_eq (current_run _), hkind', hnumber, Bool.false_and,
        if_neg Bool.false_ne_true] at hrun
      exact hsigned.bind hkind' hrun
  · exact (stuck_unary hkind hunary).bind hs hrun

variable (hread : ∀ phrase : Phrase, phrase.isExpression = true →
  Stuck (State.Before kind) (g.read phrase))

include hread

/-- No operation starts with a closer, by induction on the levels. -/
theorem stuck_operation (levels : List (List Kind)) :
    Stuck (State.Ends kind) (operation g levels) := by
  induction levels with
  | nil => exact stuck_signed hkind (hread .unary rfl) (hread .signed rfl)
  | cons operators tighter ih => exact ih.bind

/-- No choice starts with a closer. -/
theorem stuck_choice : Stuck (State.Ends kind) (choice g) :=
  Stuck.bind (Stuck.bind (stuck_operation hkind hread binaryLevels))

/-- No assignment starts with a closer. -/
theorem stuck_assignment : Stuck (State.Ends kind) (assignment g) :=
  (stuck_choice hkind hread).bind

/-- No negation starts with a closer. -/
theorem stuck_negation : Stuck (State.Ends kind) (negation g) := by
  intro s r hs hrun
  have hnot : (s.current.kind == .kwNot) = false :=
    hs.holds hkind (· == .kwNot) ⟨rfl, rfl⟩ (by decide)
  rw [negation, bind_of_eq (sees_run ..), hnot, if_neg Bool.false_ne_true] at hrun
  exact stuck_assignment hkind hread hs hrun

/-- No sequence starts with a closer. -/
theorem stuck_sequence : Stuck (State.Ends kind) (sequence g) :=
  (stuck_negation hkind hread).bind

omit hread in
/-- Neither a closer nor an operator in front of it starts a list of targets. -/
theorem hasTargets_ends {s : State} (h : s.Ends kind) :
    hasTargets 0 false (s.current :: s.ahead) = false := by
  rcases h with h | ⟨hglued, h⟩
  · rw [hasTargets, h]
    rcases hkind with rfl | rfl <;> rfl
  · obtain ⟨current, ahead, previous, blocked, scope, outer⟩ := s
    cases ahead with
    | nil =>
      change current.kind = kind at h
      rw [show current.kind = kind from h] at hglued
      rcases hkind with rfl | rfl <;> cases hglued
    | cons next others =>
      change next.kind = kind at h
      dsimp only
      rw [hasTargets]
      rcases cases_of_startsGluedArgument hglued with h' | h' | h' | h' | h' | h' <;> rw [h'] <;>
        (change hasTargets 0 false (next :: others) = false
         rw [hasTargets, h]
         rcases hkind with rfl | rfl <;> rfl)

/-- No statement without modifiers starts with a closer. -/
theorem stuck_statementHead : Stuck (State.Ends kind) (statementHead g) := by
  intro s r hs hrun
  have htargets : s.seesTargets = false := by
    rw [State.seesTargets]
    split
    · rfl
    · exact hasTargets_ends hkind hs
  rw [statementHead, bind_of_eq (seesTargets_eq s), htargets, if_neg Bool.false_ne_true] at hrun
  exact stuck_sequence hkind hread hs hrun

/-- No statement starts with a closer. -/
theorem stuck_statement : Stuck (State.Ends kind) (statement g) :=
  (stuck_statementHead hkind hread).bind

/-- No expression is read at a closer. -/
theorem stuck_production {phrase : Phrase} (h : phrase.isExpression = true) :
    Stuck (State.Ends kind) (production g phrase) := by
  cases phrase with
  | statement => exact stuck_statement hkind hread
  | sequence => exact stuck_sequence hkind hread
  | negation => exact stuck_negation hkind hread
  | assignment => exact stuck_assignment hkind hread
  | choice => exact stuck_choice hkind hread
  | operation => exact stuck_operation hkind hread binaryLevels
  | signed => exact stuck_signed hkind (hread .unary rfl) (hread .signed rfl)
  | unary => exact stuck_unary hkind (hread .unary rfl)
  | operand => exact (stuck_primary hkind).bind
  | parameterGroup | targetGroup | conditional => cases h

omit hread in
/-- No expression is read at a closer to any depth, by induction on the depth. -/
theorem stuck_readTo (depth : Nat) {phrase : Phrase} (h : phrase.isExpression = true) :
    Stuck (State.Ends kind) (readTo depth phrase) := by
  induction depth generalizing phrase with
  | zero => exact stuck_fail _
  | succ depth ih =>
    exact stuck_production (g := rulesAt depth) hkind
      (fun _ hphrase => (ih hphrase).of_imp fun _ => .inl) h

end Stuck

/-- A closing bracket ends the tokens or closes the bracket that was opened last. -/
theorem hasTargets_closer {t : Token} (h : t.kind = .rbrace ∨ t.kind = .rpar) (others : List Token)
    (depth : Nat) (comma : Bool) :
    hasTargets depth comma (t :: others) =
      match depth with
      | 0 => false
      | outer + 1 => hasTargets outer comma others := by
  cases depth <;> rcases h with h | h <;> simp only [hasTargets, h]

/-- Behind the brace there is nothing to assign to. -/
theorem hasTargets_tail {tokens : List Token} (h : ∀ t ∈ tokens, isTail t.kind = true) (depth : Nat)
    (comma : Bool) : hasTargets depth comma tokens = false := by
  induction tokens generalizing depth with
  | nil => rfl
  | cons t others ih =>
    rw [List.forall_mem_cons] at h
    have hkind : t.kind = .rpar ∨ t.kind = .eof := by
      have htail := h.1
      rwa [isTail, Bool.or_eq_true, beq_iff_eq, beq_iff_eq] at htail
    rcases hkind with hkind | hkind
    · rw [hasTargets_closer (.inr hkind)]
      cases depth with
      | zero => rfl
      | succ outer => exact ih h.2 outer
    · cases depth with
      | zero => simp only [hasTargets, hkind]; rfl
      | succ outer => simp only [hasTargets, hkind]; exact ih h.2 _

/-- What there is to assign to lies inside. -/
theorem hasTargets_closed {tokens tokens' : List Token} (h : Closed k l tokens tokens')
    (depth : Nat) (comma : Bool) :
    hasTargets depth comma tokens' = hasTargets depth comma tokens := by
  induction h generalizing depth comma with
  | closer brace paren _ tail tail' =>
    rw [hasTargets_closer (.inr paren), hasTargets_closer (.inl brace)]
    cases depth with
    | zero => rfl
    | succ outer =>
      exact (hasTargets_tail tail' outer comma).trans (hasTargets_tail tail outer comma).symm
  | token displaced _ ih => cases depth <;> simp only [hasTargets, displaced.kind, ih]

/-- A look ahead for targets ends at either closer. -/
theorem agrees_seesTargets : Agrees k l seesTargets seesTargets := by
  refine agrees_look seesTargets_eq fun s s' hs => ?_
  have htargets : hasTargets 0 false (s'.current :: s'.ahead) =
      hasTargets 0 false (s.current :: s.ahead) := hasTargets_closed hs.tokens 0 false
  have hsecond : (s'.second.spaced && s'.second.kind.startsArgument) =
      (s.second.spaced && s.second.kind.startsArgument) := by
    rcases hs.second with ⟨hkind, -, hspaced⟩ | ⟨hend, hend'⟩
    · rw [hkind, hspaced]
    · have hstarts {kind : Kind} (h : isEnd kind = true) : kind.startsArgument = false := by
        revert h
        cases kind <;> decide
      rw [hstarts hend, hstarts hend', Bool.and_false, Bool.and_false]
  change s.seesTargets = s'.seesTargets
  rw [State.seesTargets, State.seesTargets, htargets, Bool.and_assoc, Bool.and_assoc, hs.scope,
    Bool.and_assoc, Bool.and_assoc, hsecond]
  rcases hs.faces with hcurrent | ⟨hbrace, hparen⟩
  · rw [hcurrent.kind, hcurrent.text]
  · rw [hbrace, hparen]
    rfl

/-- No target is read in front of a closer. -/
theorem stuck_targetOperand {kind : Kind} (hkind : kind = .rbrace ∨ kind = .rpar) :
    Stuck (State.Before kind) (targetOperand g) :=
  (stuck_primary hkind).bind.bind.of_imp fun _ => .inl

/-- A target is read as an operand first. -/
theorem agrees_targetOperand (hg : g.Beside k l g') :
    Agrees k l (targetOperand g) (targetOperand g') :=
  (agrees_operand hg).bind fun _ _ => agrees_toTarget

/-- Where one run leaves the variable behind a star out at its closer, the other one has no target
to read. -/
theorem agrees_splatVariable (hg : g.Beside k l g') (closer : Kind) :
    Agrees k l (splatVariable g closer) (splatVariable g' closer) := by
  refine .branch [.comma, closer].contains (agrees_pure alike_nil) ?_
    (stuck_targetOperand (.inl rfl)).bind (stuck_targetOperand (.inr rfl)).bind
  exact (agrees_targetOperand hg).bind fun _ _ hn => agrees_pure (alike_cons hn alike_nil)

/-- A target with a star. -/
theorem agrees_splatTarget (hg : g.Beside k l g') (closer : Kind) :
    Agrees k l (splatTarget g closer) (splatTarget g' closer) :=
  agrees_advance.bind fun _ _ _ => (agrees_splatVariable hg closer).bind fun _ _ hinner =>
    agrees_build .splat _ _ hinner

/-- One of several targets, by its first token. -/
theorem agrees_target (hg : g.Beside k l g') (closer : Kind) :
    Agrees k l (target g closer) (target g' closer) := by
  refine (agrees_sees rfl).test (agrees_splatTarget hg closer) ?_
  refine (agrees_sees rfl).test ?_ (agrees_targetOperand hg)
  exact agrees_advance.bind fun opener opener' _ => hg.read (.targetGroup opener opener')

/-- The targets that are still to be read, round by round. -/
theorem rounds_targetRound (fewer : Nat) (closer : Kind) (found : List Node) :
    rounds (fewer + 1) (targetRound g closer) found = (do
      let next ← target g closer
      if ← accept .comma then
        if ← seesClass (· == closer) then return found ++ [next]
        else rounds fewer (targetRound g closer) (found ++ [next])
      else return found ++ [next]) := by
  rw [rounds, targetRound, bind_assoc]
  refine bind_congr fun next => ?_
  rw [bind_assoc]
  refine bind_congr fun more => ?_
  cases more with
  | false => rfl
  | true =>
    rw [if_pos rfl, if_pos rfl, bind_assoc]
    refine bind_congr fun closed => ?_
    cases closed <;> rfl

/-- A list of targets does not go on in front of a closer. -/
theorem stuck_targets {kind : Kind} (hkind : kind = .rbrace ∨ kind = .rpar) (limit : Nat)
    (closer : Kind) (found : List Node) :
    Stuck (State.Before kind) (rounds limit (targetRound g closer) found) := by
  cases limit with
  | zero => exact stuck_fail _
  | succ fewer =>
    rw [rounds_targetRound]
    refine Stuck.bind ?_
    intro s r hs
    have hmarks : (kind == .star) = false ∧ (kind == .lpar) = false := by
      rcases hkind with rfl | rfl <;> exact ⟨rfl, rfl⟩
    rw [target, bind_of_eq (sees_run ..), show s.current.kind = kind from hs, hmarks.1,
      if_neg Bool.false_ne_true, bind_of_eq (sees_run ..), show s.current.kind = kind from hs,
      hmarks.2, if_neg Bool.false_ne_true]
    exact stuck_targetOperand hkind hs

/-- Behind a comma one of the runs may take its closer for the end of the targets; the other one
looks for a target there. -/
theorem agrees_targets (hg : g.Beside k l g') (closer : Kind) :
    Agrees k l (targets g closer) (targets g' closer) := by
  have hround (found : List Node) : Maintains State.Outside (targetRound g closer found) :=
    (agrees_target hg closer).stays.bind fun _ _ => (maintains_accept .comma).bind fun _ _ =>
      .ite ((maintains_sees closer).bind fun _ _ => .ite (maintains_pure _) (maintains_pure _))
        (maintains_pure _)
  have hrounds (limit limit' : Nat) {found found' : List Node} (hfound : Alike found found') :
      Agrees k l (rounds limit (targetRound g closer) found)
        (rounds limit' (targetRound g' closer) found') := by
    induction limit generalizing limit' found found' with
    | zero => exact agrees_fail _ _
    | succ fewer ih =>
      cases limit' with
      | zero => exact agrees_of_fail (maintains_rounds _ hround _) _
      | succ fewer' =>
        rw [rounds_targetRound, rounds_targetRound]
        refine (agrees_target hg closer).bind fun next next' hnext => (agrees_accept rfl).test ?_ ?_
        · exact .branch (· == closer) (agrees_pure (alike_concat hfound hnext))
            (ih fewer' (alike_concat hfound hnext)) (stuck_targets (.inl rfl) _ _ _)
            (stuck_targets (.inr rfl) _ _ _)
        · exact agrees_pure (alike_concat hfound hnext)
  exact hrounds _ _ alike_nil

/-- Targets in parentheses are closed by a parenthesis of their own. -/
theorem agrees_targetGroup (hg : g.Beside k l g') (opener opener' : Token) :
    Agrees k l (targetGroup g opener) (targetGroup g' opener') :=
  (agrees_targets hg .rpar).bind fun _ _ hinner => (agrees_expect .rpar).bind fun _ _ _ =>
    agrees_build .mlhs _ _ hinner

/-- Several values on the right side are one array. -/
theorem agrees_assignedValues (hg : g.Beside k l g') :
    Agrees k l (assignedValues g) (assignedValues g') := by
  refine (agrees_elements (agrees_splatOr (hg.phrase .assignment))).bind fun nodes nodes' h => ?_
  have hlength := length_eq_of_alike h
  match nodes, nodes' with
  | [], [] => exact agrees_fail _ _
  | [only], [only'] => exact agrees_pure (List.singleton_inj.mp h)
  | first :: second :: others, first' :: second' :: others' => exact agrees_build .array _ _ h

/-- Several targets, an equals sign and the values. -/
theorem agrees_multipleAssignment (hg : g.Beside k l g') :
    Agrees k l (multipleAssignment g) (multipleAssignment g') := by
  refine Agrees.current fun start start' _ => (agrees_targets hg .assign).bind fun _ _ hleft =>
    (agrees_build .mlhs _ _ hleft).bind fun _ _ htuple => (agrees_expect .assign).bind
      fun _ _ _ => agrees_skipNewlines.bind fun _ _ _ => ?_
  exact (agrees_assignedValues hg).bind fun _ _ hvalue =>
    agrees_build .masgn _ _ (alike_cons htuple (alike_cons hvalue alike_nil))

/-- A condition behind a statement. -/
theorem agrees_conditionModifier (hg : g.Beside k l g') (kind : Syntax.Kind) {n n' : Node}
    (hn : Alike n n') : Agrees k l (conditionModifier g kind n) (conditionModifier g' kind n') :=
  agrees_advance.bind fun _ _ hkeyword => (agrees_sequence hg).bind fun _ _ htest =>
    agrees_build kind _ _
      (alike_cons (alike_leafAs hkeyword _) (alike_cons hn (alike_cons htest alike_nil)))

/-- A `rescue` behind a statement. -/
theorem agrees_rescueModifier (hg : g.Beside k l g') {n n' : Node} (hn : Alike n n') :
    Agrees k l (rescueModifier g n) (rescueModifier g' n') :=
  agrees_advance.bind fun _ _ _ => (agrees_sequence hg).bind fun _ _ hfallback =>
    agrees_build .rescueMod _ _ (alike_cons hn (alike_cons hfallback alike_nil))

/-- One modifier behind a statement; no closer is one. -/
theorem agrees_modifierRound (hg : g.Beside k l g') {n n' : Node} (hn : Alike n n') :
    Agrees k l (modifierRound g n) (modifierRound g' n') := by
  refine Agrees.current fun t t' ht => ?_
  rcases ht with ⟨hkind, -, -⟩ | ⟨hbrace, hparen⟩
  · rw [hkind]
    split
    · exact (agrees_conditionModifier hg .ifMod hn).again
    · exact (agrees_conditionModifier hg .ifMod hn).again
    · exact (agrees_conditionModifier hg .whileMod hn).again
    · exact (agrees_conditionModifier hg .whileMod hn).again
    · exact (agrees_rescueModifier hg hn).again
    · exact agrees_pure (.done hn)
  · rw [hbrace, hparen]
    exact agrees_pure (.done hn)

/-- A statement without its modifiers. -/
theorem agrees_statementHead (hg : g.Beside k l g') :
    Agrees k l (statementHead g) (statementHead g') :=
  agrees_seesTargets.test (agrees_multipleAssignment hg) (agrees_sequence hg)

/-- A statement with its modifiers. -/
theorem agrees_statement (hg : g.Beside k l g') : Agrees k l (statement g) (statement g') :=
  (agrees_statementHead hg).bind fun _ _ =>
    Agrees.rounds (fun _ _ => agrees_modifierRound hg) _ _

/-- Phrases that are alike are read alike if what they ask for is. -/
theorem agrees_production (hg : g.Beside k l g') {phrase phrase' : Phrase}
    (h : phrase.Like phrase') : Agrees k l (production g phrase) (production g' phrase') := by
  cases h with
  | same =>
    cases phrase with
    | statement => exact agrees_statement hg
    | sequence => exact agrees_sequence hg
    | negation => exact agrees_negation hg
    | assignment => exact agrees_assignment hg
    | choice => exact agrees_choice hg
    | operation => exact agrees_binaryLevels hg
    | signed => exact agrees_signed hg
    | unary => exact agrees_unary hg
    | operand => exact agrees_operand hg
    | parameterGroup opener inBlock => exact agrees_parameterGroup hg opener opener inBlock
    | targetGroup opener => exact agrees_targetGroup hg opener opener
    | conditional keyword =>
      exact agrees_conditional hg (agrees_sequence hg) (Likeness.refl keyword)
  | parameterGroup opener opener' inBlock =>
    exact agrees_parameterGroup hg opener opener' inBlock
  | targetGroup opener opener' => exact agrees_targetGroup hg opener opener'
  | conditional h => exact agrees_conditional hg (agrees_sequence hg) h

/-- Rules that read alike phrases alike are beside each other, as neither reads at a closer. -/
theorem beside_of_agrees {depth depth' : Nat}
    (h : ∀ {phrase phrase' : Phrase}, phrase.Like phrase' →
      Agrees k l (readTo depth phrase) (readTo depth' phrase')) :
    Rules.Beside k l (rulesAt depth) (rulesAt depth') :=
  ⟨h, fun _ => stuck_readTo (.inl rfl) depth, fun _ => stuck_readTo (.inr rfl) depth'⟩

/-- Phrases are read alike to one depth, by induction on it. -/
theorem agrees_readTo_self (depth : Nat) {phrase phrase' : Phrase} (h : phrase.Like phrase') :
    Agrees k l (readTo depth phrase) (readTo depth phrase') := by
  induction depth generalizing phrase phrase' with
  | zero => exact agrees_fail _ _
  | succ depth ih => exact agrees_production (beside_of_agrees ih) h

/-- Whatever numbers of tokens the rules are for, they read alike. -/
theorem agrees_readTo (depth depth' : Nat) {phrase phrase' : Phrase} (h : phrase.Like phrase') :
    Agrees k l (readTo depth phrase) (readTo depth' phrase') := by
  induction depth generalizing depth' phrase phrase' with
  | zero => exact agrees_fail _ _
  | succ depth ih =>
    cases depth' with
    | zero =>
      have hself : Agrees k l (readTo (depth + 1) phrase) (readTo (depth + 1) phrase') :=
        agrees_readTo_self _ h
      exact agrees_of_fail hself.stays _
    | succ depth' => exact agrees_production (beside_of_agrees (ih depth')) h

/-- The rules of any two depths are beside each other. -/
theorem rules_beside (depth depth' : Nat) :
    Rules.Beside k l (rulesAt depth) (rulesAt depth') :=
  beside_of_agrees fun h => agrees_readTo depth depth' h

end XhrKeywords.Grammar
