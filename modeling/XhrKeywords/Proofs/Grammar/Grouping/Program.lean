import XhrKeywords.Proofs.Grammar.Grouping.Primary
import XhrKeywords.Proofs.Grammar.Nest.Program

/-!
# Programs are grouped

Every level of binary operators reads its operands from the next tighter one, so the operands of an
operation bind as tightly as it does on its left and more tightly on its right. Operations and
statements close the circle: the tree of every source is grouped. Main statements:
`operators_grouped` and `do_binds_outermost`.
-/

namespace XhrKeywords

open Syntax hiding Kind
open Token (Kind)

namespace Grammar

variable {tokens : List Token} {blocked : Nat} {g : Rules} {s t : State} {found : List Node}
  {n : Node}

/-- A constant or a call behind `::`. -/
theorem groups_scopeTrailer (hg : g.Groups tokens) (hn : Grouped tokens blocked n) :
    GroupsAs tokens blocked (Whole tokens blocked) (scopeTrailer g n) := by
  refine maintains_advance.bind fun _ _ => maintains_second.bind fun behind _ =>
    (maintains_sees .const).bind fun _ _ => .ite ?_ (groups_methodCall hg hn .colon2)
  exact maintains_advance.bind fun _ _ => groups_uniform (.two hn (.leaf _)) rfl fun _ => rfl

/-- A call behind a dot. -/
theorem groups_callTrailer (hg : g.Groups tokens) (hn : Grouped tokens blocked n) :
    GroupsAs tokens blocked (Whole tokens blocked) (callTrailer g n) :=
  maintains_advance.bind fun operator _ => maintains_skipNewlines.bind fun _ _ =>
    groups_methodCall hg hn operator.kind

/-- Inside the brackets of an index a `do` may be taken again. -/
theorem groups_indexTrailer (hg : g.Groups tokens) (hn : Grouped tokens blocked n) :
    GroupsAs tokens blocked (Whole tokens blocked) (indexTrailer g n) :=
  (groups_delimitedArguments hg .rbrack).bind fun _ hfound =>
    groups_reopening (.cons (hn.weaken (Nat.zero_le _)) hfound) rfl (fun _ => rfl) fun _ => rfl

/-- A block goes to an operand only where no call around keeps the `do`. -/
theorem groups_trailerRound (hg : g.Groups tokens) (hn : Whole tokens blocked n) :
    GroupsAs tokens blocked (Round.All (Whole tokens blocked) (Whole tokens blocked))
      (trailerRound g n) := by
  have hdone : GroupsAs tokens blocked (Round.All (Whole tokens blocked) (Whole tokens blocked))
      (pure (.done n)) := upholds_pure hn
  intro s r t hs h
  -- A block asks for the state in front of it, so the cases are split there.
  have hblock (hdo : s.current.kind = .kwDo → blocked = 0)
      (h : (again (block g n) : Parser (Round Node Node)) s = .ok (r, t)) :
      t.Grouping tokens blocked ∧ r.All (Whole tokens blocked) (Whole tokens blocked) := by
    obtain ⟨m, hm, rfl⟩ := of_again h
    exact groups_block hg hn.1 hs hdo hm
  rw [trailerRound, current_bind] at h
  generalize hkind : s.current.kind = kind at h
  split at h
  · exact (groups_callTrailer hg hn.1).again hs h
  · exact (groups_callTrailer hg hn.1).again hs h
  · exact Upholds.ite hdone (groups_scopeTrailer hg hn.1).again hs h
  · exact Upholds.ite hdone (groups_indexTrailer hg hn.1).again hs h
  · split at h
    · exact hblock (fun hdo => by rw [hdo] at hkind; cases hkind) h
    · exact hdone hs h
  · rw [doBinds_bind] at h
    split at h
    · rename_i hbinds
      simp only [Bool.and_eq_true, beq_iff_eq] at hbinds
      exact hblock (fun _ => hs.count.symm.trans hbinds.1) h
    · exact hdone hs h
  · exact hdone hs h

/-- An operand stays one with all that follows it. -/
theorem groups_operand (hg : g.Groups tokens) :
    GroupsAs tokens blocked (Whole tokens blocked) (operand g) :=
  (groups_primary hg).bind fun _ hn =>
    upholds_rounds g.limit (fun _ => groups_trailerRound hg) hn

/-- What `defined?` asks about, in parentheses or without. -/
theorem groups_testedOperand (hg : g.Groups tokens) :
    GroupsAs tokens blocked (Grouped tokens blocked) (testedOperand g) := by
  refine (maintains_seesGlued .lpar).bind fun _ _ => .ite ?_ (hg.read .unary blocked)
  exact maintains_advance.bind fun _ _ => maintains_skipNewlines.bind fun _ _ =>
    (hg.read .sequence blocked).bind fun _ hn => maintains_skipNewlines.bind fun _ _ =>
      (maintains_expect .rpar).bind fun _ _ => upholds_pure hn

/-- A `defined?` stands as an operand. -/
theorem groups_definedTest (hg : g.Groups tokens) :
    GroupsAs tokens blocked (Whole tokens blocked) (definedTest g) :=
  maintains_advance.bind fun _ _ => (groups_testedOperand hg).bind fun _ hn =>
    groups_uniform (.one hn) rfl fun _ => rfl

/-- A sign with its operand stands as an operand. -/
theorem groups_unaryOperation (hg : g.Groups tokens) (tighter : Phrase) :
    GroupsAs tokens blocked (Whole tokens blocked) (unaryOperation g tighter) :=
  maintains_advance.bind fun _ _ => (hg.read tighter blocked).bind fun _ hn =>
    groups_uniform (.two (.leaf _) hn) rfl fun _ => rfl

/-- An operand with or without a sign in front. -/
theorem groups_unary (hg : g.Groups tokens) :
    GroupsAs tokens blocked (Whole tokens blocked) (unary g) :=
  (maintains_seesAny _).bind fun _ _ => .ite (groups_unaryOperation hg _) <|
    (maintains_sees .kwDefined).bind fun _ _ => .ite (groups_definedTest hg) (groups_operand hg)

/-- An operation of a level: it is grouped, and it stands where an operation of the level may. -/
theorem grouped_operation {operator : Token} {left right : Node} {level : Int}
    (hspelled : operator.kind.IsSpelled operator.text) (hlevel : operator.kind.level? = some level)
    (hlow : -1 ≤ level) (hhigh : level ≤ 9) (hsides : Node.Sides level left right)
    (hleft : Grouped tokens blocked left) (hright : Grouped tokens blocked right)
    (span : Option Span) :
    Grouped tokens blocked (.tree .binop span [left, leafAs .operator operator, right]) ∧
      (Node.tree .binop span [left, leafAs .operator operator, right]).From level := by
  have htext := Node.operatorLevel?_of_isSpelled hspelled hlevel
  exact ⟨.operation htext hlow hhigh hsides hleft hright,
    fun _ => ⟨level, htext, Int.le_refl level, hhigh⟩, fun _ => rfl⟩

/-- The base of a power is an operand and its exponent no operation but a power. -/
theorem groups_power (hg : g.Groups tokens) {base : Node} (hbase : Whole tokens blocked base) :
    GroupsAs tokens blocked (Standing tokens blocked 8) (power g base) := by
  intro s n t hs h
  rw [power, sees_bind] at h
  split at h
  · rename_i hpow
    rw [advance_bind, skipNewlines_bind] at h
    obtain ⟨exponent, u, hexponent, h⟩ := of_bind h
    have hbehind := Steady.skip (Steady.advance hs) (· == .newline)
    obtain ⟨hu, hright⟩ := hg.read .signed blocked hbehind hexponent
    have hsides := Node.sides_of_isOperand hbase.2 (hg.signed blocked hbehind hexponent).2
    cases h
    have hlevel : s.current.kind.level? = some 9 := by
      rw [beq_iff_eq.mp hpow]
      rfl
    obtain ⟨hn, hfrom⟩ := grouped_operation (hs.spelled _ hs.along.mem).1 hlevel (by decide)
      (by decide) hsides hbase.1 hright _
    exact ⟨hu, hn, hfrom.above (by decide)⟩
  · cases h
    exact ⟨hs, hbase.standing 8⟩

/-- A minus sign takes a whole power behind it, which then stands as an operand. -/
theorem groups_signed (hg : g.Groups tokens) :
    GroupsAs tokens blocked (Standing tokens blocked 8) (signed g) := by
  refine (maintains_sees .minus).bind fun _ _ => .ite ?_
    ((groups_unary hg).bind fun _ => groups_power hg)
  refine maintains_advance.bind fun sign _ => maintains_current.bind fun number _ => .ite ?_ ?_
  · have hnumber : GroupsAs tokens blocked (Whole tokens blocked) (negativeNumber sign) :=
      maintains_advance.bind fun number _ =>
        groups_uniform (.one (.leaf _)) (by split <;> rfl) fun _ => by split <;> rfl
    exact hnumber.bind fun _ => groups_power hg
  · exact (hg.read .signed blocked).bind fun _ hn =>
      (groups_uniform (.two (.leaf _) hn) rfl fun _ => rfl).mono fun _ hn => hn.standing 8

/-- One more operator of a level joins what binds as tightly with what binds more tightly. -/
theorem groups_binaryRound {operators : List Kind} {tighter : Parser Node} {level : Int}
    (hoperators : ∀ kind ∈ operators, kind.level? = some level) (hlow : -1 ≤ level)
    (hhigh : level ≤ 8) (h : GroupsAs tokens blocked (Standing tokens blocked level) tighter)
    {left : Node} (hleft : Grouped tokens blocked left ∧ left.From level) :
    GroupsAs tokens blocked
      (Round.All (fun n => Grouped tokens blocked n ∧ n.From level)
        fun n => Grouped tokens blocked n ∧ n.From level)
      (binaryRound operators tighter left) := by
  intro s r t hs hrun
  rw [binaryRound, seesAny_bind] at hrun
  split at hrun
  · rename_i hsees
    rw [advance_bind, skipNewlines_bind] at hrun
    obtain ⟨right, u, hright, hrun⟩ := of_bind hrun
    obtain ⟨hu, hgrouped, habove⟩ := h (Steady.skip (Steady.advance hs) (· == .newline)) hright
    obtain ⟨n, ⟨⟩, rfl⟩ := of_again hrun
    have hlevel := hoperators s.current.kind (by simpa using hsees)
    exact ⟨hu, grouped_operation (hs.spelled _ hs.along.mem).1 hlevel hlow (by omega)
      (Node.sides_of_from_of_above hhigh hleft.2 habove) hleft.1 hgrouped _⟩
  · cases hrun
    exact ⟨hs, hleft⟩

/-- The loop of a level: what it has read so far is of the level, the next operand above it. -/
theorem groups_leftAssociative {operators : List Kind} {tighter : Parser Node} {level : Int}
    (hoperators : ∀ kind ∈ operators, kind.level? = some level) (hlow : -1 ≤ level)
    (hhigh : level ≤ 8) (h : GroupsAs tokens blocked (Standing tokens blocked level) tighter) :
    GroupsAs tokens blocked (fun n => Grouped tokens blocked n ∧ n.From level)
      (leftAssociative g operators tighter) :=
  h.bind fun _ hn => upholds_rounds g.limit
    (fun _ => groups_binaryRound hoperators hlow hhigh h) ⟨hn.1, hn.2.from⟩

/-- The operators from a level on bind more tightly than those of the level in front. -/
theorem groups_operation (hg : g.Groups tokens) {levels : List (List Kind)} {index : Nat}
    (hindex : index ≤ 9) (hlevels : binaryLevels.drop index = levels) :
    GroupsAs tokens blocked (Standing tokens blocked (index - 1)) (operation g levels) := by
  induction levels generalizing index with
  | nil =>
    have hlast : index = 9 := by
      have hlength := List.drop_eq_nil_iff.mp hlevels
      have : binaryLevels.length = 9 := rfl
      omega
    subst hlast
    exact groups_signed hg
  | cons operators tighter ih =>
    have hlt : index < binaryLevels.length := by
      by_contra hge
      rw [List.drop_eq_nil_of_le (by omega)] at hlevels
      cases hlevels
    have hlength : binaryLevels.length = 9 := rfl
    rw [List.drop_eq_getElem_cons hlt, List.cons.injEq] at hlevels
    have hoperators : binaryLevels[index]? = some operators := by
      rw [List.getElem?_eq_getElem hlt, hlevels.1]
    have htighter := ih (hlength ▸ hlt : index + 1 ≤ 9) hlevels.2
    rw [show ((index + 1 : Nat) : Int) - 1 = index by omega] at htighter
    exact (groups_leftAssociative (fun _ => level?_of_mem_binaryLevels hoperators) (by omega)
      (by omega) htighter).mono fun _ hn => ⟨hn.1, hn.2.above (by omega)⟩

/-- What is no operation may stand on both sides of `and` and `or`. -/
theorem standing_of_ne_binop (h : Grouped tokens blocked n) (hkind : n.isKind .binop = false) :
    Standing tokens blocked (-1) n :=
  ⟨h, fun hbinop => absurd (hkind.symm.trans hbinop) nofun, fun hlevel => absurd hlevel (by decide)⟩

/-- What is built from grouped children is no operation unless its kind says so. -/
theorem groups_loose {kind : Syntax.Kind} {children : List Node} {start : Mark}
    (h : AllGrouped tokens blocked children) (hkind : kind.isUniform) :
    GroupsAs tokens blocked (Standing tokens blocked (-1)) (build kind children start) := by
  refine upholds_build fun span => standing_of_ne_binop (h.tree hkind span) ?_
  cases kind <;> first | rfl | cases hkind

/-- All levels of binary operators, from the tightest one to the loosest. -/
theorem groups_binaryLevels (hg : g.Groups tokens) :
    GroupsAs tokens blocked (Standing tokens blocked (-1)) (operation g binaryLevels) :=
  groups_operation hg (Nat.zero_le 9) rfl

/-- The upper bound of a range may be left out. -/
theorem groups_upperBound (hg : g.Groups tokens) :
    GroupsAs tokens blocked (Grouped tokens blocked) (upperBound g) :=
  (maintains_seesClass _).bind fun _ _ =>
    .ite (upholds_pure .absent) ((groups_binaryLevels hg).mono fun _ => And.left)

/-- A range binds more loosely than the operators, so it may stand beside `and` and `or` only. -/
theorem groups_range (hg : g.Groups tokens) :
    GroupsAs tokens blocked (Standing tokens blocked (-1)) (range g) := by
  refine (groups_binaryLevels hg).bind fun lower hlower => (maintains_seesAny _).bind fun _ _ =>
    .ite ?_ (upholds_pure hlower)
  exact maintains_advance.bind fun operator _ => (groups_upperBound hg).bind fun _ hupper =>
    groups_loose (.cons hlower.1 (.two (.leaf _) hupper)) rfl

/-- The second branch of a choice, behind its colon. -/
theorem groups_chosenBranch (hg : g.Groups tokens) :
    GroupsAs tokens blocked (Grouped tokens blocked) (chosenBranch g) :=
  (hg.read .choice blocked).bind fun _ hn => maintains_skipNewlines.bind fun _ _ =>
    (maintains_expectOr .colon _).bind fun _ _ => upholds_pure hn

/-- A label in the first branch gives its colon back. -/
theorem groups_firstBranch (hg : g.Groups tokens) :
    GroupsAs tokens blocked (Grouped tokens blocked) (firstBranch g) := by
  refine maintains_current.bind fun t _ => ?_
  split
  · exact maintains_advance.bind fun t _ => groups_nameReference t
  · exact (groups_singleAs rfl (fun _ _ => rfl) _).bind fun _ hn =>
      upholds_pure (mapSpan_grouped _ hn.1)
  · exact groups_chosenBranch hg

/-- A choice `test ? first : second`, or its test alone. -/
theorem groups_choice (hg : g.Groups tokens) :
    GroupsAs tokens blocked (Standing tokens blocked (-1)) (choice g) := by
  refine (groups_range hg).bind fun test htest => (maintains_accept .qmark).bind fun _ _ =>
    .ite ?_ (upholds_pure htest)
  exact maintains_skipNewlines.bind fun _ _ => (groups_firstBranch hg).bind fun _ hfirst =>
    maintains_skipNewlines.bind fun _ _ => (hg.read .choice blocked).bind fun _ hother =>
      groups_loose (.cons htest.1 (.two hfirst hother)) rfl

/-- An assignment binds more loosely than the operators, too. -/
theorem groups_assignment (hg : g.Groups tokens) :
    GroupsAs tokens blocked (Standing tokens blocked (-1)) (assignment g) := by
  refine (groups_choice hg).bind fun left hleft => (maintains_seesAny _).bind fun _ _ =>
    .ite ?_ (upholds_pure hleft)
  exact maintains_advance.bind fun _ _ => maintains_skipNewlines.bind fun _ _ =>
    (groups_toTarget hleft.1).bind fun _ htarget => (hg.read .assignment blocked).bind
      fun _ hvalue => groups_loose (.cons htarget (.two (.leaf _) hvalue)) rfl

/-- `not` in front of an expression. -/
theorem groups_negation (hg : g.Groups tokens) :
    GroupsAs tokens blocked (Standing tokens blocked (-1)) (negation g) :=
  (maintains_sees .kwNot).bind fun _ _ =>
    .ite ((groups_unaryOperation hg _).mono fun _ hn => hn.standing (-1)) (groups_assignment hg)

/-- `and` and `or` bind weaker than all levels. -/
theorem groups_sequence (hg : g.Groups tokens) :
    GroupsAs tokens blocked (Grouped tokens blocked) (sequence g) :=
  (groups_leftAssociative (by decide) (Int.le_refl (-1)) (by decide) (groups_negation hg)).mono
    fun _ => And.left

/-- A target is read as an operand first. -/
theorem groups_targetOperand (hg : g.Groups tokens) :
    GroupsAs tokens blocked (Grouped tokens blocked) (targetOperand g) :=
  (groups_operand hg).bind fun _ hn => groups_toTarget hn.1

/-- The variable behind a star may be left out. -/
theorem groups_splatVariable (hg : g.Groups tokens) (closer : Kind) :
    GroupsAs tokens blocked (AllGrouped tokens blocked) (splatVariable g closer) :=
  (maintains_seesAny _).bind fun _ _ => .ite (upholds_pure .nil)
    ((groups_targetOperand hg).bind fun _ hn => upholds_pure (.one hn))

/-- A target with a star. -/
theorem groups_splatTarget (hg : g.Groups tokens) (closer : Kind) :
    GroupsAs tokens blocked (Grouped tokens blocked) (splatTarget g closer) :=
  maintains_advance.bind fun _ _ => (groups_splatVariable hg closer).bind fun _ hinner =>
    groups_build hinner rfl

/-- One of several targets, by its first token. -/
theorem groups_target (hg : g.Groups tokens) (closer : Kind) :
    GroupsAs tokens blocked (Grouped tokens blocked) (target g closer) := by
  refine (maintains_sees .star).bind fun _ _ => .ite (groups_splatTarget hg closer) ?_
  refine (maintains_sees .lpar).bind fun _ _ => .ite ?_ (groups_targetOperand hg)
  exact maintains_advance.bind fun opener _ => hg.read (.targetGroup opener) blocked

/-- One round of a list of targets. -/
theorem groups_targetRound (hg : g.Groups tokens) (closer : Kind)
    (hfound : AllGrouped tokens blocked found) :
    GroupsAs tokens blocked (Round.All (AllGrouped tokens blocked) (AllGrouped tokens blocked))
      (targetRound g closer found) := by
  refine (groups_target hg closer).bind fun _ hn => (maintains_accept .comma).bind fun _ _ =>
    .ite ?_ (upholds_pure (hfound.concat hn))
  exact (maintains_sees closer).bind fun _ _ =>
    .ite (upholds_pure (hfound.concat hn)) (upholds_pure (hfound.concat hn))

/-- A list of targets up to its closing mark. -/
theorem groups_targets (hg : g.Groups tokens) (closer : Kind) :
    GroupsAs tokens blocked (AllGrouped tokens blocked) (targets g closer) :=
  upholds_rounds g.limit (fun _ => groups_targetRound hg closer) AllGrouped.nil

/-- Targets in parentheses are grouped under one node. -/
theorem groups_targetGroup (hg : g.Groups tokens) (opener : Token) :
    GroupsAs tokens blocked (Grouped tokens blocked) (targetGroup g opener) :=
  (groups_targets hg .rpar).bind fun _ hinner => (maintains_expect .rpar).bind fun _ _ =>
    groups_build hinner rfl

/-- Several values on the right side are one array. -/
theorem groups_assignedValues (hg : g.Groups tokens) :
    GroupsAs tokens blocked (Grouped tokens blocked) (assignedValues g) := by
  refine (groups_elements (groups_splatOr (hg.read .assignment blocked))).bind
    fun values hvalues => ?_
  match values, hvalues with
  | [], _ => exact upholds_fail _
  | [only], hvalues => exact upholds_pure (hvalues only List.mem_cons_self)
  | first :: second :: others, hvalues => exact groups_build hvalues rfl

/-- Several targets, an equals sign and the values. -/
theorem groups_multipleAssignment (hg : g.Groups tokens) :
    GroupsAs tokens blocked (Grouped tokens blocked) (multipleAssignment g) :=
  maintains_current.bind fun _ _ => (groups_targets hg .assign).bind fun _ htargets =>
    (groups_build htargets rfl).bind fun _ htuple => (maintains_expect .assign).bind fun _ _ =>
      maintains_skipNewlines.bind fun _ _ => (groups_assignedValues hg).bind fun _ hvalue =>
        groups_build (.two htuple hvalue) rfl

/-- A condition behind a statement is read where as many calls keep a `do`. -/
theorem groups_conditionModifier (hg : g.Groups tokens) {kind : Syntax.Kind}
    (hkind : kind.isUniform) (hn : Grouped tokens blocked n) :
    GroupsAs tokens blocked (Grouped tokens blocked) (conditionModifier g kind n) :=
  maintains_advance.bind fun _ _ => (groups_sequence hg).bind fun _ htest =>
    groups_build (.cons (.leaf _) (.two hn htest)) hkind

/-- A `rescue` behind a statement. -/
theorem groups_rescueModifier (hg : g.Groups tokens) (hn : Grouped tokens blocked n) :
    GroupsAs tokens blocked (Grouped tokens blocked) (rescueModifier g n) :=
  maintains_advance.bind fun _ _ => (groups_sequence hg).bind fun _ hfallback =>
    groups_build (.two hn hfallback) rfl

/-- One modifier behind a statement. -/
theorem groups_modifierRound (hg : g.Groups tokens) (hn : Grouped tokens blocked n) :
    GroupsAs tokens blocked (Round.All (Grouped tokens blocked) (Grouped tokens blocked))
      (modifierRound g n) := by
  refine maintains_current.bind fun t _ => ?_
  split
  · exact (groups_conditionModifier hg rfl hn).again
  · exact (groups_conditionModifier hg rfl hn).again
  · exact (groups_conditionModifier hg rfl hn).again
  · exact (groups_conditionModifier hg rfl hn).again
  · exact (groups_rescueModifier hg hn).again
  · exact upholds_pure hn

/-- A statement without its modifiers. -/
theorem groups_statementHead (hg : g.Groups tokens) :
    GroupsAs tokens blocked (Grouped tokens blocked) (statementHead g) :=
  maintains_seesTargets.bind fun _ _ =>
    .ite (groups_multipleAssignment hg) (groups_sequence hg)

/-- A statement with its modifiers. -/
theorem groups_statement (hg : g.Groups tokens) :
    GroupsAs tokens blocked (Grouped tokens blocked) (statement g) :=
  (groups_statementHead hg).bind fun _ hn =>
    upholds_rounds g.limit (fun _ => groups_modifierRound hg) hn

/-- A program starts where no call keeps a `do`. -/
theorem groups_program (hg : g.Groups tokens) :
    GroupsAs tokens blocked (Grouped tokens blocked) (program g) :=
  maintains_current.bind fun _ _ => (groups_statements hg []).bind fun _ hfound =>
    (maintains_expectOr .eof _).bind fun _ _ => groups_build hfound rfl

/-- Every production reads grouped trees if what it asks for does. -/
theorem groups_production (hg : g.Groups tokens) (phrase : Phrase) :
    GroupsAs tokens blocked (Grouped tokens blocked) (production g phrase) := by
  cases phrase with
  | statement => exact groups_statement hg
  | sequence => exact groups_sequence hg
  | negation => exact (groups_negation hg).mono fun _ => And.left
  | assignment => exact (groups_assignment hg).mono fun _ => And.left
  | choice => exact (groups_choice hg).mono fun _ => And.left
  | operation => exact (groups_binaryLevels hg).mono fun _ => And.left
  | signed => exact (groups_signed hg).mono fun _ => And.left
  | unary => exact (groups_unary hg).mono fun _ => And.left
  | operand => exact (groups_operand hg).mono fun _ => And.left
  | parameterGroup opener inBlock => exact groups_parameterGroup hg opener inBlock
  | targetGroup opener => exact groups_targetGroup hg opener
  | conditional keyword =>
    exact (groups_conditional hg (groups_sequence hg) keyword).mono fun _ => And.left

/-- Rules of every depth group what they read: each nesting level does because the one below it
does. -/
theorem groups_readTo (tokens : List Token) (limit depth : Nat) :
    (Rules.mk limit (readTo depth)).Groups tokens := by
  induction depth generalizing limit with
  | zero =>
    have hfail {P : Node → Prop} (phrase : Phrase) (blocked : Nat) :
        GroupsAs tokens blocked P ((Rules.mk limit (readTo 0)).read phrase) := by
      change GroupsAs tokens blocked P (readTo 0 phrase)
      rw [readTo]
      exact upholds_fail _
    exact ⟨nests_readTo 0 limit, fun phrase blocked => hfail phrase blocked, hfail .signed⟩
  | succ depth ih =>
    refine ⟨nests_readTo (depth + 1) limit, fun phrase blocked => ?_, fun blocked => ?_⟩
    · exact groups_production (ih depth) phrase
    · exact (groups_signed (ih depth)).mono fun _ => And.right

/-- The tree of a source is grouped. -/
theorem grouped_of_parse {source : String} {tree : Node} (hlex : Token.tokenize source = .ok tokens)
    (hparse : parse source = .ok tree) : Grouped tokens 0 tree := by
  obtain ⟨others, hothers, htree⟩ := bind_eq_ok_iff.mp hparse
  rw [mapError_eq_ok_iff] at hothers htree
  obtain rfl : tokens = others := Except.ok.inj (hlex.symm.trans hothers)
  have hspelled := Token.spelled_of_tokenize hlex
  have hinOrder := Token.tokens_inOrder hlex
  cases tokens with
  | nil =>
    cases htree
    exact AllGrouped.nil.tree rfl _
  | cons first others =>
    obtain ⟨⟨n, s⟩, hrun, htree⟩ := bind_eq_ok_iff.mp htree
    cases htree
    exact (groups_program (groups_readTo _ _ _) ⟨State.along_start hinOrder, hspelled, rfl⟩ hrun).2

end Grammar

/-- Operators bind by levels: anywhere in the tree of a source, what stands to the left of a binary
operator binds as tightly as it does and what stands to the right more tightly, powers group to the
right, and nothing looser than operators between operands stands beside one of them. -/
theorem operators_grouped {source : String} {tree : Node} (h : parse source = .ok tree) :
    ∀ n ∈ tree.subtrees, n.isKind .binop →
      ∃ span left operator right level, n = .tree .binop span [left, .leaf operator, right] ∧
        n.level? = some level ∧ -1 ≤ level ∧ level ≤ 9 ∧ Node.Sides level left right := by
  obtain ⟨tokens, hlex, -⟩ := bind_eq_ok_iff.mp h
  rw [mapError_eq_ok_iff] at hlex
  exact fun n hn hkind => ((Grammar.grouped_of_parse hlex h).subtrees n hn).sides hkind

/-- Six operators of five levels. -/
theorem operators_grouped_of_six :
    ∃ tree, parse "a or b + c * d ** e ** f - g" = .ok tree ∧
      tree.subtrees.filterMap Node.level? = [-1, 7, 7, 8, 9, 9] ∧
      ∀ n ∈ tree.subtrees, n.isKind .binop →
        ∃ span left operator right level, n = .tree .binop span [left, .leaf operator, right] ∧
          n.level? = some level ∧ -1 ≤ level ∧ level ≤ 9 ∧ Node.Sides level left right := by
  have hread : (parse "a or b + c * d ** e ** f - g").toOption.any
      (fun tree => tree.subtrees.filterMap Node.level? = [-1, 7, 7, 8, 9, 9]) = true := by
    decide +kernel
  obtain ⟨tree, htree, hlevels⟩ := (Option.any_eq_true _ _).mp hread
  have hparse := eq_ok_of_toOption htree
  exact ⟨tree, hparse, of_decide_eq_true hlevels, operators_grouped hparse⟩

/-- A `do` belongs to the outermost call without parentheses: on the way from an argument of such a
call down to a block between `do` and `end` lies something that gives a `do` back to the nearest
call. No argument is such a block itself. -/
theorem do_binds_outermost {source : String} {tokens : List Token} {tree c a b : Node}
    {passed : List Node} (hlex : Token.tokenize source = .ok tokens)
    (hparse : parse source = .ok tree) (hc : c ∈ tree.subtrees) (hbare : c.isBare tokens)
    (ha : a ∈ c.arguments) (hpath : Descent a passed b) (hdo : b.isDoBlock) :
    ∃ n ∈ passed, n.reopens tokens :=
  have hgrouped := (Grammar.grouped_of_parse hlex hparse).subtrees c hc
  (hgrouped.arguments_of_isBare hbare a ha).reopened (Nat.succ_pos 0) hpath hdo

/-- A block in an array in the argument of an argument. -/
theorem do_binds_in_array :
    ∃ tokens tree c a b passed, Token.tokenize "a b [c do\nend]" = .ok tokens ∧
      parse "a b [c do\nend]" = .ok tree ∧ c ∈ tree.subtrees ∧ c.isBare tokens ∧
      a ∈ c.arguments ∧ Descent a passed b ∧ b.isDoBlock ∧ ∃ n ∈ passed, n.reopens tokens := by
  have hread : (do
      let tokens ← (Token.tokenize "a b [c do\nend]").toOption
      let tree ← (parse "a b [c do\nend]").toOption
      return tree.subtrees.any fun c => c.isBare tokens && c.arguments.any fun a =>
        a.children.any fun inner => inner.children.any Node.isDoBlock) = some true := by
    decide +kernel
  obtain ⟨tokens, htokens, hread⟩ := Option.bind_eq_some_iff.mp hread
  obtain ⟨tree, htree, hread⟩ := Option.bind_eq_some_iff.mp hread
  have hlex := eq_ok_of_toOption htokens
  have hparse := eq_ok_of_toOption htree
  simp only [Option.pure_def, Option.some.injEq, List.any_eq_true, Bool.and_eq_true] at hread
  obtain ⟨c, hc, hbare, a, ha, inner, hinner, b, hb, hdo⟩ := hread
  have hpath : Descent a [a, inner] b := .child hinner (.child hb (.here b))
  exact ⟨tokens, tree, c, a, b, _, hlex, hparse, hc, hbare, ha, hpath, hdo,
    do_binds_outermost hlex hparse hc hbare ha hpath hdo⟩

end XhrKeywords
