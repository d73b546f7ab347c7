import XhrKeywords.Proofs.Grammar.Grouping.Argument

/-!
# Literals, bodies and parameters are grouped

A hash in braces is a list between delimiters. Statements, clauses and parameters are read where as
many calls keep a `do` for themselves as in front of them.
-/

namespace XhrKeywords.Grammar

open Syntax hiding Kind
open Token (Kind)

variable {tokens : List Token} {blocked : Nat} {g : Rules} {s t : State} {found : List Node}
  {n : Node}

/-- Several values that stand as operands. -/
def AllWhole (tokens : List Token) (blocked : Nat) (nodes : List Node) : Prop :=
  ∀ n ∈ nodes, Whole tokens blocked n

/-- Operands are grouped. -/
theorem AllWhole.grouped (h : AllWhole tokens blocked found) : AllGrouped tokens blocked found :=
  fun n hn => (h n hn).1

/-- A string literal behind another one is an operand. -/
theorem groups_stringRound (hfound : AllWhole tokens blocked found) :
    GroupsAs tokens blocked (Round.All (AllWhole tokens blocked) (AllWhole tokens blocked))
      (stringRound found) :=
  maintains_current.bind fun _ _ => maintains_previous.bind fun _ _ =>
    .ite ((groups_single rfl fun _ _ => rfl).againWith fun _ hn =>
      List.forall_mem_append.mpr ⟨hfound, List.forall_mem_singleton.mpr hn⟩)
      (upholds_pure hfound)

/-- String literals side by side are one operand. -/
theorem groups_strings : GroupsAs tokens blocked (Whole tokens blocked) (strings g) := by
  refine (upholds_rounds g.limit (fun _ => groups_stringRound) (x := [])
    fun _ hn => absurd hn List.not_mem_nil).bind fun found hfound => ?_
  match found, hfound with
  | [], _ => exact upholds_fail _
  | [only], hfound => exact upholds_pure (hfound only List.mem_cons_self)
  | first :: second :: others, hfound =>
    exact groups_uniform hfound.grouped rfl fun _ => rfl

/-- A pair of a hash literal, with its arrow. -/
theorem groups_rocketPair (hg : g.Groups tokens) :
    GroupsAs tokens blocked (Grouped tokens blocked) (rocketPair g) :=
  (hg.read .assignment blocked).bind fun _ hkey => maintains_skipNewlines.bind fun _ _ =>
    (maintains_expectOr .assoc _).bind fun _ _ => groups_arrowPair hg hkey

/-- An element of a hash literal, by its first token. -/
theorem groups_hashElement (hg : g.Groups tokens) :
    GroupsAs tokens blocked (Grouped tokens blocked) (hashElement g) := by
  refine maintains_current.bind fun t _ => ?_
  split
  · exact groups_doubleSplat hg
  · exact groups_labelPair hg
  · exact groups_labelPair hg
  · exact groups_rocketPair hg

/-- One round of a hash literal. -/
theorem groups_hashRound (hg : g.Groups tokens) (hfound : AllGrouped tokens blocked found) :
    GroupsAs tokens blocked (Round.All (AllGrouped tokens blocked) (AllGrouped tokens blocked))
      (hashRound g found) := by
  refine maintains_skipNewlines.bind fun _ _ => (maintains_sees .rbrace).bind fun _ _ =>
    .ite (upholds_pure hfound) ?_
  exact (groups_hashElement hg).bind fun _ hn => maintains_skipNewlines.bind fun _ _ =>
    upholds_commaRound (hfound.concat hn)

/-- The opening brace stands in front of what one more round of a hash reads. -/
theorem begun_hashRound (hg : g.Groups tokens) {mark : Kind}
    {r : Round (List Node) (List Node)} (hs : s.Grouping tokens blocked)
    (hbegun : Begun tokens mark found s) (h : hashRound g found s = .ok (r, t)) :
    r.All (fun found => Begun tokens mark found t)
      fun found => found = [] ∨ Token.opens tokens mark found = true := by
  have hbegun := hbegun.skipNewlines hs.along
  have hs : (s.skip (· == .newline)).Grouping tokens blocked := Steady.skip hs _
  rw [hashRound, skipNewlines_bind, sees_bind] at h
  split at h
  · cases h
    exact hbegun.imp_left And.left
  · obtain ⟨n, u, hn, h⟩ := of_bind h
    have hopens := hbegun.concat (readsValues_hashElement hg.nests hs.along hn).start
    rw [skipNewlines_bind] at h
    rcases of_commaRound h with ⟨-, rfl, rfl⟩ | ⟨rfl, rfl⟩
    · exact Or.inr hopens
    · exact Or.inr hopens

/-- A closed hash is an operand; the opening brace stands in front of its pairs. -/
theorem groups_closedHash {pairs : List Node} (hpairs : AllGrouped tokens 0 pairs)
    (hopens : pairs = [] ∨ Token.opens tokens .lbrace pairs = true) (start : Token) :
    GroupsAs tokens 0 (Whole tokens blocked) (closedHash start pairs) :=
  maintains_skipNewlines.bind fun _ _ => (maintains_expectCloser .rbrace _ _).bind fun _ _ =>
    upholds_build fun span => ⟨hpairs.opened rfl (hopens.imp_right fun h _ => h) span, rfl⟩

/-- Braces are brackets. -/
theorem groups_hash (hg : g.Groups tokens) :
    GroupsAs tokens blocked (Whole tokens blocked) (hash g) := by
  intro s n t hs h
  rw [hash] at h
  obtain ⟨u, hrun, rfl⟩ := of_withBlocked h
  have hstart : State.Grouping tokens 0 { s with blocked := 0 } := hs.recount 0
  obtain ⟨hopener, hrun⟩ := of_expectOr hrun
  have hkind : s.current.kind = .lbrace := beq_iff_eq.mp hopener
  have hmark := kindBefore?_advance hstart.along (by rw [hkind]; decide)
  rw [if_neg (by rw [hkind]; decide), hkind] at hmark
  obtain ⟨pairs, v, hloop, hrun⟩ := of_bind hrun
  have hpairs := of_rounds (I := fun found s => s.Grouping tokens 0 ∧ AllGrouped tokens 0 found ∧
      Begun tokens .lbrace found s)
    (Q := fun found t => t.Grouping tokens 0 ∧ AllGrouped tokens 0 found ∧
      (found = [] ∨ Token.opens tokens .lbrace found = true)) ?_
    ⟨Steady.advance hstart, .nil, Or.inl ⟨rfl, hmark⟩⟩ hloop
  · obtain ⟨hv, hpairs, hopens⟩ := hpairs
    obtain ⟨hu, hn⟩ := groups_closedHash hpairs hopens s.current hv hrun
    have hcount := hu.recount s.blocked
    exact ⟨⟨hcount.along, hcount.spelled, hs.count⟩, hn⟩
  · intro found s r u hfound hround
    obtain ⟨hs, hfound, hbegun⟩ := hfound
    obtain ⟨hu, hall⟩ := groups_hashRound hg hfound hs hround
    have hnext := begun_hashRound hg hs hbegun hround
    cases r with
    | again more => exact ⟨hu, hall, hnext⟩
    | done more => exact ⟨hu, hall, hnext⟩

/-- A name in an `alias`. -/
theorem groups_aliasName : GroupsAs tokens blocked (Grouped tokens blocked) aliasName := by
  have hname (role : Role) :
      GroupsAs tokens blocked (Grouped tokens blocked) (singleAs .sym role) :=
    (groups_singleAs rfl (fun _ _ => rfl) role).mono fun _ => And.left
  refine maintains_current.bind fun t _ => ?_
  split
  · exact hname _
  · exact hname _
  · exact hname _
  · exact (groups_single rfl fun _ _ => rfl).mono fun _ => And.left
  · exact .ite (hname _) (upholds_fail _)

/-- A target is grouped like the value it was read as. -/
theorem groups_toTarget (hn : Grouped tokens blocked n) :
    GroupsAs tokens blocked (Grouped tokens blocked) (toTarget n) := by
  rw [toTarget.eq_def]
  split
  · exact (maintains_declare _).bind fun _ _ => upholds_pure ((AllGrouped.one (.leaf _)).tree rfl _)
  · exact .ite (upholds_pure hn) (upholds_fail _)

/-- One statement and the separator behind it. -/
theorem groups_statementRound (hg : g.Groups tokens) (stops : List Kind)
    (hfound : AllGrouped tokens blocked found) :
    GroupsAs tokens blocked (Round.All (AllGrouped tokens blocked) (AllGrouped tokens blocked))
      (statementRound g stops found) := by
  refine maintains_skipSeparators.bind fun _ _ => (maintains_seesAny _).bind fun _ _ =>
    .ite (upholds_pure hfound) ?_
  exact (hg.read .statement blocked).bind fun _ hn => (maintains_seesAny _).bind fun _ _ =>
    .ite (upholds_pure (hfound.concat hn)) (upholds_fail _)

/-- Statements up to a keyword that stops them. -/
theorem groups_statements (hg : g.Groups tokens) (stops : List Kind) :
    GroupsAs tokens blocked (AllGrouped tokens blocked) (statements g stops) :=
  upholds_rounds g.limit (fun _ => groups_statementRound hg stops) AllGrouped.nil

/-- The statements of a body. -/
theorem groups_body (hg : g.Groups tokens) (stops : List Kind) :
    GroupsAs tokens blocked (Grouped tokens blocked) (body g stops) := by
  refine maintains_current.bind fun start _ =>
    (groups_statements hg stops).bind fun found hfound => ?_
  match found, hfound with
  | [], hfound => exact upholds_pure (hfound.tree rfl _)
  | first :: others, hfound => exact upholds_pure (hfound.tree rfl _)

/-- One element of a list without a closing mark. -/
theorem groups_elementRound {element : Parser Node}
    (h : GroupsAs tokens blocked (Grouped tokens blocked) element)
    (hfound : AllGrouped tokens blocked found) :
    GroupsAs tokens blocked (Round.All (AllGrouped tokens blocked) (AllGrouped tokens blocked))
      (elementRound element found) :=
  h.bind fun _ hn => upholds_listRound (hfound.concat hn)

/-- The elements of a list without a closing mark. -/
theorem groups_elements {element : Parser Node}
    (h : GroupsAs tokens blocked (Grouped tokens blocked) element) :
    GroupsAs tokens blocked (AllGrouped tokens blocked) (elements g element) :=
  upholds_rounds g.limit (fun _ => groups_elementRound h) AllGrouped.nil

/-- The classes of a `rescue`. -/
theorem groups_rescueClasses (hg : g.Groups tokens) :
    GroupsAs tokens blocked (AllGrouped tokens blocked) (rescueClasses g) :=
  (maintains_seesAny _).bind fun _ _ => .ite (upholds_pure .nil)
    (groups_elements (groups_splatOr (hg.read .choice blocked)))

/-- The variable of a `rescue`. -/
theorem groups_rescueVariable (hg : g.Groups tokens) :
    GroupsAs tokens blocked (Grouped tokens blocked) (rescueVariable g) :=
  (maintains_accept .assoc).bind fun _ _ =>
    .ite ((hg.read .operand blocked).bind fun _ => groups_toTarget) (upholds_pure .absent)

/-- A `rescue` with its body. -/
theorem groups_rescueClause (hg : g.Groups tokens) :
    GroupsAs tokens blocked (Grouped tokens blocked) (rescueClause g) := by
  refine maintains_advance.bind fun keyword _ => (groups_rescueClasses hg).bind
    fun classes hclasses => (groups_rescueVariable hg).bind fun bound hbound => ?_
  exact maintains_separator.bind fun _ _ => (groups_body hg _).bind fun _ hhandler =>
    (groups_build hclasses rfl).bind fun _ hexceptions =>
      groups_build (.cons hexceptions (.two hbound hhandler)) rfl

/-- One round of the `rescue` clauses. -/
theorem groups_rescueRound (hg : g.Groups tokens) (hfound : AllGrouped tokens blocked found) :
    GroupsAs tokens blocked (Round.All (AllGrouped tokens blocked) (AllGrouped tokens blocked))
      (rescueRound g found) :=
  (maintains_sees .kwRescue).bind fun _ _ =>
    .ite ((groups_rescueClause hg).againWith fun _ => hfound.concat) (upholds_pure hfound)

/-- An `else` or `ensure` clause, if there is one. -/
theorem groups_bodyClause (hg : g.Groups tokens) (keyword : Kind) {kind : Syntax.Kind}
    (hkind : kind.isUniform) (stops : List Kind) :
    GroupsAs tokens blocked (AllGrouped tokens blocked) (bodyClause g keyword kind stops) := by
  refine (maintains_sees keyword).bind fun _ _ => .ite ?_ (upholds_pure .nil)
  exact maintains_advance.bind fun _ _ => (groups_body hg stops).bind fun _ hinner =>
    (groups_build (.one hinner) hkind).bind fun _ hn => upholds_pure (.one hn)

/-- A body with its `rescue`, `else` and `ensure` clauses. -/
theorem groups_bodyStatement (hg : g.Groups tokens) :
    GroupsAs tokens blocked (Grouped tokens blocked) (bodyStatement g) := by
  refine maintains_current.bind fun start _ => (groups_body hg _).bind fun main hmain =>
    (maintains_seesAny _).bind fun _ _ => .ite ?_ (upholds_pure hmain)
  exact (upholds_rounds g.limit (fun _ => groups_rescueRound hg) AllGrouped.nil).bind
    fun rescues hrescues => (groups_bodyClause hg _ rfl _).bind fun _ hotherwise =>
      (groups_bodyClause hg _ rfl _).bind fun _ hlast =>
        groups_build (.cons hmain ((hrescues.append hotherwise).append hlast)) rfl

/-- The name behind a mark, which may be left out. -/
theorem groups_markedName : GroupsAs tokens blocked (AllGrouped tokens blocked) markedName := by
  refine (maintains_sees .ident).bind fun _ _ => .ite ?_ (upholds_pure .nil)
  refine upholds_takeName.bind fun name hname => ?_
  obtain ⟨content, rfl⟩ := hname
  exact upholds_pure (.one (.leaf content))

/-- A parameter `*name`, `**name` or `&name`. -/
theorem groups_markedParameter {kind : Syntax.Kind} (hkind : kind.isUniform) :
    GroupsAs tokens blocked (Grouped tokens blocked) (markedParameter kind) :=
  maintains_advance.bind fun _ _ => groups_markedName.bind fun _ hname => groups_build hname hkind

/-- A parameter `name:`, with or without a default. -/
theorem groups_keywordParameter (hg : g.Groups tokens) (closers : List Kind) (inBlock : Bool) :
    GroupsAs tokens blocked (Grouped tokens blocked) (keywordParameter g closers inBlock) := by
  refine maintains_advance.bind fun label _ => (maintains_seesAny _).bind fun _ _ =>
    .ite (groups_build (.one (.leaf _)) rfl) ?_
  exact (hg.read _ blocked).bind fun _ hn => groups_build (.two (.leaf _) hn) rfl

/-- A parameter, with or without a default. -/
theorem groups_positionalParameter (hg : g.Groups tokens) (inBlock : Bool) :
    GroupsAs tokens blocked (Grouped tokens blocked) (positionalParameter g inBlock) := by
  refine maintains_advance.bind fun name _ => (maintains_accept .assign).bind fun _ _ =>
    .ite ?_ (groups_build (.one (.leaf _)) rfl)
  exact (hg.read _ blocked).bind fun _ hn => groups_build (.two (.leaf _) hn) rfl

/-- One parameter, by its first token. -/
theorem groups_parameter (hg : g.Groups tokens) (closers : List Kind) (inBlock : Bool) :
    GroupsAs tokens blocked (Grouped tokens blocked) (parameter g closers inBlock) := by
  refine maintains_current.bind fun t _ => ?_
  split
  · exact groups_markedParameter rfl
  · exact groups_markedParameter rfl
  · exact groups_markedParameter rfl
  · exact groups_keywordParameter hg closers inBlock
  · exact maintains_advance.bind fun opener _ => hg.read _ blocked
  · exact groups_positionalParameter hg inBlock
  · exact upholds_fail _

/-- A name local to a block. -/
theorem groups_shadowParameter : GroupsAs tokens blocked (Grouped tokens blocked) shadowParameter :=
  maintains_advance.bind fun _ _ => (maintains_declare _).bind fun _ _ =>
    groups_build (.one (.leaf _)) rfl

/-- One round of the names local to a block. -/
theorem groups_shadowRound (hfound : AllGrouped tokens blocked found) :
    GroupsAs tokens blocked (Round.All (AllGrouped tokens blocked) (AllGrouped tokens blocked))
      (shadowRound found) :=
  (maintains_sees .ident).bind fun _ _ => .ite
    (groups_shadowParameter.bind fun _ hn => upholds_commaRound (hfound.concat hn))
    (upholds_pure hfound)

/-- One round of a parameter list. -/
theorem groups_parameterRound (hg : g.Groups tokens) (closers : List Kind) (inBlock : Bool)
    (hfound : AllGrouped tokens blocked found) :
    GroupsAs tokens blocked (Round.All (AllGrouped tokens blocked) (AllGrouped tokens blocked))
      (parameterRound g closers inBlock found) := by
  refine (maintains_seesAny closers).bind fun _ _ => .ite (upholds_pure hfound) ?_
  refine (maintains_accept .semi).bind fun _ _ => .ite ?_ ?_
  · exact (upholds_rounds g.limit (fun _ => groups_shadowRound) hfound).again
  · exact (groups_parameter hg closers inBlock).bind fun next hnext =>
      (maintains_declareParameter next).bind fun _ _ => upholds_listRound (hfound.concat hnext)

/-- A parameter list up to its closing mark. -/
theorem groups_parameters (hg : g.Groups tokens) (closers : List Kind) (inBlock : Bool) :
    GroupsAs tokens blocked (AllGrouped tokens blocked) (parameters g closers inBlock) :=
  upholds_rounds g.limit (fun _ => groups_parameterRound hg closers inBlock) AllGrouped.nil

/-- A parameter that is a list in parentheses. -/
theorem groups_parameterGroup (hg : g.Groups tokens) (opener : Token) (inBlock : Bool) :
    GroupsAs tokens blocked (Grouped tokens blocked) (parameterGroup g opener inBlock) :=
  (groups_parameters hg _ inBlock).bind fun _ hinner => (maintains_expect .rpar).bind fun _ _ =>
    groups_build hinner rfl

end XhrKeywords.Grammar
