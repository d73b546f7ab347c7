import XhrKeywords.Proofs.Grammar.Nest.Expression
import XhrKeywords.Proofs.Outcome

/-!
# Programs nest

Statements and, with the phrases of every depth of nesting, the whole tree of a source.
-/

namespace XhrKeywords.Grammar

open Syntax hiding Kind
open Token (Kind)

variable {tokens : List Token} {first : Token} {s t : State} {g : Rules} {n m : Node}

/-- An operand that is assigned to takes tokens. -/
theorem consumes_targetOperand (hg : g.Nests tokens) (hs : s.Along tokens)
    (h : targetOperand g s = .ok (n, t)) : Consumes tokens s.current t [n] := by
  obtain ⟨value, u, hvalue, h⟩ := of_bind h
  obtain ⟨hread, scope, rfl⟩ := (readsValues_operand hg hs hvalue).toTarget h
  exact hread.toConsumes.congr _ _ _

/-- The variable of a splat among targets follows, if there is one. -/
theorem follows_splatVariable (hg : g.Nests tokens) {closer : Kind} {found : List Node}
    (hs : s.Along tokens) (h : splatVariable g closer s = .ok (found, t)) :
    Follows tokens s.previous.stop t found := by
  rw [splatVariable, seesAny_bind] at h
  split at h
  · cases h
    exact hs.stay
  · obtain ⟨inner, u, hinner, h⟩ := of_bind h
    cases h
    exact (consumes_targetOperand hg hs hinner).follows hs

/-- A splat among targets takes tokens. -/
theorem consumes_splatTarget (hg : g.Nests tokens) {closer : Kind} (hs : s.Along tokens)
    (hmark : s.current.kind.isMark) (h : splatTarget g closer s = .ok (n, t)) :
    Consumes tokens s.current t [n] := by
  rw [splatTarget, advance_bind] at h
  obtain ⟨inner, u, hinner, h⟩ := of_bind h
  cases h
  have htake := hs.take hmark
  have hall := htake.trans (follows_splatVariable hg htake.along hinner)
  exact hall.goOn (hall.toFollows.tree nofun rfl) (Nat.le_refl _)

/-- A target takes tokens. -/
theorem consumes_target (hg : g.Nests tokens) {closer : Kind} (hs : s.Along tokens)
    (h : target g closer s = .ok (n, t)) : Consumes tokens s.current t [n] := by
  rw [target, sees_bind] at h
  split at h
  · rename_i hstar
    exact consumes_splatTarget hg hs (isMark_of_beq hstar rfl) h
  · rw [sees_bind] at h
    split at h
    · rename_i hopener
      rw [advance_bind] at h
      have htake := hs.take (isMark_of_beq hopener rfl)
      exact htake.trans (hg.targetGroup _ htake.along h)
    · exact consumes_targetOperand hg hs h

/-- Targets lie one behind the other, and there is a first one. -/
theorem consumes_targets (hg : g.Nests tokens) {closer : Kind} {found : List Node}
    (hs : s.Along tokens) (h : targets g closer s = .ok (found, t)) :
    Consumes tokens s.current t found := by
  have hround : ∀ {found : List Node} {v : State} {r w},
      (found = [] ∧ v = s) ∨ Consumes tokens s.current v found →
      targetRound g closer found v = .ok (r, w) →
      r.All (fun found => (found = [] ∧ w = s) ∨ Consumes tokens s.current w found)
        (Consumes tokens s.current w) := by
    intro found v r w hfound h
    obtain ⟨next, x, hnext, h⟩ := of_bind h
    have hmore : Consumes tokens s.current x (found ++ [next]) := by
      rcases hfound with ⟨rfl, rfl⟩ | hfound
      · exact consumes_target hg hs hnext
      · exact hfound.trans ((consumes_target hg hfound.along hnext).follows hfound.along)
    rw [accept_bind] at h
    split at h
    · rename_i hcomma
      rw [if_pos rfl, sees_bind] at h
      have hmore := hmore.advance (isMark_of_beq hcomma rfl)
      split at h
      · cases h
        exact hmore
      · cases h
        exact Or.inr hmore
    · cases h
      exact hmore
  exact of_rounds hround (Or.inl ⟨rfl, rfl⟩) h

/-- Targets in parentheses follow. -/
theorem placesTrees_targetGroup (hg : g.Nests tokens) (opener : Token) :
    PlacesTrees tokens (targetGroup g opener) := by
  intro s n t hs h
  obtain ⟨inner, u, hinner, h⟩ := of_bind h
  obtain ⟨hcloser, h⟩ := of_expectOr h
  cases h
  have hfollows := (consumes_targets hg hs hinner).follows hs
  exact (hfollows.advance (isMark_of_beq hcloser rfl)).tree nofun rfl

/-- The right side of a multiple assignment is a value. -/
theorem readsValues_assignedValues (hg : g.Nests tokens) :
    ReadsValues tokens (assignedValues g) := by
  intro s n t hs h
  obtain ⟨found, u, hfound, h⟩ := of_bind h
  obtain ⟨hbegins, hended⟩ := begins_elements (readsValues_splatOr hg.assignment) hs hfound
  cases found with
  | nil => cases h
  | cons first others =>
    cases others with
    | nil =>
      cases h
      exact hbegins.reads hended
    | cons second others =>
      cases h
      exact hbegins.built hended (by nofun) rfl

/-- A multiple assignment is a value. -/
theorem reads_multipleAssignment (hg : g.Nests tokens) (hs : s.Along tokens)
    (h : multipleAssignment g s = .ok (n, t)) : Reads tokens s.current n t := by
  rw [multipleAssignment, current_bind] at h
  obtain ⟨left, u, hleft, h⟩ := of_bind h
  rw [build_bind] at h
  obtain ⟨hassign, h⟩ := of_expectOr h
  rw [skipNewlines_bind] at h
  obtain ⟨value, v, hvalue, h⟩ := of_bind h
  cases h
  have hleft := consumes_targets hg hs hleft
  have hfront := (hleft.advance (isMark_of_beq hassign rfl)).skipNewlines
  have hread := readsValues_assignedValues hg hfront.along hvalue
  have htuple : Consumes tokens s.current (u.advance.skip (· == .newline))
      [built u .mlhs left (ofToken s.current)] :=
    hfront.goOn (hfront.toFollows.tree nofun rfl) (Nat.le_refl _)
  exact (htuple.trans (hread.follows hfront.along)).built rfl hread.ended rfl nofun nofun

/-- A modifier with a condition keeps the start. -/
theorem Reads.conditionModifier (hg : g.Nests tokens) {kind : Syntax.Kind}
    (hn : Reads tokens first n s) (hmark : s.current.kind.isMark)
    (h : conditionModifier g kind n s = .ok (m, t)) (hkind : kind ≠ .call)
    (hwords : kind.rewords = false) : Reads tokens first m t := by
  rw [Grammar.conditionModifier, advance_bind] at h
  obtain ⟨test, u, htest, h⟩ := of_bind h
  cases h
  have hfront := hn.advance hmark
  have hread := readsValues_sequence hg hfront.along htest
  have hall := hfront.trans (hread.follows hfront.along)
  have hall := hall.goOn (hall.toFollows.mark hn.along.mem hmark .keyword) (Nat.le_refl _)
  exact hall.built hwords hread.ended hn.start nofun fun hcall => absurd hcall hkind

/-- A modifier for the case of an exception keeps the start. -/
theorem Reads.rescueModifier (hg : g.Nests tokens) (hn : Reads tokens first n s)
    (hmark : s.current.kind.isMark) (h : rescueModifier g n s = .ok (m, t)) :
    Reads tokens first m t := by
  rw [Grammar.rescueModifier, advance_bind] at h
  obtain ⟨fallback, u, hfallback, h⟩ := of_bind h
  cases h
  have hfront := hn.advance hmark
  have hread := readsValues_sequence hg hfront.along hfallback
  exact (hfront.trans (hread.follows hfront.along)).built rfl hread.ended hn.start nofun nofun

/-- One more modifier keeps the start. -/
theorem Reads.modifierRound (hg : g.Nests tokens) {r : Round Node Node}
    (hn : Reads tokens first n s) (h : modifierRound g n s = .ok (r, t)) :
    r.All (Reads tokens first · t) (Reads tokens first · t) := by
  rw [Grammar.modifierRound, current_bind] at h
  generalize hkind : s.current.kind = kind at h
  split at h
  case h_1 | h_2 | h_3 | h_4 =>
    obtain ⟨node, hnode, rfl⟩ := of_again h
    exact hn.conditionModifier hg (hkind ▸ rfl) hnode nofun rfl
  case h_5 =>
    obtain ⟨node, hnode, rfl⟩ := of_again h
    exact hn.rescueModifier hg (hkind ▸ rfl) hnode
  case h_6 =>
    cases h
    exact hn

/-- Looking for targets takes no token. -/
theorem eq_of_seesTargets {a : Bool} (h : seesTargets s = .ok (a, t)) : t = s := by
  obtain ⟨_, _, ⟨⟩, h⟩ := of_bind h
  extract_lets head next at h
  rw [isLocal_bind] at h
  split at h
  · cases h
    rfl
  · cases h
    rfl

/-- A statement without its modifiers is a value. -/
theorem readsValues_statementHead (hg : g.Nests tokens) :
    ReadsValues tokens (statementHead g) := by
  intro s n t hs h
  obtain ⟨multiple, u, hsees, h⟩ := of_bind h
  cases eq_of_seesTargets hsees
  split at h
  · exact reads_multipleAssignment hg hs h
  · exact readsValues_sequence hg hs h

/-- A statement is a value. -/
theorem readsValues_statement (hg : g.Nests tokens) : ReadsValues tokens (statement g) := by
  intro s n t hs h
  obtain ⟨first, u, hfirst, h⟩ := of_bind h
  exact (readsValues_statementHead hg hs hfirst).loop (Reads.modifierRound hg) h

/-- The condition and the branches behind `elsif` follow it. -/
theorem placesTrees_conditional (hg : g.Nests tokens) {keyword : Token} (hmem : keyword ∈ tokens)
    (hmark : keyword.kind.isMark) :
    PlacesTrees tokens (conditional g (sequence g) keyword) := by
  intro s n t hs h
  obtain ⟨children, rfl, hchildren⟩ := follows_conditional hg (readsValues_sequence hg) hs h
  exact (hchildren.mark hmem hmark .keyword).tree nofun rfl

/-- The phrases of any depth of nesting nest. -/
theorem nests_readTo (depth rounds : Nat) : Rules.Nests tokens ⟨rounds, readTo depth⟩ := by
  induction depth generalizing rounds with
  | zero => constructor <;> intros <;> rintro s n t - ⟨⟩
  | succ depth ih =>
    have hg := ih depth
    exact {
      statement := readsValues_statement hg
      sequence := readsValues_sequence hg
      negation := readsValues_negation hg
      assignment := readsValues_assignment hg
      choice := readsValues_choice hg
      operation := readsValues_binaryLevels hg
      signed := readsValues_signed hg
      unary := readsValues_unary hg
      operand := readsValues_operand hg
      parameterGroup := placesTrees_parameterGroup hg
      targetGroup := placesTrees_targetGroup hg
      conditional := fun _ hmem hmark => placesTrees_conditional hg hmem hmark }

/-- In front of a list of tokens lies nothing of it. -/
theorem State.along_start {others : List Token} (htokens : Token.InOrder (first :: others)) :
    (State.start first others).Along (first :: others) := by
  have hbehind := (List.pairwise_cons.mp htokens.behind).1
  refine ⟨htokens, List.suffix_refl _, Nat.zero_le _, fun t ht hatom => Or.inr ?_⟩
  have hsolid := htokens.solid t ht (Kind.ne_eof_of_isAtom hatom)
  rcases List.mem_cons.mp ht with rfl | ht
  · exact Nat.le_refl _
  · have hfirst := htokens.ne_eof_of_behind (List.nil_append _).symm (List.ne_nil_of_mem ht)
    have hsolid := htokens.solid first List.mem_cons_self hfirst
    exact Nat.le_of_lt (Nat.lt_of_lt_of_le hsolid (hbehind t ht))

/-- The statements of a program follow from the start of the source up to its end. -/
theorem follows_of_parseTokens {tree : Node} {others : List Token}
    (htokens : Token.InOrder (first :: others)) (h : parseTokens (first :: others) = .ok tree) :
    ∃ span found u, tree = .tree .program span found ∧ u.current.kind = .eof ∧
      Follows (first :: others) 0 u found := by
  obtain ⟨⟨n, s⟩, hrun, h⟩ := bind_eq_ok_iff.mp h
  cases h
  rw [StateT.run, program, current_bind] at hrun
  obtain ⟨found, u, hfound, hrun⟩ := of_bind hrun
  obtain ⟨hend, hrun⟩ := of_expectOr hrun
  cases hrun
  exact ⟨_, found, u, rfl, beq_iff_eq.mp hend,
    follows_statements (nests_readTo _ _) (State.along_start htokens) hfound⟩

/-- The calls of a program are nested. -/
theorem nested_of_parseTokens {tree : Node} (htokens : Token.InOrder tokens)
    (h : parseTokens tokens = .ok tree) :
    ∃ hi, Nested (CallFit tokens) 0 hi [tree] := by
  cases tokens with
  | nil =>
    cases h
    exact ⟨0, .tree nofun (.nil (Nat.le_refl 0)) (.nil (Nat.le_refl 0))⟩
  | cons first others =>
    obtain ⟨span, found, u, rfl, -, hfollows⟩ := follows_of_parseTokens htokens h
    exact ⟨_, hfollows.nested.enclose (by nofun : Syntax.Kind.program ≠ .call) _⟩

/-- A program keeps the literals and names of its source. -/
theorem kept_of_parseTokens {tree : Node} (htokens : Token.InOrder tokens)
    (h : parseTokens tokens = .ok tree) :
    ∃ hi, Kept tokens 0 hi [tree] ∧ ∀ t ∈ tokens, t.kind.isAtom → t.start < hi := by
  cases tokens with
  | nil =>
    obtain ⟨front, last, hsplit, -⟩ := htokens.closed
    exact absurd hsplit.symm (List.append_ne_nil_of_right_ne_nil front (List.cons_ne_nil last []))
  | cons first others =>
    obtain ⟨span, found, u, rfl, heof, hfollows⟩ := follows_of_parseTokens htokens h
    refine ⟨_, hfollows.kept.enclose rfl _, fun t ht hatom => ?_⟩
    have hsolid := htokens.solid t ht (Kind.ne_eof_of_isAtom hatom)
    -- The end of the source is the last token, so that no token starts behind it.
    obtain ⟨before, hsplit⟩ := hfollows.along.ahead
    have hlast : u.ahead = [] := by
      by_contra hahead
      exact htokens.ne_eof_of_behind hsplit.symm hahead heof
    rw [hlast] at hsplit
    have hbehind := htokens.behind
    rw [← hsplit] at hbehind ht
    rcases List.mem_append.mp ht with ht' | ht'
    · have hle := (List.pairwise_append.mp hbehind).2.2 t ht' u.current List.mem_cons_self
      have := hfollows.along.gap.free t (hsplit ▸ ht) hatom
      omega
    · rw [List.mem_singleton.mp ht', heof] at hatom
      cases hatom

end XhrKeywords.Grammar
