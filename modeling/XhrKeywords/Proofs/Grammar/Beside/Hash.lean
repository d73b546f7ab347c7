import XhrKeywords.Proofs.Grammar.Beside.Program

/-!
# Pairs with and without braces

A hash in braces and the pairs among the arguments of a call are read by two repetitions of their
own. They go through the same tokens round by round: as long as both of them go on, they have found
the same pairs. Where they part, the arguments have come to a token that no comma and no
parenthesis is, so the list of arguments is not closed there.
-/

namespace XhrKeywords.Grammar

open Syntax hiding Kind
open Token (Kind)

variable {k l : Int} {g g' : Rules} {s s' t t' : State}

/-- What has been passed over is not passed over again. -/
theorem State.skip_skip (s : State) (holds : Kind → Bool) :
    (s.skip holds).skip holds = s.skip holds := by
  have hgo : ∀ ahead current previous, (State.skip.go holds s current previous ahead).skip holds =
      State.skip.go holds s current previous ahead := by
    intro ahead
    induction ahead with
    | nil => exact fun _ _ => rfl
    | cons next others ih =>
      intro current previous
      rw [State.skip.go]
      split
      · exact ih next current
      · rename_i hstays
        exact skip_run _ (Bool.eq_false_iff.mpr hstays)
  exact hgo s.ahead s.current s.previous

/-- States that are beside each other behind the line breaks that follow. -/
def State.Level (k l : Int) (s s' : State) : Prop :=
  (s.skip (· == .newline)).Beside k l (s'.skip (· == .newline))

theorem State.Beside.level (h : s.Beside k l s') : s.Level k l s' := h.skip rfl rfl

theorem State.Level.skip_right (h : s.Level k l s') :
    s.Level k l (s'.skip (· == .newline)) := by
  rw [State.Level, State.skip_skip]
  exact h

/-- Only tails are behind line breaks outside. -/
theorem State.Outside.skip_ne (h : s.Outside) {kind : Kind} (hkind : isTail kind = false) :
    ¬((s.skip (· == .newline)).current.kind == kind) = true := by
  intro hsame
  have htail := Steady.skip h (· == .newline) _ List.mem_cons_self
  rw [beq_iff_eq.mp hsame, hkind] at htail
  cases htail

/-- Where the reading of a key ends well: nothing goes on with it, and the list may. -/
def endsKey (kind : Kind) : Bool :=
  kind == .assoc || kind == .comma || kind == .newline || kind == .rpar

/-- At a token that no expression goes on with, an assignment is its first primary. -/
theorem primary_of_assignment (hstart : isUnsigned s.current.kind = true) {n : Node}
    (hrun : assignment g s = .ok (n, t)) :
    ∃ m u, primary g s = .ok (m, u) ∧
      (0 < g.limit → settlesExpression u.current.kind = true → n = m ∧ t = u) := by
  cases hoperand : operand g s with
  | error e => cases (assignment_of_error hstart hoperand).symm.trans hrun
  | ok r =>
    obtain ⟨m, u, hprimary, -⟩ := of_bind hoperand
    refine ⟨m, u, hprimary, fun hlimit hend => ?_⟩
    have hforward := assignment_of_settled hlimit hstart hend
      (operand_of_primary hlimit hend hprimary)
    cases hforward.symm.trans hrun
    exact ⟨rfl, rfl⟩

/-- Inside, a state in front of a token that goes on with an expression is in front of the same
token in both places; it ends no key. -/
theorem State.Beside.settles (h : s.Beside k l s') (hkey : endsKey s'.current.kind = true) :
    settlesExpression s.current.kind = true := by
  rcases h.faces with hdisplaced | ⟨hbrace, -⟩
  · rw [hdisplaced.kind] at hkey
    revert hkey
    generalize s.current.kind = kind
    cases kind <;> decide
  · rw [hbrace]
    rfl

theorem State.Outside.settles (h : s.Outside) : settlesExpression s.current.kind = true := by
  have htail := h s.current List.mem_cons_self
  revert htail
  generalize s.current.kind = kind
  cases kind <;> decide

/-- An assignment that starts with `not` negates one, when nothing goes on behind that. -/
theorem assignment_of_not (depth : Nat) {n : Node} (hnot : s.current.kind = .kwNot)
    (hrun : assignment (rulesAt depth) s = .ok (n, t)) :
    ∃ inner u, readTo depth .assignment s.advance = .ok (inner, u) ∧
      (settlesExpression u.current.kind = true → t = u ∧
        n = built u .unop [leafAs .operator s.current, inner] (ofToken s.current)) := by
  obtain ⟨m, u, hprimary, hsettled⟩ := primary_of_assignment (by rw [hnot]; rfl) hrun
  rw [primary, current_bind, hnot] at hprimary
  change negatedOperand _ s = _ at hprimary
  rw [negatedOperand, advance_bind] at hprimary
  obtain ⟨inner, v, hinner, ⟨⟩⟩ := of_bind hprimary
  have hdepth : 0 < depth := by
    cases depth with
    | zero => cases hinner
    | succ _ => exact Nat.succ_pos _
  exact ⟨inner, u, hinner, fun hend => (hsettled hdepth hend).symm⟩

/-- Behind a `not` in a hash stands what behind a `not` among arguments does, or the arguments are
not read up to the end of a key. -/
theorem key_beside (depth depth' : Nat) {n n' : Node} (hs : s.Beside k l s')
    (hrun : readTo depth .assignment s = .ok (n, t))
    (hrun' : readTo depth' .negation s' = .ok (n', t')) :
    t.Outside ∨ (Alike n n' ∧ t.Beside k l t') ∨ endsKey t'.current.kind = false := by
  -- An assignment and a negation part at `not` only, and behind it they are one level deeper again.
  induction depth generalizing depth' s s' n n' t t' with
  | zero => cases hrun
  | succ depth ih =>
    cases depth' with
    | zero => cases hrun'
    | succ depth' =>
      have hassignment : assignment (rulesAt depth) s = .ok (n, t) := hrun
      have hnegation : negation (rulesAt depth') s' = .ok (n', t') := hrun'
      rw [negation, bind_of_eq (sees_run ..)] at hnegation
      split at hnegation
      · rename_i hnot'
        have hnot : s.current.kind = .kwNot := by
          rcases hs.faces with hdisplaced | ⟨-, hparen⟩
          · rw [← hdisplaced.kind]
            exact beq_iff_eq.mp hnot'
          · rw [hparen] at hnot'
            cases hnot'
        obtain ⟨inner, u, hinner, hsettled⟩ := assignment_of_not depth hnot hassignment
        rw [unaryOperation, advance_bind] at hnegation
        obtain ⟨inner', u', hinner', ⟨⟩⟩ := of_bind hnegation
        have hout (h : u.Outside) : t.Outside := (hsettled h.settles).1 ▸ h
        rcases hs.advance with hbehind | ⟨htaken, hadvance⟩
        · have hself : Agrees k l (readTo depth .assignment) (readTo depth .assignment) :=
            agrees_readTo_self depth (.same .assignment)
          exact .inl (hout (hself.stays hbehind hinner).1)
        · rcases ih depth' hadvance hinner hinner' with hbehind | ⟨halike, hu⟩ | hkey
          · exact .inl (hout hbehind)
          · by_cases hkey : endsKey t'.current.kind = true
            · obtain ⟨rfl, rfl⟩ := hsettled (hu.settles hkey)
              refine .inr (.inl ⟨alike_built .unop _ _ ?_, hu⟩)
              exact alike_cons (alike_leafAs (alike_of_displaced htaken) _)
                (alike_cons halike alike_nil)
            · exact .inr (.inr (Bool.eq_false_iff.mpr hkey))
          · exact .inr (.inr hkey)
      · have hassignment' : readTo (depth' + 1) .assignment s' = .ok (n', t') := hnegation
        exact ((agrees_readTo _ _ (.same .assignment)).alike hs hrun hassignment').imp id .inl

/-- A comma goes on with a list of arguments and a parenthesis closes it. -/
def endsEntry (kind : Kind) : Bool := kind == .comma || kind == .rpar

/-- Neither a splat nor a block argument stands in a hash. -/
theorem stuck_mark {mark : Kind} (hmark : mark = .star ∨ mark = .amp) (depth : Nat) :
    Stuck (State.Before mark) (readTo depth .assignment) := by
  cases depth with
  | zero => exact stuck_fail _
  | succ depth =>
    rintro s ⟨n, t⟩ hs hrun
    have hkind : s.current.kind = mark := hs
    have hunsigned : isUnsigned mark = true := by rcases hmark with rfl | rfl <;> rfl
    obtain ⟨m, u, hprimary, -⟩ := primary_of_assignment (g := rulesAt depth)
      (by rw [hkind]; exact hunsigned) hrun
    rw [primary, current_bind, hkind] at hprimary
    rcases hmark with rfl | rfl <;> cases hprimary

/-- What is read alike is a pair of both. -/
theorem addPair_beside {p p' : Parser Node} (h : Agrees k l p p') {c c' : Collected} {pair : Node}
    (hs : s.Beside k l s') (hrun : p s = .ok (pair, t))
    (hrun' : (do return c.addPair (← p') : Parser Collected) s' = .ok (c', t')) :
    t.Outside ∨ ∃ pair', c' = c.addPair pair' ∧ Alike pair pair' ∧ t.Beside k l t' := by
  obtain ⟨pair', u', hp', ⟨⟩⟩ := of_bind hrun'
  exact (h.alike hs hrun hp').imp id fun hpair => ⟨pair', rfl, hpair⟩

/-- A key with its value is a pair of a hash; behind an arrow that a line break stands in front of,
there is no argument. -/
theorem rocketPair_beside (depth depth' : Nat) {c c' : Collected} {pair : Node}
    (hs : s.Beside k l s') (hrun : rocketPair (rulesAt depth) s = .ok (pair, t))
    (hrun' : valueOrPair (rulesAt depth') (some .rpar) c s' = .ok (c', t')) :
    t.Outside ∨ (∃ pair', c' = c.addPair pair' ∧ Alike pair pair' ∧ t.Beside k l t') ∨
      endsEntry (t'.skip (· == .newline)).current.kind = false := by
  obtain ⟨key, u, hkey, hrun⟩ := of_bind hrun
  obtain ⟨value, u', hvalue, hrun'⟩ := of_bind hrun'
  rw [skipNewlines_bind] at hrun
  obtain ⟨harrow, hrun⟩ := of_expectOr hrun
  rw [accept_bind] at hrun'
  rcases key_beside depth depth' hs hkey hvalue with hout | ⟨halike, hu⟩ | hdoomed
  · exact absurd harrow (hout.skip_ne rfl)
  · by_cases harrow' : (u'.current.kind == .assoc) = true
    · have hkind : u.current.kind = .assoc := by
        rcases hu.faces with hdisplaced | ⟨-, hparen⟩
        · rw [← hdisplaced.kind]
          exact beq_iff_eq.mp harrow'
        · rw [hparen] at harrow'
          cases harrow'
      rw [skip_run u (by rw [hkind]; rfl)] at hrun
      rw [if_pos harrow', if_pos rfl] at hrun'
      have hpair : Agrees k l (arrowPair (rulesAt depth) key) (arrowPair (rulesAt depth') value) :=
        agrees_arrowPair (rules_beside depth depth') halike
      rcases hu.advance with hout | ⟨-, hadvance⟩
      · exact .inl (hpair.stays hout hrun).1
      · exact (addPair_beside hpair hadvance hrun hrun').imp id .inl
    · -- a line break in front of the arrow, which the arguments do not go over
      rw [if_neg harrow'] at hrun'
      cases hrun'
      refine .inr (.inr ?_)
      have hskip : (u.skip (· == .newline)).Beside k l (t'.skip (· == .newline)) := hu.level
      rcases hskip.faces with hdisplaced | ⟨hbrace, -⟩
      · rw [hdisplaced.kind, beq_iff_eq.mp harrow]
        rfl
      · rw [hbrace] at harrow
        cases harrow
  · have harrow' : ¬(u'.current.kind == .assoc) = true := by
      intro h
      rw [beq_iff_eq.mp h] at hdoomed
      cases hdoomed
    rw [if_neg harrow'] at hrun'
    cases hrun'
    refine .inr (.inr ?_)
    have hclass : ∀ kind, endsKey kind = false →
        (kind == .newline) = false ∧ endsEntry kind = false := by
      intro kind
      cases kind <;> decide
    obtain ⟨hnewline, hentry⟩ := hclass _ hdoomed
    rw [skip_run t' hnewline, hentry]

/-- An element of a hash is a pair among arguments, or the list of arguments does not go on. -/
theorem element_beside (depth depth' : Nat) {c c' : Collected} {pair : Node}
    (hs : s.Beside k l s') (hrun : hashElement (rulesAt depth) s = .ok (pair, t))
    (hrun' : argument (rulesAt depth') (some .rpar) c s' = .ok (c', t')) :
    t.Outside ∨ (∃ pair', c' = c.addPair pair' ∧ Alike pair pair' ∧ t.Beside k l t') ∨
      endsEntry (t'.skip (· == .newline)).current.kind = false := by
  have hg : Rules.Beside k l (rulesAt depth) (rulesAt depth') := rules_beside depth depth'
  rcases hs.faces with hdisplaced | ⟨hbrace, -⟩
  · have hlabel (hrun : labelPair (rulesAt depth) (some .rbrace) s = .ok (pair, t))
        (hrun' : (do return c.addPair (← labelPair (rulesAt depth') (some .rpar)) :
          Parser Collected) s' = .ok (c', t')) :
        t.Outside ∨ ∃ pair', c' = c.addPair pair' ∧ Alike pair pair' ∧ t.Beside k l t' := by
      refine addPair_beside (agrees_labelPair hg ?_ ?_) hs hrun hrun'
      · rintro _ ⟨rfl⟩
        rfl
      · rintro _ ⟨rfl⟩
        rfl
    rw [hashElement, current_bind] at hrun
    rw [argument, current_bind, hdisplaced.kind] at hrun'
    generalize hkind : s.current.kind = kind at hrun hrun'
    split at hrun'
    · exact absurd hrun ((stuck_mark (.inl rfl) depth).bind hkind)
    · exact absurd hrun ((stuck_mark (.inr rfl) depth).bind hkind)
    · exact (addPair_beside (agrees_doubleSplat hg) hs hrun hrun').imp id .inl
    · exact (hlabel hrun hrun').imp id .inl
    · exact (hlabel hrun hrun').imp id .inl
    · split at hrun
      · contradiction
      · contradiction
      · contradiction
      · exact rocketPair_beside depth depth' hs hrun hrun'
  · exact absurd hrun (stuck_hashElement (.inl rfl) (hg.stuck .assignment rfl) hbrace)

/-- The waiting pairs among arguments that begin with them are the pairs of a hash. -/
structure Gathers (found : List Node) (c : Collected) : Prop where
  arguments : c.arguments = []
  pairs : Alike found c.pairs

/-- Rounds that go on, or end, with the same pairs. -/
inductive Round.Gathers :
    Round (List Node) (List Node) → Round Collected Collected → Prop
  | again {found : List Node} {c : Collected} (h : Grammar.Gathers found c) :
    Gathers (.again found) (.again c)
  | done {found : List Node} {c : Collected} (h : Grammar.Gathers found c) :
    Gathers (.done found) (.done c)

theorem Gathers.addPair {found : List Node} {c : Collected} (h : Gathers found c) {n n' : Node}
    (hn : Alike n n') : Gathers (found ++ [n]) (c.addPair n') :=
  ⟨h.arguments, alike_concat h.pairs hn⟩

/-- Between parentheses line breaks are passed over. -/
theorem argumentRound_within (g : Rules) (closer : Kind) (c : Collected) :
    argumentRound g (some closer) c = (do
      skipNewlines
      if ← sees closer then return .done c
      let more ← argument g (some closer) c
      skipNewlines
      listRound more) := rfl

/-- Behind an element both lists go on with a comma or end at the same token. -/
theorem endOfRound_beside {found : List Node} {c : Collected}
    {r : Round (List Node) (List Node)} {r' : Round Collected Collected} (hs : s.Beside k l s')
    (h : Gathers found c)
    (hrun : commaRound found s = .ok (r, t)) (hrun' : listRound c s' = .ok (r', t')) :
    t.Outside ∨ (r.Gathers r' ∧ t.Level k l t') := by
  have hcomma : (s'.current.kind == .comma) = (s.current.kind == .comma) :=
    @Meets.holds _ _ hs.faces.meets (· == .comma) rfl
  rw [commaRound, accept_bind] at hrun
  rw [listRound, accept_bind, hcomma] at hrun'
  by_cases hmore : (s.current.kind == .comma) = true
  · rw [if_pos hmore] at hrun hrun'
    cases hrun
    cases hrun'
    exact hs.advance.imp id fun hadvance => ⟨.again h, hadvance.2.level.skip_right⟩
  · rw [if_neg hmore] at hrun hrun'
    cases hrun
    cases hrun'
    exact .inr ⟨.done h, hs.level⟩

/-- Rounds end alike, unless the arguments end where no parenthesis closes them. -/
theorem round_beside (depth depth' : Nat) {found : List Node} {c : Collected}
    {r : Round (List Node) (List Node)} {r' : Round Collected Collected} (hs : s.Level k l s')
    (h : Gathers found c) (hrun : hashRound (rulesAt depth) found s = .ok (r, t))
    (hrun' : argumentRound (rulesAt depth') (some .rpar) c s' = .ok (r', t')) :
    t.Outside ∨ (r.Gathers r' ∧ t.Level k l t') ∨
      ∃ c', r' = .done c' ∧ t'.current.kind ≠ .rpar := by
  have hg : Rules.Beside k l (rulesAt depth) (rulesAt depth') := rules_beside depth depth'
  have hs : (s.skip (· == .newline)).Beside k l (s'.skip (· == .newline)) := hs
  rw [hashRound, skipNewlines_bind, sees_bind] at hrun
  rw [argumentRound_within, skipNewlines_bind, sees_bind] at hrun'
  -- Behind the line breaks the two states face the same token, or the brace and the parenthesis.
  rcases hs.faces with hdisplaced | ⟨hbrace, hparen⟩
  · rw [hdisplaced.kind] at hrun'
    split at hrun
    · -- a brace inside, where the arguments look for an expression
      rename_i hbrace
      have hkind : (s.skip (· == .newline)).current.kind = .rbrace := beq_iff_eq.mp hbrace
      rw [hkind, if_neg (by decide)] at hrun'
      have hstuck : Stuck (State.Before .rbrace) (argument (rulesAt depth') (some .rpar) c) :=
        stuck_argument (.inl rfl) fun phrase hphrase =>
          (stuck_readTo (.inl rfl) depth' hphrase).of_imp fun _ => .inl
      exact absurd hrun' (hstuck.bind (hdisplaced.kind.trans hkind))
    · split at hrun'
      · -- a parenthesis inside, where the hash looks for a key
        rename_i hparen
        have hstuck : Stuck (State.Before .rpar) (hashElement (rulesAt depth)) :=
          stuck_hashElement (.inr rfl) ((stuck_readTo (.inr rfl) depth rfl).of_imp fun _ => .inl)
        exact absurd hrun (hstuck.bind (beq_iff_eq.mp hparen))
      · obtain ⟨pair, u, hpair, hrun⟩ := of_bind hrun
        obtain ⟨c', u', hargument, hrun'⟩ := of_bind hrun'
        rw [skipNewlines_bind] at hrun hrun'
        rcases element_beside depth depth' hs hpair hargument with hout | ⟨pair', rfl, halike, hu⟩ |
          hdoomed
        · have hrest : Agrees k l (commaRound (found ++ [pair])) (commaRound (found ++ [pair])) :=
            agrees_commaRound (Likeness.refl _)
          exact .inl (hrest.stays (Steady.skip hout _) hrun).1
        · exact (endOfRound_beside hu.level (h.addPair halike) hrun hrun').imp id .inl
        · have hclass : ∀ kind, endsEntry kind = false →
              ¬(kind == .comma) = true ∧ kind ≠ .rpar := by
            intro kind
            cases kind <;> decide
          obtain ⟨hcomma, hkind⟩ := hclass _ hdoomed
          rw [listRound, accept_bind, if_neg hcomma] at hrun'
          cases hrun'
          exact .inr (.inr ⟨_, rfl, hkind⟩)
  · rw [hbrace] at hrun
    rw [hparen] at hrun'
    cases hrun
    cases hrun'
    exact .inr (.inl ⟨.done h, hs.level⟩)

/-- Up to the closers both lists hold the same pairs. -/
theorem rounds_beside (depth depth' : Nat) (limit limit' : Nat) {found pairs : List Node}
    {c c' : Collected} (hs : s.Level k l s') (h : Gathers found c)
    (hrun : rounds limit (hashRound (rulesAt depth)) found s = .ok (pairs, t))
    (hrun' : rounds limit' (argumentRound (rulesAt depth') (some .rpar)) c s' = .ok (c', t')) :
    t.Outside ∨ (Gathers pairs c' ∧ t.Level k l t') ∨ t'.current.kind ≠ .rpar := by
  induction limit generalizing limit' found c s s' with
  | zero => cases hrun
  | succ fewer ih =>
    cases limit' with
    | zero => cases hrun'
    | succ fewer' =>
      have hg : Rules.Beside k l (rulesAt depth) (rulesAt depth) := rules_beside depth depth
      have hrounds (found : List Node) : Maintains State.Outside
          (rounds fewer (hashRound (rulesAt depth)) found) :=
        maintains_rounds fewer
          (fun found => (agrees_hashRound hg (Likeness.refl found)).stays) found
      obtain ⟨r, u, hround, hrun⟩ := of_bind hrun
      obtain ⟨r', u', hround', hrun'⟩ := of_bind hrun'
      rcases round_beside depth depth' hs h hround hround' with hout | ⟨hr, hu⟩ | ⟨c', rfl, hkind⟩
      · left
        cases r with
        | again next => exact (hrounds next hout hrun).1
        | done result =>
          cases hrun
          exact hout
      · cases hr with
        | again hnext => exact ih fewer' hu hnext hrun hrun'
        | done hnext =>
          cases hrun
          cases hrun'
          exact .inr (.inl ⟨hnext, hu⟩)
      · cases hrun'
        exact .inr (.inr hkind)

/-- When the brace and the parenthesis are met, only their tails are left. -/
theorem State.Beside.atClosers (h : s.Beside k l s') (hbrace : s.current.kind = .rbrace)
    (hparen : s'.current.kind = .rpar) : s.advance.Outside ∧ s'.advance.Outside := by
  obtain ⟨current, ahead, previous, blocked, scope, outer⟩ := s
  obtain ⟨current', ahead', previous', blocked', scope', outer'⟩ := s'
  have htokens := h.tokens
  dsimp only at htokens
  cases htokens with
  | closer _ _ behind tail tail' =>
    obtain ⟨next, others, rfl⟩ := List.exists_cons_of_ne_nil behind
    refine ⟨tail, ?_⟩
    cases ahead' with
    | nil =>
      have hcurrent : isTail current'.kind = true := by
        rw [show current'.kind = .rpar from hparen]
        rfl
      exact List.forall_mem_singleton.mpr hcurrent
    | cons next' others' => exact tail'
  | token displaced _ =>
    have hkind := displaced.kind
    rw [show current.kind = .rbrace from hbrace, show current'.kind = .rpar from hparen] at hkind
    cases hkind

theorem State.advance_blocked (s : State) (blocked : Nat) :
    ({ s with blocked } : State).advance = { s.advance with blocked } := by
  obtain ⟨current, ahead, previous, _, scope, outer⟩ := s
  cases ahead <;> rfl

/-- Nothing but the pairs is gathered into one hash. -/
theorem Gathers.flush {found : List Node} {c : Collected} (h : Gathers found c) (hne : found ≠ [])
    (span : Option Span) : Alike [.tree .hash span found] c.flush := by
  obtain ⟨arguments, pairs⟩ := c
  obtain ⟨rfl, hpairs⟩ := h
  have hlength : found.length = pairs.length := length_eq_of_alike hpairs
  match pairs with
  | [] => exact absurd (List.length_eq_zero_iff.mp hlength) hne
  | first :: others =>
    refine alike_cons ?_ alike_nil
    rw [enclose]
    change (Node.tree .hash span found).erase = (Node.tree .hash _ (first :: others)).erase
    rw [Node.erase_tree, Node.erase_tree, show found.map Node.erase = _ from hpairs]

/-- A hash in braces and the arguments in parentheses around the same tokens end together, and the
arguments are one hash of the same pairs. -/
theorem hash_beside (depth depth' : Nat) {n : Node} {found : List Node}
    (hs : s.advance.Beside k l s'.advance)
    (hrun : hash (rulesAt depth) s = .ok (n, t))
    (hrun' : delimitedArguments (rulesAt depth') .rpar s' = .ok (found, t')) :
    t.Outside ∧ t'.Outside ∧
      ∃ span pairs, n = .tree .hash span pairs ∧ (pairs ≠ [] → Alike [n] found) := by
  rw [hash, bracketed] at hrun
  obtain ⟨u, hbody, rfl⟩ := of_withBlocked hrun
  obtain ⟨-, hbody⟩ := of_expectOr hbody
  obtain ⟨pairs, v, hpairs, hbody⟩ := of_bind hbody
  rw [closedHash, skipNewlines_bind] at hbody
  obtain ⟨hbrace, ⟨⟩⟩ := of_expectOr hbody
  rw [delimitedArguments, advance_bind, bracketed] at hrun'
  obtain ⟨u', hbody', rfl⟩ := of_withBlocked hrun'
  obtain ⟨c, v', hcollected, hbody'⟩ := of_bind hbody'
  obtain ⟨hparen, ⟨⟩⟩ := of_expectOr hbody'
  rw [State.advance_blocked] at hpairs
  have hinside : State.Beside k l { s.advance with blocked := 0 }
      { s'.advance with blocked := 0 } := { hs with blocked := rfl }
  rcases rounds_beside depth depth' _ _ hinside.level ⟨rfl, alike_nil⟩ hpairs hcollected with
    hout | ⟨hgathers, hlevel⟩ | hdoomed
  · exact absurd hbrace (hout.skip_ne rfl)
  · have hbeside : (v.skip (· == .newline)).Beside k l (v'.skip (· == .newline)) := hlevel
    rw [skip_run v' (by rw [beq_iff_eq.mp hparen]; rfl)] at hbeside
    obtain ⟨hout, hout'⟩ := hbeside.atClosers (beq_iff_eq.mp hbrace) (beq_iff_eq.mp hparen)
    exact ⟨hout, hout', _, pairs, rfl, fun hne => hgathers.flush hne _⟩
  · exact absurd (beq_iff_eq.mp hparen) hdoomed

end XhrKeywords.Grammar
