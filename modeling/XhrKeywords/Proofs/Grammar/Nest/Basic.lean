import XhrKeywords.Proofs.Grammar.Running
import XhrKeywords.Proofs.Syntax.Kept
import XhrKeywords.Proofs.Token.Order

/-!
# Productions nest calls and keep tokens

Every node ends with the last token that was taken when it was finished, so what is read later lies
behind it and what it holds was read in between. A production is followed from the state it starts
in to the state it leaves: `Follows` says that the calls of its nodes lie between the last tokens
taken in the two states and that the nodes keep the literals and names among these tokens,
`Consumes` that it takes the next token and `Reads` that it reads a value, which starts with that
token and ends with a token that a call may end with.
-/

namespace XhrKeywords

open Syntax hiding Kind
open Token (Kind)

/-- Trees that may be without children: literals without content, bare jumps and calls of the
overridden method or the block without arguments, and marks in front of nothing. -/
def Syntax.Kind.mayBeEmpty : Syntax.Kind → Bool
  | .nilLit | .trueLit | .falseLit | .selfRef | .hash | .array | .paren | .zsuper | .superCall
  | .yieldCall | .redoStmt | .retryStmt | .returnStmt | .breakStmt | .nextStmt | .splat
  | .blockPass => true
  | _ => false

/-- A tree that has children unless its kind does without. -/
def Syntax.Node.Filled : Node → Prop
  | .tree kind _ children => children = [] → kind.mayBeEmpty
  | _ => False

/-- What holds of the span and the children of every call: it starts with a token and ends with one
that is no line break, or in front of the colon of a label that is its name, and its arguments are
trees with children unless their kinds do without. -/
structure CallFit (tokens : List Token) (span : Span) (children : List Node) : Prop where
  lt : span.start < span.stop
  starts : ∃ t ∈ tokens, t.start = span.start
  ends : (∃ t ∈ tokens, t.kind ≠ .newline ∧ t.kind ≠ .eof ∧ t.stop = span.stop) ∨
    ∃ t ∈ tokens, t.kind = .label ∧ t.start = span.start ∧ t.stop = span.stop + 1 ∧
      ∃ name, children = [.absent, .leaf name] ∧ name.text = t.text
  filled : ∀ n ∈ children.drop 2, n.Filled

namespace Grammar

variable {α β σ : Type}

section Steps

variable (s : State)

/-- An answer of two productions comes from answers of both. -/
theorem of_bind {p : Parser α} {f : α → Parser β} {s : State} {r : β × State}
    (h : (p >>= f) s = .ok r) : ∃ a u, p s = .ok (a, u) ∧ f a u = .ok r := by
  rw [bind_run] at h
  split at h
  · exact ⟨_, _, ‹_›, h⟩
  · cases h

/-- The same when a choice stands in front. -/
theorem of_ite_bind {c : Prop} [Decidable c] {p q : Parser α} {f : α → Parser β} {s : State}
    {r : β × State} (h : (if c then p >>= f else q >>= f) s = .ok r) :
    ∃ a u, (if c then p else q) s = .ok (a, u) ∧ f a u = .ok r := by
  by_cases hc : c
  · rw [if_pos hc] at h ⊢
    exact of_bind h
  · rw [if_neg hc] at h ⊢
    exact of_bind h

theorem current_bind (f : Token → Parser β) : (current >>= f) s = f s.current s := rfl

theorem previous_bind (f : Token → Parser β) : (previous >>= f) s = f s.previous s := rfl

theorem second_bind (f : Token → Parser β) : (second >>= f) s = f s.second s := rfl

theorem advance_bind (f : Token → Parser β) : (advance >>= f) s = f s.current s.advance := rfl

theorem sees_bind (kind : Kind) (f : Bool → Parser β) :
    (sees kind >>= f) s = f (s.current.kind == kind) s := rfl

theorem seesAny_bind (kinds : List Kind) (f : Bool → Parser β) :
    (seesAny kinds >>= f) s = f (kinds.contains s.current.kind) s := rfl

theorem seesClass_bind (holds : Kind → Bool) (f : Bool → Parser β) :
    (seesClass holds >>= f) s = f (holds s.current.kind) s := rfl

theorem seesGlued_bind (kind : Kind) (f : Bool → Parser β) :
    (seesGlued kind >>= f) s = f (s.current.kind == kind && !s.current.spaced) s := rfl

theorem isLocal_bind (name : String) (f : Bool → Parser β) :
    (isLocal name >>= f) s = f (s.scope.contains name) s := rfl

theorem doBinds_bind (f : Bool → Parser β) : (doBinds >>= f) s = f (s.blocked == 0) s := rfl

theorem skipNewlines_bind (f : Unit → Parser β) :
    (skipNewlines >>= f) s = f () (s.skip (· == .newline)) := rfl

theorem skipSeparators_bind (f : Unit → Parser β) :
    (skipSeparators >>= f) s = f () (s.skip isSeparator) := rfl

theorem declare_bind (name : String) (f : Unit → Parser β) :
    (declare name >>= f) s = f () { s with scope := s.scope.insert name } := rfl

theorem build_bind (kind : Syntax.Kind) (children : List Node) (start : Mark)
    (f : Node → Parser β) :
    (build kind children start >>= f) s = f (built s kind children start) s := rfl

theorem accept_bind (kind : Kind) (f : Bool → Parser β) :
    (accept kind >>= f) s =
      if s.current.kind == kind then f true s.advance else f false s := by
  rw [bind_of_eq (accept_run s kind)]
  cases s.current.kind == kind <;> rfl

variable {s}

/-- Behind an expected token an answer comes from a token of its kind. -/
theorem of_expectOr {kind : Kind} {cause : Kind → SyntaxError.Cause} {f : Token → Parser β}
    {r : β × State} (h : (expectOr kind cause >>= f) s = .ok r) :
    (s.current.kind == kind) = true ∧ f s.current s.advance = .ok r := by
  obtain ⟨a, t, hexpect, h⟩ := of_bind h
  rw [expectOr, sees_bind] at hexpect
  split at hexpect
  · rename_i hkind
    cases hexpect
    exact ⟨hkind, h⟩
  · cases hexpect

/-- A production in another count of calls that keep a `do` for themselves answers what it answers
there. -/
theorem of_withBlocked {count : Nat → Nat} {p : Parser α} {a : α} {t : State}
    (h : withBlocked count p s = .ok (a, t)) :
    ∃ u, p { s with blocked := count s.blocked } = .ok (a, u) ∧
      t = { u with blocked := s.blocked } := by
  obtain ⟨_, _, ⟨⟩, h⟩ := of_bind h
  obtain ⟨_, _, ⟨⟩, h⟩ := of_bind h
  obtain ⟨a, u, hp, h⟩ := of_bind h
  cases h
  exact ⟨u, hp, rfl⟩

/-- A production in a scope of its own answers what it answers there. -/
theorem of_inScope {inherits : Bool} {p : Parser α} {a : α} {t : State}
    (h : inScope inherits p s = .ok (a, t)) :
    ∃ u, p (s.enter inherits) = .ok (a, u) ∧ t = u.leave := by
  obtain ⟨_, _, ⟨⟩, h⟩ := of_bind h
  obtain ⟨a, u, hp, h⟩ := of_bind h
  cases h
  exact ⟨u, hp, rfl⟩

/-- A round goes on with what its production answers. -/
theorem of_again {p : Parser σ} {r : Round σ β} {t : State} (h : again p s = .ok (r, t)) :
    ∃ a, p s = .ok (a, t) ∧ r = .again a := by
  obtain ⟨a, u, hp, h⟩ := of_bind h
  cases h
  exact ⟨a, hp, rfl⟩

/-- A round goes on with what its production answers behind what was found. -/
theorem of_againWith {found : List α} {p : Parser α} {r : Round (List α) β} {t : State}
    (h : againWith found p s = .ok (r, t)) :
    ∃ a, p s = .ok (a, t) ∧ r = .again (found ++ [a]) := by
  obtain ⟨a, u, hp, h⟩ := of_bind h
  cases h
  exact ⟨a, hp, rfl⟩

/-- A round goes on behind a comma. -/
theorem of_commaRound {found : σ} {r : Round σ σ} {t : State}
    (h : commaRound found s = .ok (r, t)) :
    (s.current.kind == .comma) = true ∧ r = .again found ∧ t = s.advance ∨
      r = .done found ∧ t = s := by
  rw [commaRound, accept_bind] at h
  split at h
  · rename_i hcomma
    cases h
    exact Or.inl ⟨hcomma, rfl, rfl⟩
  · cases h
    exact Or.inr ⟨rfl, rfl⟩

/-- A round goes on behind a comma and the line breaks that follow it. -/
theorem of_listRound {found : σ} {r : Round σ σ} {t : State}
    (h : listRound found s = .ok (r, t)) :
    (s.current.kind == .comma) = true ∧ r = .again found ∧
        t = s.advance.skip (· == .newline) ∨
      r = .done found ∧ t = s := by
  rw [listRound, accept_bind] at h
  split at h
  · rename_i hcomma
    cases h
    exact Or.inl ⟨hcomma, rfl, rfl⟩
  · cases h
    exact Or.inr ⟨rfl, rfl⟩

/-- What every round keeps, a repetition keeps up to its answer. -/
theorem of_rounds {limit : Nat} {round : σ → Parser (Round σ β)} {I : σ → State → Prop}
    {Q : β → State → Prop}
    (hround : ∀ {x s r u}, I x s → round x s = .ok (r, u) → r.All (I · u) (Q · u))
    {x : σ} {b : β} {t : State} (hx : I x s) (h : rounds limit round x s = .ok (b, t)) :
    Q b t := by
  induction limit generalizing x s with
  | zero => cases h
  | succ fewer ih =>
    obtain ⟨r, u, hr, h⟩ := of_bind h
    have hall := hround hx hr
    cases r with
    | again y => exact ih hall h
    | done b =>
      cases h
      exact hall

end Steps

/-- A state among tokens in order: the tokens ahead are the last of them, and between the last token
taken and the next one starts no literal and no name. -/
structure State.Along (tokens : List Token) (s : State) : Prop where
  inOrder : Token.InOrder tokens
  ahead : s.current :: s.ahead <:+ tokens
  gap : Gap tokens s.previous.stop s.current.start

/-- The last token taken may be the end of a call. -/
structure State.Ended (tokens : List Token) (s : State) : Prop where
  mem : s.previous ∈ tokens
  ne_newline : s.previous.kind ≠ .newline
  ne_eof : s.previous.kind ≠ .eof

/-- Up to a state tokens are taken from an offset on, the calls of the nodes lie between the offset
and the last of them, and the nodes keep the literals and names there. -/
structure Follows (tokens : List Token) (lo : Nat) (t : State) (nodes : List Node) : Prop where
  along : t.Along tokens
  nested : Nested (CallFit tokens) lo t.previous.stop nodes
  kept : Kept tokens lo t.previous.stop nodes

/-- Up to a state tokens are taken, of which there is a first one, and the calls of the nodes lie
in them. -/
structure Consumes (tokens : List Token) (first : Token) (t : State) (nodes : List Node) : Prop
    extends Follows tokens first.start t nodes where
  mem : first ∈ tokens
  lt : first.start < t.previous.stop

/-- Up to a state a value is read that starts with a token. -/
structure Reads (tokens : List Token) (first : Token) (n : Node) (t : State) : Prop
    extends Consumes tokens first t [n] where
  ended : t.Ended tokens
  start : (ofNode n).start = first.start
  filled : n.Filled

variable {tokens : List Token} {first : Token} {s t u : State} {lo : Nat} {n : Node}
  {nodes others : List Node}

/-- The token that is taken comes last. -/
@[simp] theorem State.previous_advance (s : State) : s.advance.previous = s.current := by
  rw [State.advance]
  split <;> rfl

namespace State.Along

/-- Only the tokens matter. -/
theorem congr (h : s.Along tokens) (blocked : Nat) (scope : List String)
    (outer : List (List String)) :
    State.Along tokens ⟨s.current, s.ahead, s.previous, blocked, scope, outer⟩ :=
  ⟨h.inOrder, h.ahead, h.gap⟩

/-- The next token is one of the tokens. -/
theorem mem (h : s.Along tokens) : s.current ∈ tokens :=
  h.ahead.subset List.mem_cons_self

/-- Nothing is taken. -/
theorem stay (h : s.Along tokens) : Follows tokens s.previous.stop s [] :=
  ⟨h, .nil (Nat.le_refl _), .nil (.refl tokens _)⟩

/-- Behind the next token, unless it is the end of the source, another one follows. -/
theorem step (h : s.Along tokens) (hkind : s.current.kind ≠ .eof) : s.advance.Along tokens := by
  obtain ⟨hinOrder, ⟨before, hsplit⟩, -⟩ := h
  cases heq : s.ahead with
  | nil =>
    -- Only the end of the source has nothing behind it.
    obtain ⟨front, last, rfl, hlast, -⟩ := hinOrder.closed
    rw [heq] at hsplit
    obtain ⟨-, ⟨⟩⟩ := List.append_inj' hsplit rfl
    exact absurd hlast hkind
  | cons next others =>
    rw [heq] at hsplit
    have hadvance :
        s.advance = { s with current := next, ahead := others, previous := s.current } := by
      rw [State.advance, heq]
    rw [hadvance]
    exact ⟨hinOrder, ⟨before ++ [s.current], by simp [hsplit]⟩, hinOrder.gap_between hsplit.symm⟩

/-- The next token is the only literal or name up to its end, if it is one. -/
theorem sole (h : s.Along tokens) (hatom : s.current.kind.isAtom) :
    Sole tokens s.current s.previous.stop s.advance.previous.stop := by
  rw [State.previous_advance]
  exact (h.inOrder.sole h.mem hatom).lower h.gap

/-- The next token is taken, unless it is a literal, a name or the end of the source. -/
theorem take (h : s.Along tokens) (hmark : s.current.kind.isMark) :
    Consumes tokens s.current s.advance [] := by
  have hkind := Kind.ne_eof_of_isMark hmark
  have hlt := h.inOrder.solid s.current h.mem hkind
  refine ⟨⟨h.step hkind, .nil ?_, .nil ?_⟩, h.mem, ?_⟩ <;> rw [State.previous_advance]
  · exact Nat.le_of_lt hlt
  · exact h.inOrder.gap h.mem hmark
  · exact hlt

/-- The next token is taken as a leaf, unless it is the end of the source. -/
theorem takeAs (h : s.Along tokens) (hkind : s.current.kind ≠ .eof) (role : Role) :
    Consumes tokens s.current s.advance [leafAs role s.current] := by
  have hlt := h.inOrder.solid s.current h.mem hkind
  refine ⟨⟨h.step hkind, .leaf _ (.nil ?_), ?_⟩, h.mem, ?_⟩ <;> rw [State.previous_advance]
  · exact Nat.le_of_lt hlt
  · exact h.inOrder.kept h.mem hkind (Leaf.isAt_iff.mpr rfl) rfl
  · exact hlt

/-- Behind the token that was taken a call may end. -/
theorem ended (h : s.Along tokens) (hnewline : s.current.kind ≠ .newline)
    (heof : s.current.kind ≠ .eof) : s.advance.Ended tokens := by
  refine ⟨?_, ?_, ?_⟩ <;> rw [State.previous_advance]
  exacts [h.mem, hnewline, heof]

end State.Along

/-- What is taken from the next token on follows the tokens before it. -/
theorem Consumes.follows (h : Consumes tokens s.current t nodes) (hs : s.Along tokens) :
    Follows tokens s.previous.stop t nodes :=
  ⟨h.along, h.nested.lower hs.gap.le, h.kept.lower hs.gap⟩

namespace State.Along

/-- The next token is passed over, unless it is a literal, a name or the end of the source. -/
theorem advance (h : s.Along tokens) (hmark : s.current.kind.isMark) :
    Follows tokens s.previous.stop s.advance [] :=
  (h.take hmark).follows h

/-- The next token follows as a leaf, unless it is the end of the source. -/
theorem advanceAs (h : s.Along tokens) (hkind : s.current.kind ≠ .eof) (role : Role) :
    Follows tokens s.previous.stop s.advance [leafAs role s.current] :=
  (h.takeAs hkind role).follows h

/-- Tokens are passed over that are no literals, no names and not the end of the source. -/
theorem skip {holds : Kind → Bool} (hmarks : ∀ kind, holds kind → kind.isMark)
    (h : s.Along tokens) : Follows tokens s.previous.stop (s.skip holds) [] := by
  have hgo : ∀ ahead current previous,
      State.Along tokens { s with current, previous, ahead } →
      Follows tokens previous.stop (State.skip.go holds s current previous ahead) [] := by
    intro ahead
    induction ahead with
    | nil => exact fun _ _ h => h.stay
    | cons next others ih =>
      intro current previous h
      rw [State.skip.go]
      split
      · rename_i hholds
        have hadvance := h.advance (hmarks _ hholds)
        have hrest := ih next current hadvance.along
        exact ⟨hrest.along, hadvance.nested.append hrest.nested, hadvance.kept.append hrest.kept⟩
      · exact h.stay
  exact hgo s.ahead s.current s.previous h

end State.Along

/-- Line breaks are no literals and no names. -/
theorem isMark_of_newline {kind : Kind} (h : (kind == .newline) = true) : kind.isMark := by
  rw [beq_iff_eq.mp h]
  rfl

/-- Line breaks and semicolons are no literals and no names. -/
theorem isMark_of_isSeparator {kind : Kind} (h : isSeparator kind = true) : kind.isMark := by
  revert h
  cases kind <;> decide

namespace Follows

/-- What is read later lies behind. -/
theorem trans (h : Follows tokens lo u nodes) (hothers : Follows tokens u.previous.stop t others) :
    Follows tokens lo t (nodes ++ others) :=
  ⟨hothers.along, h.nested.append hothers.nested, h.kept.append hothers.kept⟩

/-- Tokens that make no node are passed over. -/
theorem pass (h : Follows tokens lo u nodes) (hmove : Follows tokens u.previous.stop t []) :
    Follows tokens lo t nodes := by
  simpa using h.trans hmove

/-- The next token is passed over, unless it is a literal, a name or the end of the source. -/
theorem advance (h : Follows tokens lo u nodes) (hmark : u.current.kind.isMark) :
    Follows tokens lo u.advance nodes :=
  h.pass (h.along.advance hmark)

/-- The next token follows as a leaf, unless it is the end of the source. -/
theorem advanceAs (h : Follows tokens lo u nodes) (hkind : u.current.kind ≠ .eof) (role : Role) :
    Follows tokens lo u.advance (nodes ++ [leafAs role u.current]) :=
  h.trans (h.along.advanceAs hkind role)

/-- Line breaks are passed over. -/
theorem skipNewlines (h : Follows tokens lo u nodes) :
    Follows tokens lo (u.skip (· == .newline)) nodes :=
  h.pass (h.along.skip fun _ => isMark_of_newline)

/-- Line breaks and semicolons are passed over. -/
theorem skipSeparators (h : Follows tokens lo u nodes) :
    Follows tokens lo (u.skip isSeparator) nodes :=
  h.pass (h.along.skip fun _ => isMark_of_isSeparator)

/-- Only the tokens matter. -/
theorem congr (h : Follows tokens lo t nodes) (blocked : Nat) (scope : List String)
    (outer : List (List String)) :
    Follows tokens lo ⟨t.current, t.ahead, t.previous, blocked, scope, outer⟩ nodes :=
  ⟨h.along.congr blocked scope outer, h.nested, h.kept⟩

/-- A leaf without a place in front makes no difference. -/
theorem word (h : Follows tokens lo t nodes) (role : Role) (text : String) :
    Follows tokens lo t (.word role text :: nodes) :=
  ⟨h.along, .leaf _ h.nested, .mark (fun _ _ _ => rfl) h.kept⟩

/-- The leaf of a token that is no literal and no name makes no difference. -/
theorem mark (h : Follows tokens lo t nodes) {mark : Token} (hmem : mark ∈ tokens)
    (hmark : mark.kind.isMark) (role : Role) : Follows tokens lo t (leafAs role mark :: nodes) :=
  ⟨h.along, .leaf _ h.nested,
    .mark (h.along.inOrder.isUnkept hmem hmark (Leaf.isAt_iff.mpr rfl)) h.kept⟩

/-- A child that is left out makes no difference. -/
theorem absent (h : Follows tokens lo t nodes) : Follows tokens lo t (.absent :: nodes) :=
  ⟨h.along, .absent h.nested, .absent h.kept⟩

/-- A tree that is no call holds the calls of its children and keeps what they keep, unless it
rewords it. -/
theorem tree (h : Follows tokens lo t nodes) {kind : Syntax.Kind} {span : Option Span}
    (hkind : kind ≠ .call) (hwords : kind.rewords = false) :
    Follows tokens lo t [.tree kind span nodes] :=
  ⟨h.along, h.nested.enclose hkind _, h.kept.enclose hwords _⟩

end Follows

namespace Consumes

/-- What is taken later comes on top. -/
theorem goOn (h : Consumes tokens first u nodes) (hlater : Follows tokens first.start t others)
    (hle : u.previous.stop ≤ t.previous.stop) : Consumes tokens first t others :=
  ⟨hlater, h.mem, Nat.lt_of_lt_of_le h.lt hle⟩

/-- What is read later lies behind. -/
theorem trans (h : Consumes tokens first u nodes)
    (hothers : Follows tokens u.previous.stop t others) :
    Consumes tokens first t (nodes ++ others) :=
  h.goOn (h.toFollows.trans hothers) hothers.nested.le

/-- Tokens that make no node are passed over. -/
theorem pass (h : Consumes tokens first u nodes) (hmove : Follows tokens u.previous.stop t []) :
    Consumes tokens first t nodes :=
  h.goOn (h.toFollows.pass hmove) hmove.nested.le

/-- The next token is passed over, unless it is a literal, a name or the end of the source. -/
theorem advance (h : Consumes tokens first u nodes) (hmark : u.current.kind.isMark) :
    Consumes tokens first u.advance nodes :=
  h.pass (h.along.advance hmark)

/-- The next token follows as a leaf, unless it is the end of the source. -/
theorem advanceAs (h : Consumes tokens first u nodes) (hkind : u.current.kind ≠ .eof)
    (role : Role) : Consumes tokens first u.advance (nodes ++ [leafAs role u.current]) :=
  h.trans (h.along.advanceAs hkind role)

/-- Line breaks are passed over. -/
theorem skipNewlines (h : Consumes tokens first u nodes) :
    Consumes tokens first (u.skip (· == .newline)) nodes :=
  h.pass (h.along.skip fun _ => isMark_of_newline)

/-- Line breaks and semicolons are passed over. -/
theorem skipSeparators (h : Consumes tokens first u nodes) :
    Consumes tokens first (u.skip isSeparator) nodes :=
  h.pass (h.along.skip fun _ => isMark_of_isSeparator)

/-- Only the tokens matter. -/
theorem congr (h : Consumes tokens first t nodes) (blocked : Nat) (scope : List String)
    (outer : List (List String)) :
    Consumes tokens first ⟨t.current, t.ahead, t.previous, blocked, scope, outer⟩ nodes :=
  ⟨h.toFollows.congr blocked scope outer, h.mem, h.lt⟩

/-- The leaf of the first token, when that is no literal and no name, makes no difference. -/
theorem mark (h : Consumes tokens first t nodes) (hmark : first.kind.isMark) (role : Role) :
    Consumes tokens first t (leafAs role first :: nodes) :=
  ⟨h.toFollows.mark h.mem hmark role, h.mem, h.lt⟩

/-- A child that is left out makes no difference. -/
theorem absent (h : Consumes tokens first t nodes) :
    Consumes tokens first t (.absent :: nodes) :=
  ⟨h.toFollows.absent, h.mem, h.lt⟩

/-- A tree that is no call holds the calls of its children and keeps what they keep, unless it
rewords it. -/
theorem tree (h : Consumes tokens first t nodes) {kind : Syntax.Kind} {span : Option Span}
    (hkind : kind ≠ .call) (hwords : kind.rewords = false) :
    Consumes tokens first t [.tree kind span nodes] :=
  ⟨h.toFollows.tree hkind hwords, h.mem, h.lt⟩

end Consumes

/-- A span starts at its mark. -/
@[simp] theorem start_upTo (m : Mark) (endLine endColumn stop : Nat) :
    (m.upTo endLine endColumn stop).start = m.start := by
  rw [Mark.upTo]
  split <;> rfl

/-- What is built from tokens and nodes is a value. For a call the arguments are looked at, for any
other tree whether it has children. -/
theorem reads_built (halong : t.Along tokens) (hmem : first ∈ tokens)
    (hlt : first.start < t.previous.stop)
    (hnested : Nested (CallFit tokens) first.start t.previous.stop nodes) (hended : t.Ended tokens)
    {kind : Syntax.Kind} {start : Mark} (hstart : start.start = first.start)
    (hempty : nodes = [] → kind.mayBeEmpty)
    (hcall : kind = .call → ∀ n ∈ nodes.drop 2, n.Filled)
    (hkept : Kept tokens first.start t.previous.stop [Grammar.built t kind nodes start]) :
    Reads tokens first (Grammar.built t kind nodes start) t := by
  have hspan : start.upTo t.previous.endLine t.previous.endColumn t.previous.stop =
      ⟨start.line, start.column, start.start, t.previous.endLine, t.previous.endColumn,
        t.previous.stop⟩ := by
    rw [Mark.upTo, if_neg (by omega)]
  rw [Grammar.built, hspan] at hkept ⊢
  refine ⟨⟨⟨halong, ?_, hkept⟩, hmem, hlt⟩, hended, hstart, hempty⟩
  by_cases hkind : kind = .call
  · subst hkind
    refine .call (Nat.le_of_eq hstart.symm) ⟨hstart ▸ hlt, ⟨first, hmem, hstart.symm⟩,
      Or.inl ⟨_, hended.mem, hended.ne_newline, hended.ne_eof, rfl⟩, hcall rfl⟩ ?_
      (.nil (Nat.le_refl _))
    rw [hstart]
    exact hnested
  · exact hnested.enclose hkind _

namespace Consumes

/-- What is built from tokens and nodes is a value, unless it rewords them. -/
theorem built (h : Consumes tokens first t nodes) {kind : Syntax.Kind}
    (hwords : kind.rewords = false) (hended : t.Ended tokens) {start : Mark}
    (hstart : start.start = first.start) (hempty : nodes = [] → kind.mayBeEmpty)
    (hcall : kind = .call → ∀ n ∈ nodes.drop 2, n.Filled) :
    Reads tokens first (Grammar.built t kind nodes start) t :=
  reads_built h.along h.mem h.lt h.nested hended hstart hempty hcall (h.kept.enclose hwords _)

/-- What is built from a head and arguments behind it is a value; the head of a call is its receiver
and its name. -/
theorem built_append (h : Consumes tokens first u nodes)
    (harguments : Follows tokens u.previous.stop t others) {kind : Syntax.Kind}
    (hwords : kind.rewords = false) (hended : t.Ended tokens) (hfilled : ∀ n ∈ others, n.Filled)
    {start : Mark} (hstart : start.start = first.start) (hempty : nodes = [] → kind.mayBeEmpty)
    (hcall : kind = .call → nodes.length = 2) :
    Reads tokens first (Grammar.built t kind (nodes ++ others) start) t := by
  refine (h.trans harguments).built hwords hended hstart
    (fun hnil => hempty (List.append_eq_nil_iff.mp hnil).1) fun hkind => ?_
  rwa [List.drop_left' (hcall hkind)]

end Consumes

namespace Reads

/-- A value that is read from the next token on follows the tokens before it. -/
theorem follows (h : Reads tokens s.current n t) (hs : s.Along tokens) :
    Follows tokens s.previous.stop t [n] :=
  h.toConsumes.follows hs

/-- Only the tokens matter. -/
theorem congr (h : Reads tokens first n t) (blocked : Nat) (scope : List String)
    (outer : List (List String)) :
    Reads tokens first n ⟨t.current, t.ahead, t.previous, blocked, scope, outer⟩ :=
  ⟨h.toConsumes.congr blocked scope outer, ⟨h.ended.mem, h.ended.ne_newline, h.ended.ne_eof⟩,
    h.start, h.filled⟩

end Reads

/-- Values that are read one behind the other, of which there is a first one. -/
structure Begins (tokens : List Token) (first : Token) (nodes : List Node) (t : State) : Prop
    extends Consumes tokens first t nodes where
  head : ∃ n others, nodes = n :: others ∧ (ofNode n).start = first.start ∧ n.Filled

namespace Begins

/-- One value begins several. -/
theorem of_reads (h : Reads tokens first n t) : Begins tokens first [n] t :=
  ⟨h.toConsumes, n, [], rfl, h.start, h.filled⟩

/-- One more value lies behind the others. -/
theorem snoc (h : Begins tokens first nodes u) (hnext : Follows tokens u.previous.stop t [n]) :
    Begins tokens first (nodes ++ [n]) t := by
  obtain ⟨head, others, rfl, hstart, hfilled⟩ := h.head
  exact ⟨h.toConsumes.trans hnext, head, others ++ [n], rfl, hstart, hfilled⟩

/-- Tokens that make no node are passed over. -/
theorem pass (h : Begins tokens first nodes u) (hmove : Follows tokens u.previous.stop t []) :
    Begins tokens first nodes t :=
  ⟨h.toConsumes.pass hmove, h.head⟩

/-- A value without others is read. -/
theorem reads (h : Begins tokens first [n] t) (hended : t.Ended tokens) :
    Reads tokens first n t := by
  obtain ⟨_, _, ⟨⟩, hstart, hfilled⟩ := h.head
  exact ⟨h.toConsumes, hended, hstart, hfilled⟩

/-- Several values make a tree that starts with the first one. -/
theorem built (h : Begins tokens first (n :: others) t) (hended : t.Ended tokens)
    {kind : Syntax.Kind} (hkind : kind ≠ .call) (hwords : kind.rewords = false) :
    Reads tokens first (Grammar.built t kind (n :: others) (ofNode n)) t := by
  obtain ⟨_, _, ⟨⟩, hstart, -⟩ := h.head
  exact h.toConsumes.built hwords hended hstart nofun fun hcall => absurd hcall hkind

end Begins

/-- A repetition that starts with nothing collects what its rounds collect. -/
theorem follows_loop {g : Rules} {round : List Node → Parser (Round (List Node) (List Node))}
    (hround : ∀ {lo found s r t}, Follows tokens lo s found → round found s = .ok (r, t) →
      r.All (Follows tokens lo t) (Follows tokens lo t))
    (hs : s.Along tokens) (h : g.loop round [] s = .ok (nodes, t)) :
    Follows tokens s.previous.stop t nodes :=
  of_rounds hround hs.stay h

/-- A token of one kind is of no other. -/
theorem ne_of_beq {kind wanted other : Kind} (h : (kind == wanted) = true)
    (hother : wanted ≠ other) : kind ≠ other :=
  beq_iff_eq.mp h ▸ hother

/-- A token of one kind is no literal and no name when that kind is none. -/
theorem isMark_of_beq {kind wanted : Kind} (h : (kind == wanted) = true)
    (hmark : wanted.isMark = true) : kind.isMark = true :=
  beq_iff_eq.mp h ▸ hmark

/-- A token of some kinds is no literal and no name when these are none. -/
theorem isMark_of_contains {kinds : List Kind} {kind : Kind} (h : kinds.contains kind = true)
    (hmarks : kinds.all Kind.isMark = true) : kind.isMark = true :=
  List.all_eq_true.mp hmarks kind (List.contains_iff_mem.mp h)

/-- Nodes with a comma behind them follow, and so do the last ones. -/
theorem Follows.commaRound {r : Round (List Node) (List Node)} (h : Follows tokens lo s nodes)
    (hr : commaRound nodes s = .ok (r, t)) : r.All (Follows tokens lo t) (Follows tokens lo t) := by
  rcases of_commaRound hr with ⟨hcomma, rfl, rfl⟩ | ⟨rfl, rfl⟩
  · exact h.advance (isMark_of_beq hcomma rfl)
  · exact h

/-- The same when line breaks may stand behind the comma. -/
theorem Follows.listRound {r : Round (List Node) (List Node)} (h : Follows tokens lo s nodes)
    (hr : listRound nodes s = .ok (r, t)) : r.All (Follows tokens lo t) (Follows tokens lo t) := by
  rcases of_listRound hr with ⟨hcomma, rfl, rfl⟩ | ⟨rfl, rfl⟩
  · exact (h.advance (isMark_of_beq hcomma rfl)).skipNewlines
  · exact h

/-- A production that reads values. -/
def ReadsValues (tokens : List Token) (p : Parser Node) : Prop :=
  ∀ ⦃s n t⦄, s.Along tokens → p s = .ok (n, t) → Reads tokens s.current n t

/-- A production whose trees follow the tokens before them. -/
def PlacesTrees (tokens : List Token) (p : Parser Node) : Prop :=
  ∀ ⦃s n t⦄, s.Along tokens → p s = .ok (n, t) → Follows tokens s.previous.stop t [n]

/-- Rules whose phrases read values or, in lists of their own and behind `elsif`, trees that follow
the tokens before them. -/
structure Rules.Nests (tokens : List Token) (g : Rules) : Prop where
  statement : ReadsValues tokens (g.read .statement)
  sequence : ReadsValues tokens (g.read .sequence)
  negation : ReadsValues tokens (g.read .negation)
  assignment : ReadsValues tokens (g.read .assignment)
  choice : ReadsValues tokens (g.read .choice)
  operation : ReadsValues tokens (g.read .operation)
  signed : ReadsValues tokens (g.read .signed)
  unary : ReadsValues tokens (g.read .unary)
  operand : ReadsValues tokens (g.read .operand)
  parameterGroup (opener : Token) (inBlock : Bool) :
    PlacesTrees tokens (g.read (.parameterGroup opener inBlock))
  targetGroup (opener : Token) : PlacesTrees tokens (g.read (.targetGroup opener))
  conditional (keyword : Token) (hmem : keyword ∈ tokens) (hmark : keyword.kind.isMark) :
    PlacesTrees tokens (g.read (.conditional keyword))

/-- The count of calls that keep a `do` for themselves does not matter. -/
theorem ReadsValues.withBlocked {p : Parser Node} (hp : ReadsValues tokens p) (count : Nat → Nat) :
    ReadsValues tokens (withBlocked count p) := by
  intro s n t hs h
  obtain ⟨u, hrun, rfl⟩ := of_withBlocked h
  exact (hp (hs.congr _ _ _) hrun).congr _ _ _

/-- The count of calls that keep a `do` for themselves does not matter. -/
theorem PlacesTrees.withBlocked {p : Parser Node} (hp : PlacesTrees tokens p) (count : Nat → Nat) :
    PlacesTrees tokens (withBlocked count p) := by
  intro s n t hs h
  obtain ⟨u, hrun, rfl⟩ := of_withBlocked h
  exact (hp (hs.congr _ _ _) hrun).congr _ _ _

/-- A token makes a tree with one leaf in a role. -/
theorem reads_singleAs (hs : s.Along tokens) (hnewline : s.current.kind ≠ .newline)
    (heof : s.current.kind ≠ .eof) {kind : Syntax.Kind} {role : Role}
    (h : singleAs kind role s = .ok (n, t)) (hkind : kind ≠ .call)
    (hwords : kind.rewords = false) : Reads tokens s.current n t := by
  cases h
  exact (hs.takeAs heof role).built hwords (hs.ended hnewline heof) rfl nofun
    fun h => absurd h hkind

/-- A token makes a tree with one leaf. -/
theorem reads_single (hs : s.Along tokens) (hnewline : s.current.kind ≠ .newline)
    (heof : s.current.kind ≠ .eof) {kind : Syntax.Kind}
    (h : single kind s = .ok (n, t)) (hkind : kind ≠ .call) (hwords : kind.rewords = false) :
    Reads tokens s.current n t := by
  cases h
  exact (hs.takeAs heof (.token s.current.kind)).built hwords (hs.ended hnewline heof) rfl nofun
    fun h => absurd h hkind

/-- A number makes a tree with one leaf, which a sign in front belongs to. -/
theorem reads_number {first : Token} (hs : s.Along tokens) (hmem : first ∈ tokens)
    (hfront : Gap tokens first.start s.current.start) {kind : Syntax.Kind} {content : Leaf}
    (hkind : kind = .int ∨ kind = .float)
    (hnumber : s.current.kind = .int ∨ s.current.kind = .float)
    (hstart : content.isAt s.current.start)
    (htext : content.text =
      if first.start < s.current.start then "-" ++ s.current.text else s.current.text) :
    Reads tokens first (built s.advance kind [.leaf content] (ofToken first)) s.advance := by
  have hatom : s.current.kind.isAtom := by rcases hnumber with h | h <;> rw [h] <;> rfl
  have heof := Kind.ne_eof_of_isAtom hatom
  have hlt := hs.inOrder.solid s.current hs.mem heof
  have hnewline : s.current.kind ≠ .newline := by rcases hnumber with h | h <;> rw [h] <;> nofun
  have hfront' := hfront.le
  have hkept : Kept tokens first.start s.advance.previous.stop
      [built s.advance kind [.leaf content] (ofToken first)] := by
    rw [State.previous_advance]
    refine .number ((hs.inOrder.sole hs.mem hatom).lower hfront) hkind hnumber hstart ?_
      (.nil (.refl tokens _))
    rw [start_upTo]
    exact htext
  refine reads_built (hs.step heof) hmem ?_ (.leaf _ (.nil ?_)) (hs.ended hnewline heof) rfl nofun
    ?_ hkept
  · rw [State.previous_advance]
    omega
  · rw [State.previous_advance]
    omega
  · rcases hkind with rfl | rfl <;> nofun

/-- A token makes a tree without leaves, unless it is a literal, a name or the end of the source. -/
theorem reads_bare (hs : s.Along tokens) (hnewline : s.current.kind ≠ .newline)
    (hmark : s.current.kind.isMark) {kind : Syntax.Kind} (hkind : kind.mayBeEmpty)
    (hwords : kind.rewords = false) (h : bare kind s = .ok (n, t)) :
    Reads tokens s.current n t := by
  cases h
  refine (hs.take hmark).built hwords (hs.ended hnewline (Kind.ne_eof_of_isMark hmark)) rfl
    (fun _ => hkind) ?_
  rintro rfl
  cases hkind

end Grammar

end XhrKeywords
