import XhrKeywords.Proofs.Grammar.Running
import XhrKeywords.Proofs.Grammar.Upholding

/-!
# Productions beside each other

The same tokens stand between braces in one source and between parentheses in another one. A
production is run on both. As long as it stays inside, it meets the same kinds and texts, and it
compares places only with each other, so it answers with the same tree. Where the brace and the
parenthesis are met, one of them may do what the other one does not; then one of the two runs
fails, or the first one has taken the brace and can only fail from there on.
-/

namespace XhrKeywords

open Syntax hiding Kind
open Token (Kind)

/-- A token displaced by `k` characters and `l` lines. -/
structure Token.Displaced (k l : Int) (t t' : Token) : Prop where
  kind : t'.kind = t.kind
  text : t'.text = t.text
  spaced : t'.spaced = t.spaced
  start : (t'.start : Int) = t.start + k
  stop : (t'.stop : Int) = t.stop + k
  line : (t'.line : Int) = t.line + l
  endLine : (t'.endLine : Int) = t.endLine + l

section Displaced

variable {k l : Int} {t t' u u' : Token}

/-- Whether a token touches the one in front of it is a matter of their distance. -/
theorem Token.Displaced.touches (ht : t.Displaced k l t') (hu : u.Displaced k l u') :
    (u'.start == t'.stop) = (u.start == t.stop) := by
  have hstop := ht.stop
  have hstart := hu.start
  rw [Bool.eq_iff_iff, beq_iff_eq, beq_iff_eq]
  omega

/-- So is whether a token starts on the line on which the one in front of it ends. -/
theorem Token.Displaced.follows (ht : t.Displaced k l t') (hu : u.Displaced k l u') :
    (u'.line == t'.endLine) = (u.line == t.endLine) := by
  have hend := ht.endLine
  have hline := hu.line
  rw [Bool.eq_iff_iff, beq_iff_eq, beq_iff_eq]
  omega

end Displaced

namespace Grammar

variable {α β σ : Type} {k l : Int}

/-- What may stand behind the brace and the parenthesis. -/
def isTail (kind : Kind) : Bool := kind == .rpar || kind == .eof

/-- Tokens up to a brace and displaced ones up to a parenthesis. -/
inductive Closed (k l : Int) : List Token → List Token → Prop
  | closer {t t' : Token} {others others' : List Token} (brace : t.kind = .rbrace)
      (paren : t'.kind = .rpar) (behind : others ≠ []) (tail : ∀ u ∈ others, isTail u.kind = true)
      (tail' : ∀ u ∈ others', isTail u.kind = true) : Closed k l (t :: others) (t' :: others')
  | token {t t' : Token} {others others' : List Token} (displaced : t.Displaced k l t')
      (closed : Closed k l others others') : Closed k l (t :: others) (t' :: others')

/-- States in front of such tokens. -/
structure State.Beside (k l : Int) (s s' : State) : Prop where
  tokens : Closed k l (s.current :: s.ahead) (s'.current :: s'.ahead)
  blocked : s'.blocked = s.blocked
  scope : s'.scope = s.scope
  outer : s'.outer = s.outer

/-- A state behind the brace. -/
def State.Outside (s : State) : Prop := ∀ t ∈ s.current :: s.ahead, isTail t.kind = true

/-- The tokens that are met next are the brace and the parenthesis, or one token in two places. -/
def Faces (k l : Int) (t t' : Token) : Prop :=
  t.Displaced k l t' ∨ (t.kind = .rbrace ∧ t'.kind = .rpar)

variable {s s' t t' : State}

/-- Once the brace has been taken, it stays taken. -/
theorem State.Outside.advance (h : s.Outside) : s.advance.Outside := by
  obtain ⟨current, ahead, previous, blocked, scope, outer⟩ := s
  cases ahead with
  | nil => exact h
  | cons next others => exact fun u hu => h u (List.mem_cons_of_mem _ hu)

instance : Steady State.Outside := ⟨State.Outside.advance⟩

instance : Lasting State.Outside := ⟨fun h _ => h⟩

/-- The first tokens on both sides face each other. -/
theorem Closed.faces {x x' : Token} {others others' : List Token}
    (h : Closed k l (x :: others) (x' :: others')) : Faces k l x x' := by
  cases h with
  | closer brace paren _ _ _ => exact .inr ⟨brace, paren⟩
  | token displaced _ => exact .inl displaced

/-- The current tokens of states beside each other face each other. -/
theorem State.Beside.faces (h : s.Beside k l s') : Faces k l s.current s'.current :=
  h.tokens.faces

/-- On both sides there is still the closer to come. -/
theorem Closed.ne_nil {xs xs' : List Token} (h : Closed k l xs xs') : xs ≠ [] ∧ xs' ≠ [] := by
  cases h <;> exact ⟨List.cons_ne_nil _ _, List.cons_ne_nil _ _⟩

/-- Taking a token leads on inside, or outside when the token is the brace. -/
theorem State.Beside.advance (h : s.Beside k l s') :
    s.advance.Outside ∨
      (s.current.Displaced k l s'.current ∧ s.advance.Beside k l s'.advance) := by
  obtain ⟨current, ahead, previous, blocked, scope, outer⟩ := s
  obtain ⟨current', ahead', previous', blocked', scope', outer'⟩ := s'
  obtain ⟨htokens, hblocked, hscope, houter⟩ := h
  dsimp only at htokens
  cases htokens with
  | closer _ _ behind tail _ =>
    obtain ⟨next, others, rfl⟩ := List.exists_cons_of_ne_nil behind
    exact .inl tail
  | token displaced closed =>
    obtain ⟨next, others, rfl⟩ := List.exists_cons_of_ne_nil closed.ne_nil.1
    obtain ⟨next', others', rfl⟩ := List.exists_cons_of_ne_nil closed.ne_nil.2
    exact .inr ⟨displaced, closed, hblocked, hscope, houter⟩

/-- What is passed over is neither brace nor parenthesis. -/
theorem State.Beside.skip (h : s.Beside k l s') {holds : Kind → Bool}
    (hbrace : holds .rbrace = false) (hparen : holds .rpar = false) :
    (s.skip holds).Beside k l (s'.skip holds) := by
  have hgo : ∀ (ahead ahead' : List Token) (current current' previous previous' : Token),
      Closed k l (current :: ahead) (current' :: ahead') →
      (State.skip.go holds s current previous ahead).Beside k l
        (State.skip.go holds s' current' previous' ahead') := by
    intro ahead
    induction ahead with
    | nil =>
      intro ahead' current current' previous previous' hclosed
      cases hclosed with
      | closer _ _ behind _ _ => exact absurd rfl behind
      | token _ closed => exact absurd rfl closed.ne_nil.1
    | cons next others ih =>
      intro ahead' current current' previous previous' hclosed
      cases hclosed with
      | closer brace paren behind tail tail' =>
        rw [State.skip.go, brace, hbrace, if_neg Bool.false_ne_true]
        have hstay : State.skip.go holds s' current' previous' ahead' =
            { s' with current := current', previous := previous', ahead := ahead' } := by
          cases ahead' with
          | nil => rfl
          | cons next' others' => rw [State.skip.go, paren, hparen, if_neg Bool.false_ne_true]
        rw [hstay]
        exact ⟨.closer brace paren behind tail tail', h.blocked, h.scope, h.outer⟩
      | token displaced closed =>
        obtain ⟨next', others', rfl⟩ := List.exists_cons_of_ne_nil closed.ne_nil.2
        rw [State.skip.go, State.skip.go, displaced.kind]
        by_cases hholds : holds current.kind = true
        · rw [if_pos hholds, if_pos hholds]
          exact ih others' next next' current current' closed
        · rw [if_neg hholds, if_neg hholds]
          exact ⟨.token displaced closed, h.blocked, h.scope, h.outer⟩
  exact hgo s.ahead s'.ahead _ _ _ _ h.tokens

/-- In front of a token of a kind. -/
def State.Before (kind : Kind) (s : State) : Prop := s.current.kind = kind

/-- In front of a closer, or of an operator that only the closer follows. -/
def State.Ends (kind : Kind) (s : State) : Prop :=
  s.current.kind = kind ∨ (s.current.kind.startsGluedArgument = true ∧ s.second.kind = kind)

/-- A production that does not answer in certain states. -/
def Stuck (C : State → Prop) (p : Parser α) : Prop := ∀ ⦃s r⦄, C s → p s ≠ .ok r

variable {C D : State → Prop} {p : Parser α} {f : α → Parser β}

/-- What is stuck in its first step is stuck. -/
theorem Stuck.bind (h : Stuck C p) : Stuck C (p >>= f) := by
  intro s r hs hrun
  obtain ⟨a, t, hp, -⟩ := of_bind hrun
  exact h hs hp

/-- A production is stuck in fewer states, too. -/
theorem Stuck.of_imp (h : Stuck C p) (hC : ∀ s, D s → C s) : Stuck D p :=
  fun s _ hs => h (hC s hs)

/-- A token of another kind is not taken. -/
theorem Stuck.accept {kind other : Kind} (h : (kind == other) = false) {f : Bool → Parser β}
    (hf : Stuck (State.Before kind) (f false)) :
    Stuck (State.Before kind) (accept other >>= f) := by
  intro s r hs
  rw [bind_of_eq (accept_run s other), show s.current.kind = kind from hs, h]
  exact hf hs

/-- A failure does not answer. -/
theorem stuck_fail (cause : Kind → SyntaxError.Cause) : Stuck C (fail cause : Parser α) := by
  intro s r _ hrun
  cases hrun

/-- Answers that are the same but for places. -/
class Likeness (α : Type) where
  Alike : α → α → Prop
  refl (a : α) : Alike a a

export Likeness (Alike)

variable [Likeness α] [Likeness β] [Likeness σ]

instance : Likeness Unit := ⟨fun _ _ => True, fun _ => trivial⟩

instance : Likeness Bool := ⟨(· = ·), fun _ => rfl⟩

instance : Likeness (α × β) :=
  ⟨fun a b => Alike a.1 b.1 ∧ Alike a.2 b.2, fun a => ⟨Likeness.refl a.1, Likeness.refl a.2⟩⟩

instance : Likeness Token :=
  ⟨fun t t' => t'.kind = t.kind ∧ t'.text = t.text ∧ t'.spaced = t.spaced,
    fun _ => ⟨rfl, rfl, rfl⟩⟩

instance : Likeness Node := ⟨fun m n => m.erase = n.erase, fun _ => rfl⟩

instance : Likeness (List Node) :=
  ⟨fun ms ns => ms.map Node.erase = ns.map Node.erase, fun _ => rfl⟩

instance : Likeness Collected :=
  ⟨fun c d => Alike c.arguments d.arguments ∧ Alike c.pairs d.pairs, fun _ => ⟨rfl, rfl⟩⟩

/-- Rounds of two repetitions that go on alike, or answer alike. -/
inductive Round.Like : Round σ β → Round σ β → Prop
  | again {x y : σ} (h : Alike x y) : Like (.again x) (.again y)
  | done {a b : β} (h : Alike a b) : Like (.done a) (.done b)

instance : Likeness (Round σ β) where
  Alike := Round.Like
  refl
    | .again x => .again (Likeness.refl x)
    | .done b => .done (Likeness.refl b)

/-- Phrases that are read alike; of an opening parenthesis only its place is used. -/
inductive Phrase.Like : Phrase → Phrase → Prop
  | same (phrase : Phrase) : Like phrase phrase
  | parameterGroup (opener opener' : Token) (inBlock : Bool) :
    Like (.parameterGroup opener inBlock) (.parameterGroup opener' inBlock)
  | targetGroup (opener opener' : Token) : Like (.targetGroup opener) (.targetGroup opener')
  | conditional {keyword keyword' : Token} (h : Alike keyword keyword') :
    Like (.conditional keyword) (.conditional keyword')

/-- A displaced token is the same but for its place. -/
theorem alike_of_displaced {x x' : Token} (h : x.Displaced k l x') : Alike x x' :=
  ⟨h.kind, h.text, h.spaced⟩

/-- When both productions answer on tokens in braces and in parentheses, they answer alike and
inside, or the first one has gone outside; and from there the first one does not come back. -/
structure Agrees (k l : Int) (p p' : Parser α) : Prop where
  stays : Maintains State.Outside p
  alike : ∀ ⦃s s' a b t t'⦄, s.Beside k l s' → p s = .ok (a, t) → p' s' = .ok (b, t') →
    t.Outside ∨ (Alike a b ∧ t.Beside k l t')

variable {p p' q q' : Parser α} {f f' : α → Parser β}

namespace Agrees

/-- One step after another, where the second one agrees on results that are alike. -/
theorem bind (h : Agrees k l p p') (hf : ∀ a b, Alike a b → Agrees k l (f a) (f' b)) :
    Agrees k l (p >>= f) (p' >>= f') where
  stays := h.stays.bind fun a _ => (hf a a (Likeness.refl a)).stays
  alike := by
    intro s s' c c' u u' hs hrun hrun'
    obtain ⟨a, t, hp, hrun⟩ := of_bind hrun
    obtain ⟨b, t', hp', hrun'⟩ := of_bind hrun'
    rcases h.alike hs hp hp' with hout | ⟨hab, ht⟩
    · exact .inl ((hf a a (Likeness.refl a)).stays hout hrun).1
    · exact (hf a b hab).alike ht hrun hrun'

/-- A choice by a condition that has the same value on both sides. -/
theorem ite {c c' : Prop} [Decidable c] [Decidable c'] (hc : c' ↔ c) (hp : Agrees k l p p')
    (hq : Agrees k l q q') : Agrees k l (if c then p else q) (if c' then p' else q') := by
  by_cases h : c
  · rwa [if_pos h, if_pos (hc.mpr h)]
  · rwa [if_neg h, if_neg (mt hc.mp h)]

/-- A choice by a look that tells no difference. -/
theorem test {look look' : Parser Bool} (h : Agrees k l look look') (hp : Agrees k l p p')
    (hq : Agrees k l q q') :
    Agrees k l (do if ← look then p else q) (do if ← look' then p' else q') :=
  h.bind fun a b hab => .ite (by rw [show a = b from hab]) hp hq

end Agrees

/-- Results that are alike, without a token taken. -/
theorem agrees_pure {a b : α} (h : Alike a b) : Agrees k l (pure a) (pure b) where
  stays := maintains_pure a
  alike := by
    intro s s' c c' t t' hs hrun hrun'
    cases hrun
    cases hrun'
    exact .inr ⟨h, hs⟩

/-- Failures agree wherever they are and whatever they blame. -/
theorem agrees_failAt (x x' : Token) (cause cause' : SyntaxError.Cause) :
    Agrees k l (failAt x cause : Parser α) (failAt x' cause') where
  stays := upholds_failAt x cause
  alike := by
    intro s s' c c' t t' _ hrun
    cases hrun

/-- A failure on the first side agrees with anything on the second one. -/
theorem agrees_fail (cause : Kind → SyntaxError.Cause) (p' : Parser α) :
    Agrees k l (fail cause) p' where
  stays := upholds_fail cause
  alike := by
    intro s s' c c' t t' _ hrun
    cases hrun

/-- Whatever stays outside agrees with a failure on the second side. -/
theorem agrees_of_fail (hp : Maintains State.Outside p) (cause : Kind → SyntaxError.Cause) :
    Agrees k l p (fail cause) where
  stays := hp
  alike := by
    intro s s' c c' t t' _ _ hrun'
    cases hrun'

/-- A look at the state that is the same inside and at the closers. -/
theorem agrees_look {look : Parser α} {seen : State → α} (h : ∀ s, look s = .ok (seen s, s))
    (hsame : ∀ s s', s.Beside k l s' → Alike (seen s) (seen s')) : Agrees k l look look where
  stays := maintains_of_run h
  alike := by
    intro s s' a b t t' hs hrun hrun'
    rw [h] at hrun hrun'
    cases hrun
    cases hrun'
    exact .inr ⟨hsame s s' hs, hs⟩

/-- Tokens that are alike, or the brace and the parenthesis. -/
def Meets (x x' : Token) : Prop := Alike x x' ∨ (x.kind = .rbrace ∧ x'.kind = .rpar)

/-- Tokens that face each other are met as the same kind, or as the two closers. -/
theorem Faces.meets {x x' : Token} (h : Faces k l x x') : Meets x x' :=
  h.imp alike_of_displaced id

/-- A class of kinds tells no difference where it holds of neither closer or of both. -/
theorem Meets.holds {x x' : Token} (h : Meets x x') {holds : Kind → Bool}
    (hclosers : holds .rbrace = holds .rpar) : holds x'.kind = holds x.kind := by
  rcases h with h | ⟨hbrace, hparen⟩
  · rw [h.1]
  · rw [hbrace, hparen, hclosers]

/-- What is done with the next token is done with the one that it meets. -/
theorem Agrees.current {f f' : Token → Parser β}
    (h : ∀ x x', Meets x x' → Agrees k l (f x) (f' x')) :
    Agrees k l (current >>= f) (current >>= f') where
  stays := maintains_current.bind fun x _ => (h x x (.inl (Likeness.refl x))).stays
  alike := by
    intro s s' a b t t' hs hrun hrun'
    exact (h _ _ hs.faces.meets).alike hs hrun hrun'

/-- A token is taken on both sides, or the brace on one of them. -/
theorem agrees_advance : Agrees k l advance advance where
  stays := maintains_advance
  alike := by
    intro s s' x x' t t' hs hrun hrun'
    cases hrun
    cases hrun'
    exact hs.advance.imp id fun h => ⟨alike_of_displaced h.1, h.2⟩

/-- A class of kinds that does not tell the closers apart is seen on both sides or on none. -/
theorem agrees_seesClass (holds : Kind → Bool) (hclosers : holds .rbrace = holds .rpar) :
    Agrees k l (seesClass holds) (seesClass holds) :=
  agrees_look (fun s => seesClass_run s holds) fun _ _ hs => (hs.faces.meets.holds hclosers).symm

/-- A kind other than the closers is seen on both sides or on none. -/
theorem agrees_sees {kind : Kind} (h : (Kind.rbrace == kind) = (Kind.rpar == kind)) :
    Agrees k l (sees kind) (sees kind) :=
  agrees_seesClass (· == kind) h

/-- So is a kind of a list that does not tell the closers apart. -/
theorem agrees_seesAny {kinds : List Kind} (h : kinds.contains .rbrace = kinds.contains .rpar) :
    Agrees k l (seesAny kinds) (seesAny kinds) :=
  agrees_seesClass kinds.contains h

/-- A token that touches the one before is seen on both sides or on none. -/
theorem agrees_seesGlued {kind : Kind} (hbrace : (Kind.rbrace == kind) = false)
    (hparen : (Kind.rpar == kind) = false) :
    Agrees k l (seesGlued kind) (seesGlued kind) := by
  refine agrees_look (fun s => seesGlued_run s kind) fun s s' hs => ?_
  change (s.current.kind == kind && !s.current.spaced) =
    (s'.current.kind == kind && !s'.current.spaced)
  rcases hs.faces.meets with ⟨hkind, -, hspaced⟩ | ⟨hkind, hkind'⟩
  · rw [hkind, hspaced]
  · rw [hkind, hkind', hbrace, hparen]
    rfl

/-- A token other than the closers is taken on both sides or on none. -/
theorem agrees_accept {kind : Kind} (h : (Kind.rbrace == kind) = (Kind.rpar == kind)) :
    Agrees k l (accept kind) (accept kind) := by
  refine (agrees_sees h).test ?_ ?_
  · exact agrees_advance.bind fun _ _ _ => agrees_pure rfl
  · exact agrees_pure rfl

/-- Whichever closer is expected, one of the runs does not find it. -/
theorem agrees_expectOr (kind : Kind) (cause cause' : Kind → SyntaxError.Cause) :
    Agrees k l (expectOr kind cause) (expectOr kind cause') where
  stays := maintains_expectOr kind cause
  alike := by
    intro s s' x x' t t' hs hrun hrun'
    obtain ⟨_, _, ⟨⟩, hrun⟩ := of_bind hrun
    obtain ⟨_, _, ⟨⟩, hrun'⟩ := of_bind hrun'
    split at hrun
    · split at hrun'
      · exact agrees_advance.alike hs hrun hrun'
      · cases hrun'
    · cases hrun

/-- A token that must be there is taken on both sides, or one side fails. -/
theorem agrees_expect (kind : Kind) : Agrees k l (expect kind) (expect kind) :=
  agrees_expectOr kind _ _

/-- A closing mark is taken on both sides, or one side fails. -/
theorem agrees_expectCloser (kind : Kind) (mark construction : String) :
    Agrees k l (expectCloser kind mark construction) (expectCloser kind mark construction) :=
  agrees_expectOr kind _ _

/-- An `end` is taken on both sides, or one side fails. -/
theorem agrees_expectEnd {construction construction' : String} :
    Agrees k l (expectEnd construction) (expectEnd construction') :=
  agrees_expectOr .kwEnd _ _

/-- No line end is a closer. -/
theorem agrees_skipNewlines : Agrees k l skipNewlines skipNewlines where
  stays := maintains_skipNewlines
  alike := by
    intro s s' a b t t' hs hrun hrun'
    cases hrun
    cases hrun'
    exact .inr ⟨trivial, hs.skip rfl rfl⟩

/-- No separator is a closer. -/
theorem agrees_skipSeparators : Agrees k l skipSeparators skipSeparators where
  stays := maintains_skipSeparators
  alike := by
    intro s s' a b t t' hs hrun hrun'
    cases hrun
    cases hrun'
    exact .inr ⟨trivial, hs.skip rfl rfl⟩

/-- What ends a list or stands behind its end. -/
def isEnd (kind : Kind) : Bool := kind == .rbrace || kind == .rpar || kind == .eof

/-- Each kind that may follow the closer ends a statement. -/
theorem isEnd_of_isTail {kind : Kind} (h : isTail kind = true) : isEnd kind = true := by
  cases kind <;> first | rfl | cases h

/-- Tokens that are alike, or ends. -/
def Resembles (x x' : Token) : Prop :=
  Alike x x' ∨ (isEnd x.kind = true ∧ isEnd x'.kind = true)

/-- The tokens behind the current ones resemble each other where the closer is not current. -/
theorem State.Beside.second (h : s.Beside k l s') : Resembles s.second s'.second := by
  obtain ⟨current, ahead, previous, blocked, scope, outer⟩ := s
  obtain ⟨current', ahead', previous', blocked', scope', outer'⟩ := s'
  have htokens := h.tokens
  dsimp only at htokens
  cases htokens with
  | closer brace paren behind tail tail' =>
    refine .inr ⟨?_, ?_⟩
    · obtain ⟨next, others, rfl⟩ := List.exists_cons_of_ne_nil behind
      exact isEnd_of_isTail (tail next List.mem_cons_self)
    · cases ahead' with
      | nil =>
        change isEnd current'.kind = true
        rw [paren]
        rfl
      | cons next' others' => exact isEnd_of_isTail (tail' next' List.mem_cons_self)
  | token displaced closed =>
    obtain ⟨next, others, rfl⟩ := List.exists_cons_of_ne_nil closed.ne_nil.1
    obtain ⟨next', others', rfl⟩ := List.exists_cons_of_ne_nil closed.ne_nil.2
    rcases closed.faces.meets with halike | ⟨hbrace, hparen⟩
    · exact .inl halike
    · refine .inr ⟨?_, ?_⟩
      · change isEnd next.kind = true
        rw [hbrace]
        rfl
      · change isEnd next'.kind = true
        rw [hparen]
        rfl

/-- A look at the token behind the current one. -/
theorem Agrees.second {f f' : Token → Parser β}
    (h : ∀ x x', Resembles x x' → Agrees k l (f x) (f' x')) :
    Agrees k l (second >>= f) (second >>= f') where
  stays := maintains_second.bind fun x _ => (h x x (.inl (Likeness.refl x))).stays
  alike := by
    intro s s' a b t t' hs hrun hrun'
    exact (h _ _ hs.second).alike hs hrun hrun'

/-- A name is declared on both sides. -/
theorem agrees_declare (name : String) : Agrees k l (declare name) (declare name) where
  stays := maintains_declare name
  alike := by
    intro s s' a b t t' hs hrun hrun'
    cases hrun
    cases hrun'
    refine .inr ⟨trivial, { hs with scope := ?_ }⟩
    change s'.scope.insert name = s.scope.insert name
    rw [hs.scope]

/-- The names declared are the same on both sides. -/
theorem agrees_isLocal (name : String) : Agrees k l (isLocal name) (isLocal name) := by
  refine agrees_look (fun s => isLocal_run s name) fun s s' hs => ?_
  change s.scope.contains name = s'.scope.contains name
  rw [hs.scope]

/-- A `do` may be taken on both sides or on none. -/
theorem agrees_doBinds : Agrees k l doBinds doBinds := by
  refine agrees_look doBinds_run fun s s' hs => ?_
  change (s.blocked == 0) = (s'.blocked == 0)
  rw [hs.blocked]

namespace Agrees

/-- What is read in a scope of its own agrees if it does without one. -/
theorem inScope (h : Agrees k l p p') (inherits : Bool) :
    Agrees k l (inScope inherits p) (inScope inherits p') where
  stays := by
    intro s a t hs hrun
    obtain ⟨u, hp, rfl⟩ := of_inScope hrun
    exact ⟨(h.stays (s := s.enter inherits) hs hp).1, trivial⟩
  alike := by
    intro s s' a b t t' hs hrun hrun'
    obtain ⟨u, hp, rfl⟩ := of_inScope hrun
    obtain ⟨u', hp', rfl⟩ := of_inScope hrun'
    have henter : (s.enter inherits).Beside k l (s'.enter inherits) :=
      { hs with
        scope := by rw [State.enter, State.enter, hs.scope]
        outer := by rw [State.enter, State.enter, hs.scope, hs.outer] }
    refine (h.alike henter hp hp').imp id fun ⟨hab, hu⟩ =>
      ⟨hab, { hu with scope := ?_, outer := ?_ }⟩
    · rw [State.leave, State.leave, hu.outer]
    · rw [State.leave, State.leave, hu.outer]

/-- What is read with another count of enclosing heads agrees if it does with this one. -/
theorem withBlocked (h : Agrees k l p p') (count : Nat → Nat) :
    Agrees k l (withBlocked count p) (withBlocked count p') where
  stays := by
    intro s a t hs hrun
    obtain ⟨u, hp, rfl⟩ := of_withBlocked hrun
    exact ⟨(h.stays (s := { s with blocked := count s.blocked }) hs hp).1, trivial⟩
  alike := by
    intro s s' a b t t' hs hrun hrun'
    obtain ⟨u, hp, rfl⟩ := of_withBlocked hrun
    obtain ⟨u', hp', rfl⟩ := of_withBlocked hrun'
    have hentered : State.Beside k l { s with blocked := count s.blocked }
        { s' with blocked := count s'.blocked } := { hs with blocked := by rw [hs.blocked] }
    exact (h.alike hentered hp hp').imp id fun ⟨hab, hu⟩ => ⟨hab, { hu with blocked := hs.blocked }⟩

/-- What is read between brackets agrees if it does elsewhere. -/
theorem bracketed (h : Agrees k l p p') : Agrees k l (bracketed p) (bracketed p') :=
  h.withBlocked _

/-- What leaves a `do` to the head around it agrees if it does elsewhere. -/
theorem keepingDo (h : Agrees k l p p') : Agrees k l (keepingDo p) (keepingDo p') :=
  h.withBlocked _

/-- Repetitions agree, whatever their limits are, if their rounds do. -/
theorem rounds {round round' : σ → Parser (Round σ β)}
    (hround : ∀ x y, Alike x y → Agrees k l (round x) (round' y)) (limit limit' : Nat) {x y : σ}
    (hxy : Alike x y) : Agrees k l (rounds limit round x) (rounds limit' round' y) := by
  have hstays : ∀ x, Maintains State.Outside (round x) :=
    fun x => (hround x x (Likeness.refl x)).stays
  induction limit generalizing limit' x y with
  | zero => exact agrees_fail _ _
  | succ fewer ih =>
    cases limit' with
    | zero => exact agrees_of_fail (maintains_rounds _ hstays x) _
    | succ fewer' =>
      refine (hround x y hxy).bind fun r r' hr => ?_
      cases hr with
      | again h => exact ih fewer' h
      | done h => exact agrees_pure h

end Agrees

namespace Agrees

/-- Rounds that go on agree when their productions do. -/
theorem again {p p' : Parser σ} (h : Agrees k l p p') :
    Agrees k l (again p : Parser (Round σ β)) (Grammar.again p') :=
  h.bind fun _ _ hx => agrees_pure (.again hx)

end Agrees

/-- Behind a comma rounds go on alike. -/
theorem agrees_commaRound {x y : σ} (h : Alike x y) :
    Agrees k l (commaRound x) (commaRound y) :=
  (agrees_accept rfl).test (agrees_pure (.again h)) (agrees_pure (.done h))

/-- Behind a comma and line breaks rounds go on alike. -/
theorem agrees_listRound {x y : σ} (h : Alike x y) :
    Agrees k l (listRound x) (listRound y) :=
  (agrees_accept rfl).test (agrees_skipNewlines.bind fun _ _ _ => agrees_pure (.again h))
    (agrees_pure (.done h))

/-- Trees of like children are alike, wherever they stand. -/
theorem alike_built (kind : Syntax.Kind) {children children' : List Node} (start start' : Mark)
    (h : Alike children children') :
    Alike (built s kind children start) (built s' kind children' start') := by
  change (built s kind children start).erase = (built s' kind children' start').erase
  rw [erase_built, erase_built, show children.map Node.erase = _ from h]

/-- A node is built of children that are alike, wherever it starts. -/
theorem agrees_build (kind : Syntax.Kind) {children children' : List Node} (start start' : Mark)
    (h : Alike children children') :
    Agrees k l (build kind children start) (build kind children' start') where
  stays := maintains_build kind children start
  alike := by
    intro s s' a b t t' hs hrun hrun'
    cases hrun
    cases hrun'
    exact .inr ⟨alike_built kind start start' h, hs⟩

/-- Leaves with the same text are alike wherever they are. -/
theorem alike_leafWith (role : Role) (text : String) (x x' : Token) :
    Alike (leafWith role text x) (leafWith role text x') := rfl

/-- Tokens that are alike give leaves that are alike in a role. -/
theorem alike_leafAs {x x' : Token} (h : Alike x x') (role : Role) :
    Alike (leafAs role x) (leafAs role x') := by
  change Node.word role x.text = Node.word role x'.text
  rw [h.2.1]

/-- Tokens that are alike give leaves that are alike in their own roles. -/
theorem alike_leafOf {x x' : Token} (h : Alike x x') : Alike (leafOf x) (leafOf x') := by
  change Node.word (.token x.kind) x.text = Node.word (.token x'.kind) x'.text
  rw [h.1, h.2.1]

section Lists

variable {n n' : Node} {ns ns' : List Node}

/-- Two empty lists are alike. -/
theorem alike_nil : Alike ([] : List Node) [] := rfl

/-- Lists are alike if their first nodes are and the others are. -/
theorem alike_cons (h : Alike n n') (hs : Alike ns ns') : Alike (n :: ns) (n' :: ns') := by
  change (n :: ns).map Node.erase = (n' :: ns').map Node.erase
  rw [List.map_cons, List.map_cons, show n.erase = _ from h, show ns.map Node.erase = _ from hs]

/-- Lists that are alike may be put together. -/
theorem alike_append {ms ms' : List Node} (h : Alike ms ms') (hs : Alike ns ns') :
    Alike (ms ++ ns) (ms' ++ ns') := by
  change (ms ++ ns).map Node.erase = (ms' ++ ns').map Node.erase
  rw [List.map_append, List.map_append, show ms.map Node.erase = _ from h,
    show ns.map Node.erase = _ from hs]

/-- Nodes that are alike may be put behind lists that are. -/
theorem alike_concat (hs : Alike ns ns') (h : Alike n n') : Alike (ns ++ [n]) (ns' ++ [n']) :=
  alike_append hs (alike_cons h alike_nil)

/-- A node around nodes is alike wherever it starts and ends. -/
theorem alike_enclose (kind : Syntax.Kind) (hs : Alike ns ns') (first first' last last' : Node) :
    Alike (enclose kind ns first last) (enclose kind ns' first' last') := by
  change (enclose kind ns first last).erase = (enclose kind ns' first' last').erase
  rw [enclose, enclose, Node.erase_tree, Node.erase_tree, show ns.map Node.erase = _ from hs]

/-- Like lists have like lengths. -/
theorem length_eq_of_alike (hs : Alike ns ns') : ns.length = ns'.length := by
  have h := congrArg List.length (show ns.map Node.erase = ns'.map Node.erase from hs)
  rwa [List.length_map, List.length_map] at h

/-- Lists that are alike are both empty or neither. -/
theorem isEmpty_eq_of_alike (hs : Alike ns ns') : ns.isEmpty = ns'.isEmpty := by
  rw [Bool.eq_iff_iff, List.isEmpty_iff_length_eq_zero, List.isEmpty_iff_length_eq_zero,
    length_eq_of_alike hs]

end Lists

/-- A node of one token. -/
theorem agrees_single (kind : Syntax.Kind) : Agrees k l (single kind) (single kind) :=
  agrees_advance.bind fun _ _ h => agrees_build kind _ _ (alike_cons (alike_leafOf h) alike_nil)

/-- A node of one token, with the token as a leaf. -/
theorem agrees_singleAs (kind : Syntax.Kind) (role : Role) :
    Agrees k l (singleAs kind role) (singleAs kind role) :=
  agrees_advance.bind fun _ _ h =>
    agrees_build kind _ _ (alike_cons (alike_leafAs h role) alike_nil)

/-- A node of one token without its text. -/
theorem agrees_bare (kind : Syntax.Kind) : Agrees k l (bare kind) (bare kind) :=
  agrees_advance.bind fun _ _ _ => agrees_build kind _ _ alike_nil

/-- The text of a name is the same on both sides. -/
theorem agrees_takeName : Agrees k l takeName takeName :=
  agrees_advance.bind fun _ _ h => agrees_pure (alike_leafAs h _)

/-- Rounds that go on behind what was found agree when their productions do. -/
theorem Agrees.againWith {p p' : Parser Node} (h : Agrees k l p p') {found found' : List Node}
    (hfound : Alike found found') :
    Agrees k l (againWith found p : Parser (Round (List Node) (List Node)))
      (Grammar.againWith found' p') :=
  h.bind fun _ _ hn => agrees_pure (.again (alike_concat hfound hn))

/-- At the closers a look may differ. Then the run that goes on as if there were no closer fails. -/
theorem Agrees.branch (holds : Kind → Bool) (hp : Agrees k l p p') (hq : Agrees k l q q')
    (hstuck : Stuck (State.Before .rbrace) q) (hstuck' : Stuck (State.Before .rpar) q') :
    Agrees k l (do if ← seesClass holds then p else q)
      (do if ← seesClass holds then p' else q') where
  stays := (maintains_seesClass holds).bind fun _ _ => .ite hp.stays hq.stays
  alike := by
    intro s s' a b t t' hs hrun hrun'
    rw [bind_of_eq (seesClass_run s holds)] at hrun
    rw [bind_of_eq (seesClass_run s' holds)] at hrun'
    split at hrun <;> split at hrun'
    · exact hp.alike hs hrun hrun'
    · rename_i hbrace hparen
      rcases hs.faces with hdisplaced | ⟨-, hkind⟩
      · rw [hdisplaced.kind] at hparen
        exact absurd hbrace hparen
      · exact absurd hrun' (hstuck' hkind)
    · rename_i hbrace hparen
      rcases hs.faces with hdisplaced | ⟨hkind, -⟩
      · rw [hdisplaced.kind] at hparen
        exact absurd hparen hbrace
      · exact absurd hrun (hstuck hkind)
    · exact hq.alike hs hrun hrun'

/-- Phrases that start with an expression. -/
def Phrase.isExpression : Phrase → Bool
  | .parameterGroup .. | .targetGroup _ | .conditional _ => false
  | _ => true

/-- Rules whose phrases are read alike, and none of them at a closer. -/
structure Rules.Beside (k l : Int) (g g' : Rules) : Prop where
  read {phrase phrase' : Phrase} (h : phrase.Like phrase') :
    Agrees k l (g.read phrase) (g'.read phrase')
  ends (phrase : Phrase) (h : phrase.isExpression = true) :
    Stuck (State.Ends .rbrace) (g.read phrase)
  ends' (phrase : Phrase) (h : phrase.isExpression = true) :
    Stuck (State.Ends .rpar) (g'.read phrase)

namespace Rules.Beside

variable {g g' : Rules} (hg : g.Beside k l g')

include hg

/-- A phrase asked for is read alike. -/
theorem phrase (phrase : Phrase) : Agrees k l (g.read phrase) (g'.read phrase) :=
  hg.read (.same phrase)

/-- No expression is read in front of the brace. -/
theorem stuck (phrase : Phrase) (h : phrase.isExpression = true) :
    Stuck (State.Before .rbrace) (g.read phrase) :=
  (hg.ends phrase h).of_imp fun _ => .inl

/-- No expression is read in front of the parenthesis. -/
theorem stuck' (phrase : Phrase) (h : phrase.isExpression = true) :
    Stuck (State.Before .rpar) (g'.read phrase) :=
  (hg.ends' phrase h).of_imp fun _ => .inl

end Rules.Beside

end Grammar

end XhrKeywords
