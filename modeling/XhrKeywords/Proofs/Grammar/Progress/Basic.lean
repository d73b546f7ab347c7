import XhrKeywords.Proofs.Grammar.Running

/-!
# Productions take tokens

Every phrase takes a token, and so does every round of a repetition that is not its last one. So
neither nesting nor repetition exceeds the number of tokens, and no production fails for reaching
its limit. What is promised of productions here is said by the number of tokens that lie ahead, and
of errors that they are noticed at one of these tokens: a condition that all tokens satisfy holds
of the token of the error.
-/

namespace XhrKeywords

/-- The failure is one of the source and not of a limit. -/
def SyntaxError.IsGenuine (e : SyntaxError) : Prop := e.cause ≠ .beyondLimit

/-- The same for a failure at a token of a condition. -/
def SyntaxError.IsGenuineAt (T : Token → Prop) (e : SyntaxError) : Prop := e.IsGenuine ∧ T e.token

namespace Grammar

open Syntax hiding Kind
open Token (Kind)

variable {α β : Type}

/-- Fewer than `k` tokens lie behind the next one, the last of all is the end of the source, and all
of them satisfy a condition. -/
structure State.Below (T : Token → Prop) (k : Nat) (s : State) : Prop where
  closed : (s.ahead.getLastD s.current).kind = .eof
  lt : s.ahead.length < k
  all : ∀ t ∈ s.current :: s.ahead, T t

/-- Any token. -/
def AnyToken (_ : Token) : Prop := True

/-- A token that is not the end of the source. -/
def IsTaken (t : Token) : Prop := t.kind ≠ .eof

/-- In front of a token of a condition, behind which there are fewer than `k` others, a production
answers as it is promised, or fails for a reason in the source at a token that satisfies `T`. -/
def Promises (T pre : Token → Prop) (k : Nat) (post : α → State → Prop) (p : Parser α) : Prop :=
  ∀ ⦃s⦄, s.Below T k → pre s.current → match p s with
    | .ok (a, t) => post a t
    | .error e => e.IsGenuineAt T

/-- A production in front of fewer than `k` tokens that leaves fewer than `m`. -/
abbrev LeavesAt (T pre : Token → Prop) (k m : Nat) (p : Parser α) : Prop :=
  Promises T pre k (fun _ s => s.Below T m) p

/-- A production that takes a token. -/
abbrev Lowers (T : Token → Prop) (k : Nat) (p : Parser α) : Prop := LeavesAt T AnyToken (k + 1) k p

/-- The same for a production that takes a token before it looks at it. -/
abbrev LowersAt (T : Token → Prop) (k : Nat) (p : Parser α) : Prop := LeavesAt T IsTaken (k + 1) k p

/-- A production that may leave all tokens as they are. -/
abbrev Keeps (T : Token → Prop) (k : Nat) (p : Parser α) : Prop := LeavesAt T AnyToken k k p

/-- The same for a production that takes a token before it looks at it. -/
abbrev KeepsAt (T : Token → Prop) (k : Nat) (p : Parser α) : Prop := LeavesAt T IsTaken k k p

/-- Behind a production that takes a token, or else answers with what it has been given. -/
def Lowered (T : Token → Prop) (k : Nat) (given a : α) (s : State) : Prop :=
  s.Below T k ∨ (a = given ∧ s.Below T (k + 1))

/-- A production that takes a token, or else answers with what it has been given. -/
abbrev LowersUnless (T : Token → Prop) (k : Nat) (given : α) (p : Parser α) : Prop :=
  Promises T AnyToken (k + 1) (Lowered T k given) p

/-- A round takes a token, or it is the last one and answers with what it has been given. -/
abbrev Turns (T : Token → Prop) (k : Nat) (round : α → Parser (Round α α)) : Prop :=
  ∀ x, LowersUnless T k (.done x) (round x)

/-- Rules whose phrases take tokens as long as there are fewer than `n`, and whose repetitions
exceed that number. -/
structure Rules.Bounded (T : Token → Prop) (n : Nat) (g : Rules) : Prop where
  limit : n < g.limit
  read (phrase : Phrase) {k : Nat} (hk : k < n) : Lowers T k (g.read phrase)

variable {T pre : Token → Prop} {k m n : Nat} {s : State} {g : Rules} {kind : Kind}
  {post : β → State → Prop} {p q : Parser β} {f : α → Parser β}

namespace State.Below

/-- The next token satisfies what all of them do. -/
theorem current (h : s.Below T k) : T s.current := h.all s.current List.mem_cons_self

/-- Fewer tokens than `k` are fewer than `k + 1`. -/
theorem weaken (h : s.Below T k) : s.Below T (k + 1) :=
  { h with lt := Nat.lt_succ_of_lt h.lt }

/-- A token that is not the last one is taken. -/
theorem advance (h : s.Below T (k + 1)) (hkind : s.current.kind ≠ .eof) : s.advance.Below T k := by
  obtain ⟨hclosed, hlt, hall⟩ := h
  rw [State.advance]
  split
  · rename_i heq
    rw [heq] at hclosed
    exact absurd hclosed hkind
  · rename_i t others heq
    rw [heq, List.length_cons] at hlt
    rw [heq, List.getLastD_cons] at hclosed
    rw [heq] at hall
    exact ⟨hclosed, Nat.lt_of_succ_lt_succ hlt, fun u hu => hall u (List.mem_cons_of_mem _ hu)⟩

/-- Taking any token leaves no more ahead. -/
theorem advance_any (h : s.Below T k) : s.advance.Below T k := by
  obtain ⟨hclosed, hlt, hall⟩ := h
  rw [State.advance]
  split
  · exact ⟨hclosed, hlt, hall⟩
  · rename_i t others heq
    rw [heq, List.length_cons] at hlt
    rw [heq, List.getLastD_cons] at hclosed
    rw [heq] at hall
    exact ⟨hclosed, Nat.lt_of_succ_lt hlt, fun u hu => hall u (List.mem_cons_of_mem _ hu)⟩

/-- Tokens that are passed over leave no more ahead. -/
theorem skip (h : s.Below T k) (holds : Kind → Bool) : (s.skip holds).Below T k := by
  have hgo : ∀ (ahead : List Token) (current previous : Token),
      (ahead.getLastD current).kind = .eof → ahead.length < k → (∀ t ∈ current :: ahead, T t) →
      (State.skip.go holds s current previous ahead).Below T k := by
    intro ahead
    induction ahead with
    | nil => exact fun _ _ hclosed hlt hall => ⟨hclosed, hlt, hall⟩
    | cons t others ih =>
      intro current previous hclosed hlt hall
      rw [State.skip.go]
      split
      · rw [List.getLastD_cons] at hclosed
        exact ih t current hclosed (Nat.lt_of_succ_lt hlt)
          fun u hu => hall u (List.mem_cons_of_mem _ hu)
      · exact ⟨hclosed, hlt, hall⟩
  exact hgo s.ahead s.current s.previous h.closed h.lt h.all

/-- The scopes and the count of kept `do`s do not matter. -/
theorem congr (h : s.Below T k) (blocked : Nat) (scope : List String)
    (outer : List (List String)) :
    State.Below T k ⟨s.current, s.ahead, s.previous, blocked, scope, outer⟩ :=
  ⟨h.closed, h.lt, h.all⟩

end State.Below

/-- There are not fewer than no tokens. -/
theorem not_below_zero : ¬s.Below T 0 := fun h => Nat.not_lt_zero _ h.lt

namespace Promises

/-- What is promised in front of more tokens. -/
theorem weaken {pre' : Token → Prop} (h : Promises T pre' k post p) (hpre : ∀ t, pre t → pre' t) :
    Promises T pre k post p :=
  fun _ hs ht => h hs (hpre _ ht)

/-- What is promised in front of some tokens is promised in front of fewer. -/
theorem fewer (h : Promises T pre (k + 1) post p) : Promises T pre k post p :=
  fun _ hs => h hs.weaken

/-- What is promised in front of any token. -/
theorem any (h : Promises T AnyToken k post p) : Promises T pre k post p :=
  h.weaken fun _ _ => trivial

/-- What is promised in front of a token that is taken is promised in front of one of a kind. -/
theorem at_kind (h : Promises T IsTaken k post p) (kind : Kind) (hkind : kind ≠ .eof) :
    Promises T (·.kind = kind) k post p :=
  h.weaken fun _ ht => (show _ ≠ _ from ht ▸ hkind)

/-- The same in front of one of these tokens. -/
theorem at_token {t : Token} (h : Promises T IsTaken k post p) (ht : t.kind = kind)
    (hkind : kind ≠ .eof) : Promises T (· = t) k post p :=
  h.weaken fun u hu => (show u.kind ≠ _ by rwa [hu, ht])

/-- Less may be said of the answer. -/
theorem mono {post' : β → State → Prop} (h : Promises T pre k post p)
    (hpost : ∀ b s, post b s → post' b s) : Promises T pre k post' p := by
  intro s hs ht
  have hp := h hs ht
  revert hp
  cases p s with
  | error e => exact id
  | ok answer => exact hpost _ _

/-- What a production leaves is what the next one starts with. -/
theorem bind {p : Parser α} (h : LeavesAt T pre k m p)
    (hf : ∀ a, Promises T AnyToken m post (f a)) : Promises T pre k post (p >>= f) := by
  intro s hs ht
  have hp := h hs ht
  rw [bind_run]
  revert hp
  cases p s with
  | error e => exact id
  | ok answer => exact fun hrest => hf answer.1 hrest trivial

/-- A choice promises what both of its branches do. -/
theorem ite {c : Prop} [Decidable c] (hp : Promises T pre k post p) (hq : Promises T pre k post q) :
    Promises T pre k post (if c then p else q) := by
  by_cases h : c
  · rwa [if_pos h]
  · rwa [if_neg h]

/-- A choice by what is seen: either way, the same is promised. -/
theorem cond {look : Parser Bool} (h : LeavesAt T pre k m look) (hp : Promises T AnyToken m post p)
    (hq : Promises T AnyToken m post q) :
    Promises T pre k post (look >>= fun seen => if seen = true then p else q) :=
  h.bind fun _ => hp.ite hq

/-- A round that goes on leaves what its production leaves. -/
theorem again {p : Parser α} (h : LeavesAt T pre k m p) :
    LeavesAt T pre k m (again p : Parser (Round α β)) := by
  apply h.bind
  intro a s hs _
  exact hs

/-- A round that goes on behind what was found. -/
theorem againWith {p : Parser α} {found : List α} (h : LeavesAt T pre k m p) :
    LeavesAt T pre k m (againWith found p : Parser (Round (List α) β)) := by
  apply h.bind
  intro a s hs _
  exact hs

/-- What takes a token need not be the last round. -/
theorem lowered {given : β} (h : LeavesAt T pre (k + 1) k p) :
    Promises T pre (k + 1) (Lowered T k given) p :=
  h.mono fun _ _ => Or.inl

end Promises

/-- A failure at the next token is one of the source if its cause is no limit. -/
theorem promises_fail {cause : Kind → SyntaxError.Cause} (h : ∀ kind, cause kind ≠ .beyondLimit) :
    Promises T pre k post (fail cause) :=
  fun s hs _ => ⟨h s.current.kind, hs.current⟩

/-- A failure at a token of the source is one of the source. -/
theorem promises_failAt {t : Token} {cause : SyntaxError.Cause} (ht : T t)
    (h : cause ≠ .beyondLimit) : Promises T pre k post (failAt t cause) :=
  fun _ _ _ => ⟨h, ht⟩

/-- An answer leaves the tokens as they are. -/
theorem leaves_pure (b : β) : LeavesAt T pre k k (pure b) := fun _ hs _ => hs

/-- A round may be the last one. -/
theorem lowered_pure (given : β) : Promises T pre (k + 1) (Lowered T k given) (pure given) :=
  fun _ hs _ => Or.inr ⟨rfl, hs⟩

/-- A tree is built without taking a token. -/
theorem leaves_build (kind : Syntax.Kind) (children : List Node) (start : Mark) :
    LeavesAt T pre k k (build kind children start) := fun _ hs _ => hs

/-- What leaves the state as it is leaves the next token. -/
theorem promises_look {look : Parser α} {answer : State → α} (h : ∀ s, look s = .ok (answer s, s))
    (hf : ∀ a, Promises T pre k post (f a)) : Promises T pre k post (look >>= f) := by
  intro s hs ht
  rw [bind_of_eq (h s)]
  exact hf _ hs ht

/-- A look at the state takes no token. -/
theorem leaves_look {look : Parser α} {answer : State → α} (h : ∀ s, look s = .ok (answer s, s)) :
    LeavesAt T pre k k look := by
  intro s hs _
  rw [h s]
  exact hs

/-- The token that is looked at is the next one. -/
theorem promises_at_current {f : Token → Parser β} (hf : ∀ t, Promises T (· = t) k post (f t)) :
    Promises T AnyToken k post (current >>= f) :=
  fun s hs _ => hf s.current hs rfl

/-- Where a test of the next token succeeds, what it tests is so. -/
theorem promises_tested {look : Parser Bool} (test : Token → Bool)
    (h : ∀ s, look s = .ok (test s.current, s)) (hpre : ∀ t, test t = true → pre t)
    {f : Bool → Parser β} (hseen : Promises T pre k post (f true))
    (hnot : Promises T AnyToken k post (f false)) : Promises T AnyToken k post (look >>= f) := by
  intro s hs _
  rw [bind_of_eq (h s)]
  by_cases htest : test s.current = true
  · rw [htest]
    exact hseen hs (hpre _ htest)
  · rw [Bool.not_eq_true] at htest
    rw [htest]
    exact hnot hs trivial

/-- Where a kind is seen, the next token is of that kind. -/
theorem promises_seen {f : Bool → Parser β} (hseen : Promises T (·.kind = kind) k post (f true))
    (hnot : Promises T AnyToken k post (f false)) : Promises T AnyToken k post (sees kind >>= f) :=
  promises_tested (·.kind == kind) (fun s => sees_run s kind) (fun _ => beq_iff_eq.mp) hseen hnot

/-- The branch behind a look starts with the kind that was looked for. -/
theorem promises_if_sees (hp : Promises T (·.kind = kind) k post p)
    (hq : Promises T AnyToken k post q) :
    Promises T AnyToken k post (sees kind >>= fun seen => if seen = true then p else q) :=
  promises_seen hp hq

/-- The branch behind a look for several kinds starts with a token that may be taken. -/
theorem promises_if_seesAny {kinds : List Kind} (hkinds : .eof ∉ kinds)
    (hp : Promises T IsTaken k post p) (hq : Promises T AnyToken k post q) :
    Promises T AnyToken k post (seesAny kinds >>= fun seen => if seen = true then p else q) :=
  promises_tested (fun t => kinds.contains t.kind) (fun s => seesAny_run s kinds)
    (fun t ht (heof : t.kind = .eof) => hkinds (heof ▸ List.contains_iff_mem.mp ht)) hp hq

/-- Where a kind is seen that touches the last token, the next token is of that kind. -/
theorem promises_if_seesGlued (hp : Promises T (·.kind = kind) k post p)
    (hq : Promises T AnyToken k post q) :
    Promises T AnyToken k post (seesGlued kind >>= fun seen => if seen = true then p else q) :=
  promises_tested (fun t => t.kind == kind && !t.spaced) (fun s => seesGlued_run s kind)
    (fun _ ht => beq_iff_eq.mp (Bool.and_eq_true_iff.mp ht).1) hp hq

/-- Where a kind is seen besides another condition. -/
theorem promises_if_seesToo {c : Bool} (hp : Promises T (·.kind = kind) k post p)
    (hq : Promises T AnyToken k post q) :
    Promises T AnyToken k post (sees kind >>= fun seen => if (c && seen) = true then p else q) := by
  cases c with
  | false => exact promises_look (fun s => sees_run s kind) fun _ => hq
  | true => exact promises_if_sees hp hq

/-- A token that is not the last one is taken. -/
theorem promises_take {f : Token → Parser β} (hf : ∀ t, T t → Promises T AnyToken k post (f t)) :
    Promises T IsTaken (k + 1) post (advance >>= f) :=
  fun s hs ht => hf s.current hs.current (hs.advance ht) trivial

/-- Behind a token of a kind, one token fewer lies ahead. -/
theorem promises_take_kind (kind : Kind) (hkind : kind ≠ .eof) {f : Token → Parser β}
    (hf : ∀ t, T t → Promises T AnyToken k post (f t)) :
    Promises T (·.kind = kind) (k + 1) post (advance >>= f) :=
  (promises_take hf).at_kind kind hkind

/-- Any token may be taken where it is not asked for another one. -/
theorem leaves_advance : LeavesAt T pre k k advance := fun _ hs _ => hs.advance_any

/-- A token is taken if it is there. -/
theorem promises_if_accepts (kind : Kind) (hkind : kind ≠ .eof) (hp : Promises T AnyToken k post p)
    (hq : Promises T AnyToken (k + 1) post q) :
    Promises T AnyToken (k + 1) post
      (accept kind >>= fun seen => if seen = true then p else q) := by
  intro s hs _
  rw [bind_of_eq (accept_run s kind)]
  by_cases h : s.current.kind = kind
  · rw [beq_iff_eq.mpr h]
    exact hp (hs.advance (by rwa [h])) trivial
  · rw [beq_eq_false_iff_ne.mpr h]
    exact hq hs trivial

/-- A token that is taken if it is there need not be there. -/
theorem leaves_accept (kind : Kind) : LeavesAt T pre k k (accept kind) :=
  promises_look (fun s => sees_run s kind) fun _ =>
    (leaves_advance.bind fun _ => leaves_pure true).ite (leaves_pure false)

/-- A token of a kind, or an error at the next one. -/
theorem leaves_expectOr (kind : Kind) (cause : Kind → SyntaxError.Cause)
    (hcause : ∀ found, cause found ≠ .beyondLimit) : LeavesAt T pre k k (expectOr kind cause) :=
  promises_look (fun s => sees_run s kind) fun _ => leaves_advance.ite (promises_fail hcause)

/-- A token of a kind, or the error for its absence. -/
theorem leaves_expect (kind : Kind) : LeavesAt T pre k k (expect kind) :=
  leaves_expectOr kind _ fun _ => nofun

/-- A closing mark, or an error at the next token. -/
theorem leaves_expectCloser (kind : Kind) (mark construction : String) :
    LeavesAt T pre k k (expectCloser kind mark construction) :=
  leaves_expectOr kind _ fun _ => nofun

/-- An `end`, or an error at the next token. -/
theorem leaves_expectEnd (construction : String) : LeavesAt T pre k k (expectEnd construction) :=
  leaves_expectCloser .kwEnd _ _

/-- A token that is expected is taken. -/
theorem lowers_expectOr (kind : Kind) (hkind : kind ≠ .eof) (cause : Kind → SyntaxError.Cause)
    (hcause : ∀ found, cause found ≠ .beyondLimit) : Lowers T k (expectOr kind cause) :=
  promises_if_sees (fun _ hs ht => hs.advance (by rwa [ht])) (promises_fail hcause)

/-- A token of a kind other than the end of the source is taken. -/
theorem lowers_expect (kind : Kind) (hkind : kind ≠ .eof) : Lowers T k (expect kind) :=
  lowers_expectOr kind hkind _ fun _ => nofun

/-- Line breaks that are passed over do not come back. -/
theorem leaves_skipNewlines : LeavesAt T pre k k skipNewlines := fun _ hs _ => hs.skip _

/-- Separators that are passed over do not come back. -/
theorem leaves_skipSeparators : LeavesAt T pre k k skipSeparators := fun _ hs _ => hs.skip _

/-- A name is declared without taking a token. -/
theorem leaves_declare (name : String) : LeavesAt T pre k k (declare name) :=
  fun _ hs _ => hs.congr _ _ _

/-- Only the tokens matter of a change behind a production. -/
theorem leaves_andThen {change : State → State} (hchange : ∀ s, s.Below T m → (change s).Below T m)
    {p : Parser α} (h : LeavesAt T pre k m p) : LeavesAt T pre k m (andThen p change) :=
  h.bind fun _ s hs _ => hchange s hs

/-- A scope of its own does not change the tokens ahead. -/
theorem leaves_inScope (inherits : Bool) {p : Parser α} (h : LeavesAt T AnyToken k m p) :
    LeavesAt T pre k m (inScope inherits p) :=
  fun s hs _ => leaves_andThen (fun _ ht => ht.congr _ _ _) h
    (s := s.enter inherits) (hs.congr _ _ _) trivial

/-- Another count of calls that keep a `do` does not change the tokens ahead. -/
theorem leaves_withBlocked (count : Nat → Nat) {p : Parser α} (h : LeavesAt T AnyToken k m p) :
    LeavesAt T pre k m (withBlocked count p) :=
  fun s hs _ => leaves_andThen (fun _ ht => ht.congr _ _ _) h
    (s := { s with blocked := count s.blocked }) (hs.congr _ _ _) trivial

/-- Brackets do not change the tokens ahead. -/
theorem leaves_bracketed {p : Parser α} (h : LeavesAt T AnyToken k m p) :
    LeavesAt T pre k m (bracketed p) := leaves_withBlocked _ h

/-- A `do` that is kept does not change the tokens ahead. -/
theorem leaves_keepingDo {p : Parser α} (h : LeavesAt T AnyToken k m p) :
    LeavesAt T pre k m (keepingDo p) := leaves_withBlocked _ h

/-- Behind a token that has been taken, a phrase leaves no more tokens ahead. -/
theorem Rules.Bounded.keeps (hg : g.Bounded T n) (phrase : Phrase) (hk : k ≤ n) :
    Keeps T k (g.read phrase) := by
  cases k with
  | zero => exact fun s hs => absurd hs not_below_zero
  | succ k => exact (hg.read phrase hk).mono fun _ _ => State.Below.weaken

/-- What takes a token or answers with what it has been given leaves no more tokens ahead. -/
theorem keeps_of_lowersUnless {p : Parser α} {x : α} (h : LowersUnless T k x p) :
    Keeps T (k + 1) p :=
  h.mono fun _ _ => Or.rec State.Below.weaken And.right

/-- A repetition ends: it takes a token, or answers with what it has been given. -/
theorem lowersUnless_rounds {limit : Nat} {round : α → Parser (Round α α)}
    (h : ∀ j, j ≤ k → Turns T j round) (hlimit : k < limit) (x : α) :
    LowersUnless T k x (rounds limit round x) := by
  induction limit generalizing k x with
  | zero => exact absurd hlimit (Nat.not_lt_zero k)
  | succ fewer ih =>
    have hrest (next : α) : Keeps T k (rounds fewer round next) := by
      cases k with
      | zero => exact fun s hs => absurd hs not_below_zero
      | succ k =>
        exact keeps_of_lowersUnless
          (ih (fun j hj => h j (Nat.le_succ_of_le hj)) (Nat.lt_of_succ_lt_succ hlimit) next)
    intro s hs _
    have hround := h k (Nat.le_refl k) x hs trivial
    rw [rounds, bind_run]
    revert hround
    cases round x s with
    | error e => exact id
    | ok answer =>
      obtain ⟨r, t⟩ := answer
      rintro (ht | ⟨rfl, ht⟩)
      · cases r with
        | again next => exact (hrest next).mono (fun _ _ => Or.inl) ht trivial
        | done result => exact Or.inl ht
      · exact Or.inr ⟨rfl, ht⟩

/-- The repetitions of bounded rules end. -/
theorem Rules.Bounded.lowersUnless_loop (hg : g.Bounded T n) {round : α → Parser (Round α α)}
    (h : ∀ j, j ≤ n → Turns T j round) (hk : k ≤ n) (x : α) :
    LowersUnless T k x (g.loop round x) :=
  lowersUnless_rounds (fun j hj => h j (Nat.le_trans hj hk)) (Nat.lt_of_le_of_lt hk hg.limit) x

/-- The repetitions of bounded rules leave no more tokens ahead. -/
theorem Rules.Bounded.keeps_loop (hg : g.Bounded T n) {round : α → Parser (Round α α)}
    (h : ∀ j, j < n → Turns T j round) (hk : k ≤ n) (x : α) : Keeps T k (g.loop round x) := by
  cases k with
  | zero => exact fun s hs => absurd hs not_below_zero
  | succ k =>
    exact keeps_of_lowersUnless (lowersUnless_rounds
      (fun j hj => h j (Nat.lt_of_le_of_lt hj hk))
      (Nat.lt_trans (Nat.lt_of_succ_le hk) hg.limit) x)

/-- A round that always takes a token. -/
theorem turns_of_lowers {round : α → Parser (Round α α)} (h : ∀ x, Lowers T k (round x)) :
    Turns T k round :=
  fun x => (h x).lowered

/-- Behind a token a round may go on or not. -/
theorem leaves_commaRound (x : α) : LeavesAt T pre k k (commaRound x) :=
  (leaves_accept .comma).cond (leaves_pure _) (leaves_pure _)

/-- A round that goes on behind a comma and line breaks. -/
theorem leaves_listRound (x : α) : LeavesAt T pre k k (listRound x) := by
  apply (leaves_accept .comma).cond
  · exact leaves_skipNewlines.bind fun _ => leaves_pure _
  · exact leaves_pure _

end Grammar

end XhrKeywords
