import XhrKeywords.Grammar.Call
import XhrKeywords.Grammar.Control
import XhrKeywords.Proofs.Grammar.Nest.Basic

/-!
# What productions uphold

A condition on states is upheld by a production if it holds behind an answer whenever it holds in
front, and then something may be said of the answer. Productions that only look at tokens or take
them uphold every condition that taking a token keeps; those that declare variables ask for more.
-/

namespace XhrKeywords.Grammar

open Syntax hiding Kind
open Token (Kind)

variable {α β σ : Type}

/-- Where `I` holds, the production answers in a state that `I` holds of, and `P` holds of the
answer. -/
def Upholds (I : State → Prop) (P : α → Prop) (p : Parser α) : Prop :=
  ∀ ⦃s a t⦄, I s → p s = .ok (a, t) → I t ∧ P a

/-- Where `I` holds, it holds behind the production. -/
abbrev Maintains (I : State → Prop) (p : Parser α) : Prop := Upholds I (fun _ => True) p

/-- A condition that taking a token keeps. -/
class Steady (I : State → Prop) : Prop where
  advance {s : State} (h : I s) : I s.advance

/-- A condition that taking a token keeps, and declaring a variable as well. -/
class Lasting (I : State → Prop) : Prop extends Steady I where
  declare {s : State} (h : I s) (name : String) : I { s with scope := s.scope.insert name }

variable {I J : State → Prop} {P P' : α → Prop} {Q : β → Prop} {p : Parser α}

namespace Upholds

/-- Less may be said of the answer. -/
theorem mono (h : Upholds I P p) (hP : ∀ a, P a → P' a) : Upholds I P' p :=
  fun _ _ _ hs hrun => ⟨(h hs hrun).1, hP _ (h hs hrun).2⟩

/-- One step after another; the second one may use what is said of the first one's answer. -/
theorem bind {f : α → Parser β} (h : Upholds I P p) (hf : ∀ a, P a → Upholds I Q (f a)) :
    Upholds I Q (p >>= f) := by
  intro s b t hs hrun
  obtain ⟨a, u, hp, hrun⟩ := of_bind hrun
  obtain ⟨hu, ha⟩ := h hs hp
  exact hf a ha hu hrun

/-- A choice upholds what both of its branches do. -/
theorem ite {c : Prop} [Decidable c] {p q : Parser α} (hp : Upholds I P p) (hq : Upholds I P q) :
    Upholds I P (if c then p else q) := by
  by_cases h : c
  · rwa [if_pos h]
  · rwa [if_neg h]

end Upholds

/-- An answer without reading leaves the state as it is. -/
theorem upholds_pure {a : α} (ha : P a) : Upholds I P (pure a) := by
  intro s b t hs hrun
  cases hrun
  exact ⟨hs, ha⟩

/-- An answer without reading maintains every condition. -/
theorem maintains_pure (a : α) : Maintains I (pure a) := upholds_pure trivial

/-- A repetition upholds what its rounds uphold. -/
theorem upholds_rounds {S : σ → Prop} {round : σ → Parser (Round σ β)} (limit : Nat)
    (hround : ∀ x, S x → Upholds I (Round.All S Q) (round x)) {x : σ} (hx : S x) :
    Upholds I Q (rounds limit round x) := by
  intro s b t hs hrun
  refine of_rounds (I := fun x s => I s ∧ S x) (Q := fun b t => I t ∧ Q b) ?_ ⟨hs, hx⟩ hrun
  intro y u r v hy hr
  obtain ⟨hv, hall⟩ := hround y hy.2 hy.1 hr
  cases r with
  | again z => exact ⟨hv, hall⟩
  | done c => exact ⟨hv, hall⟩

/-- A loop maintains what each of its rounds does. -/
theorem maintains_rounds {round : σ → Parser (Round σ β)} (limit : Nat)
    (hround : ∀ x, Maintains I (round x)) (x : σ) : Maintains I (rounds limit round x) := by
  refine upholds_rounds (S := fun _ => True) limit (fun y _ => (hround y).mono fun r _ => ?_)
    trivial
  cases r <;> trivial

/-- A round that goes on upholds what its production does. -/
theorem Upholds.again {S : σ → Prop} {p : Parser σ} (h : Upholds I S p) :
    Upholds I (Round.All S Q) (again p) :=
  h.bind fun _ hx => upholds_pure hx

/-- A round that goes on behind what was found. -/
theorem Upholds.againWith {S : List α → Prop} {found : List α} (h : Upholds I P p)
    (hmore : ∀ a, P a → S (found ++ [a])) :
    Upholds I (Round.All S Q) (againWith found p) :=
  h.bind fun a ha => upholds_pure (hmore a ha)

/-- A failure at a token upholds everything, as it does not answer. -/
theorem upholds_failAt (t : Token) (cause : SyntaxError.Cause) :
    Upholds I P (failAt t cause) := by
  intro s a u _ hrun
  cases hrun

/-- A failure upholds everything. -/
theorem upholds_fail (cause : Kind → SyntaxError.Cause) : Upholds I P (fail cause) := by
  intro s a u _ hrun
  cases hrun

/-- A production that leaves the state as it is maintains everything. -/
theorem maintains_of_run {answer : State → α} (h : ∀ s, p s = .ok (answer s, s)) :
    Maintains I p := by
  intro s a t hs hrun
  rw [h s] at hrun
  cases hrun
  exact ⟨hs, trivial⟩

/-- A look at the next token. -/
theorem maintains_current : Maintains I current := maintains_of_run current_run

/-- A look at the last token. -/
theorem maintains_previous : Maintains I previous := maintains_of_run previous_run

/-- A look at the token behind the next one. -/
theorem maintains_second : Maintains I second := maintains_of_run second_run

/-- A look at the kind of the next token. -/
theorem maintains_sees (kind : Kind) : Maintains I (sees kind) :=
  maintains_of_run fun s => sees_run s kind

/-- A look for one of several kinds. -/
theorem maintains_seesAny (kinds : List Kind) : Maintains I (seesAny kinds) :=
  maintains_of_run fun s => seesAny_run s kinds

/-- A look for a class of kinds. -/
theorem maintains_seesClass (holds : Kind → Bool) : Maintains I (seesClass holds) :=
  maintains_of_run fun s => seesClass_run s holds

/-- A look for a kind that touches the last token. -/
theorem maintains_seesGlued (kind : Kind) : Maintains I (seesGlued kind) :=
  maintains_of_run fun s => seesGlued_run s kind

/-- A look for a name among those declared. -/
theorem maintains_isLocal (name : String) : Maintains I (isLocal name) :=
  maintains_of_run fun s => isLocal_run s name

/-- A look whether a `do` may be taken. -/
theorem maintains_doBinds : Maintains I doBinds := maintains_of_run doBinds_run

/-- A look whether arguments without parentheses start. -/
theorem maintains_commandStart : Maintains I commandStart :=
  maintains_current.bind fun _ _ => maintains_second.bind fun _ _ => maintains_pure _

/-- A look for the closing mark of a list, if it has one. -/
theorem maintains_seesCloser (closer : Option Kind) : Maintains I (seesCloser closer) := by
  cases closer with
  | none => exact maintains_pure false
  | some kind => exact maintains_sees kind

/-- A look ahead for several targets. -/
theorem maintains_seesTargets : Maintains I seesTargets := by
  have hget : Maintains I (get : Parser State) := by
    intro s a t hs hrun
    cases hrun
    exact ⟨hs, trivial⟩
  exact hget.bind fun s _ => (maintains_isLocal _).bind fun known _ =>
    .ite (maintains_pure _) (maintains_pure _)

/-- What is built from children holds together if a tree of them does. -/
theorem upholds_build {kind : Syntax.Kind} {children : List Node} {start : Mark}
    {P : Node → Prop} (h : ∀ span, P (.tree kind span children)) :
    Upholds I P (build kind children start) :=
  maintains_previous.bind fun _ _ => upholds_pure (h _)

/-- A tree is built without reading. -/
theorem maintains_build (kind : Syntax.Kind) (children : List Node) (start : Mark) :
    Maintains I (build kind children start) :=
  upholds_build fun _ => trivial

section Steady

variable [Steady I]

/-- A token may be taken where the condition is steady. -/
theorem maintains_advance : Maintains I advance := by
  intro s a t hs hrun
  cases hrun
  exact ⟨Steady.advance hs, trivial⟩

/-- A token is taken if it is there. -/
theorem maintains_accept (kind : Kind) : Maintains I (accept kind) :=
  (maintains_sees kind).bind fun _ _ =>
    .ite (maintains_advance.bind fun _ _ => maintains_pure true) (maintains_pure false)

/-- A token of a kind is taken, or an error of a given cause is raised. -/
theorem maintains_expectOr (kind : Kind) (cause : Kind → SyntaxError.Cause) :
    Maintains I (expectOr kind cause) :=
  (maintains_sees kind).bind fun _ _ => .ite maintains_advance (upholds_fail cause)

/-- A token of a kind is taken, or the error for its absence is raised. -/
theorem maintains_expect (kind : Kind) : Maintains I (expect kind) := maintains_expectOr kind _

/-- A closing mark is taken, or an error is raised. -/
theorem maintains_expectCloser (kind : Kind) (mark construction : String) :
    Maintains I (expectCloser kind mark construction) :=
  maintains_expectOr kind _

/-- An `end` is taken, or an error is raised. -/
theorem maintains_expectEnd (construction : String) : Maintains I (expectEnd construction) :=
  maintains_expectCloser .kwEnd "end" construction

/-- Passing over tokens is taking them one by one. -/
theorem Steady.skip {s : State} (hs : I s) (holds : Kind → Bool) : I (s.skip holds) := by
  have hgo : ∀ ahead current previous, I { s with current, previous, ahead } →
      I (State.skip.go holds s current previous ahead) := by
    intro ahead
    induction ahead with
    | nil => exact fun _ _ h => h
    | cons next others ih =>
      intro current previous h
      rw [State.skip.go]
      split
      · exact ih next current (Steady.advance h)
      · exact h
  exact hgo s.ahead s.current s.previous hs

/-- Line breaks are taken one by one. -/
theorem maintains_skipNewlines : Maintains I skipNewlines := by
  intro s a t hs hrun
  cases hrun
  exact ⟨Steady.skip hs _, trivial⟩

/-- Line breaks and semicolons are taken one by one. -/
theorem maintains_skipSeparators : Maintains I skipSeparators := by
  intro s a t hs hrun
  cases hrun
  exact ⟨Steady.skip hs _, trivial⟩

/-- Behind a comma a round goes on with what was found. -/
theorem upholds_commaRound {S : σ → Prop} {found : σ} (h : S found) :
    Upholds I (Round.All S S) (commaRound found) :=
  (maintains_accept .comma).bind fun _ _ => .ite (upholds_pure h) (upholds_pure h)

/-- Behind a comma and line breaks a round goes on with what was found. -/
theorem upholds_listRound {S : σ → Prop} {found : σ} (h : S found) :
    Upholds I (Round.All S S) (listRound found) :=
  (maintains_accept .comma).bind fun _ _ =>
    .ite (maintains_skipNewlines.bind fun _ _ => upholds_pure h) (upholds_pure h)

/-- A name is a leaf. -/
theorem upholds_takeName : Upholds I (fun n => ∃ content, n = .leaf content) takeName :=
  maintains_advance.bind fun _ _ => upholds_pure ⟨_, rfl⟩

/-- Line breaks are passed over in a list with a closing mark. -/
theorem maintains_skipNewlinesWithin (closer : Option Kind) :
    Maintains I (skipNewlinesWithin closer) :=
  .ite maintains_skipNewlines (maintains_pure ())

/-- A tree of one token. -/
theorem maintains_single (kind : Syntax.Kind) : Maintains I (single kind) :=
  maintains_advance.bind fun _ _ => maintains_build ..

/-- A tree of one token without its text. -/
theorem maintains_bare (kind : Syntax.Kind) : Maintains I (bare kind) :=
  maintains_advance.bind fun _ _ => maintains_build ..

/-- What separates a head from its body. -/
theorem maintains_separator : Maintains I separator :=
  (maintains_seesClass _).bind fun _ _ => maintains_skipSeparators.bind fun _ _ =>
    (maintains_accept .kwThen).bind fun _ _ =>
      .ite (maintains_pure ()) (.ite (maintains_pure ()) (upholds_fail _))

/-- What separates the head of a loop from its body. -/
theorem maintains_loopOpener : Maintains I loopOpener :=
  (maintains_accept .kwDo).bind fun _ _ => .ite (maintains_pure ()) <|
    (maintains_seesClass _).bind fun _ _ => .ite (maintains_pure ()) (upholds_fail _)

/-- The name of a method is a leaf. -/
theorem upholds_methodName : Upholds I (fun n => ∃ content, n = .leaf content) methodName := by
  refine maintains_current.bind fun t _ => ?_
  split
  · exact upholds_pure ⟨_, rfl⟩
  · exact upholds_takeName
  · exact upholds_takeName
  · exact upholds_fail _
  · exact .ite upholds_takeName (upholds_fail _)

end Steady

/-- A name may be declared where the condition does not look at the names. -/
theorem maintains_declare [Lasting I] (name : String) : Maintains I (declare name) := by
  intro s a t hs hrun
  cases hrun
  exact ⟨Lasting.declare hs name, trivial⟩

/-- The name of a parameter is declared. -/
theorem maintains_declareParameter [Lasting I] (n : Node) : Maintains I (declareParameter n) := by
  rw [declareParameter]
  cases parameterName? n with
  | some name => exact maintains_declare name
  | none => exact maintains_pure ()

end XhrKeywords.Grammar
