import XhrKeywords.Grammar.Program
import XhrKeywords.Proofs.Syntax.Plain

/-!
# Running productions

Productions run on the tokens ahead of a state. Each operation that they are made of is an equation
here, so that a production whose tokens are known can be run by rewriting.
-/

namespace XhrKeywords.Grammar

open Syntax hiding Kind
open Token (Kind)

variable {α β σ : Type}

/-- What a round leaves satisfies one condition, or its answer another one. -/
def Round.All (P : σ → Prop) (Q : β → Prop) : Round σ β → Prop
  | .again x => P x
  | .done b => Q b

/-- A round that goes on satisfies what its seed does. -/
@[simp, grind =]
theorem Round.all_again {P : σ → Prop} {Q : β → Prop} {x : σ} :
    (Round.again x : Round σ β).All P Q ↔ P x := Iff.rfl

/-- A round that ends satisfies what its answer does. -/
@[simp, grind =]
theorem Round.all_done {P : σ → Prop} {Q : β → Prop} {b : β} :
    (Round.done b : Round σ β).All P Q ↔ Q b := Iff.rfl

section Operations

variable (s : State)

/-- Two steps run one after another, unless the first one fails. -/
theorem bind_run (p : Parser α) (f : α → Parser β) :
    (p >>= f) s = match p s with
      | .ok (a, t) => f a t
      | .error e => .error e := by
  change StateT.bind p f s = _
  rw [StateT.bind]
  cases p s with
  | error e => rfl
  | ok r => rfl

/-- Behind a step that answers, the next one runs. -/
theorem bind_of_eq {p : Parser α} {f : α → Parser β} {s t : State} {a : α}
    (h : p s = .ok (a, t)) : (p >>= f) s = f a t := by
  rw [bind_run, h]

@[simp] theorem pure_run (a : α) : (pure a : Parser α) s = .ok (a, s) := rfl

@[simp] theorem current_run : current s = .ok (s.current, s) := rfl

@[simp] theorem previous_run : previous s = .ok (s.previous, s) := rfl

@[simp] theorem second_run : second s = .ok (s.second, s) := rfl

@[simp] theorem advance_run : advance s = .ok (s.current, s.advance) := rfl

/-- Taking a token brings the one behind it next. -/
theorem State.current_advance : s.advance.current = s.second := by
  rw [State.advance, State.second]
  cases s.ahead <;> rfl

@[simp] theorem sees_run (kind : Kind) : sees kind s = .ok (s.current.kind == kind, s) := rfl

@[simp] theorem seesAny_run (kinds : List Kind) :
    seesAny kinds s = .ok (kinds.contains s.current.kind, s) := rfl

@[simp] theorem seesClass_run (holds : Kind → Bool) :
    seesClass holds s = .ok (holds s.current.kind, s) := rfl

@[simp] theorem seesGlued_run (kind : Kind) :
    seesGlued kind s = .ok (s.current.kind == kind && !s.current.spaced, s) := rfl

@[simp] theorem isLocal_run (name : String) :
    isLocal name s = .ok (s.scope.contains name, s) := rfl

@[simp] theorem doBinds_run : doBinds s = .ok (s.blocked == 0, s) := rfl

@[simp] theorem skipNewlines_run : skipNewlines s = .ok ((), s.skip (· == .newline)) := rfl

@[simp] theorem skipSeparators_run : skipSeparators s = .ok ((), s.skip isSeparator) := rfl

/-- The tree that is built from a mark to the last token taken. -/
def built (kind : Syntax.Kind) (children : List Node) (start : Mark) : Node :=
  .tree kind
    (some (start.upTo s.previous.endLine s.previous.endColumn s.previous.stop)) children

/-- A tree that is built is told from its kind and its children. -/
@[simp] theorem erase_built (kind : Syntax.Kind) (children : List Node) (start : Mark) :
    (built s kind children start).erase = .made kind (children.map Node.erase) :=
  Node.erase_tree ..

/-- A leaf is told from its role and its text. -/
@[simp] theorem erase_leafAs (role : Role) (t : Token) :
    (leafAs role t).erase = .word role t.text := rfl

@[simp] theorem build_run (kind : Syntax.Kind) (children : List Node) (start : Mark) :
    build kind children start s = .ok (built s kind children start, s) := rfl

/-- A token that is there is taken, another one is left. -/
theorem accept_run (kind : Kind) :
    accept kind s =
      .ok (s.current.kind == kind, if s.current.kind == kind then s.advance else s) := by
  rw [accept, bind_of_eq (sees_run s kind)]
  cases s.current.kind == kind <;> rfl

/-- A token that is there is taken without an error. -/
theorem expectOr_run {kind : Kind} (h : s.current.kind = kind) (cause : Kind → SyntaxError.Cause) :
    expectOr kind cause s = .ok (s.current, s.advance) := by
  rw [expectOr, bind_of_eq (sees_run s kind), h, beq_self_eq_true, if_pos rfl, advance_run]

/-- Nothing is passed over in front of a token of another class. -/
theorem skip_run {holds : Kind → Bool} (h : holds s.current.kind = false) :
    s.skip holds = s := by
  obtain ⟨current, ahead, previous, blocked, scope, outer⟩ := s
  cases ahead with
  | nil => rfl
  | cons t others => simp [State.skip, State.skip.go, h]

/-- A list goes on behind a comma and ends in front of any other token. -/
theorem commaRound_run (found : σ) :
    commaRound found s = if s.current.kind == .comma then .ok (.again found, s.advance)
      else .ok (.done found, s) := by
  rw [commaRound, bind_of_eq (accept_run s .comma)]
  cases s.current.kind == .comma <;> rfl

/-- A list goes on behind a comma, over line breaks. -/
theorem listRound_run (found : σ) :
    listRound found s = if s.current.kind == .comma
      then .ok (.again found, s.advance.skip (· == .newline)) else .ok (.done found, s) := by
  rw [listRound, bind_of_eq (accept_run s .comma)]
  cases s.current.kind == .comma <;> rfl

/-- What is done behind a production does not change its answer. -/
theorem andThen_of_eq {p : Parser α} {t : State} {a : α} (h : p s = .ok (a, t))
    (change : State → State) : andThen p change s = .ok (a, change t) := by
  rw [andThen, bind_of_eq h]
  rfl

/-- A round goes on with what its production answers. -/
theorem again_of_eq {p : Parser σ} {t : State} {x : σ} (h : p s = .ok (x, t)) :
    (again p : Parser (Round σ β)) s = .ok (.again x, t) := by
  rw [again, bind_of_eq h]
  rfl

end Operations

/-- The state in front of tokens, with the one before them. -/
def State.at (s : State) (last : Token) : List Token → State
  | [] => s
  | t :: others => { s with previous := last, current := t, ahead := others }

section Places

variable (s : State) (last t u : Token) (others : List Token)

@[simp] theorem current_at : (s.at last (t :: others)).current = t := rfl

@[simp] theorem second_at : (s.at last (t :: u :: others)).second = u := rfl

@[simp] theorem advance_at :
    (s.at last (t :: u :: others)).advance = s.at t (u :: others) := rfl

/-- The next token is taken also where a run of tokens stands in front of another one. -/
theorem advance_at_append (tokens : List Token) :
    (s.at last (t :: (tokens ++ u :: others))).advance = s.at t (tokens ++ u :: others) := by
  cases tokens <;> rfl

@[simp] theorem scope_at : ∀ tokens, (s.at last tokens).scope = s.scope
  | [] => rfl
  | _ :: _ => rfl

@[simp] theorem blocked_at : ∀ tokens, (s.at last tokens).blocked = s.blocked
  | [] => rfl
  | _ :: _ => rfl

/-- A literal or a name is built of the next token. -/
theorem single_at (kind : Syntax.Kind) :
    single kind (s.at last (t :: u :: others)) =
      .ok (built (s.at t (u :: others)) kind [leafOf t] (ofToken t), s.at t (u :: others)) := rfl

/-- A word is built of the next token. -/
theorem bare_at (kind : Syntax.Kind) :
    bare kind (s.at last (t :: u :: others)) =
      .ok (built (s.at t (u :: others)) kind [] (ofToken t), s.at t (u :: others)) := rfl

end Places

/-- A production in another count of calls that keep a `do` for themselves leaves that count. -/
theorem withBlocked_at {p : Parser α} {count : Nat → Nat} {s : State} {last last' : Token}
    {tokens rest : List Token} {a : α}
    (h : p ({ s with blocked := count s.blocked }.at last tokens) =
      .ok (a, { s with blocked := count s.blocked }.at last' rest)) :
    withBlocked count p (s.at last tokens) = .ok (a, s.at last' rest) := by
  have hin : { s.at last tokens with blocked := count (s.at last tokens).blocked } =
      { s with blocked := count s.blocked }.at last tokens := by
    cases tokens <;> rfl
  have hout : { { s with blocked := count s.blocked }.at last' rest with blocked := s.blocked } =
      s.at last' rest := by
    cases rest <;> rfl
  rw [← hin] at h
  have hrun : withBlocked count p (s.at last tokens) =
      andThen p (fun t => { t with blocked := (s.at last tokens).blocked })
        { s.at last tokens with blocked := count (s.at last tokens).blocked } := rfl
  rw [hrun, andThen_of_eq _ h, blocked_at, ← hout]

/-- What is read in a scope of its own leaves the scopes around it as they are. -/
theorem inScope_at {p : Parser α} {s : State} {last last' : Token}
    {tokens rest : List Token} {a : α} {scope : List String}
    (h : p ({ s with outer := s.scope :: s.outer }.at last tokens) =
      .ok (a, { s with scope, outer := s.scope :: s.outer }.at last' rest)) :
    inScope true p (s.at last tokens) = .ok (a, s.at last' rest) := by
  have henter : (s.at last tokens).enter true =
      { s with outer := s.scope :: s.outer }.at last tokens := by
    cases tokens <;> rfl
  have hleave : ({ s with scope, outer := s.scope :: s.outer }.at last' rest).leave =
      s.at last' rest := by
    cases rest <;> rfl
  have hrun : inScope true p (s.at last tokens) =
      andThen p (·.leave) ((s.at last tokens).enter true) := rfl
  rw [hrun, henter, andThen_of_eq _ h, ← hleave]

section Failing

variable {s : State} {e : SyntaxError}

/-- The first step that fails decides. -/
theorem bind_of_error {p : Parser α} {f : α → Parser β} (h : p s = .error e) :
    (p >>= f) s = .error e := by
  rw [bind_run, h]

/-- What fails in brackets fails. -/
theorem bracketed_of_error {p : Parser α} (h : p { s with blocked := 0 } = .error e) :
    bracketed p s = .error e := by
  have hrun : bracketed p s =
      andThen p (fun t => { t with blocked := s.blocked }) { s with blocked := 0 } := rfl
  rw [hrun]
  exact bind_of_error h

/-- What fails in a scope of its own fails. -/
theorem inScope_of_error {p : Parser α} (h : p (s.enter true) = .error e) :
    inScope true p s = .error e := by
  have hrun : inScope true p s = andThen p (·.leave) (s.enter true) := rfl
  rw [hrun]
  exact bind_of_error h

/-- What does not end with the first round does not end. -/
theorem loop_of_error {g : Rules} {round : σ → Parser (Round σ β)} {x : σ}
    (hlimit : 0 < g.limit) (h : round x s = .error e) : g.loop round x s = .error e := by
  obtain ⟨limit, hg⟩ := Nat.exists_eq_add_one.mpr hlimit
  rw [Rules.loop, hg, rounds]
  exact bind_of_error h

end Failing

/-- The rules for phrases down to a depth of nesting. -/
def rulesAt (depth : Nat) : Rules := ⟨depth, readTo depth⟩

/-- Tokens that start an operand with nothing in front of it. -/
def startsOperand : Kind → Bool
  | .int | .string | .ivar | .symbol | .const | .kwNil | .kwTrue | .kwFalse | .kwSelf | .lbrack
  | .lbrace | .ident => true
  | _ => false

/-- Tokens that end an expression. -/
def endsExpression : Kind → Bool
  | .comma | .rpar | .rbrack | .rbrace | .eof => true
  | _ => false

/-- Tokens that are no sign and no unary operator. -/
def isUnsigned : Kind → Bool
  | .minus | .bang | .tilde | .plus | .kwDefined => false
  | _ => true

/-- Tokens that no expression goes on with: those that end it, an arrow and a line break. -/
def settlesExpression (kind : Kind) : Bool :=
  endsExpression kind || kind == .assoc || kind == .newline

/-- A token that starts an operand is neither a sign nor `not`. -/
theorem isUnsigned_of_startsOperand {kind : Kind} (h : startsOperand kind = true) :
    isUnsigned kind = true ∧ (kind == .kwNot) = false := by
  revert h
  cases kind <;> decide

/-- What ends an expression settles that it is read as one. -/
theorem settlesExpression_of_endsExpression {kind : Kind} (h : endsExpression kind = true) :
    settlesExpression kind = true := by
  rw [settlesExpression, h]
  rfl

/-- The tokens behind which no operator is looked for. -/
theorem cases_of_settlesExpression {kind : Kind} (h : settlesExpression kind = true) :
    kind = .comma ∨ kind = .rpar ∨ kind = .rbrack ∨ kind = .rbrace ∨ kind = .eof ∨ kind = .assoc ∨
      kind = .newline := by
  revert h
  cases kind <;> decide

variable {g : Rules} {s t : State} {n : Node}

/-- No trailer follows at the end of an expression. -/
theorem trailerRound_run (hend : settlesExpression s.current.kind = true) :
    trailerRound g n s = .ok (.done n, s) := by
  rw [trailerRound, bind_of_eq (current_run s)]
  rcases cases_of_settlesExpression hend with h | h | h | h | h | h | h <;> rw [h] <;> rfl

/-- A primary that nothing follows is an operand. -/
theorem operand_of_primary (hlimit : 0 < g.limit)
    (hend : settlesExpression t.current.kind = true) (h : primary g s = .ok (n, t)) :
    operand g s = .ok (n, t) := by
  obtain ⟨fewer, hfewer⟩ : ∃ fewer, g.limit = fewer + 1 := ⟨g.limit - 1, by omega⟩
  rw [operand, bind_of_eq h, Rules.loop, hfewer, rounds, bind_of_eq (trailerRound_run hend)]
  rfl

/-- What is no unary operator starts an operand. -/
theorem unary_eq (hstart : isUnsigned s.current.kind = true) : unary g s = operand g s := by
  have hclass : ∀ kind, isUnsigned kind = true →
      [Kind.bang, .tilde, .plus].contains kind = false ∧ (kind == .kwDefined) = false := by
    intro kind
    cases kind <;> decide
  obtain ⟨hoperator, hdefined⟩ := hclass _ hstart
  rw [unary, bind_of_eq (seesAny_run ..), hoperator, if_neg Bool.false_ne_true,
    bind_of_eq (sees_run ..), hdefined, if_neg Bool.false_ne_true]

/-- What is no sign starts an operand with its power. -/
theorem signed_eq (hstart : isUnsigned s.current.kind = true) :
    signed g s = (operand g >>= power g) s := by
  have hminus : (s.current.kind == .minus) = false := by
    revert hstart
    generalize s.current.kind = kind
    cases kind <;> decide
  rw [signed, bind_of_eq (sees_run ..), hminus, if_neg Bool.false_ne_true, bind_run, bind_run,
    unary_eq hstart]

/-- Behind the end of an operand no power follows. -/
theorem signed_of_operand (hstart : isUnsigned s.current.kind = true)
    (hend : settlesExpression t.current.kind = true) (h : operand g s = .ok (n, t)) :
    signed g s = .ok (n, t) := by
  have hpow : (t.current.kind == .pow) = false := by
    revert hend
    generalize t.current.kind = kind
    cases kind <;> decide
  rw [signed_eq hstart, bind_of_eq h, power, bind_of_eq (sees_run ..), hpow,
    if_neg Bool.false_ne_true, pure_run]

/-- An operand behind which no operator follows is an operation of any level. -/
theorem leftAssociative_of_tighter {operators : List Kind} {tighter : Parser Node}
    (hlimit : 0 < g.limit) (hend : operators.contains t.current.kind = false)
    (h : tighter s = .ok (n, t)) : leftAssociative g operators tighter s = .ok (n, t) := by
  obtain ⟨fewer, hfewer⟩ : ∃ fewer, g.limit = fewer + 1 := ⟨g.limit - 1, by omega⟩
  have hround : binaryRound operators tighter n t = .ok (.done n, t) := by
    rw [binaryRound, bind_of_eq (seesAny_run ..), hend, if_neg Bool.false_ne_true, pure_run]
  rw [leftAssociative, bind_of_eq h, Rules.loop, hfewer, rounds, bind_of_eq hround]
  rfl

/-- An operand that no operator follows is an operation, level by level. -/
theorem operation_of_operand (hlimit : 0 < g.limit) (hstart : isUnsigned s.current.kind = true)
    (hend : settlesExpression t.current.kind = true) (h : operand g s = .ok (n, t)) :
    operation g binaryLevels s = .ok (n, t) := by
  have hlevels : ∀ kind, settlesExpression kind = true →
      ∀ operators ∈ binaryLevels, operators.contains kind = false := by
    intro kind
    cases kind <;> decide
  have hall := hlevels _ hend
  generalize binaryLevels = levels at hall
  induction levels with
  | nil => exact signed_of_operand hstart hend h
  | cons operators levels ih =>
    exact leftAssociative_of_tighter hlimit (hall _ List.mem_cons_self)
      (ih fun others hothers => hall _ (List.mem_cons_of_mem _ hothers))

/-- An operand is an assignment when nothing follows that goes on with it. -/
theorem assignment_of_settled (hlimit : 0 < g.limit) (hstart : isUnsigned s.current.kind = true)
    (hend : settlesExpression t.current.kind = true) (h : operand g s = .ok (n, t)) :
    assignment g s = .ok (n, t) := by
  have hclass : ∀ kind, settlesExpression kind = true →
      [Kind.dot2, .dot3].contains kind = false ∧ (kind == .qmark) = false ∧
        [Kind.assign, .opAssign].contains kind = false := by
    intro kind
    cases kind <;> decide
  obtain ⟨hrange, hchoice, hassign⟩ := hclass _ hend
  have hoperation := operation_of_operand hlimit hstart hend h
  have hrange : range g s = .ok (n, t) := by
    rw [range, bind_of_eq hoperation, bind_of_eq (seesAny_run ..), hrange,
      if_neg Bool.false_ne_true, pure_run]
  have hchoice : choice g s = .ok (n, t) := by
    rw [choice, bind_of_eq hrange, bind_of_eq (accept_run ..), hchoice, if_neg Bool.false_ne_true,
      if_neg Bool.false_ne_true, pure_run]
  rw [assignment, bind_of_eq hchoice, bind_of_eq (seesAny_run ..), hassign, Bool.false_and,
    if_neg Bool.false_ne_true, pure_run]

/-- An operand that nothing follows is an assignment. -/
theorem assignment_of_operand (hlimit : 0 < g.limit)
    (hstart : startsOperand s.current.kind = true)
    (hend : endsExpression t.current.kind = true) (h : operand g s = .ok (n, t)) :
    assignment g s = .ok (n, t) :=
  assignment_of_settled hlimit (isUnsigned_of_startsOperand hstart).1
    (settlesExpression_of_endsExpression hend) h

/-- An operand that nothing follows is a negation. -/
theorem negation_of_operand (hlimit : 0 < g.limit)
    (hstart : startsOperand s.current.kind = true)
    (hend : endsExpression t.current.kind = true) (h : operand g s = .ok (n, t)) :
    negation g s = .ok (n, t) := by
  rw [negation, bind_of_eq (sees_run ..), (isUnsigned_of_startsOperand hstart).2,
    if_neg Bool.false_ne_true, assignment_of_operand hlimit hstart hend h]

/-- An operand that nothing follows is a sequence. -/
theorem sequence_of_operand (hlimit : 0 < g.limit)
    (hstart : startsOperand s.current.kind = true)
    (hend : endsExpression t.current.kind = true) (h : operand g s = .ok (n, t)) :
    sequence g s = .ok (n, t) := by
  refine leftAssociative_of_tighter hlimit ?_ (negation_of_operand hlimit hstart hend h)
  revert hend
  generalize t.current.kind = kind
  cases kind <;> decide

/-- A statement that is no multiple assignment starts with an expression. -/
theorem statementHead_eq (h : seesTargets s = .ok (false, s)) :
    statementHead g s = sequence g s := by
  rw [statementHead, bind_of_eq h, if_neg Bool.false_ne_true]

/-- Where an operand cannot be read, no assignment can. -/
theorem assignment_of_error {e : SyntaxError} (hstart : isUnsigned s.current.kind = true)
    (h : operand g s = .error e) : assignment g s = .error e := by
  have hsigned : signed g s = .error e := by
    rw [signed_eq hstart]
    exact bind_of_error h
  have hoperation : operation g binaryLevels s = .error e := by
    generalize binaryLevels = levels
    induction levels with
    | nil => exact hsigned
    | cons operators levels ih => exact bind_of_error ih
  exact bind_of_error (bind_of_error (bind_of_error hoperation))

/-- Where an operand cannot be read, no expression can. -/
theorem sequence_of_error {e : SyntaxError} (hstart : startsOperand s.current.kind = true)
    (h : operand g s = .error e) : sequence g s = .error e := by
  obtain ⟨hunsigned, hnot⟩ := isUnsigned_of_startsOperand hstart
  have hnegation : negation g s = .error e := by
    rw [negation, bind_of_eq (sees_run ..), hnot, if_neg Bool.false_ne_true]
    exact assignment_of_error hunsigned h
  exact bind_of_error hnegation

end XhrKeywords.Grammar
