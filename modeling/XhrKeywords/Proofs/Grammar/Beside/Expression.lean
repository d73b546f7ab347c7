import XhrKeywords.Grammar.Expression
import XhrKeywords.Proofs.Grammar.Beside.Primary

/-!
# Expressions beside each other

Each level of precedence agrees because the tighter one does. At a closer none of them finds an
operand, nor behind an operator that only a closer follows.
-/

namespace XhrKeywords.Grammar

open Syntax hiding Kind
open Token (Kind)

variable {k l : Int} {g g' : Rules}

/-- Whether a node may take a block does not depend on its place. -/
theorem takesBlock_erase (n : Node) : takesBlock n.erase = takesBlock n := by
  cases n with
  | absent | leaf _ => rfl
  | tree kind span children => cases kind <;> rfl

/-- Whether a node is a variable does not depend on its place. -/
theorem isVariable_erase (n : Node) : isVariable n.erase = isVariable n := by
  cases n with
  | absent | leaf _ => rfl
  | tree kind span children => cases kind <;> rfl

/-- What ends a list is no parenthesis that opens arguments. -/
theorem Resembles.opens {t t' : Token} (h : Resembles t t') :
    (t'.kind == .lpar && !t'.spaced) = (t.kind == .lpar && !t.spaced) := by
  rcases h with ⟨hkind, -, hspaced⟩ | ⟨hend, hend'⟩
  · rw [hkind, hspaced]
  · have hopen {kind : Kind} (h : isEnd kind = true) : (kind == .lpar) = false := by
      revert h
      cases kind <;> decide
    rw [hopen hend, hopen hend']
    rfl

/-- A constant or a call behind `::`. -/
theorem agrees_scopeTrailer (hg : g.Beside k l g') {n n' : Node} (hn : Alike n n') :
    Agrees k l (scopeTrailer g n) (scopeTrailer g' n') := by
  refine agrees_advance.bind fun _ _ _ => Agrees.second fun behind behind' hbehind =>
    (agrees_sees rfl).bind fun a b hab =>
      .ite (by rw [show a = b from hab, hbehind.opens]) ?_ (agrees_methodCall hg hn .colon2)
  exact agrees_advance.bind fun _ _ hname =>
    agrees_build .const _ _ (alike_cons hn (alike_cons (alike_leafOf hname) alike_nil))

/-- A call behind a dot. -/
theorem agrees_callTrailer (hg : g.Beside k l g') {n n' : Node} (hn : Alike n n') :
    Agrees k l (callTrailer g n) (callTrailer g' n') := by
  refine agrees_advance.bind fun operator operator' hoperator => ?_
  rw [hoperator.1]
  exact agrees_skipNewlines.bind fun _ _ _ => agrees_methodCall hg hn operator.kind

/-- An index ends at a bracket, which is no closer. -/
theorem agrees_indexTrailer (hg : g.Beside k l g') {n n' : Node} (hn : Alike n n') :
    Agrees k l (indexTrailer g n) (indexTrailer g' n') :=
  (agrees_delimitedArguments hg rfl).bind fun _ _ hfound =>
    agrees_build .index _ _ (alike_cons hn hfound)

/-- What follows an operand is chosen by marks of which none is a closer. -/
theorem agrees_trailerRound (hg : g.Beside k l g') {n n' : Node} (hn : Alike n n') :
    Agrees k l (trailerRound g n) (trailerRound g' n') := by
  have hdone : Agrees k l (pure (.done n) : Parser (Round Node Node)) (pure (.done n')) :=
    agrees_pure (.done hn)
  have hblock : takesBlock n' = takesBlock n := by
    rw [← takesBlock_erase n', ← takesBlock_erase n, show n.erase = n'.erase from hn]
  have hvariable : isVariable n' = isVariable n := by
    rw [← isVariable_erase n', ← isVariable_erase n, show n.erase = n'.erase from hn]
  refine Agrees.current fun t t' ht => ?_
  rcases ht with ⟨hkind, -, hspaced⟩ | ⟨hbrace, hparen⟩
  · rw [hkind, hspaced, hblock, hvariable]
    split
    · exact (agrees_callTrailer hg hn).again
    · exact (agrees_callTrailer hg hn).again
    · exact .ite Iff.rfl hdone (agrees_scopeTrailer hg hn).again
    · exact .ite Iff.rfl hdone (agrees_indexTrailer hg hn).again
    · exact .ite Iff.rfl (agrees_block hg hn).again hdone
    · exact agrees_doBinds.bind fun a b hab =>
        .ite (by rw [show a = b from hab]) (agrees_block hg hn).again hdone
    · exact hdone
  · rw [hbrace, hparen]
    exact hdone

/-- A primary with what follows it. -/
theorem agrees_operand (hg : g.Beside k l g') : Agrees k l (operand g) (operand g') :=
  (agrees_primary hg).bind fun _ _ => Agrees.rounds (fun _ _ => agrees_trailerRound hg) _ _

/-- What `defined?` asks about, in parentheses or without. -/
theorem agrees_testedOperand (hg : g.Beside k l g') :
    Agrees k l (testedOperand g) (testedOperand g') := by
  refine (agrees_seesGlued rfl rfl).test ?_ (hg.phrase .unary)
  exact agrees_advance.bind fun _ _ _ => agrees_skipNewlines.bind fun _ _ _ =>
    (hg.phrase .sequence).bind fun _ _ hinner => agrees_skipNewlines.bind fun _ _ _ =>
      (agrees_expect .rpar).bind fun _ _ _ => agrees_pure hinner

/-- A `defined?` with what it asks about. -/
theorem agrees_definedTest (hg : g.Beside k l g') :
    Agrees k l (definedTest g) (definedTest g') :=
  agrees_advance.bind fun _ _ _ => (agrees_testedOperand hg).bind fun _ _ htested =>
    agrees_build .defined _ _ (alike_cons htested alike_nil)

/-- A sign in front of an operand that binds tighter. -/
theorem agrees_unaryOperation (hg : g.Beside k l g') (tighter : Phrase) :
    Agrees k l (unaryOperation g tighter) (unaryOperation g' tighter) :=
  agrees_advance.bind fun _ _ hoperator => (hg.phrase tighter).bind fun _ _ hinner =>
    agrees_build .unop _ _ (alike_cons (alike_leafAs hoperator _) (alike_cons hinner alike_nil))

/-- An operand with or without a sign in front. -/
theorem agrees_unary (hg : g.Beside k l g') : Agrees k l (unary g) (unary g') :=
  (agrees_seesAny rfl).test (agrees_unaryOperation hg _) <|
    (agrees_sees rfl).test (agrees_definedTest hg) (agrees_operand hg)

/-- The right side of a power is read with its own sign and power. -/
theorem agrees_power (hg : g.Beside k l g') {base base' : Node} (hbase : Alike base base') :
    Agrees k l (power g base) (power g' base') := by
  refine (agrees_sees rfl).test ?_ (agrees_pure hbase)
  exact agrees_advance.bind fun _ _ hoperator => agrees_skipNewlines.bind fun _ _ _ =>
    (hg.phrase .signed).bind fun _ _ hexponent => agrees_build .binop _ _
      (alike_cons hbase (alike_cons (alike_leafAs hoperator _) (alike_cons hexponent alike_nil)))

/-- A number literal with its sign is alike wherever the sign is. -/
theorem agrees_negativeNumber (sign sign' : Token) :
    Agrees k l (negativeNumber sign) (negativeNumber sign') := by
  refine agrees_advance.bind fun number number' h => ?_
  rw [h.1, h.2.1]
  exact agrees_build _ _ _ (alike_cons (alike_leafWith _ _ _ _) alike_nil)

/-- Behind a token that has been taken, the next one touches it in both places or in none. -/
theorem agrees_advanceCurrent {α : Type} [Likeness α] {f f' : Token → Token → Parser α}
    (h : ∀ t t' u u', Alike t t' →
      (Alike u u' ∧ (u'.start == t'.stop) = (u.start == t.stop)) ∨
        (u.kind = .rbrace ∧ u'.kind = .rpar) → Agrees k l (f t u) (f' t' u')) :
    Agrees k l (do let t ← advance; let u ← current; f t u)
      (do let t ← advance; let u ← current; f' t u) := by
  have hstays (t u : Token) : Maintains State.Outside (f t u) :=
    (h t t u u (Likeness.refl t) (.inl ⟨Likeness.refl u, rfl⟩)).stays
  refine ⟨maintains_advance.bind fun t _ => maintains_current.bind fun u _ => hstays t u, ?_⟩
  intro s s' a b v v' hs hrun hrun'
  rw [bind_of_eq (advance_run s), bind_of_eq (current_run s.advance)] at hrun
  rw [bind_of_eq (advance_run s'), bind_of_eq (current_run s'.advance)] at hrun'
  rcases hs.advance with hout | ⟨htaken, hadvance⟩
  · exact .inl (hstays _ _ hout hrun).1
  · refine (h _ _ _ _ (alike_of_displaced htaken) ?_).alike hadvance hrun hrun'
    exact hadvance.faces.imp (fun hnext => ⟨alike_of_displaced hnext, htaken.touches hnext⟩) id

/-- A minus sign touches the number behind it on both sides or on none. -/
theorem agrees_signed (hg : g.Beside k l g') : Agrees k l (signed g) (signed g') := by
  refine (agrees_sees rfl).test ?_ ((agrees_unary hg).bind fun _ _ => agrees_power hg)
  refine agrees_advanceCurrent fun sign sign' number number' hsign hnumber => ?_
  have hcondition : ((number'.kind == .int || number'.kind == .float)
      && number'.start == sign'.stop) =
        ((number.kind == .int || number.kind == .float) && number.start == sign.stop) := by
    rcases hnumber with ⟨hnumber, htouches⟩ | ⟨hbrace, hparen⟩
    · rw [hnumber.1, htouches]
    · rw [hbrace, hparen]
      rfl
  refine .ite (by rw [hcondition]) ?_ ?_
  · exact (agrees_negativeNumber sign sign').bind fun _ _ => agrees_power hg
  · exact (hg.phrase .signed).bind fun _ _ hinner => agrees_build .unop _ _
      (alike_cons (alike_leafAs hsign _) (alike_cons hinner alike_nil))

/-- One operator of a level with its right operand; no closer is an operator. -/
theorem agrees_binaryRound {operators : List Kind}
    (hoperators : operators.contains .rbrace = operators.contains .rpar)
    {tighter tighter' : Parser Node} (htighter : Agrees k l tighter tighter') {left left' : Node}
    (hleft : Alike left left') :
    Agrees k l (binaryRound operators tighter left) (binaryRound operators tighter' left') := by
  refine (agrees_seesAny hoperators).test ?_ (agrees_pure (.done hleft))
  exact agrees_advance.bind fun _ _ hoperator => agrees_skipNewlines.bind fun _ _ _ =>
    htighter.bind fun _ _ hright => Agrees.again <| agrees_build .binop _ _ (alike_cons hleft
      (alike_cons (alike_leafAs hoperator _) (alike_cons hright alike_nil)))

/-- The operands of a level, grouped from the left. -/
theorem agrees_leftAssociative {operators : List Kind}
    (hoperators : operators.contains .rbrace = operators.contains .rpar)
    {tighter tighter' : Parser Node} (htighter : Agrees k l tighter tighter') :
    Agrees k l (leftAssociative g operators tighter) (leftAssociative g' operators tighter') :=
  htighter.bind fun _ _ =>
    Agrees.rounds (fun _ _ => agrees_binaryRound hoperators htighter) _ _

/-- Levels of operators that do not tell the closers apart, by induction on the levels. -/
theorem agrees_operation (hg : g.Beside k l g') {levels : List (List Kind)}
    (h : ∀ operators ∈ levels, operators.contains .rbrace = operators.contains .rpar) :
    Agrees k l (operation g levels) (operation g' levels) := by
  induction levels with
  | nil => exact agrees_signed hg
  | cons operators tighter ih =>
    rw [List.forall_mem_cons] at h
    exact agrees_leftAssociative h.1 (ih h.2)

/-- No level of the binary operators tells the closers apart. -/
theorem agrees_binaryLevels (hg : g.Beside k l g') :
    Agrees k l (operation g binaryLevels) (operation g' binaryLevels) :=
  agrees_operation hg (by decide)

/-- The upper bound of a range is left out in front of either closer. -/
theorem agrees_upperBound (hg : g.Beside k l g') :
    Agrees k l (upperBound g) (upperBound g') :=
  (agrees_seesClass _ rfl).test (agrees_pure rfl) (agrees_binaryLevels hg)

/-- A range, or the operation that would be its lower bound. -/
theorem agrees_range (hg : g.Beside k l g') : Agrees k l (range g) (range g') := by
  refine (agrees_binaryLevels hg).bind fun lower lower' hlower =>
    (agrees_seesAny rfl).test ?_ (agrees_pure hlower)
  exact agrees_advance.bind fun _ _ hoperator => (agrees_upperBound hg).bind fun _ _ hupper =>
    agrees_build .range _ _
      (alike_cons hlower (alike_cons (alike_leafAs hoperator _) (alike_cons hupper alike_nil)))

/-- The second branch of a choice, behind its colon. -/
theorem agrees_chosenBranch (hg : g.Beside k l g') :
    Agrees k l (chosenBranch g) (chosenBranch g') :=
  (hg.phrase .choice).bind fun _ _ hn => agrees_skipNewlines.bind fun _ _ _ =>
    (agrees_expectOr .colon _ _).bind fun _ _ _ => agrees_pure hn

/-- A label in the first branch gives its colon back on both sides. -/
theorem agrees_firstBranch (hg : g.Beside k l g') :
    Agrees k l (firstBranch g) (firstBranch g') := by
  refine Agrees.current fun t t' ht => ?_
  rcases ht with ⟨hkind, -, -⟩ | ⟨hbrace, hparen⟩
  · rw [hkind]
    split
    · exact agrees_advance.bind fun _ _ => agrees_nameReference
    · exact (agrees_singleAs .str _).bind fun _ _ hn => agrees_pure (alike_mapSpan hn _ _)
    · exact agrees_chosenBranch hg
  · rw [hbrace, hparen]
    exact agrees_chosenBranch hg

/-- A choice `test ? first : second`, or its test alone. -/
theorem agrees_choice (hg : g.Beside k l g') : Agrees k l (choice g) (choice g') := by
  refine (agrees_range hg).bind fun test test' htest =>
    (agrees_accept rfl).test ?_ (agrees_pure htest)
  exact agrees_skipNewlines.bind fun _ _ _ => (agrees_firstBranch hg).bind fun _ _ hfirst =>
    agrees_skipNewlines.bind fun _ _ _ => (hg.phrase .choice).bind fun _ _ hother =>
      agrees_build .ternary _ _ (alike_cons htest (alike_cons hfirst (alike_cons hother alike_nil)))

/-- What is assigned to is read as a value first. -/
theorem agrees_assignment (hg : g.Beside k l g') :
    Agrees k l (assignment g) (assignment g') := by
  refine (agrees_choice hg).bind fun left left' hleft => (agrees_seesAny rfl).bind fun a b hab => ?_
  have hassignable : isAssignable left' = isAssignable left := by
    rw [← isAssignable_erase left', ← isAssignable_erase left,
      show left.erase = left'.erase from hleft]
  refine .ite (by rw [show a = b from hab, hassignable]) ?_ (agrees_pure hleft)
  exact agrees_advance.bind fun _ _ hoperator => agrees_skipNewlines.bind fun _ _ _ =>
    (agrees_toTarget hleft).bind fun _ _ htarget => (hg.phrase .assignment).bind
      fun _ _ hvalue => agrees_build .asgn _ _ (alike_cons htarget
        (alike_cons (alike_leafAs hoperator _) (alike_cons hvalue alike_nil)))

/-- `not` in front of an expression. -/
theorem agrees_negation (hg : g.Beside k l g') : Agrees k l (negation g) (negation g') :=
  (agrees_sees rfl).test (agrees_unaryOperation hg _) (agrees_assignment hg)

/-- Expressions joined by `and` and `or`. -/
theorem agrees_sequence (hg : g.Beside k l g') : Agrees k l (sequence g) (sequence g') :=
  agrees_leftAssociative (by decide) (agrees_negation hg)

end XhrKeywords.Grammar
