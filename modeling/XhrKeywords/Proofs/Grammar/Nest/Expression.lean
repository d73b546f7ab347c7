import XhrKeywords.Proofs.Grammar.Nest.Primary

/-!
# Expressions nest

An expression grows to the right: an operand by its trailers, an operation by its operands, a
statement by its modifiers. It keeps its start all the while.
-/

namespace XhrKeywords.Grammar

open Syntax hiding Kind
open Token (Kind)

variable {tokens : List Token} {first : Token} {s t : State} {g : Rules} {n m : Node}

/-- A repetition that makes a value grow keeps it a value. -/
theorem Reads.loop {round : Node → Parser (Round Node Node)} (h : Reads tokens first n s)
    (hround : ∀ {n s r t}, Reads tokens first n s → round n s = .ok (r, t) →
      r.All (Reads tokens first · t) (Reads tokens first · t))
    (hrun : g.loop round n s = .ok (m, t)) : Reads tokens first m t :=
  of_rounds hround h hrun

/-- A constant or a call behind a double colon starts where the expression in front does. -/
theorem Reads.scopeTrailer (hg : g.Nests tokens) (hn : Reads tokens first n s)
    (hmark : s.current.kind.isMark) (h : scopeTrailer g n s = .ok (m, t)) :
    Reads tokens first m t := by
  rw [Grammar.scopeTrailer, advance_bind, second_bind, sees_bind] at h
  have hcolons := hn.along.advance hmark
  split at h
  · rename_i hname
    have hconst := (Bool.and_eq_true_iff.mp hname).1
    cases h
    exact ((hn.pass hcolons).advanceAs (ne_of_beq hconst nofun) _).built rfl
      (hcolons.along.ended (ne_of_beq hconst nofun) (ne_of_beq hconst nofun)) hn.start nofun nofun
  · exact hn.methodCall hg hcolons h

/-- A method call behind a dot starts where the expression in front does. -/
theorem Reads.callTrailer (hg : g.Nests tokens) (hn : Reads tokens first n s)
    (hmark : s.current.kind.isMark) (h : callTrailer g n s = .ok (m, t)) :
    Reads tokens first m t := by
  rw [Grammar.callTrailer, advance_bind, skipNewlines_bind] at h
  exact hn.methodCall hg (hn.along.advance hmark).skipNewlines h

/-- An index starts where the expression in front does. -/
theorem Reads.indexTrailer (hg : g.Nests tokens) (hn : Reads tokens first n s)
    (hmark : s.current.kind.isMark) (h : indexTrailer g n s = .ok (m, t)) :
    Reads tokens first m t := by
  obtain ⟨found, u, hfound, h⟩ := of_bind h
  cases h
  obtain ⟨hfound, hended, -⟩ := consumes_delimitedArguments hg hn.along hmark hfound rfl
  exact (hn.trans (hfound.follows hn.along)).built rfl hended hn.start nofun nofun

/-- One more trailer keeps the start. -/
theorem Reads.trailerRound (hg : g.Nests tokens) {r : Round Node Node}
    (hn : Reads tokens first n s) (h : trailerRound g n s = .ok (r, t)) :
    r.All (Reads tokens first · t) (Reads tokens first · t) := by
  rw [Grammar.trailerRound, current_bind] at h
  generalize hkind : s.current.kind = kind at h
  split at h
  case h_1 | h_2 =>
    obtain ⟨call, hcall, rfl⟩ := of_again h
    exact hn.callTrailer hg (hkind ▸ rfl) hcall
  case h_3 =>
    split at h
    · cases h
      exact hn
    · obtain ⟨scope, hscope, rfl⟩ := of_again h
      exact hn.scopeTrailer hg (hkind ▸ rfl) hscope
  case h_4 =>
    split at h
    · cases h
      exact hn
    · obtain ⟨index, hindex, rfl⟩ := of_again h
      exact hn.indexTrailer hg (hkind ▸ rfl) hindex
  case h_5 =>
    split at h
    · obtain ⟨node, hnode, rfl⟩ := of_again h
      exact hn.block hg (hkind ▸ rfl) hnode
    · cases h
      exact hn
  case h_6 =>
    rw [doBinds_bind] at h
    split at h
    · obtain ⟨node, hnode, rfl⟩ := of_again h
      exact hn.block hg (hkind ▸ rfl) hnode
    · cases h
      exact hn
  case h_7 =>
    cases h
    exact hn

/-- An operand is a value. -/
theorem readsValues_operand (hg : g.Nests tokens) : ReadsValues tokens (operand g) := by
  intro s n t hs h
  obtain ⟨base, u, hbase, h⟩ := of_bind h
  exact (readsValues_primary hg hs hbase).loop (Reads.trailerRound hg) h

/-- The operand of `defined?` follows, and a call may end with it. -/
theorem follows_testedOperand (hg : g.Nests tokens) (hs : s.Along tokens)
    (h : testedOperand g s = .ok (n, t)) :
    Follows tokens s.previous.stop t [n] ∧ t.Ended tokens := by
  rw [testedOperand, seesGlued_bind] at h
  split at h
  · rename_i hopener
    rw [advance_bind, skipNewlines_bind] at h
    obtain ⟨inner, u, hinner, h⟩ := of_bind h
    rw [skipNewlines_bind] at h
    obtain ⟨hcloser, h⟩ := of_expectOr h
    cases h
    have hkind := (Bool.and_eq_true_iff.mp hopener).1
    have hfront := (hs.advance (isMark_of_beq hkind rfl)).skipNewlines
    have hinner := (hfront.trans ((hg.sequence hfront.along hinner).follows
      hfront.along)).skipNewlines
    exact ⟨hinner.advance (isMark_of_beq hcloser rfl),
      hinner.along.ended (ne_of_beq hcloser nofun) (ne_of_beq hcloser nofun)⟩
  · have hread := hg.unary hs h
    exact ⟨hread.follows hs, hread.ended⟩

/-- A test with `defined?` is a value. -/
theorem reads_definedTest (hg : g.Nests tokens) (hs : s.Along tokens)
    (hmark : s.current.kind.isMark) (h : definedTest g s = .ok (n, t)) :
    Reads tokens s.current n t := by
  rw [definedTest, advance_bind] at h
  obtain ⟨inner, u, hinner, h⟩ := of_bind h
  cases h
  have htake := hs.take hmark
  obtain ⟨hinner, hended⟩ := follows_testedOperand hg htake.along hinner
  exact (htake.trans hinner).built rfl hended rfl nofun nofun

/-- A unary operation is a value. -/
theorem reads_unaryOperation {tighter : Phrase} (htighter : ReadsValues tokens (g.read tighter))
    (hs : s.Along tokens) (hmark : s.current.kind.isMark)
    (h : unaryOperation g tighter s = .ok (n, t)) : Reads tokens s.current n t := by
  rw [unaryOperation, advance_bind] at h
  obtain ⟨inner, u, hinner, h⟩ := of_bind h
  cases h
  have htake := hs.take hmark
  have hread := htighter htake.along hinner
  exact ((htake.trans (hread.follows htake.along)).mark hmark _).built rfl hread.ended rfl nofun
    nofun

/-- An operand behind unary operators is a value. -/
theorem readsValues_unary (hg : g.Nests tokens) : ReadsValues tokens (unary g) := by
  intro s n t hs h
  rw [unary, seesAny_bind] at h
  split at h
  · rename_i hoperator
    exact reads_unaryOperation hg.unary hs (isMark_of_contains hoperator rfl) h
  · rw [sees_bind] at h
    split at h
    · rename_i hdefined
      exact reads_definedTest hg hs (isMark_of_beq hdefined rfl) h
    · exact readsValues_operand hg hs h

/-- A base with its exponent starts where the base does. -/
theorem Reads.power (hg : g.Nests tokens) (hn : Reads tokens first n s)
    (h : power g n s = .ok (m, t)) : Reads tokens first m t := by
  rw [Grammar.power, sees_bind] at h
  split at h
  · rename_i hoperator
    rw [advance_bind, skipNewlines_bind] at h
    obtain ⟨exponent, u, hexponent, h⟩ := of_bind h
    cases h
    have hmark := isMark_of_beq hoperator rfl
    have hfront := (hn.advance hmark).skipNewlines
    have hread := hg.signed hfront.along hexponent
    have hright := (hread.follows hfront.along).mark hn.along.mem hmark .operator
    exact (hfront.trans hright).built rfl hread.ended hn.start (by rintro ⟨⟩) (by rintro ⟨⟩)
  · cases h
    exact hn

/-- A number that a minus sign touches starts with the sign. -/
theorem reads_negativeNumber {sign : Token} (hsign : Consumes tokens sign s [])
    (hkind : s.current.kind = .int ∨ s.current.kind = .float)
    (h : negativeNumber sign s = .ok (n, t)) : Reads tokens sign n t := by
  cases h
  have hlt : sign.start < s.current.start := Nat.lt_of_lt_of_le hsign.lt hsign.along.gap.le
  refine reads_number hsign.along hsign.mem (hsign.kept.gap.trans hsign.along.gap) ?_ hkind
    (Leaf.isAt_iff.mpr rfl) (if_pos hlt).symm
  split
  · exact Or.inl rfl
  · exact Or.inr rfl

/-- An operand behind minus signs is a value. -/
theorem readsValues_signed (hg : g.Nests tokens) : ReadsValues tokens (signed g) := by
  intro s n t hs h
  rw [signed, sees_bind] at h
  split at h
  · rename_i hminus
    rw [advance_bind, current_bind] at h
    have hmark := isMark_of_beq hminus rfl
    have htake := hs.take hmark
    split at h
    · rename_i hnumber
      obtain ⟨number, u, hsign, h⟩ := of_bind h
      refine (reads_negativeNumber htake ?_ hsign).power hg h
      exact (Bool.or_eq_true_iff.mp (Bool.and_eq_true_iff.mp hnumber).1).imp beq_iff_eq.mp
        beq_iff_eq.mp
    · obtain ⟨inner, u, hinner, h⟩ := of_bind h
      cases h
      have hread := hg.signed htake.along hinner
      exact ((htake.trans (hread.follows htake.along)).mark hmark _).built rfl hread.ended rfl
        (by rintro ⟨⟩) (by rintro ⟨⟩)
  · obtain ⟨base, u, hbase, h⟩ := of_bind h
    exact (readsValues_unary hg hs hbase).power hg h

/-- Operands joined by operators of one level are a value. -/
theorem readsValues_leftAssociative {operators : List Kind} {tighter : Parser Node}
    (htighter : ReadsValues tokens tighter) (hmarks : operators.all Kind.isMark) :
    ReadsValues tokens (leftAssociative g operators tighter) := by
  intro s n t hs h
  obtain ⟨left, u, hleft, h⟩ := of_bind h
  refine (htighter hs hleft).loop ?_ h
  intro left u r v hleft h
  rw [binaryRound, seesAny_bind] at h
  split at h
  · rename_i hoperator
    rw [advance_bind, skipNewlines_bind] at h
    obtain ⟨right, w, hright, h⟩ := of_bind h
    obtain ⟨node, ⟨⟩, rfl⟩ := of_again h
    have hmark := isMark_of_contains hoperator hmarks
    have hfront := (hleft.advance hmark).skipNewlines
    have hread := htighter hfront.along hright
    have hright := (hread.follows hfront.along).mark hleft.along.mem hmark .operator
    exact (hfront.trans hright).built rfl hread.ended hleft.start (by rintro ⟨⟩) (by rintro ⟨⟩)
  · cases h
    exact hleft

/-- Operands joined by operators of several levels are a value. -/
theorem readsValues_operation (hg : g.Nests tokens) {levels : List (List Kind)}
    (hmarks : ∀ operators ∈ levels, operators.all Kind.isMark) :
    ReadsValues tokens (operation g levels) := by
  induction levels with
  | nil => exact readsValues_signed hg
  | cons operators levels ih =>
    exact readsValues_leftAssociative (ih fun others hothers => hmarks others (.tail _ hothers))
      (hmarks operators List.mem_cons_self)

/-- Operands joined by any binary operators are a value. -/
theorem readsValues_binaryLevels (hg : g.Nests tokens) :
    ReadsValues tokens (operation g binaryLevels) :=
  readsValues_operation hg (by decide)

/-- The upper bound of a range follows, if there is one. Without one, no token is taken. -/
theorem follows_upperBound (hg : g.Nests tokens) (hs : s.Along tokens) (hended : s.Ended tokens)
    (h : upperBound g s = .ok (n, t)) :
    Follows tokens s.previous.stop t [n] ∧ t.Ended tokens := by
  rw [upperBound, seesClass_bind] at h
  split at h
  · cases h
    exact ⟨hs.stay.absent, hended⟩
  · have hread := readsValues_binaryLevels hg hs h
    exact ⟨hread.follows hs, hread.ended⟩

/-- A range is a value. -/
theorem readsValues_range (hg : g.Nests tokens) : ReadsValues tokens (range g) := by
  intro s n t hs h
  obtain ⟨lower, u, hlower, h⟩ := of_bind h
  have hlower := readsValues_binaryLevels hg hs hlower
  rw [seesAny_bind] at h
  split at h
  · rename_i hoperator
    rw [advance_bind] at h
    obtain ⟨upper, v, hupper, h⟩ := of_bind h
    cases h
    have hmark := isMark_of_contains hoperator rfl
    have hnewline : u.current.kind ≠ .newline := by
      intro hkind
      rw [hkind] at hoperator
      cases hoperator
    have hfront := hlower.advance hmark
    obtain ⟨hupper, hended⟩ := follows_upperBound hg hfront.along
      (hlower.along.ended hnewline (Kind.ne_eof_of_isMark hmark)) hupper
    have hright := hupper.mark hlower.along.mem hmark .operator
    exact (hfront.trans hright).built rfl hended hlower.start nofun nofun
  · cases h
    exact hlower

/-- A branch up to its colon follows. -/
theorem placesTrees_chosenBranch (hg : g.Nests tokens) : PlacesTrees tokens (chosenBranch g) := by
  intro s n t hs h
  obtain ⟨chosen, u, hchosen, h⟩ := of_bind h
  rw [skipNewlines_bind] at h
  obtain ⟨hcolon, h⟩ := of_expectOr h
  cases h
  exact ((hg.choice hs hchosen).follows hs).skipNewlines.advance (isMark_of_beq hcolon rfl)

/-- The branch in front of the colon of a choice is a value. -/
theorem placesTrees_firstBranch (hg : g.Nests tokens) : PlacesTrees tokens (firstBranch g) := by
  intro s n t hs h
  rw [firstBranch, current_bind] at h
  generalize hkind : s.current.kind = kind at h
  split at h
  · rw [advance_bind] at h
    have halong := hs.step (hkind ▸ nofun)
    have hread := reads_nameReference halong hs.mem s.previous_advance hkind h
    exact hread.toConsumes.follows hs
  · cases h
    exact (hs.advanceAs (hkind ▸ nofun) _).tree nofun rfl
  · exact placesTrees_chosenBranch hg hs h

/-- A choice between two branches is a value. -/
theorem readsValues_choice (hg : g.Nests tokens) : ReadsValues tokens (choice g) := by
  intro s n t hs h
  obtain ⟨test, u, htest, h⟩ := of_bind h
  have htest := readsValues_range hg hs htest
  rw [accept_bind] at h
  split at h
  · rename_i hmark
    rw [if_pos rfl, skipNewlines_bind] at h
    obtain ⟨chosen, v, hchosen, h⟩ := of_bind h
    rw [skipNewlines_bind] at h
    obtain ⟨other, w, hother, h⟩ := of_bind h
    cases h
    have hfront := (htest.advance (isMark_of_beq hmark rfl)).skipNewlines
    have hchosen := (hfront.trans (placesTrees_firstBranch hg hfront.along hchosen)).skipNewlines
    have hread := hg.choice hchosen.along hother
    exact (hchosen.trans (hread.follows hchosen.along)).built rfl hread.ended htest.start nofun
      nofun
  · cases h
    exact htest

/-- An assignment is a value. -/
theorem readsValues_assignment (hg : g.Nests tokens) : ReadsValues tokens (assignment g) := by
  intro s n t hs h
  obtain ⟨left, u, hleft, h⟩ := of_bind h
  have hleft := readsValues_choice hg hs hleft
  rw [seesAny_bind] at h
  split at h
  · rename_i hassign
    rw [advance_bind, skipNewlines_bind] at h
    obtain ⟨target, v, htarget, h⟩ := of_bind h
    obtain ⟨value, w, hvalue, h⟩ := of_bind h
    cases h
    obtain ⟨hread, scope, rfl⟩ := hleft.toTarget htarget
    have hmark := isMark_of_contains (Bool.and_eq_true_iff.mp hassign).1 rfl
    have hfront := (hread.advance hmark).skipNewlines
    have hvalue := hg.assignment (hfront.along.congr _ _ _) hvalue
    have hright := (hvalue.follows (hfront.along.congr _ _ _)).mark hread.along.mem hmark .operator
    exact (hfront.trans hright).built rfl hvalue.ended hread.start nofun nofun
  · cases h
    exact hleft

/-- An assignment behind `not` is a value. -/
theorem readsValues_negation (hg : g.Nests tokens) : ReadsValues tokens (negation g) := by
  intro s n t hs h
  rw [negation, sees_bind] at h
  split at h
  · rename_i hnot
    exact reads_unaryOperation hg.negation hs (isMark_of_beq hnot rfl) h
  · exact readsValues_assignment hg hs h

/-- Negations joined by `and` and `or` are a value. -/
theorem readsValues_sequence (hg : g.Nests tokens) : ReadsValues tokens (sequence g) :=
  readsValues_leftAssociative (readsValues_negation hg) rfl

end XhrKeywords.Grammar
