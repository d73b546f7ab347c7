import XhrKeywords.Proofs.Grammar.Nest.Control
import XhrKeywords.Proofs.Grammar.Nest.Definition

/-!
# Primaries nest

The expressions that the first token tells apart start with that token.
-/

namespace XhrKeywords.Grammar

open Syntax hiding Kind
open Token (Kind)

variable {tokens : List Token} {s t : State} {g : Rules} {n : Node}

/-- A number without a sign is a value. -/
theorem reads_unsigned (hs : s.Along tokens) {kind : Syntax.Kind}
    (hkind : kind = .int ∨ kind = .float)
    (hnumber : s.current.kind = .int ∨ s.current.kind = .float)
    (h : single kind s = .ok (n, t)) : Reads tokens s.current n t := by
  cases h
  exact reads_number hs hs.mem (.refl tokens _) hkind hnumber (Leaf.isAt_iff.mpr rfl)
    (if_neg (Nat.lt_irrefl _)).symm

/-- A constant or a call with parentheses is a value. -/
theorem reads_constant (hg : g.Nests tokens) (hs : s.Along tokens) (hkind : s.current.kind = .const)
    (h : constant g s = .ok (n, t)) : Reads tokens s.current n t := by
  rw [constant, advance_bind, seesGlued_bind] at h
  have htake := fun role => (hs.takeAs (hkind ▸ nofun) role).absent
  split at h
  · rename_i hopener
    obtain ⟨found, u, hfound, h⟩ := of_bind h
    cases h
    have hname := htake (.token .ident)
    obtain ⟨hfound, hended, hfilled⟩ := consumes_delimitedArguments hg hname.along
      (isMark_of_beq (Bool.and_eq_true_iff.mp hopener).1 rfl) hfound rfl
    exact hname.built_append (hfound.follows hname.along) rfl hended hfilled rfl nofun fun _ => rfl
  · cases h
    exact (htake _).built rfl (hs.ended (hkind ▸ nofun) (hkind ▸ nofun)) rfl nofun nofun

/-- A constant of the outermost namespace is a value. -/
theorem reads_rootConstant (hs : s.Along tokens) (hmark : s.current.kind.isMark)
    (h : rootConstant s = .ok (n, t)) : Reads tokens s.current n t := by
  rw [rootConstant, advance_bind, build_bind] at h
  obtain ⟨hname, h⟩ := of_expectOr h
  cases h
  have htake := hs.take hmark
  exact ((htake.tree (by nofun) rfl).advanceAs (ne_of_beq hname nofun) _).built rfl
    (htake.along.ended (ne_of_beq hname nofun) (ne_of_beq hname nofun)) rfl nofun nofun

/-- An array in brackets is a value. -/
theorem reads_array (hg : g.Nests tokens) (hs : s.Along tokens) (hmark : s.current.kind.isMark)
    (h : array g s = .ok (n, t)) : Reads tokens s.current n t := by
  rw [array, current_bind] at h
  obtain ⟨found, u, hfound, h⟩ := of_bind h
  cases h
  obtain ⟨hfound, hended, -⟩ := consumes_delimitedArguments hg hs hmark hfound rfl
  exact hfound.built rfl hended rfl (fun _ => rfl) nofun

/-- Statements in parentheses are a value. -/
theorem reads_parenthesized (hg : g.Nests tokens) (hs : s.Along tokens)
    (hmark : s.current.kind.isMark) (h : parenthesized g s = .ok (n, t)) :
    Reads tokens s.current n t := by
  rw [parenthesized, advance_bind] at h
  obtain ⟨found, u, hfound, h⟩ := of_bind h
  obtain ⟨hcloser, h⟩ := of_expectOr h
  cases h
  obtain ⟨v, hstatements, rfl⟩ := of_withBlocked hfound
  have htake := hs.take hmark
  have hfound := follows_statements hg (htake.along.congr _ _ _) hstatements
  have hall := (htake.trans hfound).congr s.advance.blocked v.scope v.outer
  exact (hall.advance (isMark_of_beq hcloser rfl)).built rfl
    (hall.along.ended (ne_of_beq hcloser nofun) (ne_of_beq hcloser nofun)) rfl (fun _ => rfl) nofun

/-- A range without a lower bound is a value. -/
theorem reads_openRange (hg : g.Nests tokens) (hs : s.Along tokens) (hmark : s.current.kind.isMark)
    (h : openRange g s = .ok (n, t)) : Reads tokens s.current n t := by
  rw [openRange, advance_bind] at h
  obtain ⟨upper, u, hupper, h⟩ := of_bind h
  cases h
  have htake := hs.take hmark
  have hread := hg.operation htake.along hupper
  exact ((htake.trans (hread.follows htake.along)).mark hmark _).absent.built rfl hread.ended rfl
    nofun nofun

/-- A negation is a value. -/
theorem reads_negatedOperand (hg : g.Nests tokens) (hs : s.Along tokens)
    (hmark : s.current.kind.isMark) (h : negatedOperand g s = .ok (n, t)) :
    Reads tokens s.current n t := by
  rw [negatedOperand, advance_bind] at h
  obtain ⟨operand, u, hoperand, h⟩ := of_bind h
  cases h
  have htake := hs.take hmark
  have hread := hg.assignment htake.along hoperand
  exact ((htake.trans (hread.follows htake.along)).mark hmark _).built rfl hread.ended rfl nofun
    nofun

/-- The values that a jump carries lie behind it. Without any, no token is taken. -/
theorem follows_jumpValues (hg : g.Nests tokens) {values : List Node} (hs : s.Along tokens)
    (hended : s.Ended tokens) (h : jumpValues g s = .ok (values, t)) :
    Follows tokens s.previous.stop t values ∧ t.Ended tokens := by
  rw [jumpValues, seesClass_bind] at h
  split at h
  · cases h
    exact ⟨hs.stay, hended⟩
  · obtain ⟨hvalues, hended, -⟩ := follows_arguments hg hs h rfl
    exact ⟨hvalues, hended⟩

/-- A jump with its values is a value. -/
theorem reads_jump (hg : g.Nests tokens) {kind : Syntax.Kind} (hempty : kind.mayBeEmpty)
    (hwords : kind.rewords = false) (hs : s.Along tokens) (hnewline : s.current.kind ≠ .newline)
    (hmark : s.current.kind.isMark) (h : jump g kind s = .ok (n, t)) :
    Reads tokens s.current n t := by
  rw [jump, advance_bind] at h
  obtain ⟨values, u, hvalues, h⟩ := of_bind h
  cases h
  have htake := hs.take hmark
  have hcall : kind ≠ .call := by
    rintro rfl
    cases hempty
  obtain ⟨hvalues, hended⟩ := follows_jumpValues hg htake.along
    (hs.ended hnewline (Kind.ne_eof_of_isMark hmark)) hvalues
  exact (htake.trans hvalues).built hwords hended rfl (fun _ => hempty)
    fun hkind => absurd hkind hcall

/-- The values that a block is called with lie behind the keyword. Without any, no token is
taken. -/
theorem follows_yieldValues (hg : g.Nests tokens) {values : List Node} (hs : s.Along tokens)
    (hended : s.Ended tokens) (h : yieldValues g s = .ok (values, t)) :
    Follows tokens s.previous.stop t values ∧ t.Ended tokens := by
  rw [yieldValues, seesGlued_bind] at h
  split at h
  · rename_i hopener
    obtain ⟨hvalues, hended, -⟩ := consumes_delimitedArguments hg hs
      (isMark_of_beq (Bool.and_eq_true_iff.mp hopener).1 rfl) h rfl
    exact ⟨hvalues.follows hs, hended⟩
  · rw [commandStart_bind] at h
    split at h
    · obtain ⟨hvalues, hended, -⟩ := follows_arguments hg hs h rfl
      exact ⟨hvalues, hended⟩
    · cases h
      exact ⟨hs.stay, hended⟩

/-- A call of the block of the method is a value. -/
theorem reads_yieldCall (hg : g.Nests tokens) (hs : s.Along tokens)
    (hnewline : s.current.kind ≠ .newline) (hmark : s.current.kind.isMark)
    (h : yieldCall g s = .ok (n, t)) : Reads tokens s.current n t := by
  rw [yieldCall, advance_bind] at h
  obtain ⟨values, u, hvalues, h⟩ := of_bind h
  cases h
  have htake := hs.take hmark
  obtain ⟨hvalues, hended⟩ := follows_yieldValues hg htake.along
    (hs.ended hnewline (Kind.ne_eof_of_isMark hmark)) hvalues
  exact (htake.trans hvalues).built rfl hended rfl (fun _ => rfl) nofun

/-- A call of the overridden method is a value. -/
theorem reads_superCall (hg : g.Nests tokens) (hs : s.Along tokens)
    (hnewline : s.current.kind ≠ .newline) (hmark : s.current.kind.isMark)
    (h : superCall g s = .ok (n, t)) : Reads tokens s.current n t := by
  rw [superCall, advance_bind, seesGlued_bind] at h
  have htake := hs.take hmark
  split at h
  · rename_i hopener
    obtain ⟨values, u, hvalues, h⟩ := of_bind h
    cases h
    obtain ⟨hvalues, hended, -⟩ := consumes_delimitedArguments hg htake.along
      (isMark_of_beq (Bool.and_eq_true_iff.mp hopener).1 rfl) hvalues rfl
    exact (htake.trans (hvalues.follows htake.along)).built rfl hended rfl (fun _ => rfl) nofun
  · rw [commandStart_bind] at h
    split at h
    · exact htake.command hg rfl h rfl (fun _ => rfl) nofun
    · cases h
      exact htake.built rfl (hs.ended hnewline (Kind.ne_eof_of_isMark hmark)) rfl (fun _ => rfl)
        nofun

/-- Another name for a method is a value. -/
theorem reads_aliasStatement (hs : s.Along tokens) (hmark : s.current.kind.isMark)
    (h : aliasStatement s = .ok (n, t)) : Reads tokens s.current n t := by
  rw [aliasStatement, advance_bind] at h
  obtain ⟨new, u, hnew, h⟩ := of_bind h
  obtain ⟨old, v, hold, h⟩ := of_bind h
  cases h
  have htake := hs.take hmark
  have hnew := htake.trans ((readsValues_aliasName htake.along hnew).follows htake.along)
  have hold := readsValues_aliasName hnew.along hold
  exact (hnew.trans (hold.follows hnew.along)).built rfl hold.ended rfl nofun nofun

/-- A body between `begin` and `end` is a value. -/
theorem reads_beginBlock (hg : g.Nests tokens) (hs : s.Along tokens)
    (hmark : s.current.kind.isMark) (h : beginBlock g s = .ok (n, t)) :
    Reads tokens s.current n t := by
  rw [beginBlock, advance_bind] at h
  obtain ⟨inner, u, hinner, h⟩ := of_bind h
  cases h
  have htake := hs.take hmark
  obtain ⟨hinner, hended⟩ := follows_bracketedBody hg htake.along hinner
  exact (htake.trans hinner).built rfl hended rfl nofun nofun

/-- A primary is a value. -/
theorem readsValues_primary (hg : g.Nests tokens) : ReadsValues tokens (primary g) := by
  intro s n t hs h
  rw [primary, current_bind] at h
  have hnewline : s.current.kind ≠ .newline := by
    intro hkind
    rw [hkind] at h
    cases h
  have heof : s.current.kind ≠ .eof := by
    intro hkind
    rw [hkind] at h
    cases h
  generalize hkind : s.current.kind = kind at h
  split at h
  case h_1 => exact reads_unsigned hs (Or.inl rfl) (Or.inl hkind) h
  case h_2 => exact reads_unsigned hs (Or.inr rfl) (Or.inr hkind) h
  case h_4 | h_5 | h_6 | h_13 | h_14 | h_15 => exact reads_single hs hnewline heof h nofun rfl
  case h_3 => exact readsValues_strings hs h
  case h_7 | h_8 => exact reads_singleAs hs hnewline heof h nofun rfl
  case h_9 | h_10 | h_11 | h_12 | h_29 | h_30 =>
    exact reads_bare hs hnewline (hkind ▸ rfl) rfl rfl h
  case h_16 => exact reads_identifier hg hs hkind h
  case h_17 => exact reads_constant hg hs hkind h
  case h_18 => exact reads_rootConstant hs (hkind ▸ rfl) h
  case h_19 => exact reads_array hg hs (hkind ▸ rfl) h
  case h_20 => exact readsValues_hash hg hs h
  case h_21 => exact reads_parenthesized hg hs (hkind ▸ rfl) h
  case h_22 | h_23 => exact reads_openRange hg hs (hkind ▸ rfl) h
  case h_24 => exact readsValues_lambda hg hs h
  case h_25 => exact reads_negatedOperand hg hs (hkind ▸ rfl) h
  case h_26 | h_27 | h_28 => exact reads_jump hg rfl rfl hs hnewline (hkind ▸ rfl) h
  case h_31 => exact reads_yieldCall hg hs hnewline (hkind ▸ rfl) h
  case h_32 => exact reads_superCall hg hs hnewline (hkind ▸ rfl) h
  case h_33 => exact reads_aliasStatement hs (hkind ▸ rfl) h
  case h_34 => exact readsValues_definition hg hs h
  case h_35 => exact readsValues_classDefinition hg hs h
  case h_36 => exact readsValues_moduleDefinition hg hs h
  case h_37 | h_38 => exact reads_condition hg hs (hkind ▸ rfl) h
  case h_39 | h_40 => exact reads_whileLoop hg hs (hkind ▸ rfl) h
  case h_41 => exact readsValues_forLoop hg hs h
  case h_42 => exact readsValues_caseChoice hg hs h
  case h_43 => exact reads_beginBlock hg hs (hkind ▸ rfl) h
  case h_44 => cases h

end XhrKeywords.Grammar
