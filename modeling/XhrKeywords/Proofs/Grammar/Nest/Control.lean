import XhrKeywords.Proofs.Grammar.Nest.Block

/-!
# Conditions and loops nest

Conditions, loops and choices end with the `end` that closes them.
-/

namespace XhrKeywords.Grammar

open Syntax hiding Kind
open Token (Kind)

variable {tokens : List Token} {s t : State} {g : Rules} {n : Node}

/-- The body of a branch follows. -/
theorem placesTrees_branch (hg : g.Nests tokens) (stops : List Kind) :
    PlacesTrees tokens (branch g stops) :=
  (placesTrees_body hg stops).withBlocked fun _ => 0

/-- The body behind `else` follows, if there is one. -/
theorem placesTrees_otherwiseBranch (hg : g.Nests tokens) :
    PlacesTrees tokens (otherwiseBranch g) := by
  intro s n t hs h
  rw [otherwiseBranch, accept_bind] at h
  split at h
  · rename_i helse
    have hadvance := hs.advance (isMark_of_beq helse rfl)
    exact hadvance.trans (placesTrees_branch hg _ hadvance.along h)
  · cases h
    exact hs.stay.absent

/-- The condition behind `elsif` or the body behind `else` follows, if there is one. -/
theorem placesTrees_nextBranch (hg : g.Nests tokens) (keyword : Token) :
    PlacesTrees tokens (nextBranch g keyword) := by
  intro s n t hs h
  rw [nextBranch, sees_bind] at h
  split at h
  · rename_i helsif
    rw [advance_bind] at h
    have hmark := isMark_of_beq (Bool.and_eq_true_iff.mp helsif).2 rfl
    have hadvance := hs.advance hmark
    exact hadvance.trans (hg.conditional _ hs.mem hmark hadvance.along h)
  · exact placesTrees_otherwiseBranch hg hs h

/-- The condition and the branches behind a keyword follow it. -/
theorem follows_conditional (hg : g.Nests tokens) {test : Parser Node} {keyword : Token}
    (htest : ReadsValues tokens test) (hs : s.Along tokens)
    (h : conditional g test keyword s = .ok (n, t)) :
    ∃ children, n = built t .ifStmt (leafAs .keyword keyword :: children) (ofToken keyword) ∧
      Follows tokens s.previous.stop t children := by
  obtain ⟨condition, u, hcondition, h⟩ := of_bind h
  obtain ⟨_, v, hseparator, h⟩ := of_bind h
  obtain ⟨inner, w, hinner, h⟩ := of_bind h
  have hcondition := (htest.withBlocked _ hs hcondition).follows hs
  have hfront := hcondition.pass (follows_separator hcondition.along hseparator)
  have hinner := hfront.trans (placesTrees_branch hg _ hfront.along hinner)
  obtain ⟨otherwise, x, hotherwise, h⟩ := of_bind h
  cases h
  exact ⟨_, rfl, hinner.trans (placesTrees_nextBranch hg keyword hinner.along hotherwise)⟩

/-- A condition up to its `end` is a value. -/
theorem reads_condition (hg : g.Nests tokens) (hs : s.Along tokens)
    (hmark : s.current.kind.isMark) (h : condition g s = .ok (n, t)) :
    Reads tokens s.current n t := by
  rw [condition, advance_bind] at h
  obtain ⟨node, u, hnode, h⟩ := of_bind h
  obtain ⟨hend, h⟩ := of_expectOr h
  cases h
  have htake := hs.take hmark
  obtain ⟨children, rfl, hchildren⟩ := follows_conditional hg hg.sequence htake.along hnode
  have hall := (htake.trans hchildren).advance (isMark_of_beq hend rfl)
  exact ⟨(hall.mark hmark .keyword).tree nofun rfl,
    hchildren.along.ended (ne_of_beq hend nofun) (ne_of_beq hend nofun), start_upTo .., nofun⟩

/-- The mark in front of the body of a loop is passed over. -/
theorem follows_loopOpener {a : Unit} (hs : s.Along tokens) (h : loopOpener s = .ok (a, t)) :
    Follows tokens s.previous.stop t [] := by
  rw [loopOpener, accept_bind] at h
  split at h
  · rename_i hdo
    cases h
    exact hs.advance (isMark_of_beq hdo rfl)
  · rw [if_neg Bool.false_ne_true, seesClass_bind] at h
    split at h
    · cases h
      exact hs.stay
    · cases h

/-- The body of a loop follows, and a call may end with its `end`. -/
theorem follows_loopBody (hg : g.Nests tokens) {construction : String} (hs : s.Along tokens)
    (h : loopBody g construction s = .ok (n, t)) :
    Follows tokens s.previous.stop t [n] ∧ t.Ended tokens := by
  obtain ⟨_, u, hopener, h⟩ := of_bind h
  have hopener := follows_loopOpener hs hopener
  obtain ⟨hbody, hended⟩ := follows_closed (placesTrees_branch hg _) hopener.along h nofun rfl
  exact ⟨hopener.trans hbody, hended⟩

/-- A loop with a condition is a value. -/
theorem reads_whileLoop (hg : g.Nests tokens) (hs : s.Along tokens)
    (hmark : s.current.kind.isMark) (h : whileLoop g s = .ok (n, t)) :
    Reads tokens s.current n t := by
  rw [whileLoop, advance_bind] at h
  obtain ⟨test, u, htest, h⟩ := of_bind h
  obtain ⟨inner, v, hinner, h⟩ := of_bind h
  cases h
  have htake := hs.take hmark
  have htest := (hg.sequence.withBlocked _ htake.along htest).follows htake.along
  obtain ⟨hinner, hended⟩ := follows_loopBody hg htest.along hinner
  exact (((htake.trans htest).trans hinner).mark hmark _).built rfl hended rfl nofun nofun

/-- A variable of a loop is a value. -/
theorem readsValues_loopVariable : ReadsValues tokens loopVariable := by
  intro s n t hs h
  obtain ⟨hname, h⟩ := of_expectOr h
  rw [declare_bind] at h
  cases h
  have hended := hs.ended (ne_of_beq hname nofun) (ne_of_beq hname nofun)
  exact ((hs.takeAs (ne_of_beq hname nofun) _).built rfl hended rfl nofun (by nofun)).congr _ _ _

/-- The variables of a loop lie one behind the other. -/
theorem follows_loopVariables {found : List Node} (hs : s.Along tokens)
    (h : g.loop loopVariableRound [] s = .ok (found, t)) :
    Follows tokens s.previous.stop t found := by
  refine follows_loop ?_ hs h
  intro lo found v r w hfound h
  obtain ⟨next, x, hnext, h⟩ := of_bind h
  have hmore := hfound.trans ((readsValues_loopVariable hfound.along hnext).follows hfound.along)
  exact hmore.commaRound h

/-- The variable of a loop, or several of them as one target, follows. -/
theorem Follows.loopTarget {start : Token} {lo : Nat} {found : List Node}
    (h : Follows tokens lo s found) (htarget : loopTarget start found s = .ok (n, t)) :
    Follows tokens lo t [n] := by
  match found with
  | [only] =>
    cases htarget
    exact h
  | [] | _ :: _ :: _ =>
    cases htarget
    exact h.tree nofun rfl

/-- A loop over a collection is a value. -/
theorem readsValues_forLoop (hg : g.Nests tokens) : ReadsValues tokens (forLoop g) := by
  intro s n t hs h
  obtain ⟨hfor, h⟩ := of_expectOr h
  obtain ⟨targets, u, htargets, h⟩ := of_bind h
  have htake := hs.take (isMark_of_beq hfor rfl)
  have htargets := follows_loopVariables htake.along htargets
  obtain ⟨bound, v, hbound, h⟩ := of_bind h
  obtain ⟨hin, h⟩ := of_expectOr h
  obtain ⟨collection, w, hcollection, h⟩ := of_bind h
  obtain ⟨inner, x, hinner, h⟩ := of_bind h
  cases h
  have hfront := (htargets.loopTarget hbound).advance (isMark_of_beq hin rfl)
  have hcollection := (hg.sequence.withBlocked _ hfront.along hcollection).follows hfront.along
  obtain ⟨hinner, hended⟩ := follows_loopBody hg hcollection.along hinner
  exact (htake.trans ((hfront.trans hcollection).trans hinner)).built rfl hended rfl nofun nofun

/-- A `when` clause follows. -/
theorem follows_whenClause (hg : g.Nests tokens) (hs : s.Along tokens)
    (hmark : s.current.kind.isMark) (h : whenClause g s = .ok (n, t)) :
    Follows tokens s.previous.stop t [n] := by
  rw [whenClause, advance_bind] at h
  obtain ⟨values, u, hvalues, h⟩ := of_bind h
  obtain ⟨_, v, hseparator, h⟩ := of_bind h
  obtain ⟨inner, w, hinner, h⟩ := of_bind h
  cases h
  have hadvance := hs.advance hmark
  have hvalues := (begins_elements (readsValues_splatOr hg.choice) hadvance.along hvalues).1
  have hfront := hadvance.trans (hvalues.toConsumes.follows hadvance.along)
  have hfront := hfront.pass (follows_separator hfront.along hseparator)
  exact (hfront.trans (placesTrees_branch hg _ hfront.along hinner)).tree nofun rfl

/-- The `when` clauses lie one behind the other. -/
theorem follows_whens (hg : g.Nests tokens) {found : List Node} (hs : s.Along tokens)
    (h : g.loop (whenRound g) [] s = .ok (found, t)) : Follows tokens s.previous.stop t found := by
  refine follows_loop ?_ hs h
  intro lo found v r w hfound h
  rw [whenRound, sees_bind] at h
  split at h
  · rename_i hwhen
    obtain ⟨clause, hclause, rfl⟩ := of_againWith h
    exact hfound.trans (follows_whenClause hg hfound.along (isMark_of_beq hwhen rfl) hclause)
  · cases h
    exact hfound

/-- The `when` clauses lie one behind the other, and there is a first one. -/
theorem follows_whenClauses (hg : g.Nests tokens) {clauses : List Node} (hs : s.Along tokens)
    (h : whenClauses g s = .ok (clauses, t)) : Follows tokens s.previous.stop t clauses := by
  obtain ⟨found, u, hfound, h⟩ := of_bind h
  rw [sees_bind] at h
  split at h
  · cases h
  · split at h
    · cases h
    · cases h
      exact follows_whens hg hs hfound

/-- What a choice is about follows, if there is anything. -/
theorem placesTrees_caseSubject (hg : g.Nests tokens) : PlacesTrees tokens (caseSubject g) := by
  intro s n t hs h
  rw [caseSubject, seesClass_bind] at h
  split at h
  · cases h
    exact hs.stay.absent
  · exact (hg.sequence hs h).follows hs

/-- A choice between cases is a value. -/
theorem readsValues_caseChoice (hg : g.Nests tokens) : ReadsValues tokens (caseChoice g) := by
  intro s n t hs h
  obtain ⟨hcase, h⟩ := of_expectOr h
  obtain ⟨subject, u, hsubject, h⟩ := of_bind h
  rw [skipSeparators_bind] at h
  obtain ⟨clauses, v, hclauses, h⟩ := of_bind h
  obtain ⟨otherwise, w, hotherwise, h⟩ := of_bind h
  obtain ⟨hend, h⟩ := of_expectOr h
  cases h
  have htake := hs.take (isMark_of_beq hcase rfl)
  have hsubject := htake.trans (placesTrees_caseSubject hg htake.along hsubject)
  have hfront := hsubject.skipSeparators
  have hclauses := hfront.trans (follows_whenClauses hg hfront.along hclauses)
  have hall := hclauses.trans (placesTrees_otherwiseBranch hg hclauses.along hotherwise)
  exact (hall.advance (isMark_of_beq hend rfl)).built rfl
    (hall.along.ended (ne_of_beq hend nofun) (ne_of_beq hend nofun)) rfl nofun nofun

end XhrKeywords.Grammar
