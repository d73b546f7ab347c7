import XhrKeywords.Proofs.Grammar.Nest.Argument

/-!
# Bodies and parameters nest

Statement lists with their clauses, and parameter lists. A body may end with the line breaks behind
its last statement, so it only follows what is in front of it.
-/

namespace XhrKeywords.Grammar

open Syntax hiding Kind
open Token (Kind)

variable {tokens : List Token} {first : Token} {s t u : State} {g : Rules} {lo : Nat} {n m : Node}

/-- A target lies where the expression does that it is made of, and at most a variable is
declared. -/
theorem Reads.toTarget {v : State} (h : Reads tokens first n u)
    (htarget : toTarget n v = .ok (m, t)) :
    Reads tokens first m u ∧ ∃ scope, t = { v with scope } := by
  unfold Grammar.toTarget at htarget
  split at htarget
  · rename_i span name
    cases htarget
    have hnested : Nested (CallFit tokens) first.start u.previous.stop
        [.tree .lvar span [.leaf { name with role := .token .ident }]] :=
      .tree nofun (.leaf _ (.nil (Nat.le_of_lt h.lt))) (.nil (Nat.le_refl _))
    exact ⟨⟨⟨⟨h.along, hnested, h.kept.of_bareCall⟩, h.mem, h.lt⟩, h.ended,
      by cases span <;> exact h.start, nofun⟩, _, rfl⟩
  · split at htarget
    · cases htarget
      exact ⟨h, _, rfl⟩
    · cases htarget

/-- Elements with commas between them lie one behind the other. -/
theorem begins_elements {element : Parser Node} (helement : ReadsValues tokens element)
    {found : List Node} (hs : s.Along tokens) (h : elements g element s = .ok (found, t)) :
    Begins tokens s.current found t ∧ t.Ended tokens := by
  have hround : ∀ {found : List Node} {v : State} {r w},
      (found = [] ∧ v = s) ∨ Begins tokens s.current found v →
      elementRound element found v = .ok (r, w) →
      r.All (fun found => (found = [] ∧ w = s) ∨ Begins tokens s.current found w)
        fun found => Begins tokens s.current found w ∧ w.Ended tokens := by
    intro found v r w hfound h
    obtain ⟨next, x, hnext, h⟩ := of_bind h
    have hmore : Begins tokens s.current (found ++ [next]) x ∧ x.Ended tokens := by
      rcases hfound with ⟨rfl, rfl⟩ | hbegins
      · have hread := helement hs hnext
        exact ⟨.of_reads hread, hread.ended⟩
      · have hread := helement hbegins.along hnext
        exact ⟨hbegins.snoc (hread.follows hbegins.along), hread.ended⟩
    rcases of_listRound h with ⟨hcomma, rfl, rfl⟩ | ⟨rfl, rfl⟩
    · exact Or.inr (hmore.1.pass ((hmore.1.along.advance (isMark_of_beq hcomma rfl)).skipNewlines))
    · exact hmore
  exact of_rounds hround (Or.inl ⟨rfl, rfl⟩) h

/-- The statements up to a stop lie one behind the other. -/
theorem follows_statements (hg : g.Nests tokens) {stops : List Kind} {found : List Node}
    (hs : s.Along tokens) (h : statements g stops s = .ok (found, t)) :
    Follows tokens s.previous.stop t found := by
  refine follows_loop ?_ hs h
  intro lo found v r w hfound h
  rw [statementRound, skipSeparators_bind, seesAny_bind] at h
  have hfound := hfound.skipSeparators
  split at h
  · cases h
    exact hfound
  · obtain ⟨next, x, hnext, h⟩ := of_bind h
    rw [seesAny_bind] at h
    split at h
    · cases h
      exact hfound.trans ((hg.statement hfound.along hnext).follows hfound.along)
    · cases h

/-- A body follows. -/
theorem placesTrees_body (hg : g.Nests tokens) (stops : List Kind) :
    PlacesTrees tokens (body g stops) := by
  intro s n t hs h
  rw [body, current_bind] at h
  obtain ⟨found, u, hfound, h⟩ := of_bind h
  have hfollows := follows_statements hg hs hfound
  cases found with
  | nil =>
    cases h
    exact hfollows.tree nofun rfl
  | cons first others =>
    cases h
    exact hfollows.tree nofun rfl

/-- A separator is passed over. -/
theorem follows_separator {a : Unit} (hs : s.Along tokens) (h : separator s = .ok (a, t)) :
    Follows tokens s.previous.stop t [] := by
  simp only [separator, seesClass_bind, skipSeparators_bind, accept_bind] at h
  have hskip := hs.stay.skipSeparators
  split at h
  · rename_i hthen
    cases h
    exact hskip.advance (isMark_of_beq hthen rfl)
  · rw [if_neg Bool.false_ne_true] at h
    split at h
    · cases h
      exact hskip
    · cases h

/-- The exception classes of a `rescue` clause follow. -/
theorem follows_rescueClasses (hg : g.Nests tokens) {classes : List Node} (hs : s.Along tokens)
    (h : rescueClasses g s = .ok (classes, t)) : Follows tokens s.previous.stop t classes := by
  rw [rescueClasses, seesAny_bind] at h
  split at h
  · cases h
    exact hs.stay
  · exact (begins_elements (readsValues_splatOr hg.choice) hs h).1.toConsumes.follows hs

/-- The variable of a `rescue` clause follows, if there is one. -/
theorem placesTrees_rescueVariable (hg : g.Nests tokens) :
    PlacesTrees tokens (rescueVariable g) := by
  intro s n t hs h
  rw [rescueVariable, accept_bind] at h
  split at h
  · rename_i harrow
    obtain ⟨value, u, hvalue, h⟩ := of_bind h
    have harrow := hs.advance (isMark_of_beq harrow rfl)
    obtain ⟨hread, scope, rfl⟩ := (hg.operand harrow.along hvalue).toTarget h
    exact (harrow.trans (hread.follows harrow.along)).congr _ _ _
  · cases h
    exact hs.stay.absent

/-- A `rescue` clause follows. -/
theorem follows_rescueClause (hg : g.Nests tokens) (hs : s.Along tokens)
    (hmark : s.current.kind.isMark) (h : rescueClause g s = .ok (n, t)) :
    Follows tokens s.previous.stop t [n] := by
  rw [rescueClause, advance_bind] at h
  obtain ⟨classes, u, hclasses, h⟩ := of_bind h
  obtain ⟨bound, v, hbound, h⟩ := of_bind h
  obtain ⟨_, x, hseparator, h⟩ := of_bind h
  obtain ⟨handler, y, hhandler, h⟩ := of_bind h
  cases h
  have hadvance := hs.advance hmark
  have hclasses := hadvance.trans (follows_rescueClasses hg hadvance.along hclasses)
  have hbound := placesTrees_rescueVariable hg hclasses.along hbound
  have hfront := hbound.pass (follows_separator hbound.along hseparator)
  have hhandler := placesTrees_body hg _ hfront.along hhandler
  exact ((hclasses.tree (by nofun) rfl).trans (hfront.trans hhandler)).tree nofun rfl

/-- The `rescue` clauses lie one behind the other. -/
theorem follows_rescues (hg : g.Nests tokens) {found : List Node} (hs : s.Along tokens)
    (h : g.loop (rescueRound g) [] s = .ok (found, t)) :
    Follows tokens s.previous.stop t found := by
  refine follows_loop ?_ hs h
  intro lo found v r w hfound h
  rw [rescueRound, sees_bind] at h
  split at h
  · rename_i hrescue
    obtain ⟨clause, hclause, rfl⟩ := of_againWith h
    exact hfound.trans (follows_rescueClause hg hfound.along (isMark_of_beq hrescue rfl) hclause)
  · cases h
    exact hfound

/-- A clause of one body follows. -/
theorem follows_bodyClause (hg : g.Nests tokens) {keyword : Kind} {kind : Syntax.Kind}
    {stops : List Kind} {found : List Node} (hs : s.Along tokens)
    (h : bodyClause g keyword kind stops s = .ok (found, t))
    (hkeyword : keyword.isMark) (hkind : kind ≠ .call) (hwords : kind.rewords = false) :
    Follows tokens s.previous.stop t found := by
  rw [bodyClause, sees_bind] at h
  split at h
  · rename_i hsees
    rw [advance_bind] at h
    obtain ⟨inner, u, hinner, h⟩ := of_bind h
    cases h
    have hadvance := hs.advance (isMark_of_beq hsees hkeyword)
    exact (hadvance.trans (placesTrees_body hg stops hadvance.along hinner)).tree hkind hwords
  · cases h
    exact hs.stay

/-- A body with its clauses follows. -/
theorem placesTrees_bodyStatement (hg : g.Nests tokens) : PlacesTrees tokens (bodyStatement g) := by
  intro s n t hs h
  rw [bodyStatement, current_bind] at h
  obtain ⟨main, u, hmain, h⟩ := of_bind h
  have hmain := placesTrees_body hg _ hs hmain
  rw [seesAny_bind] at h
  split at h
  · obtain ⟨rescues, v, hrescues, h⟩ := of_bind h
    obtain ⟨otherwise, w, hotherwise, h⟩ := of_bind h
    obtain ⟨atLast, x, hatLast, h⟩ := of_bind h
    cases h
    have hrescues := follows_rescues hg hmain.along hrescues
    have hotherwise := follows_bodyClause hg hrescues.along hotherwise rfl nofun rfl
    have hatLast := follows_bodyClause hg hotherwise.along hatLast rfl nofun rfl
    exact (((hmain.trans hrescues).trans hotherwise).trans hatLast).tree nofun rfl
  · cases h
    exact hmain

/-- The name behind a mark follows, if there is one. -/
theorem follows_markedName {found : List Node} (hs : s.Along tokens)
    (h : markedName s = .ok (found, t)) : Follows tokens s.previous.stop t found := by
  rw [markedName, sees_bind] at h
  split at h
  · rename_i hname
    cases h
    exact hs.advanceAs (ne_of_beq hname nofun) _
  · cases h
    exact hs.stay

/-- A parameter behind a mark follows. -/
theorem follows_markedParameter {kind : Syntax.Kind} (hs : s.Along tokens)
    (hmark : s.current.kind.isMark) (h : markedParameter kind s = .ok (n, t))
    (hkind : kind ≠ .call) (hwords : kind.rewords = false) :
    Follows tokens s.previous.stop t [n] := by
  rw [markedParameter, advance_bind] at h
  obtain ⟨name, u, hname, h⟩ := of_bind h
  cases h
  have hadvance := hs.advance hmark
  exact (hadvance.trans (follows_markedName hadvance.along hname)).tree hkind hwords

/-- A default value is a value. -/
theorem readsValues_defaultPhrase (hg : g.Nests tokens) (inBlock : Bool) :
    ReadsValues tokens (g.read (defaultPhrase inBlock)) := by
  cases inBlock with
  | false => exact hg.choice
  | true => exact hg.operand

/-- A keyword parameter follows. -/
theorem follows_keywordParameter (hg : g.Nests tokens) {closers : List Kind} {inBlock : Bool}
    (hs : s.Along tokens) (heof : s.current.kind ≠ .eof)
    (h : keywordParameter g closers inBlock s = .ok (n, t)) :
    Follows tokens s.previous.stop t [n] := by
  rw [keywordParameter, advance_bind, seesAny_bind] at h
  have hadvance := hs.advanceAs heof (.token .ident)
  split at h
  · cases h
    exact hadvance.tree nofun rfl
  · obtain ⟨value, u, hvalue, h⟩ := of_bind h
    cases h
    have hvalue := readsValues_defaultPhrase hg inBlock hadvance.along hvalue
    exact (hadvance.trans (hvalue.follows hadvance.along)).tree nofun rfl

/-- A positional parameter follows. -/
theorem follows_positionalParameter (hg : g.Nests tokens) {inBlock : Bool}
    (hs : s.Along tokens) (heof : s.current.kind ≠ .eof)
    (h : positionalParameter g inBlock s = .ok (n, t)) :
    Follows tokens s.previous.stop t [n] := by
  rw [positionalParameter, advance_bind, accept_bind] at h
  have hadvance := hs.advanceAs heof (.token s.current.kind)
  split at h
  · rename_i hassign
    obtain ⟨value, u, hvalue, h⟩ := of_bind h
    cases h
    have hadvance := hadvance.advance (isMark_of_beq hassign rfl)
    have hvalue := readsValues_defaultPhrase hg inBlock hadvance.along hvalue
    exact (hadvance.trans (hvalue.follows hadvance.along)).tree nofun rfl
  · cases h
    exact hadvance.tree nofun rfl

/-- A parameter follows. -/
theorem placesTrees_parameter (hg : g.Nests tokens) (closers : List Kind) (inBlock : Bool) :
    PlacesTrees tokens (parameter g closers inBlock) := by
  intro s n t hs h
  rw [parameter, current_bind] at h
  generalize hkind : s.current.kind = kind at h
  split at h
  · exact follows_markedParameter hs (hkind ▸ rfl) h nofun rfl
  · exact follows_markedParameter hs (hkind ▸ rfl) h nofun rfl
  · exact follows_markedParameter hs (hkind ▸ rfl) h nofun rfl
  · exact follows_keywordParameter hg hs (hkind ▸ nofun) h
  · rw [advance_bind] at h
    have hadvance := hs.advance (hkind ▸ rfl)
    exact hadvance.trans (hg.parameterGroup _ _ hadvance.along h)
  · exact follows_positionalParameter hg hs (hkind ▸ nofun) h
  · cases h

/-- A block-local variable follows. -/
theorem follows_shadowParameter (hs : s.Along tokens) (heof : s.current.kind ≠ .eof)
    (h : shadowParameter s = .ok (n, t)) : Follows tokens s.previous.stop t [n] := by
  rw [shadowParameter, advance_bind, declare_bind] at h
  cases h
  exact ((hs.advanceAs heof _).tree (by nofun) rfl).congr _ _ _

/-- Block-local variables follow. -/
theorem follows_shadowRound {found : List Node} {r : Round (List Node) (List Node)}
    (hfound : Follows tokens lo s found) (h : shadowRound found s = .ok (r, t)) :
    r.All (Follows tokens lo t) (Follows tokens lo t) := by
  rw [shadowRound, sees_bind] at h
  split at h
  · rename_i hname
    obtain ⟨next, u, hnext, h⟩ := of_bind h
    have hnext := follows_shadowParameter hfound.along (ne_of_beq hname nofun) hnext
    exact (hfound.trans hnext).commaRound h
  · cases h
    exact hfound

/-- Declaring a parameter takes no token. -/
theorem Follows.declareParameter {found : List Node} {a : Unit} (h : Follows tokens lo s found)
    (hdeclare : declareParameter n s = .ok (a, t)) : Follows tokens lo t found := by
  rw [Grammar.declareParameter] at hdeclare
  generalize parameterName? n = name? at hdeclare
  cases name? with
  | some name =>
    cases hdeclare
    exact h.congr _ _ _
  | none =>
    cases hdeclare
    exact h

/-- The parameters of a list lie one behind the other. -/
theorem follows_parameters (hg : g.Nests tokens) {closers : List Kind} {inBlock : Bool}
    {found : List Node} (hs : s.Along tokens)
    (h : parameters g closers inBlock s = .ok (found, t)) :
    Follows tokens s.previous.stop t found := by
  refine follows_loop ?_ hs h
  intro lo found v r w hfound h
  rw [parameterRound, seesAny_bind] at h
  split at h
  · cases h
    exact hfound
  · rw [accept_bind] at h
    split at h
    · rename_i hsemi
      obtain ⟨shadowed, hloop, rfl⟩ := of_again h
      exact of_rounds follows_shadowRound (hfound.advance (isMark_of_beq hsemi rfl)) hloop
    · obtain ⟨next, x, hnext, h⟩ := of_bind h
      obtain ⟨_, y, hdeclare, h⟩ := of_bind h
      have hnext := placesTrees_parameter hg closers inBlock hfound.along hnext
      exact ((hfound.trans hnext).declareParameter hdeclare).listRound h

/-- The parameters in parentheses follow. -/
theorem placesTrees_parameterGroup (hg : g.Nests tokens) (opener : Token) (inBlock : Bool) :
    PlacesTrees tokens (parameterGroup g opener inBlock) := by
  intro s n t hs h
  obtain ⟨inner, u, hinner, h⟩ := of_bind h
  obtain ⟨hcloser, h⟩ := of_expectOr h
  cases h
  exact ((follows_parameters hg hs hinner).advance (isMark_of_beq hcloser rfl)).tree nofun rfl

end XhrKeywords.Grammar
