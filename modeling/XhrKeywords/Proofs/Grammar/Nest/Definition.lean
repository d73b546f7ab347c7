import XhrKeywords.Proofs.Grammar.Nest.Block

/-!
# Definitions nest

Methods, classes and modules, with their names and parameters.
-/

namespace XhrKeywords.Grammar

open Syntax hiding Kind
open Token (Kind)

variable {tokens : List Token} {s t : State} {g : Rules} {n : Node}

/-- Up to a state the object of a singleton method is read, if there is one. -/
structure ReadsOwner (tokens : List Token) (lo : Nat) (t : State) (owner : Node) : Prop where
  along : t.Along tokens
  nested : Nested (CallFit tokens) lo t.previous.stop [owner]
  owner : Owner tokens lo t.previous.stop owner

/-- Up to a state the name of a defined method is read. -/
structure ReadsName (tokens : List Token) (lo : Nat) (t : State) (name : Leaf) : Prop where
  along : t.Along tokens
  le : lo ≤ t.previous.stop
  name : MethodName tokens lo t.previous.stop name

/-- A name is read as the object that it stands for, and tokens that make no node are passed over
behind it. -/
theorem readsOwner_singletonOwner {u : State} (hs : s.Along tokens)
    (hname : s.current.kind = .ident ∨ s.current.kind = .const)
    (hdot : s.advance.current.kind.isMark) (h : singletonOwner s.current s = .ok (n, u)) :
    u = s.advance ∧ ReadsOwner tokens s.previous.stop u.advance n := by
  have hatom : s.current.kind.isAtom := by rcases hname with h | h <;> rw [h] <;> rfl
  have hstep := (hs.step (Kind.ne_eof_of_isAtom hatom)).advance hdot
  have hsole := (hs.sole hatom).extend hstep.kept.gap
  have hnone : Nested (CallFit tokens) s.previous.stop s.advance.advance.previous.stop [] :=
    .nil (Nat.le_of_lt (Nat.lt_of_le_of_lt hsole.le.1 hsole.le.2))
  rw [singletonOwner] at h
  split at h
  · rename_i hself
    cases h
    exact ⟨rfl, hstep.along, hnone.enclose (by nofun) _,
      .self hsole (beq_iff_eq.mp hself) (start_upTo ..)⟩
  · split at h
    · cases h
      exact ⟨rfl, hstep.along, .enclose (by nofun) _ (.absent (.leaf _ hnone)),
        .const hsole (Leaf.isAt_iff.mpr rfl) rfl⟩
    · cases h
      exact ⟨rfl, hstep.along, .enclose (by nofun) _ (.leaf _ hnone),
        .lvar hsole (Leaf.isAt_iff.mpr rfl) rfl⟩

/-- The object of a singleton method is read, if there is one. -/
theorem readsOwner_singleton (hs : s.Along tokens) (h : singleton s = .ok (n, t)) :
    ReadsOwner tokens s.previous.stop t n := by
  rw [singleton, current_bind, second_bind] at h
  split at h
  · rename_i hdotted
    simp only [Bool.and_eq_true, Bool.or_eq_true, beq_iff_eq] at hdotted
    obtain ⟨hname, hdot⟩ := hdotted
    have hdot : s.advance.current.kind.isMark := by rw [State.current_advance, hdot]; rfl
    obtain ⟨owner, u, howner, h⟩ := of_bind h
    cases h
    exact (readsOwner_singletonOwner hs hname hdot howner).2
  · cases h
    exact ⟨hs, hs.stay.nested.absent, .none hs.stay.kept.gap⟩

/-- The name of an operator starts with a token that is no literal and no name. -/
theorem readsName_operator (hs : s.Along tokens) (hmark : s.current.kind.isMark)
    (hmove : Follows tokens s.previous.stop t []) (role : Role) (text : String) :
    ReadsName tokens s.previous.stop t { role, text, place := s.current.span.place } :=
  ⟨hmove.along, hmove.nested.le,
    .operator hmove.kept.gap (hs.inOrder.isUnkept hs.mem hmark (Leaf.isAt_iff.mpr rfl))⟩

/-- Behind the next token a setter is opened by the two tokens that follow it. -/
theorem opensSetter_ahead (s : State) :
    opensSetter s.ahead =
      (s.advance.current.kind == .assign && !s.advance.current.spaced &&
        s.advance.second.kind == .lpar) := by
  -- Behind the last token there is only that token again, which is not of two kinds.
  have hsame : ∀ t : Token, (t.kind == .assign && !t.spaced && t.kind == .lpar) = false := by
    intro t
    cases t.kind <;> simp
  rw [State.advance]
  cases s.ahead with
  | nil => exact (hsame s.current).symm
  | cons u others =>
    cases others with
    | nil => exact (hsame u).symm
    | cons v others => rfl

/-- A plain name is read, with the equals sign that belongs to it. -/
theorem readsName_plainName (hs : s.Along tokens) (hatom : s.current.kind.isAtom)
    (h : plainName s = .ok (n, t)) :
    ∃ name, n = .leaf name ∧ ReadsName tokens s.previous.stop t name := by
  rw [plainName, advance_bind, second_bind, seesGlued_bind] at h
  have hstep := hs.step (Kind.ne_eof_of_isAtom hatom)
  have hsole := hs.sole hatom
  obtain ⟨before, hsplit⟩ := hs.ahead
  rw [← opensSetter_ahead] at h
  split at h
  · rename_i hsetter
    cases h
    have hassign : s.advance.current.kind.isMark := by
      rw [opensSetter_ahead] at hsetter
      exact isMark_of_beq (Bool.and_eq_true_iff.mp (Bool.and_eq_true_iff.mp hsetter).1).1 rfl
    have hmove := hstep.advance hassign
    have hsole := hsole.extend hmove.kept.gap
    exact ⟨_, rfl, hmove.along, Nat.le_of_lt (Nat.lt_of_le_of_lt hsole.le.1 hsole.le.2),
      .name hsole hsplit.symm (Leaf.isAt_iff.mpr rfl) (by rw [if_pos hsetter])⟩
  · rename_i hsetter
    cases h
    exact ⟨_, rfl, hstep, Nat.le_of_lt (Nat.lt_of_le_of_lt hsole.le.1 hsole.le.2),
      .name hsole hsplit.symm (Leaf.isAt_iff.mpr rfl) (by rw [if_neg hsetter])⟩

/-- The name of an index method is read. -/
theorem readsName_indexName (hs : s.Along tokens) (hmark : s.current.kind.isMark)
    (h : indexName s = .ok (n, t)) :
    ∃ name, n = .leaf name ∧ ReadsName tokens s.previous.stop t name := by
  rw [indexName, advance_bind] at h
  obtain ⟨hcloser, h⟩ := of_expectOr h
  have hname := (hs.advance hmark).advance (isMark_of_beq hcloser rfl)
  rw [seesGlued_bind] at h
  split at h
  · rename_i hsetter
    cases h
    have hassign := isMark_of_beq (Bool.and_eq_true_iff.mp hsetter).1 rfl
    exact ⟨_, rfl, readsName_operator hs hmark (hname.advance hassign) _ _⟩
  · cases h
    exact ⟨_, rfl, readsName_operator hs hmark hname _ _⟩

/-- The name of a defined method is read. -/
theorem readsName_definedName (hs : s.Along tokens) (h : definedName s = .ok (n, t)) :
    ∃ name, n = .leaf name ∧ ReadsName tokens s.previous.stop t name := by
  rw [definedName, current_bind] at h
  generalize hkind : s.current.kind = kind at h
  split at h
  · exact readsName_plainName hs (hkind ▸ rfl) h
  · exact readsName_plainName hs (hkind ▸ rfl) h
  · exact readsName_indexName hs (hkind ▸ rfl) h
  · split at h
    · rename_i hoperator
      obtain ⟨-, hmark⟩ := solid_of_isOperatorMethod hoperator
      rw [← hkind] at hmark
      cases h
      exact ⟨_, rfl, readsName_operator hs hmark (hs.advance hmark) _ _⟩
    · cases h

/-- The parameters of a method follow. -/
theorem placesTrees_definedParameters (hg : g.Nests tokens) :
    PlacesTrees tokens (definedParameters g) := by
  intro s n t hs h
  rw [definedParameters, current_bind, accept_bind] at h
  split at h
  · rename_i hopener
    rw [if_pos rfl] at h
    obtain ⟨found, u, hfound, h⟩ := of_bind h
    rw [skipNewlines_bind] at h
    obtain ⟨hcloser, h⟩ := of_expectOr h
    cases h
    have hadvance := hs.advance (isMark_of_beq hopener rfl)
    have hfound := hadvance.trans (follows_parameters hg hadvance.along hfound)
    exact (hfound.skipNewlines.advance (isMark_of_beq hcloser rfl)).tree nofun rfl
  · rw [if_neg Bool.false_ne_true, seesAny_bind] at h
    split at h
    · cases h
      exact hs.stay.tree nofun rfl
    · obtain ⟨found, u, hfound, h⟩ := of_bind h
      cases h
      exact (follows_parameters hg hs hfound).tree nofun rfl

/-- The body of a method follows, and a call may end with it. -/
theorem follows_definedBody (hg : g.Nests tokens) (hs : s.Along tokens)
    (h : definedBody g s = .ok (n, t)) :
    Follows tokens s.previous.stop t [n] ∧ t.Ended tokens := by
  rw [definedBody] at h
  obtain ⟨u, hrun, rfl⟩ := of_withBlocked h
  suffices hbody : Follows tokens s.previous.stop u [n] ∧ u.Ended tokens from
    ⟨hbody.1.congr _ _ _, hbody.2.mem, hbody.2.ne_newline, hbody.2.ne_eof⟩
  have hs' := hs.congr 0 s.scope s.outer
  rw [accept_bind] at hrun
  split at hrun
  · rename_i hassign
    rw [if_pos rfl, skipNewlines_bind] at hrun
    obtain ⟨only, v, honly, hrun⟩ := of_bind hrun
    cases hrun
    have hfront := (hs'.advance (isMark_of_beq hassign rfl)).skipNewlines
    have hread := hg.statement hfront.along honly
    exact ⟨(hfront.trans (hread.follows hfront.along)).tree nofun rfl, hread.ended⟩
  · rw [if_neg Bool.false_ne_true] at hrun
    obtain ⟨hbody, hended⟩ := follows_closedBody hg hs' hrun
    exact ⟨hbody, hended⟩

/-- The parameters and the body of a method follow, and a call may end with the body. -/
theorem follows_definedParts (hg : g.Nests tokens) {args inner : Node} (hs : s.Along tokens)
    (h : definedParts g s = .ok ((args, inner), t)) :
    Follows tokens s.previous.stop t [args, inner] ∧ t.Ended tokens := by
  obtain ⟨_, u, hargs, h⟩ := of_bind h
  obtain ⟨_, v, hinner, h⟩ := of_bind h
  cases h
  have hargs := placesTrees_definedParameters hg hs hargs
  obtain ⟨hinner, hended⟩ := follows_definedBody hg hargs.along hinner
  exact ⟨hargs.trans hinner, hended⟩

/-- The definition of a method is a value. -/
theorem readsValues_definition (hg : g.Nests tokens) : ReadsValues tokens (definition g) := by
  intro s n t hs h
  obtain ⟨hdef, h⟩ := of_expectOr h
  obtain ⟨owner, u, howner, h⟩ := of_bind h
  obtain ⟨name, v, hname, h⟩ := of_bind h
  obtain ⟨⟨args, inner⟩, w, hparts, h⟩ := of_bind h
  cases h
  obtain ⟨x, hrun, rfl⟩ := of_inScope hparts
  have htake := hs.take (isMark_of_beq hdef rfl)
  have howner := readsOwner_singleton htake.along howner
  obtain ⟨content, rfl, hcontent⟩ := readsName_definedName howner.along hname
  obtain ⟨hrest, hended⟩ := follows_definedParts hg (hcontent.along.congr _ _ _) hrun
  have hname : Nested (CallFit tokens) u.previous.stop v.previous.stop [.leaf content] :=
    .leaf content (.nil hcontent.le)
  have hchildren := howner.nested.append (hname.append hrest.nested)
  refine (reads_built hrest.along htake.mem (Nat.lt_of_lt_of_le htake.lt hchildren.le)
    (hchildren.lower (Nat.le_of_lt htake.lt)) hended rfl nofun (by nofun) ?_).congr _ _ _
  exact .lower (.method howner.owner hcontent.name hrest.kept (.nil (.refl tokens _)))
    htake.kept.gap

/-- One more constant of a path follows. -/
theorem Follows.pathRound {start : Token} {lo : Nat} {scope : Node} {r : Round Node Node}
    (hscope : Follows tokens lo s [scope]) (h : pathRound start scope s = .ok (r, t)) :
    r.All (fun scope => Follows tokens lo t [scope]) fun scope => Follows tokens lo t [scope] := by
  rw [Grammar.pathRound, accept_bind] at h
  split at h
  · rename_i hkind
    rw [if_pos rfl] at h
    obtain ⟨hconst, h⟩ := of_expectOr h
    cases h
    have hcolons := hscope.advance (isMark_of_beq hkind rfl)
    exact (hcolons.advanceAs (ne_of_beq hconst nofun) _).tree nofun rfl
  · cases h
    exact hscope

/-- The outermost namespace follows, if a path starts there. -/
theorem placesTrees_pathBase (start : Token) : PlacesTrees tokens (pathBase start) := by
  intro s n t hs h
  rw [pathBase, accept_bind] at h
  split at h
  · rename_i hkind
    cases h
    exact (hs.advance (isMark_of_beq hkind rfl)).tree nofun rfl
  · cases h
    exact hs.stay.absent

/-- The name of a class or module follows. -/
theorem placesTrees_constantPath : PlacesTrees tokens (constantPath g) := by
  intro s n t hs h
  rw [constantPath, current_bind] at h
  obtain ⟨base, u, hbase, h⟩ := of_bind h
  obtain ⟨hname, h⟩ := of_expectOr h
  rw [build_bind] at h
  have hbase := placesTrees_pathBase _ hs hbase
  have hfirst : Follows tokens s.previous.stop u.advance
      [built u.advance .const [base, leafOf u.current] (ofToken s.current)] :=
    (hbase.advanceAs (ne_of_beq hname nofun) _).tree (by nofun) rfl
  have hround : ∀ {scope : Node} {v : State} {r w}, Follows tokens s.previous.stop v [scope] →
      pathRound s.current scope v = .ok (r, w) →
      r.All (fun scope => Follows tokens s.previous.stop w [scope])
        fun scope => Follows tokens s.previous.stop w [scope] := Follows.pathRound
  exact of_rounds hround hfirst h

/-- The body of a class or module follows, and a call may end with its `end`. -/
theorem follows_enclosedBody (hg : g.Nests tokens) {construction : String} (hs : s.Along tokens)
    (h : enclosedBody g construction s = .ok (n, t)) :
    Follows tokens s.previous.stop t [n] ∧ t.Ended tokens := by
  rw [enclosedBody] at h
  obtain ⟨u, hrun, rfl⟩ := of_inScope h
  obtain ⟨hbody, hended⟩ := follows_bracketedBody hg (hs.congr _ _ _) hrun
  exact ⟨hbody.congr _ _ _, hended.mem, hended.ne_newline, hended.ne_eof⟩

/-- The class that another one is derived from follows, if it is named. -/
theorem placesTrees_superclass (hg : g.Nests tokens) : PlacesTrees tokens (superclass g) := by
  intro s n t hs h
  rw [superclass, accept_bind] at h
  split at h
  · rename_i hkind
    have hadvance := hs.advance (isMark_of_beq hkind rfl)
    exact hadvance.trans ((hg.choice hadvance.along h).follows hadvance.along)
  · cases h
    exact hs.stay.absent

/-- The definition of a class is a value. -/
theorem readsValues_classDefinition (hg : g.Nests tokens) :
    ReadsValues tokens (classDefinition g) := by
  intro s n t hs h
  obtain ⟨hclass, h⟩ := of_expectOr h
  have htake := hs.take (isMark_of_beq hclass rfl)
  rw [accept_bind] at h
  split at h
  · rename_i hshift
    rw [if_pos rfl] at h
    obtain ⟨target, u, htarget, h⟩ := of_bind h
    obtain ⟨inner, v, hinner, h⟩ := of_bind h
    cases h
    have hfront := htake.advance (isMark_of_beq hshift rfl)
    have htarget := (hg.sequence hfront.along htarget).follows hfront.along
    obtain ⟨hinner, hended⟩ := follows_enclosedBody hg htarget.along hinner
    exact (hfront.trans (htarget.trans hinner)).built rfl hended rfl nofun nofun
  · rw [if_neg Bool.false_ne_true] at h
    obtain ⟨path, u, hpath, h⟩ := of_bind h
    have hpath := placesTrees_constantPath htake.along hpath
    obtain ⟨parent, w, hparent, h⟩ := of_bind h
    have hparent := placesTrees_superclass hg hpath.along hparent
    obtain ⟨inner, x, hinner, h⟩ := of_bind h
    cases h
    obtain ⟨hinner, hended⟩ := follows_enclosedBody hg hparent.along hinner
    exact (htake.trans (hpath.trans (hparent.trans hinner))).built rfl hended rfl nofun nofun

/-- The definition of a module is a value. -/
theorem readsValues_moduleDefinition (hg : g.Nests tokens) :
    ReadsValues tokens (moduleDefinition g) := by
  intro s n t hs h
  obtain ⟨hmodule, h⟩ := of_expectOr h
  obtain ⟨path, u, hpath, h⟩ := of_bind h
  obtain ⟨inner, v, hinner, h⟩ := of_bind h
  cases h
  have htake := hs.take (isMark_of_beq hmodule rfl)
  have hpath := placesTrees_constantPath htake.along hpath
  obtain ⟨hinner, hended⟩ := follows_enclosedBody hg hpath.along hinner
  exact (htake.trans (hpath.trans hinner)).built rfl hended rfl nofun nofun

end XhrKeywords.Grammar
