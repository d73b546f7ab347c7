import XhrKeywords.Proofs.Grammar.Nest.Body

/-!
# Blocks and calls nest

A block or a call starts where the expression does that it hangs on. What a call ends with is an
argument, a closing parenthesis or its name: a dot without a name is followed by arguments.
-/

namespace XhrKeywords.Grammar

open Syntax hiding Kind
open Token (Kind)

variable {tokens : List Token} {first : Token} {s t u : State} {g : Rules} {n : Node}

/-- The parameters of a block follow. -/
theorem placesTrees_blockParameters (hg : g.Nests tokens) :
    PlacesTrees tokens (blockParameters g) := by
  intro s n t hs h
  rw [blockParameters, sees_bind] at h
  split at h
  · rename_i hbars
    cases h
    exact (hs.advance (isMark_of_beq hbars rfl)).tree nofun rfl
  · rw [sees_bind] at h
    split at h
    · rename_i hbar
      rw [advance_bind] at h
      obtain ⟨found, u, hfound, h⟩ := of_bind h
      obtain ⟨hcloser, h⟩ := of_expectOr h
      cases h
      have hadvance := hs.advance (isMark_of_beq hbar rfl)
      have hfound := follows_parameters hg hadvance.along hfound
      exact ((hadvance.trans hfound).advance (isMark_of_beq hcloser rfl)).tree nofun rfl
    · cases h
      exact hs.stay.absent

/-- A body with a closing token behind it follows, and a call may end with that token. -/
theorem follows_closed {body : Parser Node} {closer : Kind} {cause : Kind → SyntaxError.Cause}
    (hbody : PlacesTrees tokens body) (hs : s.Along tokens)
    (h : (do
      let inner ← body
      let _ ← expectOr closer cause
      return inner : Parser Node) s = .ok (n, t))
    (hnewline : closer ≠ .newline) (hmark : closer.isMark) :
    Follows tokens s.previous.stop t [n] ∧ t.Ended tokens := by
  obtain ⟨inner, u, hinner, h⟩ := of_bind h
  obtain ⟨hcloser, h⟩ := of_expectOr h
  cases h
  have hinner := hbody hs hinner
  have hmark := isMark_of_beq hcloser hmark
  exact ⟨hinner.advance hmark,
    hinner.along.ended (ne_of_beq hcloser hnewline) (Kind.ne_eof_of_isMark hmark)⟩

/-- A body in braces follows. -/
theorem follows_bracedBody (hg : g.Nests tokens) {construction : String} (hs : s.Along tokens)
    (h : bracedBody g construction s = .ok (n, t)) :
    Follows tokens s.previous.stop t [n] ∧ t.Ended tokens :=
  follows_closed (placesTrees_body hg _) hs h nofun rfl

/-- A body with its `end` follows. -/
theorem follows_closedBody (hg : g.Nests tokens) {construction : String} (hs : s.Along tokens)
    (h : closedBody g construction s = .ok (n, t)) :
    Follows tokens s.previous.stop t [n] ∧ t.Ended tokens :=
  follows_closed (placesTrees_bodyStatement hg) hs h nofun rfl

/-- The same where a `do` inside belongs to the nearest call. -/
theorem follows_bracketedBody (hg : g.Nests tokens) {construction : String} (hs : s.Along tokens)
    (h : bracketedBody g construction s = .ok (n, t)) :
    Follows tokens s.previous.stop t [n] ∧ t.Ended tokens :=
  follows_closed ((placesTrees_bodyStatement hg).withBlocked _) hs h nofun rfl

/-- The parameters and the body of a block follow. -/
theorem follows_blockParts (hg : g.Nests tokens) {braces : Bool} {bound inner : Node}
    (hs : s.Along tokens) (h : blockParts g braces s = .ok ((bound, inner), t)) :
    Follows tokens s.previous.stop t [bound, inner] ∧ t.Ended tokens := by
  obtain ⟨_, u, hbound, h⟩ := of_bind h
  extract_lets rest at h
  obtain ⟨_, v, hinner, h⟩ := of_ite_bind h
  cases h
  have hbound := placesTrees_blockParameters hg hs hbound
  have hinner : Follows tokens u.previous.stop t [inner] ∧ t.Ended tokens := by
    split at hinner
    · exact follows_bracedBody hg hbound.along hinner
    · exact follows_closedBody hg hbound.along hinner
  exact ⟨hbound.trans hinner.1, hinner.2⟩

/-- Behind a call a block is read. -/
theorem Reads.block (hg : g.Nests tokens) {call : Node} (hcall : Reads tokens first call s)
    (hmark : s.current.kind.isMark) (h : block g call s = .ok (n, t)) : Reads tokens first n t := by
  rw [Grammar.block, advance_bind] at h
  obtain ⟨⟨bound, inner⟩, u, hparts, h⟩ := of_bind h
  cases h
  obtain ⟨v, hscope, rfl⟩ := of_withBlocked hparts
  obtain ⟨w, hrun, rfl⟩ := of_inScope hscope
  have hopener := hcall.advance hmark
  obtain ⟨hinner, hended⟩ := follows_blockParts hg (hopener.along.congr _ _ _) hrun
  have hfront := hopener.trans hinner
  exact ((hfront.trans (hinner.along.stay.word _ _)).built rfl hended hcall.start nofun
    (by nofun)).congr _ _ _

/-- The parameters of a lambda follow. -/
theorem placesTrees_lambdaParameters (hg : g.Nests tokens) :
    PlacesTrees tokens (lambdaParameters g) := by
  intro s n t hs h
  rw [lambdaParameters, sees_bind] at h
  split at h
  · rename_i hopener
    rw [advance_bind] at h
    obtain ⟨found, u, hfound, h⟩ := of_bind h
    rw [build_bind] at h
    obtain ⟨hcloser, h⟩ := of_expectOr h
    cases h
    have hadvance := hs.advance (isMark_of_beq hopener rfl)
    have hfound := follows_parameters hg hadvance.along hfound
    exact ((hadvance.trans hfound).advance (isMark_of_beq hcloser rfl)).tree nofun rfl
  · rw [seesAny_bind] at h
    split at h
    · rw [current_bind] at h
      obtain ⟨found, u, hfound, h⟩ := of_bind h
      cases h
      exact (follows_parameters hg hs hfound).tree nofun rfl
    · cases h
      exact hs.stay.absent

/-- The body of a lambda follows, and a call may end with it. -/
theorem follows_lambdaBody (hg : g.Nests tokens) {inner : Node} {braces : Bool}
    (hs : s.Along tokens) (h : lambdaBody g s = .ok ((inner, braces), t)) :
    Follows tokens s.previous.stop t [inner] ∧ t.Ended tokens := by
  rw [lambdaBody, accept_bind] at h
  split at h
  · rename_i hbrace
    obtain ⟨_, u, hinner, h⟩ := of_bind h
    cases h
    have hadvance := hs.advance (isMark_of_beq hbrace rfl)
    obtain ⟨hinner, hended⟩ := follows_bracedBody hg hadvance.along hinner
    exact ⟨hadvance.trans hinner, hended⟩
  · rw [if_neg Bool.false_ne_true] at h
    obtain ⟨hdo, h⟩ := of_expectOr h
    obtain ⟨_, u, hinner, h⟩ := of_bind h
    cases h
    have hadvance := hs.advance (isMark_of_beq hdo rfl)
    obtain ⟨hinner, hended⟩ := follows_closedBody hg hadvance.along hinner
    exact ⟨hadvance.trans hinner, hended⟩

/-- The parameters and the body of a lambda follow, and a call may end with them. -/
theorem follows_lambdaParts (hg : g.Nests tokens) {bound inner : Node} {braces : Bool}
    (hs : s.Along tokens) (h : lambdaParts g s = .ok ((bound, inner, braces), t)) :
    Follows tokens s.previous.stop t [bound, inner] ∧ t.Ended tokens := by
  obtain ⟨_, u, hbound, h⟩ := of_bind h
  obtain ⟨⟨_, _⟩, v, hinner, h⟩ := of_bind h
  cases h
  obtain ⟨w, hbody, rfl⟩ := of_withBlocked hinner
  have hbound := placesTrees_lambdaParameters hg hs hbound
  obtain ⟨hinner, hended⟩ := follows_lambdaBody hg (hbound.along.congr _ _ _) hbody
  exact ⟨(hbound.trans hinner).congr _ _ _, hended.mem, hended.ne_newline, hended.ne_eof⟩

/-- A lambda is a value. -/
theorem readsValues_lambda (hg : g.Nests tokens) : ReadsValues tokens (lambda g) := by
  intro s n t hs h
  obtain ⟨hopener, h⟩ := of_expectOr h
  obtain ⟨⟨bound, inner, braces⟩, u, hparts, h⟩ := of_bind h
  cases h
  obtain ⟨v, hrun, rfl⟩ := of_inScope hparts
  have htake := hs.take (isMark_of_beq hopener rfl)
  obtain ⟨hparts, hended⟩ := follows_lambdaParts hg (htake.along.congr _ _ _) hrun
  have hfront := htake.trans hparts
  exact ((hfront.trans (hparts.along.stay.word _ _)).built rfl hended rfl nofun
    (by nofun)).congr _ _ _

theorem commandStart_bind {β : Type} (f : Bool → Parser β) (s : State) :
    (commandStart >>= f) s = f (s.current.spaced && (s.current.kind.startsArgument ||
      (s.current.kind.startsGluedArgument && s.second.start == s.current.stop
        && s.second.kind != .newline && s.second.kind != .eof))) s := rfl

/-- A call without parentheses is a value, with or without a block behind it. -/
theorem Consumes.command (hg : g.Nests tokens) {kind : Syntax.Kind} {head : List Node}
    {start : Mark} (hhead : Consumes tokens first s head) (hwords : kind.rewords = false)
    (h : command g kind head start s = .ok (n, t)) (hstart : start.start = first.start)
    (hempty : head = [] → kind.mayBeEmpty) (hcall : kind = .call → head.length = 2) :
    Reads tokens first n t := by
  obtain ⟨found, u, hkeeping, h⟩ := of_bind h
  obtain ⟨v, harguments, rfl⟩ := of_withBlocked hkeeping
  obtain ⟨hfound, hended, hfilled⟩ := follows_arguments hg (hhead.along.congr _ _ _) harguments
    rfl
  have hread := (hhead.built_append hfound hwords hended hfilled hstart hempty hcall).congr
    s.blocked v.scope v.outer
  rw [build_bind, doBinds_bind, sees_bind] at h
  split at h
  · rename_i hdo
    exact hread.block hg (isMark_of_beq (Bool.and_eq_true_iff.mp hdo).2 rfl) h
  · cases h
    exact hread

/-- A call is a value. Without arguments it ends with its name, or a parenthesis comes next. -/
theorem Consumes.callArguments (hg : g.Nests tokens) {kind : Syntax.Kind} {head : List Node}
    {start : Mark} (hhead : Consumes tokens first s head) (hwords : kind.rewords = false)
    (hended : s.Ended tokens ∨ s.current.kind = .lpar)
    (h : callArguments g kind head start s = .ok (n, t)) (hstart : start.start = first.start)
    (hempty : head = [] → kind.mayBeEmpty) (hcall : kind = .call → head.length = 2) :
    Reads tokens first n t := by
  rw [Grammar.callArguments, seesGlued_bind] at h
  split at h
  · rename_i hopener
    obtain ⟨found, u, hfound, h⟩ := of_bind h
    cases h
    obtain ⟨hfound, hended, hfilled⟩ := consumes_delimitedArguments hg hhead.along
      (isMark_of_beq (Bool.and_eq_true_iff.mp hopener).1 rfl) hfound rfl
    exact hhead.built_append (hfound.follows hhead.along) hwords hended hfilled hstart hempty hcall
  · rename_i hglued
    rw [commandStart_bind] at h
    split at h
    · exact hhead.command hg hwords h hstart hempty hcall
    · rename_i hcommand
      cases h
      rcases hended with hended | hopener
      · have hnone := hhead.along.stay
        exact List.append_nil head ▸
          hhead.built_append hnone hwords hended nofun hstart hempty hcall
      · -- A parenthesis either touches the name or begins an argument.
        have hspaced : s.current.spaced = true := by simpa [hopener] using hglued
        exact absurd (by simp [hopener, hspaced, Kind.startsArgument]) hcommand

/-- A method name is taken, or a parenthesis stands in its place. -/
theorem follows_methodName (hs : s.Along tokens) (h : methodName s = .ok (n, t)) :
    Follows tokens s.previous.stop t [n] ∧ (t.Ended tokens ∨ t.current.kind = .lpar) := by
  rw [methodName, current_bind] at h
  generalize hkind : s.current.kind = kind at h
  split at h
  · cases h
    exact ⟨hs.stay.word _ _, Or.inr hkind⟩
  · cases h
    exact ⟨hs.advanceAs (hkind ▸ nofun) _, Or.inl (hs.ended (hkind ▸ nofun) (hkind ▸ nofun))⟩
  · cases h
    exact ⟨hs.advanceAs (hkind ▸ nofun) _, Or.inl (hs.ended (hkind ▸ nofun) (hkind ▸ nofun))⟩
  · cases h
  · split at h
    · rename_i hoperator
      obtain ⟨hnewline, hmark⟩ := solid_of_isOperatorMethod hoperator
      have heof := Kind.ne_eof_of_isMark hmark
      cases h
      exact ⟨hs.advanceAs (hkind ▸ heof) _, Or.inl (hs.ended (hkind ▸ hnewline) (hkind ▸ heof))⟩
    · cases h

/-- A method call starts where its receiver does. -/
theorem Reads.methodCall (hg : g.Nests tokens) {receiver : Node} {operator : Kind}
    (hreceiver : Reads tokens first receiver u)
    (hoperator : Follows tokens u.previous.stop s [])
    (h : methodCall g receiver operator s = .ok (n, t)) : Reads tokens first n t := by
  obtain ⟨name, v, hname, h⟩ := of_bind h
  obtain ⟨hname, hended⟩ := follows_methodName hoperator.along hname
  have hhead := (hreceiver.pass hoperator).trans hname
  exact hhead.callArguments hg (by split <;> rfl) hended h hreceiver.start nofun fun _ => rfl

/-- A bare name is a value. -/
theorem reads_identifier (hg : g.Nests tokens) (hs : s.Along tokens)
    (hkind : s.current.kind = .ident) (h : identifier g s = .ok (n, t)) :
    Reads tokens s.current n t := by
  rw [identifier, advance_bind, isLocal_bind, seesGlued_bind] at h
  have htake := hs.takeAs (hkind ▸ nofun) (.token s.current.kind)
  have hended := hs.ended (hkind ▸ nofun) (hkind ▸ nofun)
  split at h
  · cases h
    exact htake.built rfl hended rfl nofun nofun
  · exact htake.absent.callArguments hg rfl (Or.inl hended) h rfl nofun fun _ => rfl

end XhrKeywords.Grammar
