import XhrKeywords.Proofs.Grammar.Reread.Entry

/-!
# Lists of names

Parameters without defaults and block-local variables are names with commas between them. Each round
of such a list takes one name, which becomes a variable, and the list ends in front of the first
token that is no comma.
-/

namespace XhrKeywords

open Token (Kind)
open Syntax hiding Kind
open Word

/-- A name that is read as the name of a variable. -/
def IsVariableName (name : String) : Prop :=
  ∃ first others, IsName name first others ∧ Unicode.isUpper first = false ∧
    Kind.ofKeyword? name = none

/-- Lower-case identifiers that are no keywords are names of variables. -/
theorem isVariableName_of_isLowerName {name : String} (h : isLowerName name = true)
    (hkeyword : Kind.ofKeyword? name = none) : IsVariableName name := by
  obtain ⟨first, others, hname, hfirst⟩ := isName_of_isLowerName h
  exact ⟨first, others, hname, isUpper_of_isLowerStart hfirst, hkeyword⟩

theorem IsVariableName.readable {name : String} {behind : List Char} {spaced : Bool}
    (h : IsVariableName name) (hbehind : endsWord (peek behind 0) = true) :
    Readable ⟨.ident, name, spaced⟩ behind := by
  obtain ⟨first, others, hname, hupper, hkeyword⟩ := h
  refine hname.readable hbehind rfl (fun _ => hupper) ?_
  rw [hkeyword, hupper]
  rfl

/-- A name starts neither with a bar nor with an equals sign. -/
theorem IsVariableName.peek_ne {name : String} (h : IsVariableName name) (behind : List Char) :
    peek (name.toList ++ behind) 0 ≠ '|' ∧ peek (name.toList ++ behind) 0 ≠ '=' := by
  obtain ⟨first, others, hname, -⟩ := h
  have hopens := hname.opens
  rw [hname.toList_eq, List.cons_append, peek_cons_zero]
  constructor <;> rintro rfl
  · exact absurd hopens (by decide)
  · exact absurd hopens (by decide)

namespace Grammar

/-- Names with commas between them. -/
def nameWords (spaced : Bool) : List String → List Word
  | [] => []
  | [name] => [⟨.ident, name, spaced⟩]
  | name :: other :: others => ⟨.ident, name, spaced⟩ :: comma :: nameWords true (other :: others)

theorem toList_joined_nameWords {names : List String} (hne : names ≠ []) :
    (Printer.joined ", " names).toList = writtenAll (nameWords false names) ∧
      writtenAll (nameWords true names) = ' ' :: writtenAll (nameWords false names) := by
  induction names with
  | nil => exact absurd rfl hne
  | cons name others ih =>
    cases others with
    | nil =>
      refine ⟨?_, rfl⟩
      simp [nameWords, Printer.joined, written, spelling]
    | cons other others =>
      obtain ⟨hjoined, htrue⟩ := ih (List.cons_ne_nil _ _)
      refine ⟨?_, rfl⟩
      rw [toList_joined_cons (List.cons_ne_nil _ _), hjoined, nameWords, writtenAll_cons,
        writtenAll_cons, htrue]
      rfl

/-- Names that are followed by the end of a word can be read one after the other. -/
theorem legible_nameWords {names : List String} {behind : List Char}
    (h : ∀ name ∈ names, IsVariableName name) (hbehind : endsWord (peek behind 0) = true)
    (spaced : Bool) : Legible behind (nameWords spaced names) := by
  induction names generalizing spaced with
  | nil => trivial
  | cons name others ih =>
    obtain ⟨hname, hothers⟩ := List.forall_mem_cons.mp h
    cases others with
    | nil => exact ⟨hname.readable hbehind, nofun, trivial⟩
    | cons other others =>
      refine ⟨hname.readable ?_, nofun, readable_mark .comma ',' (by decide), nofun,
        ih hothers true⟩
      exact (stops_cons (c := ',') (by decide)).endsWord

theorem length_le_nameWords (spaced : Bool) (names : List String) :
    names.length ≤ (nameWords spaced names).length := by
  induction names generalizing spaced with
  | nil => exact Nat.le_refl _
  | cons name others ih =>
    cases others with
    | nil => exact Nat.le_refl _
    | cons other others =>
      have hothers := ih true
      simp only [nameWords, List.length_cons] at hothers ⊢
      omega

/-- The kinds of words of names with commas between them. -/
theorem kind_of_mem_nameWords {names : List String} {spaced : Bool} {w : Word}
    (hw : w ∈ nameWords spaced names) : w.kind = .ident ∨ w.kind = .comma := by
  induction names generalizing spaced with
  | nil => cases hw
  | cons name others ih =>
    cases others with
    | nil =>
      rw [nameWords, List.mem_singleton] at hw
      exact Or.inl (congrArg Word.kind hw)
    | cons other others =>
      rw [nameWords, List.mem_cons, List.mem_cons] at hw
      rcases hw with rfl | rfl | hw
      · exact Or.inl rfl
      · exact Or.inr rfl
      · exact ih hw

/-- A round of a list of names takes one name, which becomes a variable in scope, and goes on
behind a comma or ends in front of another token. -/
structure TakesName (round : List Node → Parser (Round (List Node) (List Node)))
    (kind : Syntax.Kind) (closes : Kind) : Prop where
  done : ∀ (s : State) (last t u : Token) (rest : List Token) (found : List Node),
    t.kind = .ident → u.kind = closes →
      ∃ scope node, node.erase = .made kind [.word (.token .ident) t.text] ∧
        round found (s.at last (t :: u :: rest)) =
          .ok (.done (found ++ [node]), { s with scope }.at t (u :: rest))
  again : ∀ (s : State) (last t u v : Token) (rest : List Token) (found : List Node),
    t.kind = .ident → u.kind = .comma → v.kind = .ident →
      ∃ scope node, node.erase = .made kind [.word (.token .ident) t.text] ∧
        round found (s.at last (t :: u :: v :: rest)) =
          .ok (.again (found ++ [node]), { s with scope }.at u (v :: rest))

/-- A parameter or block-local variable, without its place. -/
def parameterOf (kind : Syntax.Kind) (name : String) : Node :=
  .made kind [.word (.token .ident) name]

/-- Names with commas between them are read one after the other. -/
theorem TakesName.rounds_run {round : List Node → Parser (Round (List Node) (List Node))}
    {kind : Syntax.Kind} {closes : Kind} (h : TakesName round kind closes) {names : List String}
    (hne : names ≠ []) {tokens : List Token} {spaced : Bool}
    (htokens : tokens.map Token.word = nameWords spaced names) (s : State) (last : Token)
    {follower : Token} (rest : List Token) (hfollower : follower.kind = closes) (found : List Node)
    {limit : Nat} (hlimit : names.length ≤ limit) :
    ∃ scope nodes, nodes.map Node.erase = names.map (parameterOf kind) ∧
      rounds limit round found (s.at last (tokens ++ follower :: rest)) =
        .ok (found ++ nodes, { s with scope }.at (tokens.getLastD last) (follower :: rest)) := by
  -- A round needs to know whether a comma and a name follow, so two names are looked at at a time.
  induction names generalizing spaced tokens s last found limit with
  | nil => exact absurd rfl hne
  | cons name others ih =>
    obtain ⟨limit, rfl⟩ : ∃ fewer, limit = fewer + 1 :=
      Nat.exists_eq_add_one.mpr (Nat.zero_lt_of_lt hlimit)
    cases others with
    | nil =>
      obtain ⟨t, behind, rfl, ht, hbehind⟩ := List.map_eq_cons_iff.mp htokens
      obtain rfl := List.map_eq_nil_iff.mp hbehind
      obtain ⟨scope, node, hnode, hround⟩ := h.done s last t follower rest found
        (congrArg Word.kind ht) hfollower
      rw [show t.text = name from congrArg Word.text ht] at hnode
      refine ⟨scope, [node], by rw [List.map_singleton, hnode]; rfl, ?_⟩
      rw [rounds]
      exact (bind_of_eq hround).trans rfl
    | cons other others =>
      obtain ⟨t, _, rfl, ht, hmore⟩ := List.map_eq_cons_iff.mp htokens
      obtain ⟨u, more, rfl, hu, hmore⟩ := List.map_eq_cons_iff.mp hmore
      obtain ⟨v, behind, rfl, hv⟩ : ∃ v behind, more = v :: behind ∧ v.kind = .ident := by
        cases others <;>
        · obtain ⟨v, behind, rfl, hv, -⟩ := List.map_eq_cons_iff.mp hmore
          exact ⟨v, behind, rfl, congrArg Word.kind hv⟩
      obtain ⟨scope, node, hnode, hround⟩ := h.again s last t u v (behind ++ follower :: rest) found
        (congrArg Word.kind ht) (congrArg Word.kind hu) hv
      obtain ⟨scope', nodes, hnodes, hrun⟩ := ih (List.cons_ne_nil _ _) hmore { s with scope } u
        (found ++ [node]) (Nat.le_of_succ_le_succ hlimit)
      rw [show t.text = name from congrArg Word.text ht] at hnode
      refine ⟨scope', node :: nodes, ?_, ?_⟩
      · rw [List.map_cons, hnode, hnodes]
        rfl
      · rw [rounds]
        refine (bind_of_eq hround).trans ?_
        refine hrun.trans ?_
        rw [List.append_assoc]
        rfl

theorem erase_built_name (s : State) {kind : Syntax.Kind} {t : Token} (h : t.kind = .ident) :
    (built s kind [leafOf t] (ofToken t)).erase = .made kind [.word (.token .ident) t.text] := by
  rw [erase_built, List.map_singleton, leafOf, erase_leafAs, h]

/-- A block-local variable is one from its place on. -/
theorem shadowParameter_at (s : State) (last t u : Token) (rest : List Token) :
    shadowParameter (s.at last (t :: u :: rest)) =
      .ok (built ({ s with scope := s.scope.insert t.text }.at t (u :: rest)) .shadowArg
        [leafOf t] (ofToken t), { s with scope := s.scope.insert t.text }.at t (u :: rest)) := rfl

theorem takesName_shadowRound : TakesName shadowRound .shadowArg .pipe where
  done := by
    intro s last t u rest found ht hu
    refine ⟨s.scope.insert t.text, _,
      erase_built_name ({ s with scope := s.scope.insert t.text }.at t (u :: rest)) ht, ?_⟩
    rw [shadowRound, bind_of_eq (sees_run ..), current_at, ht, beq_self_eq_true, if_pos rfl,
      bind_of_eq (shadowParameter_at ..), commaRound_run, current_at, hu,
      show (Kind.pipe == .comma) = false from rfl, if_neg Bool.false_ne_true]
  again := by
    intro s last t u v rest found ht hu hv
    refine ⟨s.scope.insert t.text, _,
      erase_built_name ({ s with scope := s.scope.insert t.text }.at t (u :: v :: rest)) ht, ?_⟩
    rw [shadowRound, bind_of_eq (sees_run ..), current_at, ht, beq_self_eq_true, if_pos rfl,
      bind_of_eq (shadowParameter_at ..), commaRound_run, current_at, hu, beq_self_eq_true,
      if_pos rfl, advance_at]

/-- A parameter in front of a comma or a semicolon. -/
theorem parameter_run {g : Rules} {s : State} (last : Token) {t u : Token} {rest : List Token}
    (ht : t.kind = .ident) (hu : u.kind ≠ .assign) :
    parameter g [.pipe] true (s.at last (t :: u :: rest)) =
      .ok (built (s.at t (u :: rest)) .arg [leafOf t] (ofToken t), s.at t (u :: rest)) := by
  rw [parameter, bind_of_eq (current_run _), current_at, ht]
  change positionalParameter g true _ = _
  rw [positionalParameter, bind_of_eq (advance_run ..), current_at, advance_at,
    bind_of_eq (accept_run ..), current_at, beq_eq_false_iff_ne.mpr hu, if_neg Bool.false_ne_true,
    if_neg Bool.false_ne_true, build_run]

/-- A parameter in front of a comma or a semicolon is a variable from its place on. -/
theorem parameterRound_at {g : Rules} (s : State) (last : Token) {t u : Token} (rest : List Token)
    (found : List Node) (ht : t.kind = .ident) (hu : u.kind ≠ .assign) :
    parameterRound g [.pipe] true found (s.at last (t :: u :: rest)) =
      listRound (found ++ [built (s.at t (u :: rest)) .arg [leafOf t] (ofToken t)])
        ({ s with scope := s.scope.insert t.text }.at t (u :: rest)) := by
  have hname : parameterName? (built (s.at t (u :: rest)) .arg [leafOf t] (ofToken t)) =
      some t.text := by
    simp [parameterName?, built, leafOf, leafAs, leafWith, ht]
  have hdeclare : declareParameter (built (s.at t (u :: rest)) .arg [leafOf t] (ofToken t))
      (s.at t (u :: rest)) =
        .ok ((), { s with scope := s.scope.insert t.text }.at t (u :: rest)) := by
    rw [declareParameter, hname]
    rfl
  rw [parameterRound, bind_of_eq (seesAny_run ..), current_at, ht,
    show [Kind.pipe].contains .ident = false from rfl, if_neg Bool.false_ne_true,
    bind_of_eq (accept_run ..), current_at, ht, show (Kind.ident == .semi) = false from rfl,
    if_neg Bool.false_ne_true, if_neg Bool.false_ne_true, bind_of_eq (parameter_run last ht hu),
    bind_of_eq hdeclare]

theorem takesName_parameterRound (g : Rules) :
    TakesName (parameterRound g [.pipe] true) .arg .semi where
  done := by
    intro s last t u rest found ht hu
    refine ⟨s.scope.insert t.text, _, erase_built_name (s.at t (u :: rest)) ht, ?_⟩
    rw [parameterRound_at s last rest found ht (by rw [hu]; decide), listRound_run, current_at, hu,
      show (Kind.semi == .comma) = false from rfl, if_neg Bool.false_ne_true]
  again := by
    intro s last t u v rest found ht hu hv
    refine ⟨s.scope.insert t.text, _, erase_built_name (s.at t (u :: v :: rest)) ht, ?_⟩
    rw [parameterRound_at s last (v :: rest) found ht (by rw [hu]; decide), listRound_run,
      current_at, hu, beq_self_eq_true, if_pos rfl, advance_at,
      skip_run _ (by rw [current_at, hv]; rfl)]

end Grammar

end XhrKeywords
