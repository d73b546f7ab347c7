import XhrKeywords.Proofs.Grammar.Beside.Hash

/-!
# Calls with and without braces

A call with one hash in braces between its parentheses, and the call with the same tokens between
its parentheses and no braces, are one tree but for places. Each of the two programs is taken apart
down to the arguments of its only call, and these are read beside each other.
-/

namespace XhrKeywords.Grammar

open Syntax hiding Kind
open Token (Kind)

variable {k l : Int} {g : Rules} {s t : State} {n : Node}

/-- An expression that an operand starts is its first primary when nothing goes on with it. -/
theorem primary_of_sequence (hlimit : 0 < g.limit) (hstart : startsOperand s.current.kind = true)
    (hrun : sequence g s = .ok (n, t)) :
    ∃ m u, primary g s = .ok (m, u) ∧ (u.Outside → n = m) := by
  cases hoperand : operand g s with
  | error e => cases (sequence_of_error hstart hoperand).symm.trans hrun
  | ok r =>
    obtain ⟨m, u, hprimary, -⟩ := of_bind hoperand
    refine ⟨m, u, hprimary, fun hout => ?_⟩
    have hend : endsExpression u.current.kind = true := by
      have htail := hout u.current List.mem_cons_self
      revert htail
      generalize u.current.kind = kind
      cases kind <;> decide
    have hforward := sequence_of_operand hlimit hstart hend
      (operand_of_primary hlimit (settlesExpression_of_endsExpression hend) hprimary)
    cases hforward.symm.trans hrun
    rfl

/-- That nothing is asked of states is maintained by every production. -/
theorem maintains_true {α : Type} (p : Parser α) : Maintains (fun _ => True) p :=
  fun _ _ _ _ _ => ⟨trivial, trivial⟩

/-- A multiple assignment is no call. -/
theorem upholds_multipleAssignment (g : Rules) :
    Upholds (fun _ => True) (fun n => n.isKind .call = false) (multipleAssignment g) :=
  (maintains_true _).bind fun _ _ => (maintains_true _).bind fun _ _ => (maintains_true _).bind
    fun _ _ => (maintains_true _).bind fun _ _ => (maintains_true _).bind fun _ _ =>
      (maintains_true _).bind fun _ _ => upholds_build fun _ => rfl

/-- A modifier makes no call. -/
theorem upholds_modifierRound (g : Rules) {first n : Node}
    (hn : n = first ∨ n.isKind .call = false) :
    Upholds (fun _ => True) (Round.All (fun m => m = first ∨ m.isKind .call = false)
      (fun m => m = first ∨ m.isKind .call = false)) (modifierRound g n) := by
  have hcondition (kind : Syntax.Kind) (hkind : (some kind == some .call) = false) :
      Upholds (fun _ => True) (fun m => m = first ∨ m.isKind .call = false)
        (conditionModifier g kind n) :=
    (maintains_true _).bind fun _ _ => (maintains_true _).bind fun _ _ =>
      upholds_build fun _ => .inr hkind
  refine (maintains_true _).bind fun t _ => ?_
  split
  · exact (hcondition .ifMod rfl).again
  · exact (hcondition .ifMod rfl).again
  · exact (hcondition .whileMod rfl).again
  · exact (hcondition .whileMod rfl).again
  · exact Upholds.again <| (maintains_true _).bind fun _ _ => (maintains_true _).bind fun _ _ =>
      upholds_build fun _ => .inr rfl
  · exact upholds_pure hn

/-- A statement that is a call is no more than an expression. -/
theorem sequence_of_statement (hcall : n.isKind .call = true)
    (hrun : statement g s = .ok (n, t)) : ∃ u, sequence g s = .ok (n, u) := by
  obtain ⟨first, u, hfirst, hrun⟩ := of_bind hrun
  rw [statementHead, bind_of_eq (seesTargets_eq s)] at hfirst
  have hrounds := upholds_rounds (Q := fun m => m = first ∨ m.isKind .call = false) g.limit
    (fun m hm => upholds_modifierRound g hm) (.inl rfl)
  rcases (hrounds trivial hrun).2 with rfl | hno
  · split at hfirst
    · have hno : n.isKind .call = false := (upholds_multipleAssignment g trivial hfirst).2
      rw [hcall] at hno
      cases hno
    · exact ⟨u, hfirst⟩
  · rw [hcall] at hno
    cases hno

/-- The statements read first stay in front. -/
theorem upholds_statementRound (g : Rules) (stops : List Kind) {first : Node} {found : List Node}
    (hfound : found.head? = some first) :
    Upholds (fun _ => True) (Round.All (fun found : List Node => found.head? = some first)
      (fun found : List Node => found.head? = some first)) (statementRound g stops found) := by
  refine (maintains_true _).bind fun _ _ => (maintains_true _).bind fun _ _ =>
    .ite (upholds_pure hfound) ?_
  refine (maintains_true _).bind fun next _ => (maintains_true _).bind fun _ _ =>
    .ite (upholds_pure ?_) (upholds_fail _)
  rw [Round.all_again, List.head?_append, hfound, Option.some_or]

/-- A list of one statement has read this statement. -/
theorem statement_of_statements (hstart : isSeparator s.current.kind = false)
    (hne : [Kind.eof].contains s.current.kind = false) (hrun : statements g [] s = .ok ([n], t)) :
    ∃ u, g.read .statement s = .ok (n, u) := by
  rw [statements, Rules.loop] at hrun
  cases hlimit : g.limit with
  | zero =>
    rw [hlimit] at hrun
    cases hrun
  | succ fewer =>
    rw [hlimit] at hrun
    obtain ⟨r, u, hround, hrun⟩ := of_bind hrun
    rw [statementRound, skipSeparators_bind, skip_run s hstart, seesAny_bind, hne,
      if_neg Bool.false_ne_true] at hround
    obtain ⟨first, v, hfirst, hround⟩ := of_bind hround
    rw [seesAny_bind] at hround
    split at hround
    · cases hround
      have hrounds := upholds_rounds (Q := fun found : List Node => found.head? = some first) fewer
        (fun found hfound => upholds_statementRound g [] hfound) (x := [first]) rfl
      obtain rfl : n = first := Option.some.inj (hrounds trivial hrun).2
      exact ⟨_, hfirst⟩
    · cases hround

/-- The only statement of a program. -/
theorem statement_of_parseTokens {first : Token} {others : List Token} {span : Option Span}
    (hstart : isSeparator first.kind = false) (hne : [Kind.eof].contains first.kind = false)
    (hparse : parseTokens (first :: others) = .ok (.tree .program span [n])) :
    ∃ t, statement (rulesAt (others.length + 1)) (.start first others) = .ok (n, t) := by
  obtain ⟨⟨tree, t⟩, hrun, htree⟩ := bind_eq_ok_iff.mp hparse
  rw [StateT.run, program, current_bind] at hrun
  obtain ⟨found, u, hfound, hrun⟩ := of_bind hrun
  obtain ⟨-, ⟨⟩⟩ := of_expectOr hrun
  cases htree
  exact statement_of_statements hstart hne hfound

/-- A name that parentheses touch is a call of what stands between them. -/
theorem call_of_primary (hkind : s.current.kind = .ident ∨ s.current.kind = .const)
    (hscope : s.scope = []) (hopener : s.advance.current.kind = .lpar)
    (hglued : s.advance.current.spaced = false) (hrun : primary g s = .ok (n, t)) :
    ∃ found, delimitedArguments g .rpar s.advance = .ok (found, t) ∧
      n = built t .call (.absent :: nameLeaf s.current :: found) (ofToken s.current) := by
  have hsees : (s.advance.current.kind == .lpar && !s.advance.current.spaced) = true := by
    rw [hopener, hglued]
    rfl
  rw [primary, current_bind] at hrun
  rcases hkind with hkind | hkind
  · rw [hkind] at hrun
    change identifier g s = _ at hrun
    have hunknown : s.advance.scope.contains s.current.text = false := by
      have hadvance : s.advance.scope = s.scope := by
        rw [State.advance]
        cases s.ahead <;> rfl
      rw [hadvance, hscope]
      rfl
    rw [identifier, advance_bind, isLocal_bind, hunknown, seesGlued_bind, Bool.false_and,
      if_neg Bool.false_ne_true, callArguments, seesGlued_bind, hsees, if_pos rfl] at hrun
    obtain ⟨found, u, hfound, ⟨⟩⟩ := of_bind hrun
    refine ⟨found, hfound, ?_⟩
    rw [nameLeaf, ← hkind]
    rfl
  · rw [hkind] at hrun
    change constant g s = _ at hrun
    rw [constant, advance_bind, seesGlued_bind, hsees, if_pos rfl] at hrun
    obtain ⟨found, u, hfound, ⟨⟩⟩ := of_bind hrun
    exact ⟨found, hfound, rfl⟩

/-- A hash takes a round at least. -/
theorem limit_pos_of_hash {r : Node × State} (hrun : hash g s = .ok r) : 0 < g.limit := by
  rw [hash, bracketed] at hrun
  obtain ⟨u, hbody, -⟩ := of_withBlocked hrun
  obtain ⟨-, hbody⟩ := of_expectOr hbody
  obtain ⟨_, _, hpairs, -⟩ := of_bind hbody
  rw [Rules.loop] at hpairs
  cases hlimit : g.limit with
  | zero =>
    rw [hlimit] at hpairs
    cases hpairs
  | succ fewer => exact Nat.succ_pos fewer

/-- What can follow behind the brace goes on neither with a value nor with a list. -/
theorem State.Outside.closes (h : s.Outside) : ¬(s.current.kind == .assoc) = true ∧
    (s.current.kind == .newline) = false ∧ ¬(s.current.kind == .comma) = true := by
  have htail := h s.current List.mem_cons_self
  revert htail
  generalize s.current.kind = kind
  cases kind <;> decide

/-- An argument that starts with a brace is the hash in braces when nothing goes on with it. -/
theorem hash_of_argument (depth : Nat) {c more : Collected} (hbrace : s.current.kind = .lbrace)
    (hrun : argument (rulesAt (depth + 1)) (some .rpar) c s = .ok (more, t)) :
    ∃ h u, hash (rulesAt depth) s = .ok (h, u) ∧ (u.Outside → more = c.add h ∧ t = u) := by
  rw [argument, current_bind, hbrace] at hrun
  obtain ⟨value, v, hvalue, hrun⟩ := of_bind hrun
  have hnegation : negation (rulesAt depth) s = .ok (value, v) := hvalue
  rw [negation, sees_bind, hbrace, if_neg (by decide)] at hnegation
  obtain ⟨h, u, hprimary, hsettled⟩ := primary_of_assignment (by rw [hbrace]; rfl) hnegation
  rw [primary, current_bind, hbrace] at hprimary
  refine ⟨h, u, hprimary, fun hout => ?_⟩
  obtain ⟨rfl, rfl⟩ := hsettled (limit_pos_of_hash hprimary) hout.settles
  rw [accept_bind, if_neg hout.closes.1] at hrun
  cases hrun
  exact ⟨rfl, rfl⟩

/-- When nothing but a parenthesis follows a hash in braces, it is the only argument. -/
theorem hash_of_delimitedArguments (depth : Nat) {found : List Node}
    (hbrace : s.advance.current.kind = .lbrace)
    (hrun : delimitedArguments (rulesAt (depth + 1)) .rpar s = .ok (found, t)) :
    ∃ h u, hash (rulesAt depth) { s.advance with blocked := 0 } = .ok (h, u) ∧
      (u.Outside → found = [h] ∧ t.Outside) := by
  rw [delimitedArguments, advance_bind, bracketed] at hrun
  obtain ⟨_, hbody, rfl⟩ := of_withBlocked hrun
  obtain ⟨c, w, hcollected, hbody⟩ := of_bind hbody
  obtain ⟨-, ⟨⟩⟩ := of_expectOr hbody
  obtain ⟨r, v, hround, hcollected⟩ := of_bind hcollected
  have hkind : ({ s.advance with blocked := 0 } : State).current.kind = .lbrace := hbrace
  rw [argumentRound_within, skipNewlines_bind, skip_run _ (by rw [hkind]; rfl), sees_bind, hkind,
    if_neg (by decide)] at hround
  obtain ⟨more, u, hargument, hround⟩ := of_bind hround
  obtain ⟨h, u, hhash, honly⟩ := hash_of_argument depth hkind hargument
  refine ⟨h, u, hhash, fun hout => ?_⟩
  obtain ⟨rfl, rfl⟩ := honly hout
  obtain ⟨-, hnewline, hcomma⟩ := hout.closes
  rw [skipNewlines_bind, skip_run _ hnewline, listRound, accept_bind, if_neg hcomma] at hround
  cases hround
  cases hcollected
  exact ⟨rfl, hout.advance⟩

/-- The tokens around what stands between the parentheses of a call that is the whole source: a
name, a parenthesis that touches it, a parenthesis that closes it and the end of the source. -/
structure Encloses (name opener closer stop : Token) : Prop where
  named : name.kind = .ident ∨ name.kind = .const
  opens : opener.kind = .lpar
  glued : opener.spaced = false
  closes : closer.kind = .rpar
  ends : stop.kind = .eof

/-- A program that is one call of a name which parentheses touch. -/
theorem call_of_parseTokens {name opener : Token} {others : List Token} {children : List Node}
    (hname : name.kind = .ident ∨ name.kind = .const) (hopener : opener.kind = .lpar)
    (hglued : opener.spaced = false)
    (hparse : (parseTokens (name :: opener :: others)).map Node.erase =
      .ok (.made .program [.made .call children])) :
    ∃ found t, delimitedArguments (rulesAt (others.length + 2)) .rpar
        (State.start name (opener :: others)).advance = .ok (found, t) ∧
      (t.Outside → children = .absent :: (nameLeaf name).erase :: found.map Node.erase) := by
  have hclass : isSeparator name.kind = false ∧ [Kind.eof].contains name.kind = false ∧
      startsOperand name.kind = true := by
    rcases hname with h | h <;> rw [h] <;> decide
  cases htree : parseTokens (name :: opener :: others) with
  | error e =>
    rw [htree] at hparse
    cases hparse
  | ok tree =>
    rw [htree] at hparse
    obtain ⟨span, statements, rfl, hstatements⟩ :=
      Node.erase_eq_made_iff.mp (Except.ok.inj hparse)
    obtain ⟨n, rfl, hn⟩ := List.map_eq_singleton_iff.mp hstatements
    obtain ⟨place, nodes, rfl, hnodes⟩ := Node.erase_eq_made_iff.mp hn
    obtain ⟨t, hstatement⟩ := statement_of_parseTokens hclass.1 hclass.2.1 htree
    obtain ⟨u, hsequence⟩ := sequence_of_statement rfl hstatement
    obtain ⟨n, v, hprimary, honly⟩ := primary_of_sequence (Nat.succ_pos _) hclass.2.2 hsequence
    obtain ⟨found, hfound, rfl⟩ := call_of_primary
      (s := .start name (opener :: others)) hname rfl hopener hglued hprimary
    refine ⟨found, v, hfound, fun hout => ?_⟩
    cases honly hout
    rw [← hnodes, List.map_cons, List.map_cons]
    rfl

/-- Tokens between braces and the displaced ones between parentheses. -/
theorem closed_of_displaced {inner inner' : List Token}
    (hinner : List.Forall₂ (Token.Displaced k l) inner inner')
    {brace closer stop closer' stop' : Token}
    (hbrace : brace.kind = .rbrace) (hcloser : closer.kind = .rpar) (hstop : stop.kind = .eof)
    (hcloser' : closer'.kind = .rpar) (hstop' : stop'.kind = .eof) :
    Closed k l (inner ++ [brace, closer, stop]) (inner' ++ [closer', stop']) := by
  induction hinner with
  | nil =>
    refine .closer hbrace hcloser' (List.cons_ne_nil _ _) ?_ ?_
    · rw [List.forall_mem_cons, List.forall_mem_singleton, hcloser, hstop]
      exact ⟨rfl, rfl⟩
    · rw [List.forall_mem_singleton, hstop']
      rfl
  | cons hdisplaced _ ih => exact .token hdisplaced ih

/-- One token further in, states whose tokens ahead are such are beside each other. -/
theorem beside_advance {s s' : State} (h : Closed k l s.ahead s'.ahead)
    (hblocked : s'.blocked = s.blocked) (hscope : s'.scope = s.scope)
    (houter : s'.outer = s.outer) : s.advance.Beside k l s'.advance := by
  obtain ⟨current, ahead, previous, blocked, scope, outer⟩ := s
  obtain ⟨current', ahead', previous', blocked', scope', outer'⟩ := s'
  obtain ⟨next, others, rfl⟩ := List.exists_cons_of_ne_nil h.ne_nil.1
  obtain ⟨next', others', rfl⟩ := List.exists_cons_of_ne_nil h.ne_nil.2
  exact ⟨h, hblocked, hscope, houter⟩

/-- Where a call of one non-empty hash in braces and the call of the same tokens without the braces
can both be read, they are the same tree but for places: what the second call is given is one hash
of the same pairs in the same order. -/
theorem parseTokens_braces {name opener brace endBrace closer stop : Token}
    {name' opener' closer' stop' : Token} {inner inner' : List Token}
    {called called' pair : Node} {pairs arguments : List Node}
    (h : Encloses name opener closer stop) (h' : Encloses name' opener' closer' stop')
    (hname : name'.text = name.text) (hbrace : brace.kind = .lbrace)
    (hendBrace : endBrace.kind = .rbrace)
    (hinner : List.Forall₂ (Token.Displaced k l) inner inner')
    (hparse :
      (parseTokens (name :: opener :: brace :: (inner ++ [endBrace, closer, stop]))).map
        Node.erase =
        .ok (.made .program [.made .call [.absent, called, .made .hash (pair :: pairs)]]))
    (hparse' : (parseTokens (name' :: opener' :: (inner' ++ [closer', stop']))).map Node.erase =
      .ok (.made .program [.made .call (.absent :: called' :: arguments)])) :
    (parseTokens (name' :: opener' :: (inner' ++ [closer', stop']))).map Node.erase =
      (parseTokens (name :: opener :: brace :: (inner ++ [endBrace, closer, stop]))).map
        Node.erase := by
  obtain ⟨found, t, hfound, hcall⟩ := call_of_parseTokens h.named h.opens h.glued hparse
  obtain ⟨found', t', hfound', hcall'⟩ := call_of_parseTokens h'.named h'.opens h'.glued hparse'
  obtain ⟨n, u, hhash, honly⟩ := hash_of_delimitedArguments
    (s := (State.start name (opener :: brace :: (inner ++ [endBrace, closer, stop]))).advance)
    _ hbrace hfound
  -- From here on both sources are read side by side: behind the brace, and behind the parenthesis.
  have hclosed := closed_of_displaced hinner hendBrace h.closes h.ends h'.closes h'.ends
  obtain ⟨hout, hout', hashSpan, children, rfl, halike⟩ :=
    hash_beside _ _ (by exact beside_advance hclosed rfl rfl rfl) hhash hfound'
  obtain ⟨rfl, ht⟩ := honly hout
  have hcalled : (nameLeaf name').erase = (nameLeaf name).erase := by
    rw [nameLeaf, nameLeaf, erase_leafAs, erase_leafAs, hname]
  have hne : children ≠ [] := by
    rintro rfl
    rw [List.map_singleton, Node.erase_tree] at hcall
    cases hcall ht
  have harguments : [Node.tree .hash hashSpan children].map Node.erase = found'.map Node.erase :=
    halike hne
  rw [hparse, hparse', hcall ht, hcall' hout', harguments, hcalled]

/-- A token on the first line. -/
def tokenAt (kind : Kind) (text : String) (start length : Nat) (spaced : Bool) : Token :=
  ⟨kind, text, 1, start + 1, start, spaced, 1, start + length + 1, start + length⟩

/-- The tokens of `a: 1, b => not c` from a place on the first line on. -/
def mixedPairs (start : Nat) : List Token :=
  [tokenAt .label "a" start 2 false, tokenAt .int "1" (start + 3) 1 true,
    tokenAt .comma "," (start + 4) 1 false, tokenAt .ident "b" (start + 6) 1 true,
    tokenAt .assoc "=>" (start + 8) 2 true, tokenAt .kwNot "not" (start + 11) 3 true,
    tokenAt .ident "c" (start + 15) 1 true]

/-- The tokens of `f({a: 1, b => not c})`. -/
def bracedCall : List Token :=
  tokenAt .ident "f" 0 1 false :: tokenAt .lpar "(" 1 1 false ::
    tokenAt .lbrace "\x7b" 2 1 false :: (mixedPairs 3 ++
      [tokenAt .rbrace "\x7d" 19 1 false, tokenAt .rpar ")" 20 1 false, tokenAt .eof "" 21 0 false])

/-- The tokens of `f(a: 1, b => not c)`. -/
def plainCall : List Token :=
  tokenAt .ident "f" 0 1 false :: tokenAt .lpar "(" 1 1 false :: (mixedPairs 2 ++
    [tokenAt .rpar ")" 18 1 false, tokenAt .eof "" 19 0 false])

/-- The call of `f` with these pairs in one hash. -/
def mixedCall : Node :=
  .made .program [.made .call [.absent, .word (.token .ident) "f", .made .hash
    [.made .pair [.symbol "a", .made .int [.word (.token .int) "1"]],
      .made .pair [.made .call [.absent, .word (.token .ident) "b"],
        .made .unop [.word .operator "not", .made .call [.absent, .word (.token .ident) "c"]]]]]]

theorem parseTokens_braces_mixed :
    (parseTokens bracedCall).map Node.erase = .ok mixedCall ∧
      (parseTokens plainCall).map Node.erase = (parseTokens bracedCall).map Node.erase := by
  have hbraced : (parseTokens bracedCall).map Node.erase = .ok mixedCall := by decide +kernel
  have hplain : (parseTokens plainCall).map Node.erase = .ok mixedCall := by decide +kernel
  have hdisplaced : List.Forall₂ (Token.Displaced (-1) 0) (mixedPairs 3) (mixedPairs 2) := by
    repeat' constructor
  exact ⟨hbraced, parseTokens_braces ⟨.inl rfl, rfl, rfl, rfl, rfl⟩ ⟨.inl rfl, rfl, rfl, rfl, rfl⟩
    rfl rfl rfl hdisplaced hbraced hplain⟩

end XhrKeywords.Grammar
