import XhrKeywords.Proofs.Grammar.Reread.Entry

/-!
# Values and pairs read back

An expression is read back from its words as an operand, which goes on with the trailers that
follow. As an entry of a list it stands alone, or behind the label of a pair.
-/

namespace XhrKeywords.Grammar

open Syntax hiding Kind
open Token (Kind)
open Word

/-- Tokens behind an operand: the end of an expression, or a dot. -/
def follows (kind : Kind) : Bool := endsExpression kind || kind == .dot

/-- An expression that prints as certain words and is read back from them. The trailers among the
words take up some rounds, fewer than there are words. -/
structure Rereads (n : Node) (w : Wording) : Prop where
  starts : startsOperand w.kind = true
  brace : n.isKind .hash = false → w.kind ≠ .lbrace
  prints : PrintsAs n w
  legible : IsLegible w
  reads : ∀ {depth : Nat} {s : State} (last : Token) {follower : Token} {tokens : List Token}
    (rest : List Token) {spaced : Bool}, w.length < depth → s.scope = [] →
    tokens.map Token.word = w.words spaced → follows follower.kind = true →
    ∃ m k, m.erase = n.erase ∧ k < w.length ∧
      operand (rulesAt depth) (s.at last (tokens ++ follower :: rest)) =
        rounds (depth - k) (trailerRound (rulesAt depth)) m
          (s.at (tokens.getLastD last) (follower :: rest))

section Expressions

variable {n : Node} {w : Wording} {depth : Nat} {s : State} (last : Token) {follower : Token}
  {tokens : List Token} (rest : List Token) {spaced : Bool}

/-- The first token is that of the first word. -/
theorem kind_current (h : tokens.map Token.word = w.words spaced) :
    (s.at last (tokens ++ follower :: rest)).current.kind = w.kind := by
  obtain ⟨t, others, rfl, ht, -⟩ := List.map_eq_cons_iff.mp h
  exact congrArg Word.kind ht

/-- At the end of an expression the operand is complete. -/
theorem Rereads.operand_run (h : Rereads n w) (hdepth : w.length < depth) (hscope : s.scope = [])
    (htokens : tokens.map Token.word = w.words spaced)
    (hend : endsExpression follower.kind = true) :
    ∃ m, m.erase = n.erase ∧ operand (rulesAt depth) (s.at last (tokens ++ follower :: rest)) =
      .ok (m, s.at (tokens.getLastD last) (follower :: rest)) := by
  obtain ⟨m, k, hm, hk, hread⟩ := h.reads last rest hdepth hscope htokens
    (by rw [follows, hend, Bool.true_or])
  obtain ⟨fewer, hfewer⟩ : ∃ fewer, depth - k = fewer + 1 := ⟨depth - k - 1, by omega⟩
  have hdone : trailerRound (rulesAt depth) m (s.at (tokens.getLastD last) (follower :: rest)) =
      .ok (.done m, s.at (tokens.getLastD last) (follower :: rest)) :=
    trailerRound_run (settlesExpression_of_endsExpression hend)
  refine ⟨m, hm, ?_⟩
  rw [hread, hfewer, rounds, bind_of_eq hdone]
  rfl

/-- A phrase one level further in is read as an assignment or a negation. -/
theorem Rereads.read_run (h : Rereads n w) (phrase : Phrase)
    (hphrase : phrase = .assignment ∨ phrase = .negation) (hdepth : w.length < depth)
    (hscope : s.scope = []) (htokens : tokens.map Token.word = w.words spaced)
    (hend : endsExpression follower.kind = true) :
    ∃ m, m.erase = n.erase ∧
      (rulesAt (depth + 1)).read phrase (s.at last (tokens ++ follower :: rest)) =
        .ok (m, s.at (tokens.getLastD last) (follower :: rest)) := by
  obtain ⟨m, hm, hoperand⟩ := h.operand_run last rest hdepth hscope htokens hend
  have hlimit : 0 < (rulesAt depth).limit := Nat.lt_of_le_of_lt (Nat.zero_le _) hdepth
  have hstart : startsOperand (s.at last (tokens ++ follower :: rest)).current.kind = true := by
    rw [kind_current _ _ htokens]
    exact h.starts
  refine ⟨m, hm, ?_⟩
  rcases hphrase with rfl | rfl
  · exact assignment_of_operand hlimit hstart hend hoperand
  · exact negation_of_operand hlimit hstart hend hoperand

end Expressions

/-- A value as an entry of a list. -/
def Entry.value (n : Node) (w : Wording) : Entry := ⟨false, n, w⟩

/-- A value with its key, without braces, as an entry of a list. -/
def Entry.pair (key : String) (n : Node) (w : Wording) : Entry :=
  ⟨true, Migration.keyword key n, ⟨.label, key, w.words true⟩⟩

/-- An entry is taken up as an argument or as one more pair. -/
def Entry.push (c : Collected) (e : Entry) (m : Node) : Collected :=
  if e.isPair then c.addPair m else c.add m

/-- A closer that ends an expression. -/
def Closes (closer : Option Kind) : Prop :=
  ∀ kind, closer = some kind → endsExpression kind = true

/-- No entry starts with a closer. -/
theorem seesCloser_run {closer : Option Kind} (hcloser : Closes closer) {s : State}
    (h : startsEntry s.current.kind = true) : seesCloser closer s = .ok (false, s) := by
  cases closer with
  | none => rfl
  | some kind =>
    have hend := hcloser kind rfl
    have hne : (s.current.kind == kind) = false := by
      rw [beq_eq_false_iff_ne]
      rintro rfl
      revert h hend
      generalize s.current.kind = kind
      cases kind <;> decide
    rw [seesCloser, sees_run, hne]

/-- An entry that is read as an argument. -/
def ReadsArgument (depth : Nat) (e : Entry) : Prop :=
  ∀ {closer : Option Kind} {c : Collected} {s : State} (last : Token) {follower : Token}
    {tokens : List Token} (rest : List Token) {spaced : Bool}, Closes closer → s.scope = [] →
    tokens.map Token.word = e.wording.words spaced → endsExpression follower.kind = true →
    ∃ m, m.erase = e.node.erase ∧
      argument (rulesAt (depth + 1)) closer c (s.at last (tokens ++ follower :: rest)) =
        .ok (e.push c m, s.at (tokens.getLastD last) (follower :: rest))

/-- What starts an operand is an argument of its own or the key in front of an arrow. -/
theorem argument_of_operand {g : Rules} {closer : Option Kind} {c : Collected} {s t : State}
    {n : Node} (hstart : startsOperand s.current.kind = true)
    (hend : endsExpression t.current.kind = true)
    (h : g.read (if closer.isSome then .negation else .assignment) s = .ok (n, t)) :
    argument g closer c s = .ok (c.add n, t) := by
  have hassoc : (t.current.kind == .assoc) = false := by
    revert hend
    generalize t.current.kind = kind
    cases kind <;> decide
  have hvalue : argument g closer c s = valueOrPair g closer c s := by
    rw [argument, bind_of_eq (current_run s)]
    revert hstart
    generalize s.current.kind = kind
    cases kind <;> intro hstart <;> first | rfl | cases hstart
  rw [hvalue, valueOrPair, bind_of_eq h, bind_of_eq (accept_run ..), hassoc,
    if_neg Bool.false_ne_true, if_neg Bool.false_ne_true, pure_run]

/-- A value is read as an argument. -/
theorem Rereads.readsArgument {n : Node} {w : Wording} {depth : Nat} (h : Rereads n w)
    (hdepth : w.length < depth) : ReadsArgument depth (.value n w) := by
  intro closer c s last follower tokens rest spaced hcloser hscope htokens hend
  obtain ⟨m, hm, hread⟩ := h.read_run last rest
    (if closer.isSome then .negation else .assignment) (by cases closer <;> simp) hdepth hscope
    htokens hend
  have hstart : startsOperand (s.at last (tokens ++ follower :: rest)).current.kind = true := by
    rw [kind_current _ _ htokens]
    exact h.starts
  exact ⟨m, hm, argument_of_operand hstart hend hread⟩

theorem labelPair_of_value {g : Rules} {closer : Option Kind} {s t : State} {m : Node}
    (hkind : s.current.kind = .label) (hvalue : s.advance.current.kind.stopsLabelValue = false)
    (hcloser : seesCloser closer s.advance = .ok (false, s.advance))
    (hread : g.read .assignment s.advance = .ok (m, t)) :
    labelPair g closer s =
      .ok (built t .pair
        [built s.advance .sym [leafAs (.token .ident) s.current] (ofToken s.current), m]
        (ofToken s.current), t) := by
  have hlabel : labelValue g closer s.current s.advance = .ok (m, t) := by
    rw [labelValue, bind_of_eq (seesClass_run ..), hvalue, bind_of_eq hcloser, Bool.or_self,
      if_neg Bool.false_ne_true, hread]
  rw [labelPair, bind_of_eq (advance_run ..), labelKey, bind_of_eq (build_run ..),
    bind_of_eq hlabel, hkind]
  rfl

/-- A pair is read behind its label. -/
theorem Rereads.labelPair_run {key : String} {n : Node} {w : Wording} {depth : Nat}
    (h : Rereads n w) (last : Token) (rest : List Token) (hdepth : w.length < depth)
    {closer : Option Kind} (hcloser : Closes closer) {s : State} (hscope : s.scope = [])
    {follower : Token} {tokens : List Token} {spaced : Bool}
    (htokens : tokens.map Token.word = (Entry.pair key n w).wording.words spaced)
    (hend : endsExpression follower.kind = true) :
    ∃ m, m.erase = (Migration.keyword key n).erase ∧
      labelPair (rulesAt (depth + 1)) closer (s.at last (tokens ++ follower :: rest)) =
        .ok (m, s.at (tokens.getLastD last) (follower :: rest)) := by
  obtain ⟨label, behind, rfl, hlabel, hbehind⟩ := List.map_eq_cons_iff.mp htokens
  obtain ⟨first, others, rfl, hfirst, -⟩ := List.map_eq_cons_iff.mp hbehind
  obtain ⟨m, hm, hread⟩ := h.read_run label rest .assignment (Or.inl rfl) hdepth hscope hbehind hend
  have hkind : label.kind = .label := congrArg Word.kind hlabel
  have htext : label.text = key := congrArg Word.text hlabel
  have hstart : startsOperand first.kind = true := by
    rw [show first.kind = w.kind from congrArg Word.kind hfirst]
    exact h.starts
  have hvalue : first.kind.stopsLabelValue = false := by
    revert hstart
    generalize first.kind = kind
    cases kind <;> decide
  have hsees : seesCloser closer (s.at label (first :: (others ++ follower :: rest))) =
      .ok (false, s.at label (first :: (others ++ follower :: rest))) :=
    seesCloser_run hcloser (by rw [current_at, startsEntry, hstart, Bool.true_or])
  refine ⟨_, ?_,
    labelPair_of_value (s := s.at last (label :: first :: (others ++ follower :: rest)))
      hkind hvalue hsees hread⟩
  simp [built, leafAs, leafWith, hm, htext, Migration.keyword, Node.symbol]

/-- A pair is read as an argument. -/
theorem Rereads.readsArgument_pair {key : String} {n : Node} {w : Wording} {depth : Nat}
    (h : Rereads n w) (hdepth : w.length < depth) : ReadsArgument depth (.pair key n w) := by
  intro closer c s last follower tokens rest spaced hcloser hscope htokens hend
  obtain ⟨m, hm, hpair⟩ := h.labelPair_run last rest hdepth hcloser hscope
    htokens hend
  have hkind : (s.at last (tokens ++ follower :: rest)).current.kind = .label :=
    kind_current _ _ htokens
  refine ⟨m, hm, ?_⟩
  rw [argument, bind_of_eq (current_run _), hkind]
  exact (bind_of_eq hpair).trans rfl

theorem skipNewlinesWithin_run {closer : Option Kind} {s : State}
    (h : (s.current.kind == .newline) = false) : skipNewlinesWithin closer s = .ok ((), s) := by
  cases closer with
  | none => rfl
  | some kind =>
    rw [skipNewlinesWithin, Option.isSome_some, if_pos rfl, skipNewlines_run, skip_run s h]

theorem ne_newline_of_startsEntry {kind : Kind} (h : startsEntry kind = true) :
    (kind == .newline) = false := by
  revert h
  cases kind <;> decide

theorem ne_newline_of_endsExpression {kind : Kind} (h : endsExpression kind = true) :
    (kind == .newline) = false := by
  revert h
  cases kind <;> decide

/-- A round reads an argument, and another one follows exactly behind a comma. -/
theorem argumentRound_run {g : Rules} {closer : Option Kind} {c c' : Collected} {s t : State}
    (hcloser : Closes closer) (hstart : startsEntry s.current.kind = true)
    (hend : endsExpression t.current.kind = true) (h : argument g closer c s = .ok (c', t)) :
    argumentRound g closer c s =
      if t.current.kind == .comma then .ok (.again c', t.advance.skip (· == .newline))
      else .ok (.done c', t) := by
  rw [argumentRound, bind_of_eq (skipNewlinesWithin_run (ne_newline_of_startsEntry hstart)),
    bind_of_eq (seesCloser_run hcloser hstart), if_neg Bool.false_ne_true, bind_of_eq h,
    bind_of_eq (skipNewlinesWithin_run (ne_newline_of_endsExpression hend)), listRound_run]

/-- An argument takes up one round. -/
theorem roundReads_argument {depth : Nat} {closer : Option Kind} {e : Entry}
    (h : ReadsArgument depth e) (hcloser : Closes closer)
    (hstart : startsEntry e.wording.kind = true) :
    RoundReads (argumentRound (rulesAt (depth + 1)) closer) (fun c e m => e.push c m)
      (fun kind => endsExpression kind && kind != .comma) e := by
  constructor
  · intro c s last separator next tokens rest spaced hscope htokens hseparator hnext
    have hend : endsExpression separator.kind = true := by rw [hseparator]; rfl
    obtain ⟨m, hm, hread⟩ := h (c := c) last (next :: rest) hcloser hscope htokens hend
    refine ⟨m, hm, ?_⟩
    rw [argumentRound_run hcloser (by rwa [kind_current _ _ htokens]) hend hread, current_at,
      hseparator, beq_self_eq_true, if_pos rfl, advance_at,
      skip_run _ (ne_newline_of_startsEntry hnext)]
  · intro c s last closer' tokens rest spaced hscope htokens hcloses
    rw [Bool.and_eq_true] at hcloses
    obtain ⟨hend, hcomma⟩ := hcloses
    obtain ⟨m, hm, hread⟩ := h (c := c) last rest hcloser hscope htokens hend
    refine ⟨m, hm, ?_⟩
    rw [argumentRound_run hcloser (by rwa [kind_current _ _ htokens]) hend hread, current_at,
      beq_eq_false_iff_ne.mpr (bne_iff_ne.mp hcomma), if_neg Bool.false_ne_true]

/-- A round reads a pair in braces, and another one follows exactly behind a comma. -/
theorem hashRound_run {g : Rules} {found : List Node} {m : Node} {s t : State}
    (hstart : s.current.kind = .label) (hend : endsExpression t.current.kind = true)
    (h : labelPair g (some .rbrace) s = .ok (m, t)) :
    hashRound g found s =
      if t.current.kind == .comma then .ok (.again (found ++ [m]), t.advance)
      else .ok (.done (found ++ [m]), t) := by
  have helement : hashElement g s = .ok (m, t) := by
    rw [hashElement, bind_of_eq (current_run _), hstart]
    exact h
  rw [hashRound, bind_of_eq (skipNewlines_run _), skip_run s (by rw [hstart]; rfl),
    bind_of_eq (sees_run ..), hstart, if_neg (by decide), bind_of_eq helement,
    bind_of_eq (skipNewlines_run _), skip_run t (ne_newline_of_endsExpression hend), commaRound_run]

/-- A pair in braces takes up one round. -/
theorem roundReads_hash {key : String} {n : Node} {w : Wording} {depth : Nat}
    (h : Rereads n w) (hdepth : w.length < depth) :
    RoundReads (hashRound (rulesAt (depth + 1))) (fun found _ m => found ++ [m])
      (· == .rbrace) (.pair key n w) := by
  have hcloser : Closes (some .rbrace) := by
    rintro _ ⟨⟩
    rfl
  constructor
  · intro found s last separator next tokens rest spaced hscope htokens hseparator _
    have hend : endsExpression separator.kind = true := by rw [hseparator]; rfl
    obtain ⟨m, hm, hpair⟩ := h.labelPair_run last (next :: rest) hdepth hcloser
      hscope htokens hend
    refine ⟨m, hm, ?_⟩
    rw [hashRound_run (kind_current _ _ htokens) hend hpair, current_at, hseparator,
      beq_self_eq_true, if_pos rfl, advance_at]
  · intro found s last closer tokens rest spaced hscope htokens hcloses
    have hkind : closer.kind = .rbrace := beq_iff_eq.mp hcloses
    have hend : endsExpression closer.kind = true := by rw [hkind]; rfl
    obtain ⟨m, hm, hpair⟩ := h.labelPair_run last rest hdepth hcloser hscope
      htokens hend
    refine ⟨m, hm, ?_⟩
    rw [hashRound_run (kind_current _ _ htokens) hend hpair, current_at, hkind]
    rfl

end XhrKeywords.Grammar
