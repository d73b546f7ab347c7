import XhrKeywords.Proofs.Grammar.Grouping.Basic
import XhrKeywords.Proofs.Grammar.Nest.Argument

/-!
# Arguments are grouped

The arguments and pairs of a list are read where as many calls keep a `do` as in front of the list,
or none between delimiters. The opening delimiter stands in front of the first of them.
-/

namespace XhrKeywords.Grammar

open Syntax hiding Kind
open Token (Kind)

variable {tokens : List Token} {blocked : Nat} {g : Rules} {closer : Option Kind} {s t : State}

/-- A call without arguments. -/
theorem grouped_bare {kind : Syntax.Kind} (hkind : kind = .call ∨ kind = .csend) {receiver : Node}
    (hreceiver : Grouped tokens blocked receiver) (name : Leaf) (span : Option Span) :
    Grouped tokens blocked (.tree kind span [receiver, .leaf name]) :=
  .command hkind hreceiver name fun _ hn => absurd hn List.not_mem_nil

/-- A name that stands for itself, behind `name:` without a value. -/
theorem groups_nameReference (label : Token) :
    GroupsAs tokens blocked (Grouped tokens blocked) (nameReference label) :=
  (maintains_isLocal _).bind fun _ _ =>
    .ite (upholds_pure ((AllGrouped.one (.leaf _)).tree rfl _))
      (upholds_pure (grouped_bare (.inl rfl) .absent _ _))

/-- The value behind a label, or the name that the label stands for. -/
theorem groups_labelValue (hg : g.Groups tokens) (label : Token) :
    GroupsAs tokens blocked (Grouped tokens blocked) (labelValue g closer label) :=
  (maintains_seesClass _).bind fun _ _ => (maintains_seesCloser closer).bind fun _ _ =>
    .ite (.ite (groups_nameReference label) (upholds_failAt ..)) (hg.read .assignment blocked)

/-- A pair `name: value`. -/
theorem groups_labelPair (hg : g.Groups tokens) :
    GroupsAs tokens blocked (Grouped tokens blocked) (labelPair g closer) := by
  refine maintains_advance.bind fun label _ => Upholds.bind (P := Grouped tokens blocked)
    (groups_build (.one (.leaf _)) rfl) fun key hkey => ?_
  exact (groups_labelValue hg label).bind fun _ hvalue => groups_build (.two hkey hvalue) rfl

/-- A pair `**value`. -/
theorem groups_doubleSplat (hg : g.Groups tokens) :
    GroupsAs tokens blocked (Grouped tokens blocked) (doubleSplat g) :=
  maintains_advance.bind fun _ _ => (hg.read .assignment blocked).bind fun _ hn =>
    groups_build (.one hn) rfl

/-- A pair `key => value` whose key has been read. -/
theorem groups_arrowPair (hg : g.Groups tokens) {key : Node} (hkey : Grouped tokens blocked key) :
    GroupsAs tokens blocked (Grouped tokens blocked) (arrowPair g key) :=
  maintains_skipNewlines.bind fun _ _ => (hg.read .assignment blocked).bind fun _ hvalue =>
    groups_build (.two hkey hvalue) rfl

/-- An element of a list, with or without a star. -/
theorem groups_splatOr {element : Parser Node}
    (h : GroupsAs tokens blocked (Grouped tokens blocked) element) :
    GroupsAs tokens blocked (Grouped tokens blocked) (splatOr element) := by
  refine (maintains_sees .star).bind fun _ _ => .ite ?_ h
  exact maintains_advance.bind fun _ _ => h.bind fun _ hn =>
    groups_build (.one hn) rfl

/-- What has been read of an argument list is grouped. -/
def Collected.Grouped (tokens : List Token) (blocked : Nat) (c : Collected) : Prop :=
  AllGrouped tokens blocked c.arguments ∧ AllGrouped tokens blocked c.pairs

namespace Collected

variable {c : Collected} {n : Node}

/-- The pairs collected so far become a hash that is grouped. -/
theorem Grouped.flush (h : c.Grouped tokens blocked) : AllGrouped tokens blocked c.flush := by
  obtain ⟨arguments, pairs⟩ := c
  cases pairs with
  | nil => exact h.1
  | cons first others => exact h.1.concat (h.2.tree rfl _)

/-- A grouped argument is collected behind the pairs in front of it. -/
theorem Grouped.add (h : c.Grouped tokens blocked) (hn : XhrKeywords.Grouped tokens blocked n) :
    (c.add n).Grouped tokens blocked :=
  ⟨h.flush.concat hn, .nil⟩

/-- A grouped pair is collected behind the others. -/
theorem Grouped.addPair (h : c.Grouped tokens blocked)
    (hn : XhrKeywords.Grouped tokens blocked n) : (c.addPair n).Grouped tokens blocked :=
  ⟨h.1, h.2.concat hn⟩

end Collected

/-- The value behind a star or an ampersand, which may be left out. -/
theorem groups_markedValue (hg : g.Groups tokens) :
    GroupsAs tokens blocked (AllGrouped tokens blocked) (markedValue g closer) :=
  (maintains_sees .comma).bind fun _ _ => (maintains_seesCloser closer).bind fun _ _ =>
    .ite (upholds_pure .nil)
      ((hg.read .assignment blocked).bind fun _ hn => upholds_pure (.one hn))

/-- An argument `*value` or `&value`. -/
theorem groups_markedArgument (hg : g.Groups tokens) {kind : Syntax.Kind}
    (hkind : kind.isUniform) :
    GroupsAs tokens blocked (Grouped tokens blocked) (markedArgument g closer kind) :=
  maintains_advance.bind fun _ _ => (groups_markedValue hg).bind fun _ hfound =>
    groups_build hfound hkind

/-- An argument that turns out to be a pair at its arrow. -/
theorem groups_valueOrPair (hg : g.Groups tokens) {c : Collected} (hc : c.Grouped tokens blocked) :
    GroupsAs tokens blocked (Collected.Grouped tokens blocked) (valueOrPair g closer c) := by
  refine (hg.read _ blocked).bind fun value hvalue => (maintains_accept .assoc).bind fun _ _ =>
    .ite ?_ (upholds_pure (hc.add hvalue))
  exact (groups_arrowPair hg hvalue).bind fun _ hn => upholds_pure (hc.addPair hn)

/-- One argument, by the kind of its first token. -/
theorem groups_argument (hg : g.Groups tokens) {c : Collected} (hc : c.Grouped tokens blocked) :
    GroupsAs tokens blocked (Collected.Grouped tokens blocked) (argument g closer c) := by
  refine maintains_current.bind fun t _ => ?_
  split
  · exact (groups_markedArgument hg rfl).bind fun _ hn => upholds_pure (hc.add hn)
  · exact (groups_markedArgument hg rfl).bind fun _ hn => upholds_pure (hc.add hn)
  · exact (groups_doubleSplat hg).bind fun _ hn => upholds_pure (hc.addPair hn)
  · exact (groups_labelPair hg).bind fun _ hn => upholds_pure (hc.addPair hn)
  · exact (groups_labelPair hg).bind fun _ hn => upholds_pure (hc.addPair hn)
  · exact groups_valueOrPair hg hc

/-- One round of an argument list. -/
theorem groups_argumentRound (hg : g.Groups tokens) {c : Collected}
    (hc : c.Grouped tokens blocked) :
    GroupsAs tokens blocked
      (Round.All (Collected.Grouped tokens blocked) (Collected.Grouped tokens blocked))
      (argumentRound g closer c) := by
  refine (maintains_skipNewlinesWithin closer).bind fun _ _ =>
    (maintains_seesCloser closer).bind fun _ _ => .ite (upholds_pure hc) ?_
  exact (groups_argument hg hc).bind fun more hmore =>
    (maintains_skipNewlinesWithin closer).bind fun _ _ => upholds_listRound hmore

/-- The arguments of a call, read where as many calls keep a `do` as in front of them. -/
theorem groups_arguments (hg : g.Groups tokens) (closer : Option Kind) :
    GroupsAs tokens blocked (AllGrouped tokens blocked) (arguments g closer) := by
  refine (upholds_rounds g.limit (fun _ => groups_argumentRound hg) (x := .empty)
    ⟨.nil, .nil⟩).bind fun c hc => ?_
  cases closer with
  | none => exact upholds_pure hc.flush
  | some kind => exact (maintains_expectOr kind _).bind fun _ _ => upholds_pure hc.flush

/-- Between parentheses or brackets a `do` may be taken again. -/
theorem groups_delimitedArguments (hg : g.Groups tokens) (closer : Kind) :
    GroupsAs tokens blocked (AllGrouped tokens 0) (delimitedArguments g closer) :=
  maintains_advance.bind fun _ _ => groups_bracketed (groups_arguments hg (some closer))

/-- Nothing has been read behind a mark yet, or the mark stands in front of what has been read. -/
def Begun (tokens : List Token) (mark : Kind) (nodes : List Node) (s : State) : Prop :=
  nodes = [] ∧ Token.kindBefore? tokens s.current.start = some mark ∨
    Token.opens tokens mark nodes = true

variable {mark : Kind} {nodes found : List Node} {n : Node}

/-- In front of the first token behind a mark, line breaks aside, stands that mark. -/
theorem kindBefore?_skipNewlines (hs : s.Along tokens)
    (h : Token.kindBefore? tokens s.current.start = some mark) :
    Token.kindBefore? tokens (s.skip (· == .newline)).current.start = some mark := by
  have hgo : ∀ ahead current previous, State.Along tokens { s with current, previous, ahead } →
      Token.kindBefore? tokens current.start = some mark →
      Token.kindBefore? tokens
        (State.skip.go (· == .newline) s current previous ahead).current.start = some mark := by
    intro ahead
    induction ahead with
    | nil => exact fun _ _ _ h => h
    | cons next others ih =>
      intro current previous hs h
      rw [State.skip.go]
      split
      · rename_i hkind
        have hnewline : current.kind = .newline := beq_iff_eq.mp hkind
        have hne : current.kind ≠ .eof := by
          rw [hnewline]
          decide
        have hbehind := kindBefore?_advance hs hne
        rw [if_pos hnewline] at hbehind
        exact ih next current (hs.step hne) (hbehind.trans h)
      · exact h
  exact hgo s.ahead s.current s.previous hs h

/-- Line ends do not part a mark from the nodes behind it. -/
theorem Begun.skipNewlines (hs : s.Along tokens) (h : Begun tokens mark nodes s) :
    Begun tokens mark nodes (s.skip (· == .newline)) :=
  h.imp_left fun h => ⟨h.1, kindBefore?_skipNewlines hs h.2⟩

/-- The first node is the one that starts behind the mark. -/
theorem Begun.concat (h : Begun tokens mark nodes s) (hn : (ofNode n).start = s.current.start) :
    Token.opens tokens mark (nodes ++ [n]) = true := by
  rcases h with ⟨rfl, hmark⟩ | hopens
  · rw [List.nil_append, Token.opens, hn, hmark, beq_self_eq_true]
  · cases nodes with
    | nil => cases hopens
    | cons first others => exact hopens

/-- A pair of a label starts with the label. -/
theorem start_labelPair (h : labelPair g closer s = .ok (n, t)) :
    (ofNode n).start = s.current.start := by
  rw [labelPair, advance_bind, labelKey, build_bind] at h
  obtain ⟨value, u, -, h⟩ := of_bind h
  cases h
  exact start_upTo ..

/-- What stands behind a mark starts with the mark. -/
theorem start_markedArgument {kind : Syntax.Kind}
    (h : markedArgument g closer kind s = .ok (n, t)) : (ofNode n).start = s.current.start := by
  rw [markedArgument, advance_bind] at h
  obtain ⟨found, u, -, h⟩ := of_bind h
  cases h
  exact start_upTo ..

/-- A splat of pairs starts with its mark. -/
theorem start_doubleSplat (h : doubleSplat g s = .ok (n, t)) :
    (ofNode n).start = s.current.start := by
  rw [doubleSplat, advance_bind] at h
  obtain ⟨inner, u, -, h⟩ := of_bind h
  cases h
  exact start_upTo ..

/-- A pair with an arrow starts with its key. -/
theorem start_arrowPair {key : Node} (h : arrowPair g key s = .ok (n, t)) :
    (ofNode n).start = (ofNode key).start := by
  rw [arrowPair, skipNewlines_bind] at h
  obtain ⟨value, u, -, h⟩ := of_bind h
  cases h
  exact start_upTo ..

/-- A tree from one node to another starts with the first. -/
theorem start_enclose (kind : Syntax.Kind) (children : List Node) (first last : Node) :
    (ofNode (enclose kind children first last)).start = (ofNode first).start :=
  start_upTo ..

/-- A pair that waits for its hash starts where the hash will start. -/
theorem opens_addPair {c : Collected} (h : Token.opens tokens mark (c.flush ++ [n]) = true) :
    Token.opens tokens mark (c.addPair n).flush = true := by
  obtain ⟨arguments, pairs⟩ := c
  cases arguments with
  | cons first others => cases pairs <;> exact h
  | nil =>
    cases pairs with
    | nil =>
      change (Token.kindBefore? tokens (ofNode (enclose .hash [n] n n)).start == some mark) = true
      rw [start_enclose]
      exact h
    | cons pair pairs =>
      change (Token.kindBefore? tokens (ofNode (enclose .hash _ pair _)).start == some mark) = true
        at h
      change (Token.kindBefore? tokens (ofNode (enclose .hash _ pair _)).start == some mark) = true
      rw [start_enclose] at h ⊢
      exact h

/-- An argument or a pair starts with the next token, and comes behind what has been read. -/
theorem opens_argument (hg : g.Groups tokens) {c more : Collected} (hs : s.Along tokens)
    (hbegun : Begun tokens mark c.flush s) (h : argument g closer c s = .ok (more, t)) :
    Token.opens tokens mark more.flush = true := by
  have hadd {n : Node} (hn : (ofNode n).start = s.current.start) :
      Token.opens tokens mark (c.add n).flush = true := hbegun.concat hn
  have hpair {n : Node} (hn : (ofNode n).start = s.current.start) :
      Token.opens tokens mark (c.addPair n).flush = true := opens_addPair (hbegun.concat hn)
  rw [argument, current_bind] at h
  generalize s.current.kind = kind at h
  split at h
  case h_1 | h_2 =>
    obtain ⟨n, u, hn, h⟩ := of_bind h
    cases h
    exact hadd (start_markedArgument hn)
  case h_3 =>
    obtain ⟨n, u, hn, h⟩ := of_bind h
    cases h
    exact hpair (start_doubleSplat hn)
  case h_4 | h_5 =>
    obtain ⟨n, u, hn, h⟩ := of_bind h
    cases h
    exact hpair (start_labelPair hn)
  case h_6 =>
    obtain ⟨value, u, hvalue, h⟩ := of_bind h
    have hstart : (ofNode value).start = s.current.start := by
      split at hvalue
      · exact (hg.nests.negation hs hvalue).start
      · exact (hg.nests.assignment hs hvalue).start
    rw [accept_bind] at h
    split at h
    · obtain ⟨n, v, hn, h⟩ := of_bind h
      cases h
      exact hpair ((start_arrowPair hn).trans hstart)
    · cases h
      exact hadd hstart

/-- The opening delimiter stands in front of what one more round reads. -/
theorem begun_argumentRound (hg : g.Groups tokens) {kind : Kind} {c : Collected}
    {r : Round Collected Collected} (hs : s.Grouping tokens blocked)
    (hbegun : Begun tokens mark c.flush s) (h : argumentRound g (some kind) c s = .ok (r, t)) :
    r.All (fun c => Begun tokens mark c.flush t)
      fun c => c.flush = [] ∨ Token.opens tokens mark c.flush = true := by
  obtain ⟨_, u, hskip, h⟩ := of_bind h
  cases hskip
  have hbegun := hbegun.skipNewlines hs.along
  rw [seesCloser_bind] at h
  split at h
  · cases h
    exact hbegun.imp_left And.left
  · obtain ⟨more, v, hmore, h⟩ := of_bind h
    have hopens := opens_argument hg (Steady.skip hs _).along hbegun hmore
    obtain ⟨_, w, -, h⟩ := of_bind h
    rcases of_listRound h with ⟨-, rfl, rfl⟩ | ⟨rfl, rfl⟩
    · exact Or.inr hopens
    · exact Or.inr hopens

/-- An opening delimiter stands in front of the first argument behind it. -/
theorem opens_delimitedArguments (hg : g.Groups tokens) {kind : Kind}
    (hs : s.Grouping tokens blocked) (hopener : s.current.kind.isMark)
    (hnewline : s.current.kind ≠ .newline) (h : delimitedArguments g kind s = .ok (found, t)) :
    found = [] ∨ Token.opens tokens s.current.kind found = true := by
  rw [delimitedArguments, advance_bind] at h
  obtain ⟨u, harguments, -⟩ := of_withBlocked h
  have hmark := kindBefore?_advance hs.along (Kind.ne_eof_of_isMark hopener)
  rw [if_neg hnewline] at hmark
  obtain ⟨c, v, hloop, harguments⟩ := of_bind harguments
  obtain ⟨-, harguments⟩ := of_expectOr harguments
  cases harguments
  have hbegun : Begun tokens s.current.kind Collected.empty.flush
      { s.advance with blocked := 0 } := Or.inl ⟨rfl, hmark⟩
  refine of_rounds (I := fun c s => s.Grouping tokens 0 ∧ c.Grouped tokens 0 ∧
      Begun tokens _ c.flush s)
    (Q := fun c _ => c.flush = [] ∨ Token.opens tokens _ c.flush = true) ?_
    ⟨(Steady.advance hs).recount 0, ⟨.nil, .nil⟩, hbegun⟩ hloop
  intro c s r u hc hround
  obtain ⟨hs, hc, hbegun⟩ := hc
  obtain ⟨hu, hall⟩ := groups_argumentRound hg hc hs hround
  have hnext := begun_argumentRound hg hs hbegun hround
  cases r with
  | again more => exact ⟨hu, hall, hnext⟩
  | done more => exact hnext

end XhrKeywords.Grammar
