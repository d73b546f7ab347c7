import XhrKeywords.Proofs.Grammar.Watch.Program
import XhrKeywords.Proofs.Outcome
import XhrKeywords.Proofs.Token.Ending

/-!
# How calls were read

Every call of a tree comes from one place of the grammar, where the parser stood right behind the
name: it found a parenthesis that touches the name and read a list up to the closing one, or it read
arguments without parentheses or none. Two kinds of calls have no token for a name of their own: a
label whose value is left out names a call, and a parenthesis behind a dot is a call of `call`.
-/

namespace XhrKeywords

open Syntax hiding Kind
open Token (Kind)

namespace Grammar

/-- The last token taken is the one that a name comes from. -/
structure State.Behind (tokens : List Token) (name : Leaf) (s : State) : Prop where
  split : ∃ before, tokens = before ++ s.previous :: s.current :: s.ahead
  place : name.place = s.previous.span.place
  names : s.previous.kind.namesCall

/-- The next token is an opening parenthesis that touches the last one. -/
def State.opens (s : State) : Bool :=
  s.current.kind == .lpar && !s.current.spaced

/-- The name of a call behind a dot that has none. -/
def impliedName : Leaf := { role := .token .ident, text := "call" }

/-- A call whose arguments the parser read as a list up to a closing parenthesis, from the opening
parenthesis on that touches the name. -/
inductive ReadInParens (tokens : List Token) : Node → Prop
  | intro {depth : Nat} {s t : State} {name : Leaf} {found : List Node} (kind : Syntax.Kind)
      (receiver : Node) (start : Mark) (hs : s.Behind tokens name) (hopens : s.opens = true)
      (hread : delimitedArguments (rulesAt depth) .rpar s = .ok (found, t)) :
      ReadInParens tokens (built t kind (receiver :: .leaf name :: found) start)

/-- A call that the parser read without parentheses. -/
inductive ReadBare (tokens : List Token) : Node → Prop
  /-- Its arguments follow the name. -/
  | command {depth : Nat} {s t : State} {name : Leaf} {found : List Node} (kind : Syntax.Kind)
      (receiver : Node) (start : Mark) (hs : s.Behind tokens name) (hopens : s.opens = false)
      (hread : keepingDo (arguments (rulesAt depth) none) s = .ok (found, t)) :
      ReadBare tokens (built t kind (receiver :: .leaf name :: found) start)
  /-- It has no arguments. -/
  | alone {s : State} {name : Leaf} (kind : Syntax.Kind) (receiver : Node) (start : Mark)
      (hs : s.Behind tokens name) (hopens : s.opens = false) :
      ReadBare tokens (built s kind [receiver, .leaf name] start)
  /-- It is the value of a label that has no other. -/
  | label {label : Token} (hmem : label ∈ tokens) (hkind : label.kind = .label) :
      ReadBare tokens (labelCall label)

/-- How a call was read. -/
inductive CallRead (tokens : List Token) (call : Node) : Prop
  | inParens (h : ReadInParens tokens call)
  | bare (h : ReadBare tokens call)
  | implied (h : ∃ kind span receiver found,
      call = .tree kind span (receiver :: .leaf impliedName :: found))

/-- How all calls in a node were read is known. -/
def CallsRead (tokens : List Token) (n : Node) : Prop :=
  ∀ c ∈ n.subtrees, c.isCall → CallRead tokens c

variable {tokens : List Token} {n : Node} {nodes : List Node}

namespace CallsRead

theorem absent : CallsRead tokens .absent := fun _ hc => absurd hc List.not_mem_nil

theorem leaf (content : Leaf) : CallsRead tokens (.leaf content) :=
  fun _ hc => absurd hc List.not_mem_nil

variable {kind : Syntax.Kind} {span : Option Span}

/-- The calls in a tree are those in its children, and the tree if it is a call itself. -/
theorem tree (h : ∀ n ∈ nodes, CallsRead tokens n)
    (hself : kind.isCall → CallRead tokens (.tree kind span nodes)) :
    CallsRead tokens (.tree kind span nodes) := by
  intro c hc hcall
  rw [Node.subtrees] at hc
  rcases List.mem_cons.mp hc with rfl | hc
  · exact hself hcall
  · obtain ⟨n, hn, hc⟩ := Node.mem_subtreesAll.mp hc
    exact h n hn c hc hcall

/-- The calls in a tree that is none itself are those in its children. -/
theorem of_not_isCall (h : ∀ n ∈ nodes, CallsRead tokens n) (hkind : kind.isCall = false) :
    CallsRead tokens (.tree kind span nodes) :=
  tree h fun hcall => absurd (hkind.symm.trans hcall) Bool.false_ne_true

end CallsRead

/-- A state among tokens in order: the last token taken is in front of the next one, unless nothing
has been taken yet or it was the end of the source. -/
structure State.Amid (tokens : List Token) (s : State) : Prop where
  inOrder : Token.InOrder tokens
  ahead : s.current :: s.ahead <:+ tokens
  behind : s.previous.kind = .eof ∨ ∃ before, tokens = before ++ s.previous :: s.current :: s.ahead

namespace State.Amid

variable {s : State}

theorem mem (h : s.Amid tokens) : s.current ∈ tokens :=
  h.ahead.subset List.mem_cons_self

/-- Only the tokens matter. -/
theorem congr (h : s.Amid tokens) (blocked : Nat) (scope : List String)
    (outer : List (List String)) :
    State.Amid tokens ⟨s.current, s.ahead, s.previous, blocked, scope, outer⟩ :=
  ⟨h.inOrder, h.ahead, h.behind⟩

/-- Only the end of the source has nothing behind it. -/
theorem advance (h : s.Amid tokens) : s.advance.Amid tokens := by
  obtain ⟨hinOrder, ⟨before, hsplit⟩, -⟩ := h
  rw [State.advance]
  split
  · rename_i hahead
    rw [hahead] at hsplit
    obtain ⟨front, last, rfl, hlast, -⟩ := hinOrder.closed
    obtain ⟨-, ⟨⟩⟩ := List.append_inj' hsplit rfl
    exact ⟨hinOrder, ⟨before, by rw [hahead, hsplit]⟩, Or.inl hlast⟩
  · rename_i next others hahead
    rw [hahead] at hsplit
    exact ⟨hinOrder, ⟨before ++ [s.current], by simp [hsplit]⟩, Or.inr ⟨before, hsplit.symm⟩⟩

/-- Behind a name that has been taken the arguments of a call may follow. -/
theorem behind_advance (h : s.Amid tokens) (hnames : s.current.kind.namesCall) {name : Leaf}
    (hplace : name.place = s.current.span.place) : s.advance.Behind tokens name := by
  have hprevious := s.previous_advance
  refine ⟨h.advance.behind.resolve_left fun heof => ?_, ?_, ?_⟩
  · rw [hprevious] at heof
    rw [heof] at hnames
    cases hnames
  · rw [hprevious, hplace]
  · rwa [hprevious]

end State.Amid

/-- A lexed source stands in front of its tokens. -/
theorem State.amid_start {first : Token} {others : List Token}
    (h : Token.InOrder (first :: others)) : (State.start first others).Amid (first :: others) :=
  ⟨h, List.suffix_refl _, Or.inl rfl⟩

/-- A label whose value is left out is a call of its own. -/
theorem CallsRead.of_label {label : Token} (hmem : label ∈ tokens) (hkind : label.kind = .label) :
    CallsRead tokens (labelCall label) := by
  apply CallsRead.tree
  · simp [CallsRead.absent, CallsRead.leaf]
  · intro _
    exact .bare (.label hmem hkind)

/-- How calls were read is watched over rules of some depth. -/
def callWatch (tokens : List Token) : Watch where
  Holds _ := State.Amid tokens
  Sound t := t ∈ tokens
  Knows _ := CallsRead tokens
  Allows g := ∃ depth, g = rulesAt depth
  advance h _ := h.advance
  declare h _ := h.congr _ _ _
  sound h := h.mem
  scope h _ := ⟨(), h.congr _ _ _, fun _ ht => ht.congr _ _ _⟩
  count h _ := ⟨(), h.congr _ _ _, fun _ ht => ht.congr _ _ _⟩
  rule h := h.closed .absent (fun _ => .leaf _) fun hkind _ all => .of_not_isCall all hkind
  target _ := .of_not_isCall (by simp [CallsRead.leaf]) rfl
  label h hkind := .of_label h hkind

section Calls

variable {g : Rules} (hg : g.Watched (callWatch tokens)) {s t : State} (hs : s.Amid tokens)
  {receiver : Node} (hreceiver : CallsRead tokens receiver) {name : Leaf}

/-- A name is the implied one or comes from the last token taken. -/
def State.Names (tokens : List Token) (name : Leaf) (s : State) : Prop :=
  name = impliedName ∨ s.Behind tokens name

/-- With the implied name nothing more has to be known of a call. -/
theorem CallRead.of_names {kind : Syntax.Kind} {span : Option Span} {found : List Node}
    (hname : s.Names tokens name)
    (h : s.Behind tokens name →
      CallRead tokens (.tree kind span (receiver :: .leaf name :: found))) :
    CallRead tokens (.tree kind span (receiver :: .leaf name :: found)) := by
  rcases hname with rfl | hbehind
  · exact .implied ⟨kind, span, receiver, found, rfl⟩
  · exact h hbehind

include hreceiver in
theorem calls_head {kind : Syntax.Kind} {span : Option Span} {found : List Node}
    (hfound : ∀ n ∈ found, CallsRead tokens n)
    (hself : CallRead tokens (.tree kind span (receiver :: .leaf name :: found))) :
    CallsRead tokens (.tree kind span (receiver :: .leaf name :: found)) :=
  .tree (List.forall_mem_cons.mpr ⟨hreceiver, List.forall_mem_cons.mpr ⟨.leaf name, hfound⟩⟩)
    fun _ => hself

include hg hs in
/-- The arguments of a call without parentheses are read into a tree of which everything is known
when it is for any arguments read there. -/
theorem calls_command (kind : Syntax.Kind) (head : List Node) (start : Mark)
    (hnode : ∀ ⦃found u⦄, keepingDo (arguments g none) s = .ok (found, u) →
      (∀ n ∈ found, CallsRead tokens n) → CallsRead tokens (built u kind (head ++ found) start))
    (h : command g kind head start s = .ok (n, t)) : t.Amid tokens ∧ CallsRead tokens n := by
  obtain ⟨found, u, hfound, h⟩ := of_bind h
  obtain ⟨hu, hall⟩ :=
    tells_keepingDo (builds_openArguments hg) (i := ()) hs trivial hfound
  have hn := hnode hfound hall
  rw [build_bind, doBinds_bind, sees_bind] at h
  split at h
  · exact builds_block hg hn (i := ()) hu trivial h
  · cases h
    exact ⟨hu, hn⟩

include hg hs hreceiver in
/-- What the parser finds behind the name of a call tells how the call is read. -/
theorem calls_callArguments {kind : Syntax.Kind} {start : Mark} (hname : s.Names tokens name)
    (h : callArguments g kind [receiver, .leaf name] start s = .ok (n, t)) :
    t.Amid tokens ∧ CallsRead tokens n := by
  obtain ⟨depth, rfl⟩ := hg.allowed
  rw [callArguments, seesGlued_bind] at h
  split at h
  · rename_i hopens
    obtain ⟨found, u, hfound, h⟩ := of_bind h
    obtain ⟨hu, hall⟩ :=
      builds_delimitedArguments hg (fun _ _ => trivial) (i := ()) hs trivial hfound
    cases h
    refine ⟨hu, calls_head hreceiver hall (.of_names hname fun hbehind => ?_)⟩
    exact .inParens (.intro kind receiver start hbehind hopens hfound)
  · rename_i hopens
    have hopens : s.opens = false := Bool.eq_false_iff.mpr hopens
    obtain ⟨_, _, hstart, h⟩ := of_bind h
    cases hstart
    split at h
    · refine calls_command hg hs kind [receiver, .leaf name] start (fun found u hfound hall => ?_) h
      refine calls_head hreceiver hall (.of_names hname fun hbehind => ?_)
      exact .bare (.command kind receiver start hbehind hopens hfound)
    · cases h
      refine ⟨hs, calls_head hreceiver (fun _ hn => absurd hn List.not_mem_nil)
        (.of_names hname fun hbehind => ?_)⟩
      exact .bare (.alone kind receiver start hbehind hopens)

include hs in
/-- The name of a method is the next token, or it is implied. -/
theorem names_methodName (h : methodName s = .ok (n, t)) :
    t.Amid tokens ∧ ∃ name, n = .leaf name ∧ t.Names tokens name := by
  have hword (hnames : s.current.kind.namesCall = true) (h : takeName s = .ok (n, t)) :
      t.Amid tokens ∧ ∃ name, n = .leaf name ∧ t.Names tokens name := by
    cases h
    exact ⟨hs.advance, _, rfl, Or.inr (hs.behind_advance hnames rfl)⟩
  rw [methodName, current_bind] at h
  generalize hkind : s.current.kind = kind at h
  split at h
  · cases h
    exact ⟨hs, _, rfl, Or.inl rfl⟩
  · exact hword (by rw [hkind]; rfl) h
  · exact hword (by rw [hkind]; rfl) h
  · cases h
  · split at h
    · rename_i hoperator
      exact hword (by rw [hkind, Kind.namesCall, hoperator, Bool.or_true]) h
    · cases h

include hg hs in
theorem calls_identifier (hkind : s.current.kind = .ident) (h : identifier g s = .ok (n, t)) :
    t.Amid tokens ∧ CallsRead tokens n := by
  rw [identifier, advance_bind, isLocal_bind, seesGlued_bind] at h
  split at h
  · cases h
    exact ⟨hs.advance, .of_not_isCall (List.forall_mem_singleton.mpr (.leaf _)) rfl⟩
  · have hbehind : s.advance.Behind tokens
        ⟨.token s.current.kind, s.current.text, s.current.span.place⟩ :=
      hs.behind_advance (by rw [hkind]; rfl) rfl
    exact calls_callArguments hg hs.advance .absent (Or.inr hbehind) h

include hg hs in
theorem calls_constant (hkind : s.current.kind = .const) (h : constant g s = .ok (n, t)) :
    t.Amid tokens ∧ CallsRead tokens n := by
  obtain ⟨depth, rfl⟩ := hg.allowed
  rw [constant, advance_bind, seesGlued_bind] at h
  split at h
  · rename_i hopens
    have hbehind : s.advance.Behind tokens ⟨.token .ident, s.current.text, s.current.span.place⟩ :=
      hs.behind_advance (by rw [hkind]; rfl) rfl
    obtain ⟨found, u, hfound, h⟩ := of_bind h
    obtain ⟨hu, hall⟩ :=
      builds_delimitedArguments hg (fun _ _ => trivial) (i := ()) hs.advance trivial hfound
    cases h
    exact ⟨hu, calls_head .absent hall (.inParens (.intro .call .absent _ hbehind hopens hfound))⟩
  · cases h
    exact ⟨hs.advance, .of_not_isCall
      (List.forall_mem_cons.mpr ⟨.absent, List.forall_mem_singleton.mpr (.leaf _)⟩) rfl⟩

end Calls

theorem calls_callWatch (tokens : List Token) : (callWatch tokens).Calls where
  identifier hg _ _ _ _ hs hkind h := calls_identifier hg hs hkind h
  constant hg _ _ _ _ hs hkind h := calls_constant hg hs hkind h
  methodCall hg receiver hreceiver operator := by
    intro _ s n t hs _ h
    obtain ⟨_, u, hname, h⟩ := of_bind h
    obtain ⟨hu, name, rfl, hnames⟩ := names_methodName hs hname
    exact calls_callArguments hg hu hreceiver hnames h

/-- How every call in the tree of a source was read is known. -/
theorem callsRead_of_parse {source : String} {tree : Node}
    (hlex : Token.tokenize source = .ok tokens) (hparse : parse source = .ok tree) :
    CallsRead tokens tree := by
  obtain ⟨others, hothers, htree⟩ := bind_eq_ok_iff.mp hparse
  rw [mapError_eq_ok_iff] at hothers htree
  obtain rfl : tokens = others := Except.ok.inj (hlex.symm.trans hothers)
  have hinOrder := Token.tokens_inOrder hlex
  cases tokens with
  | nil =>
    cases htree
    exact .of_not_isCall (fun _ hn => absurd hn List.not_mem_nil) rfl
  | cons first others =>
    obtain ⟨span, found, rfl, hfound⟩ := program_of_tokens (calls_callWatch _)
      (fun depth => ⟨depth, rfl⟩) (i := ()) (State.amid_start hinOrder) htree
    exact .of_not_isCall hfound rfl

end XhrKeywords.Grammar
