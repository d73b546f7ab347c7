import Mathlib.Data.List.Sort
import XhrKeywords.Proofs.Syntax.Descent

/-!
# Nested calls

The calls of a forest may lie in each other and one behind the other, but never across each other.
`Nested` says so by going through the forest from left to right: each call lies behind the calls
that are finished and inside the one that is open. What it means for two calls anywhere in a tree
is read off their addresses.
-/

namespace XhrKeywords.Syntax

namespace Node

/-- The node at an address: the places of the children on the way to it. -/
def at? (n : Node) : List Nat → Option Node
  | [] => some n
  | i :: address => (n.children[i]?).bind (·.at? address)

/-- The trees inside a node, itself aside. -/
def inner (n : Node) : List Node := subtreesAll n.children

/-- Of two nodes that have their places in a source the first does not start behind the second. -/
def StartsNoLater (m n : Node) : Prop :=
  ∀ s ∈ m.extent?, ∀ t ∈ n.extent?, s.1 ≤ t.1

/-- For trees with spans that is a matter of their spans. -/
theorem startsNoLater_iff {k l : Kind} {s t : Span} {children others : List Node} :
    StartsNoLater (tree k (some s) children) (tree l (some t) others) ↔ s.start ≤ t.start := by
  simp [StartsNoLater, extent?]

/-- Of two nodes that have their places in a source one lies behind the other. -/
def Apart (m n : Node) : Prop :=
  ∀ s ∈ m.extent?, ∀ t ∈ n.extent?, s.2 ≤ t.1 ∨ t.2 ≤ s.1

/-- For trees with spans that is a matter of their spans. -/
theorem apart_iff {k l : Kind} {s t : Span} {children others : List Node} :
    Apart (tree k (some s) children) (tree l (some t) others) ↔
      s.stop ≤ t.start ∨ t.stop ≤ s.start := by
  simp [Apart, extent?]

/-- A tree is the first of its own trees. -/
theorem subtrees_tree (kind : Kind) (span : Option Span) (children : List Node) :
    (tree kind span children).subtrees = tree kind span children :: subtreesAll children := by
  rw [subtrees]

/-- The trees of several nodes are those of the first and those of the others. -/
theorem subtreesAll_cons (n : Node) (others : List Node) :
    subtreesAll (n :: others) = n.subtrees ++ subtreesAll others := by
  rw [subtreesAll]

/-- Addresses are followed one part after the other. -/
theorem at?_append (n : Node) (first second : List Nat) :
    n.at? (first ++ second) = (n.at? first).bind (·.at? second) := by
  induction first generalizing n with
  | nil => rfl
  | cons i first ih =>
    rw [List.cons_append, at?, at?, Option.bind_assoc]
    congr 1
    funext child
    exact ih child

end Node

/-- `Nested ok lo hi nodes` says that the calls in the nodes lie between the offsets, in the order
of the nodes, each behind the calls that end before it and inside the calls that hold it; and that
`ok` holds of the span and the children of each. -/
inductive Nested (ok : Span → List Node → Prop) : Nat → Nat → List Node → Prop
  | nil {lo hi} (h : lo ≤ hi) : Nested ok lo hi []
  | absent {lo hi others} (h : Nested ok lo hi others) : Nested ok lo hi (.absent :: others)
  | leaf {lo hi others} (content : Leaf) (h : Nested ok lo hi others) :
      Nested ok lo hi (.leaf content :: others)
  | tree {lo mid hi kind span children others} (hkind : kind ≠ .call)
      (hchildren : Nested ok lo mid children) (h : Nested ok mid hi others) :
      Nested ok lo hi (.tree kind span children :: others)
  | call {lo hi span children others} (hstart : lo ≤ span.start) (fit : ok span children)
      (hchildren : Nested ok span.start span.stop children) (h : Nested ok span.stop hi others) :
      Nested ok lo hi (.tree .call (some span) children :: others)

namespace Nested

variable {ok : Span → List Node → Prop} {lo mid hi lo' hi' : Nat} {n : Node}
  {nodes others : List Node}

/-- The offsets are in order. -/
theorem le (h : Nested ok lo hi nodes) : lo ≤ hi := by
  induction h with
  | nil h => exact h
  | absent _ ih | leaf _ _ ih => exact ih
  | tree _ _ _ ihchildren ih | call _ _ _ _ ihchildren ih => omega

/-- There is more room in front of an earlier start. -/
theorem lower (h : Nested ok lo hi nodes) (hlo : lo' ≤ lo) : Nested ok lo' hi nodes := by
  induction h generalizing lo' with
  | nil h => exact .nil (by omega)
  | absent _ ih => exact .absent (ih hlo)
  | leaf content _ ih => exact .leaf content (ih hlo)
  | tree hkind _ h ihchildren _ => exact .tree hkind (ihchildren hlo) h
  | call hstart fit hchildren h => exact .call (by omega) fit hchildren h

/-- Nodes behind nested nodes are nested with them. -/
theorem append (h : Nested ok lo mid nodes) (hothers : Nested ok mid hi others) :
    Nested ok lo hi (nodes ++ others) := by
  induction h with
  | nil h => exact hothers.lower h
  | absent _ ih => exact .absent (ih hothers)
  | leaf content _ ih => exact .leaf content (ih hothers)
  | tree hkind hchildren _ _ ih => exact .tree hkind hchildren (ih hothers)
  | call hstart fit hchildren _ _ ih => exact .call hstart fit hchildren (ih hothers)

/-- A node in front of nested nodes is nested with them. -/
theorem cons (h : Nested ok lo mid [n]) (hothers : Nested ok mid hi others) :
    Nested ok lo hi (n :: others) :=
  append h hothers

/-- A tree around nested nodes is nested like them, unless it is a call. -/
theorem enclose {kind : Kind} (hkind : kind ≠ .call) (span : Option Span)
    (h : Nested ok lo hi nodes) : Nested ok lo hi [.tree kind span nodes] :=
  .tree hkind h (.nil (Nat.le_refl hi))

/-- Nested nodes fall into the first one and the others. -/
theorem of_cons (h : Nested ok lo hi (n :: others)) :
    ∃ mid, Nested ok lo mid [n] ∧ Nested ok mid hi others := by
  cases h with
  | absent h => exact ⟨lo, .absent (.nil (Nat.le_refl lo)), h⟩
  | leaf content h => exact ⟨lo, .leaf content (.nil (Nat.le_refl lo)), h⟩
  | tree hkind hchildren h => exact ⟨_, enclose hkind _ hchildren, h⟩
  | call hstart fit hchildren h =>
    exact ⟨_, .call hstart fit hchildren (.nil (Nat.le_refl _)), h⟩

/-- Nested nodes fall into those in front and those behind. -/
theorem of_append (h : Nested ok lo hi (nodes ++ others)) :
    ∃ mid, Nested ok lo mid nodes ∧ Nested ok mid hi others := by
  induction nodes generalizing lo with
  | nil => exact ⟨lo, .nil (Nat.le_refl lo), h⟩
  | cons first nodes ih =>
    obtain ⟨next, hfirst, hrest⟩ := of_cons h
    obtain ⟨mid, hnodes, hothers⟩ := ih hrest
    exact ⟨mid, hfirst.cons hnodes, hothers⟩

/-- The children of a nested tree are nested. -/
theorem of_tree {kind : Kind} {span : Option Span}
    (h : Nested ok lo hi [.tree kind span nodes]) :
    ∃ a b, lo ≤ a ∧ b ≤ hi ∧ Nested ok a b nodes := by
  cases h with
  | tree _ hchildren h => exact ⟨lo, _, Nat.le_refl lo, h.le, hchildren⟩
  | call hstart _ hchildren h => exact ⟨_, _, hstart, h.le, hchildren⟩

/-- A call is nested by its own span. -/
theorem of_call {span : Option Span} (h : Nested ok lo hi [.tree .call span nodes]) :
    ∃ s, span = some s ∧ ok s nodes ∧ lo ≤ s.start ∧ s.stop ≤ hi ∧
      Nested ok s.start s.stop nodes := by
  cases h with
  | tree hkind => exact absurd rfl hkind
  | call hstart fit hchildren h => exact ⟨_, rfl, fit, hstart, h.le, hchildren⟩

/-- What is known of a call between two offsets. -/
structure Sits (ok : Span → List Node → Prop) (lo hi : Nat) (c : Node) (span : Span)
    (children : List Node) : Prop where
  eq : c = .tree .call (some span) children
  fit : ok span children
  le_start : lo ≤ span.start
  stop_le : span.stop ≤ hi
  nested : Nested ok span.start span.stop children

/-- The calls in nested nodes lie between the offsets, with their own calls inside them. -/
theorem sits (h : Nested ok lo hi nodes) {c : Node} (hc : c ∈ Node.subtreesAll nodes)
    (hkind : c.isKind .call) : ∃ span children, Sits ok lo hi c span children := by
  induction h with
  | nil => cases hc
  | absent _ ih | leaf _ _ ih => exact ih hc
  | @tree lo mid hi kind span children others hne hchildren h ihchildren ih =>
    rw [Node.subtreesAll_cons, Node.subtrees_tree] at hc
    have hlo := hchildren.le
    have hhi := h.le
    rcases List.mem_append.mp hc with hc | hc
    · rcases List.mem_cons.mp hc with rfl | hc
      · rw [Node.isKind, Node.kind?, beq_iff_eq, Option.some.injEq] at hkind
        exact absurd hkind hne
      · obtain ⟨s, inner, heq, fit, hstart, hstop, hnested⟩ := ihchildren hc
        exact ⟨s, inner, heq, fit, hstart, by omega, hnested⟩
    · obtain ⟨s, inner, heq, fit, hstart, hstop, hnested⟩ := ih hc
      exact ⟨s, inner, heq, fit, by omega, hstop, hnested⟩
  | @call lo hi span children others hlo fit hchildren h ihchildren ih =>
    rw [Node.subtreesAll_cons, Node.subtrees_tree] at hc
    have hinside := hchildren.le
    have hhi := h.le
    rcases List.mem_append.mp hc with hc | hc
    · rcases List.mem_cons.mp hc with rfl | hc
      · exact ⟨span, children, rfl, fit, hlo, hhi, hchildren⟩
      · obtain ⟨s, inner, heq, fit, hstart, hstop, hnested⟩ := ihchildren hc
        exact ⟨s, inner, heq, fit, by omega, by omega, hnested⟩
    · obtain ⟨s, inner, heq, fit, hstart, hstop, hnested⟩ := ih hc
      exact ⟨s, inner, heq, fit, by omega, hstop, hnested⟩

/-- The calls in a nested node lie between the offsets, with their own calls inside them. -/
theorem sits_in (h : Nested ok lo hi [n]) {c : Node} (hc : c ∈ n.subtrees)
    (hkind : c.isKind .call) : ∃ span children, Sits ok lo hi c span children := by
  refine h.sits ?_ hkind
  rwa [Node.subtreesAll_cons, Node.subtreesAll, List.append_nil]

/-- The nodes around a place of nested nodes are nested on their own. -/
theorem around (h : Nested ok lo hi nodes) {i : Nat} (hn : nodes[i]? = some n) :
    ∃ a b, lo ≤ a ∧ Nested ok a b [n] ∧ Nested ok b hi (nodes.drop (i + 1)) := by
  obtain ⟨hlt, rfl⟩ := List.getElem?_eq_some_iff.mp hn
  rw [← List.take_append_drop i nodes, List.drop_eq_getElem_cons hlt] at h
  obtain ⟨a, hfront, hrest⟩ := h.of_append
  obtain ⟨b, hnode, hbehind⟩ := hrest.of_cons
  exact ⟨a, b, hfront.le, hnode, hbehind⟩

/-- A node that stands behind another one lies behind it. -/
theorem behind (h : Nested ok lo hi nodes) {i j : Nat} {m : Node} (hij : i < j)
    (hn : nodes[i]? = some n) (hm : nodes[j]? = some m) :
    ∃ a b c d, lo ≤ a ∧ b ≤ c ∧ d ≤ hi ∧ Nested ok a b [n] ∧ Nested ok c d [m] := by
  obtain ⟨a, b, ha, hnode, hrest⟩ := h.around hn
  have hm' : (nodes.drop (i + 1))[j - (i + 1)]? = some m := by
    rw [List.getElem?_drop, ← hm]
    congr 1
    omega
  obtain ⟨c, d, hc, hnode', hrest'⟩ := hrest.around hm'
  exact ⟨a, b, c, d, ha, hc, hrest'.le, hnode, hnode'⟩

/-- What is found at an address of a nested node is nested inside it. -/
theorem at? (h : Nested ok lo hi [n]) {m : Node} {address : List Nat}
    (hm : n.at? address = some m) : ∃ a b, lo ≤ a ∧ b ≤ hi ∧ Nested ok a b [m] := by
  induction address generalizing n lo hi with
  | nil =>
    cases hm
    exact ⟨lo, hi, Nat.le_refl lo, Nat.le_refl hi, h⟩
  | cons i address ih =>
    obtain ⟨child, hchild, hbelow⟩ := Option.bind_eq_some_iff.mp hm
    cases n with
    | absent | leaf _ => simp [Node.children] at hchild
    | tree kind span children =>
      obtain ⟨a, b, ha, hb, hchildren⟩ := h.of_tree
      obtain ⟨c, d, hc, hnode, hrest⟩ := hchildren.around hchild
      have hd := hrest.le
      obtain ⟨x, y, hx, hy, hnested⟩ := ih hnode hbelow
      exact ⟨x, y, by omega, by omega, hnested⟩

/-- The calls of nested nodes start one after the other in the order of a walk over the trees. -/
theorem pairwise (h : Nested ok lo hi nodes) :
    ((Node.subtreesAll nodes).filter (·.isKind .call)).Pairwise Node.StartsNoLater := by
  have hbetween : ∀ {a b c d : Nat} {front back : List Node}, Nested ok a b front →
      Nested ok c d back → b ≤ c →
      ∀ x ∈ (Node.subtreesAll front).filter (·.isKind .call),
        ∀ y ∈ (Node.subtreesAll back).filter (·.isKind .call), Node.StartsNoLater x y := by
    intro a b c d front back hfront hback hbc x hx y hy
    obtain ⟨hx, hxkind⟩ := List.mem_filter.mp hx
    obtain ⟨hy, hykind⟩ := List.mem_filter.mp hy
    obtain ⟨s, _, rfl, -, -, hstop, hnested⟩ := hfront.sits hx hxkind
    obtain ⟨t, _, rfl, -, hstart, -, -⟩ := hback.sits hy hykind
    have hle := hnested.le
    exact Node.startsNoLater_iff.mpr (by omega)
  induction h with
  | nil => exact List.Pairwise.nil
  | absent _ ih | leaf _ _ ih => exact ih
  | tree hkind hchildren h ihchildren ih =>
    rw [Node.subtreesAll_cons, Node.subtrees_tree, List.cons_append,
      List.filter_cons_of_neg (by simpa [Node.isKind, Node.kind?] using hkind),
      List.filter_append]
    exact List.pairwise_append.mpr
      ⟨ihchildren, ih, hbetween hchildren h (Nat.le_refl _)⟩
  | @call lo hi span children others hstart fit hchildren h ihchildren ih =>
    rw [Node.subtreesAll_cons, Node.subtrees_tree, List.cons_append,
      List.filter_cons_of_pos (by simp [Node.isKind, Node.kind?]), List.filter_append]
    refine List.Pairwise.cons ?_ (List.pairwise_append.mpr
      ⟨ihchildren, ih, hbetween hchildren h (Nat.le_refl _)⟩)
    have hle := hchildren.le
    intro y hy
    rcases List.mem_append.mp hy with hy | hy
    · obtain ⟨hy, hkind⟩ := List.mem_filter.mp hy
      obtain ⟨t, _, rfl, -, hinside, -, -⟩ := hchildren.sits hy hkind
      exact Node.startsNoLater_iff.mpr hinside
    · obtain ⟨hy, hkind⟩ := List.mem_filter.mp hy
      obtain ⟨t, _, rfl, -, hinside, -, -⟩ := h.sits hy hkind
      exact Node.startsNoLater_iff.mpr (by omega)

/-- Behind a node that is not selected, what holds of two lists of which the first lies in front of
the second holds of both together. -/
theorem pairwise_filter_cons {select : Node → Bool} {alone : Node → Prop} {root : Node}
    {front back : List Node} (hroot : ¬ select root = true)
    (hfront : (front.filter select).Pairwise Node.Apart ↔ ∀ c ∈ front, select c → alone c)
    (hback : (back.filter select).Pairwise Node.Apart ↔ ∀ c ∈ back, select c → alone c)
    (hcross : ∀ x ∈ front.filter select, ∀ y ∈ back.filter select, Node.Apart x y) :
    ((root :: (front ++ back)).filter select).Pairwise Node.Apart ↔
      ∀ c ∈ root :: (front ++ back), select c → alone c := by
  rw [List.filter_cons_of_neg hroot, List.filter_append, List.pairwise_append]
  simp only [hfront, hback, List.mem_cons, List.mem_append]
  constructor
  · rintro ⟨hinside, hbehind, -⟩ c (rfl | hc | hc) hselect
    · exact absurd hselect hroot
    · exact hinside c hc hselect
    · exact hbehind c hc hselect
  · intro hall
    exact ⟨fun c hc => hall c (Or.inr (Or.inl hc)), fun c hc => hall c (Or.inr (Or.inr hc)), hcross⟩

/-- Among calls that have characters, those selected lie apart exactly when none of them holds
another one. -/
theorem pairwise_apart_iff (hok : ∀ span children, ok span children → span.start < span.stop)
    {select : Node → Bool} (hselect : ∀ n, select n → n.isKind .call) (h : Nested ok lo hi nodes) :
    ((Node.subtreesAll nodes).filter select).Pairwise Node.Apart ↔
      ∀ c ∈ Node.subtreesAll nodes, select c → ∀ d ∈ c.inner, ¬ select d := by
  -- Calls in front of an offset lie apart from the calls behind it.
  have hbetween : ∀ {a b c d : Nat} {front back : List Node}, Nested ok a b front →
      Nested ok c d back → b ≤ c →
      ∀ x ∈ (Node.subtreesAll front).filter select,
        ∀ y ∈ (Node.subtreesAll back).filter select, Node.Apart x y := by
    intro a b c d front back hfront hback hbc x hx y hy
    obtain ⟨hx, hxselect⟩ := List.mem_filter.mp hx
    obtain ⟨hy, hyselect⟩ := List.mem_filter.mp hy
    obtain ⟨s, _, rfl, -, -, hstop, -⟩ := hfront.sits hx (hselect x hxselect)
    obtain ⟨t, _, rfl, -, hstart, -, -⟩ := hback.sits hy (hselect y hyselect)
    exact Node.apart_iff.mpr (Or.inl (by omega))
  induction h with
  | nil => simp [Node.subtreesAll]
  | absent _ ih | leaf _ _ ih => exact ih
  | @tree lo mid hi kind span children others hkind hchildren h ihchildren ih =>
    have htree : ¬ select (.tree kind span children) = true := fun hsel =>
      hkind (by simpa [Node.isKind, Node.kind?] using hselect _ hsel)
    rw [Node.subtreesAll_cons, Node.subtrees_tree, List.cons_append]
    exact pairwise_filter_cons htree ihchildren ih (hbetween hchildren h (Nat.le_refl _))
  | @call lo hi span children others hstart fit hchildren h ihchildren ih =>
    have hcross := hbetween hchildren h (Nat.le_refl _)
    rw [Node.subtreesAll_cons, Node.subtrees_tree, List.cons_append]
    by_cases hcall : select (.tree .call (some span) children) = true
    · -- A selected call lies apart from those behind it, and from none of those inside it.
      rw [List.filter_cons_of_pos hcall, List.filter_append, List.pairwise_cons,
        List.pairwise_append]
      simp only [ihchildren, ih, List.mem_cons, List.mem_append]
      constructor
      · rintro ⟨hapart, hinside, hbehind, -⟩ c (rfl | hc | hc) hsel
        · intro d hd hdsel
          have hmem : d ∈ (Node.subtreesAll children).filter select :=
            List.mem_filter.mpr ⟨hd, hdsel⟩
          obtain ⟨t, _, rfl, hfit, hlow, hhigh, -⟩ := hchildren.sits hd (hselect d hdsel)
          have hlt := hok _ _ hfit
          have happart := Node.apart_iff.mp (hapart _ (Or.inl hmem))
          omega
        · exact hinside c hc hsel
        · exact hbehind c hc hsel
      · intro hall
        have hnone : (Node.subtreesAll children).filter select = [] :=
          List.filter_eq_nil_iff.mpr (hall _ (Or.inl rfl) hcall)
        refine ⟨?_, fun c hc => hall c (Or.inr (Or.inl hc)),
          fun c hc => hall c (Or.inr (Or.inr hc)), hcross⟩
        rintro d (hd | hd)
        · rw [hnone] at hd
          cases hd
        · obtain ⟨hd, hdsel⟩ := List.mem_filter.mp hd
          obtain ⟨t, _, rfl, -, hlow, -, -⟩ := h.sits hd (hselect d hdsel)
          exact Node.apart_iff.mpr (Or.inl hlow)
    · exact pairwise_filter_cons hcall ihchildren ih hcross

end Nested

/-- The calls of a tree lie inside the calls that they are found in, apart from all others, and
start in the order of a walk over the tree. -/
structure Laminar (tree : Node) : Prop where
  /-- A call below another one lies inside it. -/
  within (outer inner : List Nat) (c d : Node) (hc : tree.at? outer = some c)
    (hd : tree.at? (outer ++ inner) = some d) (hcall : c.isKind .call) (hdcall : d.isKind .call) :
    ∃ s t, c.extent? = some s ∧ d.extent? = some t ∧ s.1 ≤ t.1 ∧ t.2 ≤ s.2
  /-- Two calls neither of which is below the other one lie apart. -/
  apart (first second : List Nat) (c d : Node) (hc : tree.at? first = some c)
    (hd : tree.at? second = some d) (hcall : c.isKind .call) (hdcall : d.isKind .call)
    (hfirst : ¬ first <+: second) (hsecond : ¬ second <+: first) :
    ∃ s t, c.extent? = some s ∧ d.extent? = some t ∧ (s.2 ≤ t.1 ∨ t.2 ≤ s.1)
  /-- Calls start in the order of a walk. -/
  ordered : (tree.subtrees.filter (·.isKind .call)).Pairwise Node.StartsNoLater

/-- Two lists neither of which is the beginning of the other part at some place. -/
theorem exists_fork {first second : List Nat} (hfirst : ¬ first <+: second)
    (hsecond : ¬ second <+: first) :
    ∃ common i j front back, first = common ++ i :: front ∧ second = common ++ j :: back ∧
      i ≠ j := by
  induction first generalizing second with
  | nil => exact absurd List.nil_prefix hfirst
  | cons i front ih =>
    cases second with
    | nil => exact absurd List.nil_prefix hsecond
    | cons j back =>
      by_cases hij : i = j
      · subst hij
        rw [List.prefix_cons_inj] at hfirst hsecond
        obtain ⟨common, k, l, front', back', rfl, rfl, hkl⟩ := ih hfirst hsecond
        exact ⟨i :: common, k, l, front', back', rfl, rfl, hkl⟩
      · exact ⟨[], i, j, front, back, rfl, rfl, hij⟩

/-- The calls of a nested tree are laminar. -/
theorem Nested.laminar {ok : Span → List Node → Prop} {lo hi : Nat} {n : Node}
    (h : Nested ok lo hi [n]) : Laminar n := by
  -- A call that is nested between two offsets has a span between them.
  have hspan : ∀ {a b : Nat} {c : Node}, Nested ok a b [c] → c.isKind .call →
      ∃ s children, c = .tree .call (some s) children ∧ a ≤ s.start ∧ s.stop ≤ b := by
    intro a b c hc hkind
    have hmem : c ∈ c.subtrees := by
      cases c with
      | absent | leaf _ => cases hkind
      | tree kind span children =>
        rw [Node.subtrees_tree]
        exact List.mem_cons_self
    obtain ⟨s, children, heq, -, hstart, hstop, -⟩ := hc.sits_in hmem hkind
    exact ⟨s, children, heq, hstart, hstop⟩
  refine ⟨?_, ?_, ?_⟩
  -- A call under another one is found by going down from it.
  · intro outer inner c d hc hd hcall hdcall
    obtain ⟨a, b, -, -, hnested⟩ := h.at? hc
    obtain ⟨s, children, rfl, -, -⟩ := hspan hnested hcall
    obtain ⟨_, ⟨⟩, -, -, -, hchildren⟩ := hnested.of_call
    rw [Node.at?_append, hc, Option.bind_some] at hd
    cases inner with
    | nil =>
      cases hd
      exact ⟨_, _, rfl, rfl, Nat.le_refl _, Nat.le_refl _⟩
    | cons i inner =>
      obtain ⟨child, hchild, hd⟩ := Option.bind_eq_some_iff.mp hd
      obtain ⟨x, y, hx, hchild, hrest⟩ := hchildren.around hchild
      have hy := hrest.le
      obtain ⟨u, v, hu, hv, hd⟩ := hchild.at? hd
      obtain ⟨t, _, rfl, hstart, hstop⟩ := hspan hd hdcall
      exact ⟨_, _, rfl, rfl, by dsimp only; omega, by dsimp only; omega⟩
  -- Two paths of which neither goes on the other one part at a node, into different children.
  · intro first second c d hc hd hcall hdcall hfirst hsecond
    obtain ⟨common, i, j, front, back, rfl, rfl, hij⟩ := exists_fork hfirst hsecond
    rw [Node.at?_append] at hc hd
    obtain ⟨fork, hfork, hc⟩ := Option.bind_eq_some_iff.mp hc
    rw [hfork, Option.bind_some] at hd
    obtain ⟨left, hleft, hunder⟩ := Option.bind_eq_some_iff.mp hc
    obtain ⟨right, hright, hunder'⟩ := Option.bind_eq_some_iff.mp hd
    obtain ⟨a, b, -, -, hnested⟩ := h.at? hfork
    cases fork with
    | absent | leaf _ => simp [Node.children] at hleft
    | tree kind span children =>
      obtain ⟨a', b', -, -, hchildren⟩ := hnested.of_tree
      rcases Nat.lt_or_gt_of_ne hij with hlt | hlt
      · obtain ⟨w, x, y, z, -, hxy, -, hl, hr⟩ := hchildren.behind hlt hleft hright
        obtain ⟨_, _, -, hx', hl⟩ := hl.at? hunder
        obtain ⟨_, _, hy', -, hr⟩ := hr.at? hunder'
        obtain ⟨s, _, rfl, -, hstop⟩ := hspan hl hcall
        obtain ⟨t, _, rfl, hstart, -⟩ := hspan hr hdcall
        exact ⟨_, _, rfl, rfl, Or.inl (by dsimp only; omega)⟩
      · obtain ⟨w, x, y, z, -, hxy, -, hr, hl⟩ := hchildren.behind hlt hright hleft
        obtain ⟨_, _, -, hx', hr⟩ := hr.at? hunder'
        obtain ⟨_, _, hy', -, hl⟩ := hl.at? hunder
        obtain ⟨s, _, rfl, hstart, -⟩ := hspan hl hcall
        obtain ⟨t, _, rfl, -, hstop⟩ := hspan hr hdcall
        exact ⟨_, _, rfl, rfl, Or.inr (by dsimp only; omega)⟩
  · have hpairwise := h.pairwise
    rwa [Node.subtreesAll_cons, Node.subtreesAll, List.append_nil] at hpairwise

end XhrKeywords.Syntax
