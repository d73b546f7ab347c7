import XhrKeywords.Proofs.Syntax.Form

/-!
# Trees inside trees

A tree anywhere in a tree of the grammar fits in a place of its own. A call is a value there: its
receiver and its arguments fit, and the condition on kinds and spans holds of it.
-/

namespace XhrKeywords.Syntax

namespace Node

/-- The trees of several nodes are those of each of them. -/
theorem mem_subtreesAll {nodes : List Node} {c : Node} :
    c ∈ subtreesAll nodes ↔ ∃ n ∈ nodes, c ∈ subtrees n := by
  induction nodes with
  | nil => simp [subtreesAll]
  | cons n others ih => simp [subtreesAll, ih]

mutual

/-- The trees of a tree in a node are trees of the node. -/
theorem mem_subtrees_trans {n list t : Node} (ht : t ∈ list.subtrees) (hlist : list ∈ n.subtrees) :
    t ∈ n.subtrees := by
  match n with
  | .absent | .leaf _ => cases hlist
  | .tree kind span children =>
    rw [subtrees] at hlist ⊢
    rcases List.mem_cons.mp hlist with rfl | hlist
    · rwa [subtrees] at ht
    · exact List.mem_cons_of_mem _ (mem_subtreesAll_trans ht hlist)

/-- The same for several nodes. -/
theorem mem_subtreesAll_trans {nodes : List Node} {list t : Node} (ht : t ∈ list.subtrees)
    (hlist : list ∈ subtreesAll nodes) : t ∈ subtreesAll nodes := by
  match nodes with
  | [] => cases hlist
  | n :: others =>
    rw [subtreesAll, List.mem_append] at hlist ⊢
    exact hlist.imp (mem_subtrees_trans ht) (mem_subtreesAll_trans ht)

end

/-- A leaf has no trees. -/
theorem subtrees_leaf (content : Leaf) : subtrees (leaf content) = [] := rfl

end Node

variable {ok : Kind → Option Span → Prop}

/-- The calls in a node are values. -/
def CallsFit (ok : Kind → Option Span → Prop) (n : Node) : Prop :=
  ∀ c ∈ n.subtrees, c.isKind .call → Fits ok .value c

/-- The calls in a tree are values if those in its children are, and so is the tree if it is a call
itself. -/
theorem callsFit_tree {kind : Kind} {span : Option Span} {children : List Node}
    (hself : kind = .call → Fits ok .value (.tree kind span children))
    (hchildren : ∀ n ∈ children, CallsFit ok n) : CallsFit ok (.tree kind span children) := by
  intro c hc hkind
  rw [Node.subtrees] at hc
  rcases List.mem_cons.mp hc with rfl | hc
  · rw [Node.isKind, Node.kind?, beq_iff_eq, Option.some.injEq] at hkind
    exact hself hkind
  · obtain ⟨n, hn, hc⟩ := Node.mem_subtreesAll.mp hc
    exact hchildren n hn c hc hkind

/-- The trees of a node fit in places of their own; only the classes of a `rescue` clause are in a
list that has no place elsewhere. -/
def Conforms (ok : Kind → Option Span → Prop) (n : Node) : Prop :=
  ∀ c ∈ n.subtrees, c.isKind .excList ∨ ∃ form, Fits ok form c

theorem conforms_leaf (content : Leaf) : Conforms ok (.leaf content) :=
  fun _ hc => absurd hc List.not_mem_nil

theorem conforms_absent : Conforms ok .absent :=
  fun _ hc => absurd hc List.not_mem_nil

/-- The trees of a tree are itself and those of its children. -/
theorem conforms_tree {kind : Kind} {span : Option Span} {children : List Node}
    (hself : kind = .excList ∨ ∃ form, Fits ok form (.tree kind span children))
    (hchildren : ∀ n ∈ children, Conforms ok n) : Conforms ok (.tree kind span children) := by
  intro c hc
  rw [Node.subtrees] at hc
  rcases List.mem_cons.mp hc with rfl | hc
  · exact hself.imp_left fun hkind => by rw [hkind]; rfl
  · obtain ⟨n, hn, hc⟩ := Node.mem_subtreesAll.mp hc
    exact hchildren n hn c hc

/-- What fits conforms to the grammar all the way down. -/
theorem Fits.conforms {form : Form} {n : Node} (h : Fits ok form n) : Conforms ok n := by
  have hleaf : ∀ content, Conforms ok (.leaf content) := conforms_leaf
  have habsent : Conforms ok .absent := conforms_absent
  -- Each form is one of the descriptions of a tree; leaves and missing parts conform by themselves.
  induction h with
  | literal literal fit content =>
    exact conforms_tree (.inr ⟨_, .literal literal fit content⟩) (by simp [hleaf])
  | word word fit => exact conforms_tree (.inr ⟨_, .word word fit⟩) (by simp)
  | series series fit all ih => exact conforms_tree (.inr ⟨_, .series series fit all⟩) ih
  | single single fit hinner ih =>
    exact conforms_tree (.inr ⟨_, .single single fit hinner⟩) (by simpa using ih)
  | couple couple fit hfirst hsecond ihfirst ihsecond =>
    exact conforms_tree (.inr ⟨_, .couple couple fit hfirst hsecond⟩) (by simp [ihfirst, ihsecond])
  | operation operation fit hleft operator hright ihleft ihright =>
    exact conforms_tree (.inr ⟨_, .operation operation fit hleft operator hright⟩)
      (by simp [hleaf, ihleft, ihright])
  | range fit hlower operator hupper ihlower ihupper =>
    exact conforms_tree (.inr ⟨_, .range fit hlower operator hupper⟩)
      (by simp [hleaf, ihlower, ihupper])
  | unop fit operator hinner ih =>
    exact conforms_tree (.inr ⟨_, .unop fit operator hinner⟩) (by simp [hleaf, ih])
  | ternary fit htest hfirst hother ihtest ihfirst ihother =>
    exact conforms_tree (.inr ⟨_, .ternary fit htest hfirst hother⟩)
      (by simp [ihtest, ihfirst, ihother])
  | masgn fit htuple htargets hvalue ihtargets ihvalue =>
    have hinner := conforms_tree (.inr ⟨_, .series rfl htuple htargets⟩) ihtargets
    exact conforms_tree (.inr ⟨_, .masgn fit htuple htargets hvalue⟩) (by simp [hinner, ihvalue])
  | const fit hscope name ih =>
    exact conforms_tree (.inr ⟨_, .const fit hscope name⟩) (by simp [hleaf, ih])
  | modifier modifier fit keyword hinner htest ihinner ihtest =>
    exact conforms_tree (.inr ⟨_, .modifier modifier fit keyword hinner htest⟩)
      (by simp [hleaf, ihinner, ihtest])
  | call call fit hreceiver name harguments ihreceiver iharguments =>
    refine conforms_tree (.inr ⟨_, .call call fit hreceiver name harguments⟩) ?_
    simp only [List.forall_mem_cons]
    exact ⟨ihreceiver, hleaf name, iharguments⟩
  | index fit hreceiver harguments ihreceiver iharguments =>
    refine conforms_tree (.inr ⟨_, .index fit hreceiver harguments⟩) ?_
    simp only [List.forall_mem_cons]
    exact ⟨ihreceiver, iharguments⟩
  | block fit hcall hbound hinner style braces ihcall ihbound ihinner =>
    exact conforms_tree (.inr ⟨_, .block fit hcall hbound hinner style braces⟩)
      (by simp [hleaf, ihcall, ihbound, ihinner])
  | lambda fit hbound hinner style braces ihbound ihinner =>
    exact conforms_tree (.inr ⟨_, .lambda fit hbound hinner style braces⟩)
      (by simp [hleaf, ihbound, ihinner])
  | definition fit howner name hlisted hargs hinner ihowner ihargs ihinner =>
    have hparameters := conforms_tree (.inr ⟨_, .parameters hlisted hargs⟩) ihargs
    exact conforms_tree (.inr ⟨_, .definition fit howner name hlisted hargs hinner⟩)
      (by simp [hleaf, ihowner, hparameters, ihinner])
  | classDefinition fit hpath hparent hinner ihpath ihparent ihinner =>
    exact conforms_tree (.inr ⟨_, .classDefinition fit hpath hparent hinner⟩)
      (by simp [ihpath, ihparent, ihinner])
  | named named fit hname hinner ihname ihinner =>
    exact conforms_tree (.inr ⟨_, .named named fit hname hinner⟩) (by simp [ihname, ihinner])
  | condition fit keyword htest hinner hother ihtest ihinner ihother =>
    exact conforms_tree (.inr ⟨_, .condition fit keyword htest hinner hother⟩)
      (by simp [hleaf, ihtest, ihinner, ihother])
  | whileLoop fit keyword htest hinner ihtest ihinner =>
    exact conforms_tree (.inr ⟨_, .whileLoop fit keyword htest hinner⟩)
      (by simp [hleaf, ihtest, ihinner])
  | forLoop fit hbound hcollection hinner ihbound ihcollection ihinner =>
    exact conforms_tree (.inr ⟨_, .forLoop fit hbound hcollection hinner⟩)
      (by simp [ihbound, ihcollection, ihinner])
  | caseChoice fit hsubject some hclauses hother ihsubject ihclauses ihother =>
    refine conforms_tree (.inr ⟨_, .caseChoice fit hsubject some hclauses hother⟩) ?_
    simp only [List.forall_mem_cons, List.forall_mem_append]
    exact ⟨ihsubject, ihclauses, ihother, by simp⟩
  | beginBlock fit hinner ih =>
    exact conforms_tree (.inr ⟨_, .beginBlock fit hinner⟩) (by simpa using ih)
  | absent | noSignature | nothing => exact habsent
  | present _ ih | plain _ ih | branch _ ih | conditional _ _ ih => exact ih
  | body fit all ih => exact conforms_tree (.inr ⟨_, .body fit all⟩) ih
  | bodyStatement fit hmain hclauses ihmain ihclauses =>
    refine conforms_tree (.inr ⟨_, .bodyStatement fit hmain hclauses⟩) ?_
    simp only [List.forall_mem_cons]
    exact ⟨ihmain, ihclauses⟩
  | @rescueClause _ listed _ _ _ fit hlisted hclasses hbound hhandler ihclasses ihbound ihhandler =>
    have hinner : Conforms ok (.tree .excList listed _) := conforms_tree (.inl rfl) ihclasses
    exact conforms_tree (.inr ⟨_, .rescueClause fit hlisted hclasses hbound hhandler⟩)
      (by simp [hinner, ihbound, ihhandler])
  | bodyClause bodyClause fit hinner ih =>
    exact conforms_tree (.inr ⟨_, .bodyClause bodyClause fit hinner⟩) (by simpa using ih)
  | whenClause fit hvalues hinner ihvalues ihinner =>
    refine conforms_tree (.inr ⟨_, .whenClause fit hvalues hinner⟩) ?_
    simp only [List.forall_mem_append, List.forall_mem_singleton]
    exact ⟨ihvalues, ihinner⟩
  | plainParameter plain fit all =>
    refine conforms_tree (.inr ⟨_, .plainParameter plain fit all⟩) ?_
    intro n hn
    cases n with
    | leaf content => exact hleaf content
    | absent | tree => cases all _ hn
  | defaultParameter withDefault fit name hvalue ih =>
    exact conforms_tree (.inr ⟨_, .defaultParameter withDefault fit name hvalue⟩)
      (by simp [hleaf, ih])
  | parameterGroup fit all ih => exact conforms_tree (.inr ⟨_, .parameterGroup fit all⟩) ih
  | parameters fit all ih => exact conforms_tree (.inr ⟨_, .parameters fit all⟩) ih

/-- A call that fits anywhere is a value. -/
theorem Fits.value_of_call {form : Form} {kind : Kind} {span : Option Span}
    {children : List Node} (h : Fits ok form (.tree kind span children))
    (hkind : kind = .call ∨ kind = .csend) : Fits ok .value (.tree kind span children) := by
  have hsuite : ¬ Fits ok .suite (.tree kind span children) := by
    intro h
    rcases hkind with rfl | rfl <;> (cases h with | plain h => cases h)
  cases form with
  | value => exact h
  | optional => cases h with | present h => exact h
  | statements => rcases hkind with rfl | rfl <;> cases h
  | suite => exact absurd h hsuite
  | otherwise =>
    cases h with
    | branch h => exact absurd h hsuite
    | conditional _ h => exact h
  | clause => rcases hkind with rfl | rfl <;> (cases h with | bodyClause hclause => simp at hclause)
  | choice => rcases hkind with rfl | rfl <;> cases h
  | parameter =>
    rcases hkind with rfl | rfl <;> (cases h with
      | plainParameter hplain => cases hplain
      | defaultParameter hdefault => simp at hdefault)
  | signature => rcases hkind with rfl | rfl <;> cases h

/-- The calls in a node that fits are values. -/
theorem Fits.calls {form : Form} {n : Node} (h : Fits ok form n) : CallsFit ok n := by
  intro c hc hkind
  cases c with
  | absent | leaf _ => cases hkind
  | tree kind span children =>
    obtain rfl : kind = .call := by simpa [Node.isKind, Node.kind?] using hkind
    rcases h.conforms _ hc with hlist | ⟨form, hfits⟩
    · cases hlist
    · exact hfits.value_of_call (.inl rfl)

end XhrKeywords.Syntax
