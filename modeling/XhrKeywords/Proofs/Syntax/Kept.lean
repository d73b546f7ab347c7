import XhrKeywords.Proofs.Syntax.Leaves
import XhrKeywords.Proofs.Syntax.Nested
import XhrKeywords.Proofs.Token.Order

/-!
# Kept tokens

No literal and no name of a source is lost, doubled or moved on the way into a tree. `Kept` says so
by going through a forest from left to right, next to the tokens: a leaf stands for the next literal
or name, or for a token of another kind, and what is passed over holds none. The trees that make a
remark about a token are those whose leaves differ from it.
-/

namespace XhrKeywords

namespace Syntax

/-- Between two offsets starts no literal and no name. -/
structure Gap (tokens : List Token) (lo hi : Nat) : Prop where
  le : lo ≤ hi
  free : ∀ t ∈ tokens, t.kind.isAtom → t.start < lo ∨ hi ≤ t.start

/-- Between two offsets starts one literal or name and no other one. -/
structure Sole (tokens : List Token) (t : Token) (lo hi : Nat) : Prop where
  mem : t ∈ tokens
  atom : t.kind.isAtom
  front : Gap tokens lo t.start
  behind : Gap tokens (t.start + 1) hi

/-- A leaf that starts with no literal and no name. -/
def IsUnkept (tokens : List Token) (content : Leaf) : Prop :=
  ∀ t ∈ tokens, t.kind.isAtom → content.isAt t.start = false

/-- What a bare name stands for: a variable or a call without arguments. -/
inductive Reference (content : Leaf) : Node → Prop
  | lvar (span : Option Span) : Reference content (.tree .lvar span [.leaf content])
  | call (span : Option Span) : Reference content (.tree .call span [.absent, .leaf content])

/-- What a method is defined on, between two offsets: nothing, `self`, a variable or a constant. -/
inductive Owner (tokens : List Token) (lo hi : Nat) : Node → Prop
  | none (gap : Gap tokens lo hi) : Owner tokens lo hi .absent
  | self {t : Token} {span : Span} (sole : Sole tokens t lo hi) (htext : t.text = "self")
      (hspan : span.start = t.start) : Owner tokens lo hi (.tree .selfRef (some span) [])
  | lvar {t : Token} {span : Option Span} {content : Leaf} (sole : Sole tokens t lo hi)
      (hstart : content.isAt t.start) (htext : content.text = t.text) :
      Owner tokens lo hi (.tree .lvar span [.leaf content])
  | const {t : Token} {span : Option Span} {content : Leaf} (sole : Sole tokens t lo hi)
      (hstart : content.isAt t.start) (htext : content.text = t.text) :
      Owner tokens lo hi (.tree .const span [.absent, .leaf content])

/-- The name of a method that is defined, between two offsets: an operator or a name, which takes up
the equals sign of a setter. -/
inductive MethodName (tokens : List Token) (lo hi : Nat) (content : Leaf) : Prop
  | operator (gap : Gap tokens lo hi) (hunkept : IsUnkept tokens content)
  | name {before behind : List Token} {t : Token} (sole : Sole tokens t lo hi)
      (hsplit : tokens = before ++ t :: behind) (hstart : content.isAt t.start)
      (htext : content.text = if opensSetter behind then t.text ++ "=" else t.text)

/-- The trees that make remarks, so that their leaves need not be their tokens. -/
def Kind.rewords : Kind → Bool
  | .pair | .int | .float | .defStmt => true
  | _ => false

/-- A label at an offset has its value behind it. -/
def Valued (tokens : List Token) (offset : Nat) : Prop :=
  ∀ before t behind, tokens = before ++ t :: behind → t.kind = .label → t.start = offset →
    omitsValue behind = false

/-- `Kept tokens lo hi nodes` says that the literals and names that start between the offsets are
leaves of the nodes, each once, in order and with its text, apart from those about which a tree of
the nodes makes a remark. -/
inductive Kept (tokens : List Token) : Nat → Nat → List Node → Prop
  | nil {lo hi} (gap : Gap tokens lo hi) : Kept tokens lo hi []
  | absent {lo hi others} (h : Kept tokens lo hi others) : Kept tokens lo hi (.absent :: others)
  | mark {lo hi content others} (hunkept : IsUnkept tokens content) (h : Kept tokens lo hi others) :
      Kept tokens lo hi (.leaf content :: others)
  | atom {lo mid hi t content others} (sole : Sole tokens t lo mid)
      (hstart : content.isAt t.start) (htext : content.text = t.text)
      (h : Kept tokens mid hi others) : Kept tokens lo hi (.leaf content :: others)
  | tree {lo mid hi kind span children others} (hkind : kind.rewords = false)
      (hchildren : Kept tokens lo mid children) (h : Kept tokens mid hi others) :
      Kept tokens lo hi (.tree kind span children :: others)
  | pair {lo mid hi span children others} (hlo : lo ≤ span.start) (hhi : span.start < mid)
      (hvalued : Valued tokens span.start) (hchildren : Kept tokens lo mid children)
      (h : Kept tokens mid hi others) :
      Kept tokens lo hi (.tree .pair (some span) children :: others)
  | repeated {lo mid hi before t behind span keySpan key name value others}
      (sole : Sole tokens t lo mid) (hsplit : tokens = before ++ t :: behind)
      (hlabel : t.kind = .label) (homits : omitsValue behind) (hspan : span.start = t.start)
      (hkey : key.isAt t.start ∧ key.text = t.text)
      (hname : name.isAt t.start ∧ name.text = t.text) (hvalue : Reference name value)
      (h : Kept tokens mid hi others) :
      Kept tokens lo hi (.tree .pair (some span) [.tree .sym keySpan [.leaf key], value] :: others)
  | number {lo mid hi t kind span content others} (sole : Sole tokens t lo mid)
      (hkind : kind = .int ∨ kind = .float) (hnumber : t.kind = .int ∨ t.kind = .float)
      (hstart : content.isAt t.start)
      (htext : content.text = if span.start < t.start then "-" ++ t.text else t.text)
      (h : Kept tokens mid hi others) :
      Kept tokens lo hi (.tree kind (some span) [.leaf content] :: others)
  | method {lo low high mid hi span owner name children others} (howner : Owner tokens lo low owner)
      (hname : MethodName tokens low high name) (hchildren : Kept tokens high mid children)
      (h : Kept tokens mid hi others) :
      Kept tokens lo hi (.tree .defStmt span (owner :: .leaf name :: children) :: others)

variable {tokens : List Token} {lo low mid hi : Nat} {t : Token} {n : Node}
  {nodes others : List Node}

namespace Gap

/-- Nothing starts between an offset and itself. -/
theorem refl (tokens : List Token) (lo : Nat) : Gap tokens lo lo :=
  ⟨Nat.le_refl lo, fun t _ _ => Nat.lt_or_ge t.start lo⟩

theorem trans (h : Gap tokens lo mid) (hothers : Gap tokens mid hi) : Gap tokens lo hi := by
  refine ⟨Nat.le_trans h.le hothers.le, fun t ht hatom => ?_⟩
  have := h.free t ht hatom
  have := hothers.free t ht hatom
  omega

end Gap

namespace Sole

theorem le (h : Sole tokens t lo hi) : lo ≤ t.start ∧ t.start < hi :=
  ⟨h.front.le, h.behind.le⟩

/-- Nothing starts between an offset and an earlier one. -/
theorem lower (h : Sole tokens t mid hi) (hgap : Gap tokens lo mid) : Sole tokens t lo hi :=
  ⟨h.mem, h.atom, hgap.trans h.front, h.behind⟩

/-- Nothing starts between an offset and a later one. -/
theorem extend (h : Sole tokens t lo mid) (hgap : Gap tokens mid hi) : Sole tokens t lo hi :=
  ⟨h.mem, h.atom, h.front, h.behind.trans hgap⟩

end Sole

theorem Owner.lower {owner : Node} (h : Owner tokens mid hi owner) (hgap : Gap tokens lo mid) :
    Owner tokens lo hi owner := by
  cases h with
  | none gap => exact .none (hgap.trans gap)
  | self sole htext hspan => exact .self (sole.lower hgap) htext hspan
  | lvar sole hstart htext => exact .lvar (sole.lower hgap) hstart htext
  | const sole hstart htext => exact .const (sole.lower hgap) hstart htext

namespace Kept

/-- Nothing starts between an offset and an earlier one. -/
theorem lower (h : Kept tokens mid hi nodes) (hgap : Gap tokens lo mid) :
    Kept tokens lo hi nodes := by
  induction h generalizing lo with
  | nil gap => exact .nil (hgap.trans gap)
  | absent _ ih => exact .absent (ih hgap)
  | mark hunkept _ ih => exact .mark hunkept (ih hgap)
  | atom sole hstart htext h => exact .atom (sole.lower hgap) hstart htext h
  | tree hkind _ h ihchildren => exact .tree hkind (ihchildren hgap) h
  | pair hlo hhi hvalued _ h ihchildren =>
    exact .pair (Nat.le_trans hgap.le hlo) hhi hvalued (ihchildren hgap) h
  | repeated sole hsplit hlabel homits hspan hkey hname hvalue h =>
    exact .repeated (sole.lower hgap) hsplit hlabel homits hspan hkey hname hvalue h
  | number sole hkind hnumber hstart htext h =>
    exact .number (sole.lower hgap) hkind hnumber hstart htext h
  | method howner hname hchildren h => exact .method (howner.lower hgap) hname hchildren h

/-- Nodes behind others keep what starts behind what they keep. -/
theorem append (h : Kept tokens lo mid nodes) (hothers : Kept tokens mid hi others) :
    Kept tokens lo hi (nodes ++ others) := by
  induction h with
  | nil gap => exact hothers.lower gap
  | absent _ ih => exact .absent (ih hothers)
  | mark hunkept _ ih => exact .mark hunkept (ih hothers)
  | atom sole hstart htext _ ih => exact .atom sole hstart htext (ih hothers)
  | tree hkind hchildren _ _ ih => exact .tree hkind hchildren (ih hothers)
  | pair hlo hhi hvalued hchildren _ _ ih => exact .pair hlo hhi hvalued hchildren (ih hothers)
  | repeated sole hsplit hlabel homits hspan hkey hname hvalue _ ih =>
    exact .repeated sole hsplit hlabel homits hspan hkey hname hvalue (ih hothers)
  | number sole hkind hnumber hstart htext _ ih =>
    exact .number sole hkind hnumber hstart htext (ih hothers)
  | method howner hname hchildren _ _ ih => exact .method howner hname hchildren (ih hothers)

/-- Where there are no nodes nothing is kept. -/
theorem gap (h : Kept tokens lo hi []) : Gap tokens lo hi := by
  cases h with
  | nil gap => exact gap

/-- What several nodes keep falls into what the first one and what the others keep. -/
theorem of_cons (h : Kept tokens lo hi (n :: others)) :
    ∃ mid, Kept tokens lo mid [n] ∧ Kept tokens mid hi others := by
  have hnone : ∀ lo, Kept tokens lo lo [] := fun lo => .nil (.refl tokens lo)
  cases h with
  | absent h => exact ⟨lo, .absent (hnone lo), h⟩
  | mark hunkept h => exact ⟨lo, .mark hunkept (hnone lo), h⟩
  | atom sole hstart htext h => exact ⟨_, .atom sole hstart htext (hnone _), h⟩
  | tree hkind hchildren h => exact ⟨_, .tree hkind hchildren (hnone _), h⟩
  | pair hlo hhi hvalued hchildren h =>
    exact ⟨_, .pair hlo hhi hvalued hchildren (hnone _), h⟩
  | repeated sole hsplit hlabel homits hspan hkey hname hvalue h =>
    exact ⟨_, .repeated sole hsplit hlabel homits hspan hkey hname hvalue (hnone _), h⟩
  | number sole hkind hnumber hstart htext h =>
    exact ⟨_, .number sole hkind hnumber hstart htext (hnone _), h⟩
  | method howner hname hchildren h => exact ⟨_, .method howner hname hchildren (hnone _), h⟩

/-- What several nodes keep falls into what those in front and what those behind keep. -/
theorem of_append (h : Kept tokens lo hi (nodes ++ others)) :
    ∃ mid, Kept tokens lo mid nodes ∧ Kept tokens mid hi others := by
  induction nodes generalizing lo with
  | nil => exact ⟨lo, .nil (.refl tokens lo), h⟩
  | cons first nodes ih =>
    obtain ⟨next, hfirst, hrest⟩ := of_cons h
    obtain ⟨mid, hnodes, hothers⟩ := ih hrest
    exact ⟨mid, hfirst.append hnodes, hothers⟩

/-- A tree keeps what its children keep, unless it rewords them. -/
theorem enclose {kind : Kind} (hkind : kind.rewords = false) (span : Option Span)
    (h : Kept tokens lo hi nodes) : Kept tokens lo hi [.tree kind span nodes] :=
  .tree hkind h (.nil (.refl tokens hi))

/-- A variable keeps what the call keeps that is its name alone. -/
theorem of_bareCall {span : Option Span} {name : Leaf} {role : Role}
    (h : Kept tokens lo hi [.tree .call span [.absent, .leaf name]]) :
    Kept tokens lo hi [.tree .lvar span [.leaf { name with role }]] := by
  cases h with
  | tree _ hchildren h =>
    cases hchildren with
    | absent hchildren =>
      refine .tree rfl ?_ h
      cases hchildren with
      | mark hunkept hnone => exact .mark hunkept hnone
      | atom sole hstart htext hnone => exact .atom sole hstart htext hnone

end Kept

end Syntax

namespace Token.InOrder

open Syntax

variable {tokens before behind : List Token} {t u : Token} {content : Leaf}

/-- A literal or a name has its characters to itself. -/
theorem sole (h : InOrder tokens) (ht : t ∈ tokens) (hatom : t.kind.isAtom) :
    Sole tokens t t.start t.stop := by
  have hsolid := h.solid t ht (Kind.ne_eof_of_isAtom hatom)
  refine ⟨ht, hatom, .refl tokens _, by omega, fun u hu hother => ?_⟩
  have hsolid' := h.solid u hu (Kind.ne_eof_of_isAtom hother)
  rcases h.apart ht hu with rfl | hle | hle <;> omega

/-- In a token of another kind starts no literal and no name. -/
theorem gap (h : InOrder tokens) (ht : t ∈ tokens) (hmark : t.kind.isMark) :
    Gap tokens t.start t.stop := by
  have hsolid := h.solid t ht (Kind.ne_eof_of_isMark hmark)
  refine ⟨Nat.le_of_lt hsolid, fun u hu hatom => ?_⟩
  have hsolid' := h.solid u hu (Kind.ne_eof_of_isAtom hatom)
  rcases h.apart ht hu with rfl | hle | hle
  · rw [Kind.isAtom_of_isMark hmark] at hatom
    cases hatom
  · omega
  · omega

/-- Between a token and the next one starts no literal and no name. -/
theorem gap_between (h : InOrder tokens) (hsplit : tokens = before ++ t :: u :: behind) :
    Gap tokens t.stop u.start := by
  have hsolid := h.solid t (by simp [hsplit]) (h.ne_eof_of_behind hsplit (List.cons_ne_nil _ _))
  have hpairwise := h.behind
  rw [hsplit] at hpairwise
  obtain ⟨-, hrest, hcross⟩ := List.pairwise_append.mp hpairwise
  obtain ⟨hnext, hrest⟩ := List.pairwise_cons.mp hrest
  refine ⟨hnext u List.mem_cons_self, fun v hv hatom => ?_⟩
  have hsolid' := h.solid v hv (Kind.ne_eof_of_isAtom hatom)
  rw [hsplit] at hv
  rcases List.mem_append.mp hv with hv | hv
  · have := hcross v hv t List.mem_cons_self
    omega
  · rcases List.mem_cons.mp hv with rfl | hv
    · exact Or.inl hsolid
    · rcases List.mem_cons.mp hv with rfl | hv
      · exact Or.inr (Nat.le_refl _)
      · have hnext := (List.pairwise_cons.mp hrest).1 v hv
        have hsplit' : tokens = (before ++ [t]) ++ u :: behind := by simp [hsplit]
        have hsolid' := h.solid u (by simp [hsplit])
          (h.ne_eof_of_behind hsplit' (List.ne_nil_of_mem hv))
        omega

/-- A leaf that is made of a token of another kind starts with no literal and no name. -/
theorem isUnkept (h : InOrder tokens) (ht : t ∈ tokens) (hmark : t.kind.isMark)
    (hstart : content.isAt t.start) : IsUnkept tokens content := by
  intro u hu hatom
  have hsolid := h.solid t ht (Kind.ne_eof_of_isMark hmark)
  have hsolid' := h.solid u hu (Kind.ne_eof_of_isAtom hatom)
  rw [← Bool.not_eq_true, Leaf.isAt_iff, Leaf.isAt_iff.mp hstart, Option.some.injEq]
  rcases h.apart ht hu with rfl | hle | hle
  · rw [Kind.isAtom_of_isMark hmark] at hatom
    cases hatom
  · omega
  · omega

/-- A leaf with the text of its token keeps it. -/
theorem kept (h : InOrder tokens) (ht : t ∈ tokens) (hkind : t.kind ≠ .eof)
    (hstart : content.isAt t.start) (htext : content.text = t.text) :
    Kept tokens t.start t.stop [.leaf content] := by
  by_cases hatom : t.kind.isAtom
  · exact .atom (h.sole ht hatom) hstart htext (.nil (.refl tokens _))
  · have hmark : t.kind.isMark := by simp [Kind.isMark, hatom, hkind]
    exact .mark (h.isUnkept ht hmark hstart) (.nil (h.gap ht hmark))

end Token.InOrder

end XhrKeywords
