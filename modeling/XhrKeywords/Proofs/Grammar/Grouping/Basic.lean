import XhrKeywords.Proofs.Grammar.Upholding
import XhrKeywords.Proofs.Syntax.Grouped
import XhrKeywords.Proofs.Token.Spelling

/-!
# Productions group trees

Where a production reads a tree, the state knows how many calls keep a `do` for themselves, and the
tree is grouped for that many. An operator has the level of its kind, because it is spelled like
it, and a mark that opens a list stands in front of the first node of the list.
-/

namespace XhrKeywords

open Syntax hiding Kind
open Token (Kind)

/-- What has a level is an operator or a keyword. -/
theorem Token.Kind.isSign_of_level? {kind : Kind} {level : Int} (h : kind.level? = some level) :
    kind.isSign := by
  have hall : ∀ kind ∈ Kind.all, kind.level? ≠ none → kind.isSign := by decide
  refine hall kind ?_ (by rw [h]; nofun)
  cases kind <;> decide

/-- An operator that is spelled like its kind has the level of its kind. -/
theorem Syntax.Node.operatorLevel?_of_isSpelled {kind : Token.Kind} {text : String} {level : Int}
    (hspelled : kind.IsSpelled text) (hlevel : kind.level? = some level) :
    operatorLevel? text = some level := by
  have htable : ∀ entry ∈ Operator.table, entry.2.level? ≠ none →
      operatorLevel? (.ofList entry.1) = entry.2.level? := by decide
  have hkeywords : ∀ entry ∈ Token.Kind.keywords, entry.2.level? ≠ none →
      operatorLevel? entry.1 = entry.2.level? := by decide
  have hsome : kind.level? ≠ none := by rw [hlevel]; nofun
  rcases hspelled (Token.Kind.isSign_of_level? hlevel) with hmem | hmem
  · rw [← hlevel, ← htable _ hmem hsome, String.ofList_toList]
  · rw [← hlevel, ← hkeywords _ hmem hsome]

/-- The operators of each level have that level. -/
theorem Grammar.level?_of_mem_binaryLevels {index : Nat} {operators : List Kind}
    (h : binaryLevels[index]? = some operators) {kind : Kind} (hkind : kind ∈ operators) :
    kind.level? = some (index : Int) := by
  have hall : ∀ entry ∈ binaryLevels.zipIdx, ∀ kind ∈ entry.1,
      kind.level? = some (entry.2 : Int) := by decide
  exact hall (operators, index) (List.mem_zipIdx_iff_getElem?.mpr h) kind hkind

/-- The tokens that start in front of a token are those before it. -/
theorem Token.InOrder.takeWhile_start {tokens before behind : List Token} {t : Token}
    (h : InOrder tokens) (hsplit : tokens = before ++ t :: behind) :
    tokens.takeWhile (·.start < t.start) = before := by
  have hfront : ∀ u ∈ before, decide (u.start < t.start) = true := by
    intro u hu
    obtain ⟨front, middle, rfl⟩ := List.append_of_mem hu
    rw [List.append_assoc, List.cons_append] at hsplit
    have hkind := h.ne_eof_of_behind hsplit (by simp)
    have hsolid := h.solid u (by simp [hsplit]) hkind
    have hbehind := h.behind
    rw [hsplit] at hbehind
    have hle := (List.pairwise_cons.mp (List.pairwise_append.mp hbehind).2.1).1 t (by simp)
    exact decide_eq_true (Nat.lt_of_lt_of_le hsolid hle)
  rw [hsplit, List.takeWhile_append_of_pos hfront, List.takeWhile_cons_of_neg (by simp),
    List.append_nil]

namespace Syntax.Node

/-- What may stand to the left of an operator of a level. -/
structure From (level : Int) (n : Node) : Prop where
  operation : n.isKind .binop → ∃ m, n.level? = some m ∧ level ≤ m ∧ m ≤ 9
  tight : 0 ≤ level → n.isLoose = false

/-- What may stand to the right of an operator of a level. -/
structure Above (level : Int) (n : Node) : Prop where
  operation : n.isKind .binop → ∃ m, n.level? = some m ∧ level < m ∧ m ≤ 9
  tight : 0 ≤ level → n.isLoose = false

variable {level : Int} {n left right : Node}

/-- What may stand to the right of an operator may stand to the left of one of its level. -/
theorem Above.from (h : n.Above level) : n.From level :=
  ⟨fun hkind => (h.operation hkind).imp fun _ hm => ⟨hm.1, Int.le_of_lt hm.2.1, hm.2.2⟩, h.tight⟩

/-- What may stand to the left of an operator may stand to the right of a looser one. -/
theorem From.above (h : n.From level) {looser : Int} (hlt : looser < level) :
    n.Above looser :=
  ⟨fun hkind => (h.operation hkind).imp fun _ hm => ⟨hm.1, Int.lt_of_lt_of_le hlt hm.2.1, hm.2.2⟩,
    fun hle => h.tight (by omega)⟩

/-- An operand may stand beside every operator. -/
theorem above_of_isOperand (h : n.isOperand = true) (level : Int) : n.Above level := by
  simp only [isOperand, Bool.and_eq_true, Bool.not_eq_true'] at h
  refine ⟨fun hkind => ?_, fun _ => h.2⟩
  rw [h.1] at hkind
  cases hkind

/-- Operands of an operation of a level stand on its sides. -/
theorem sides_of_from_of_above (hlevel : level ≤ 8) (hleft : left.From level)
    (hright : right.Above level) : Sides level left right where
  lower _ hkind := (hleft.operation hkind).imp fun _ hm => ⟨hm.1, hm.2.1⟩
  higher _ hkind := (hright.operation hkind).imp fun _ hm => ⟨hm.1, hm.2.1⟩
  base h := by omega
  exponent h := by omega
  tight h := ⟨hleft.tight h, hright.tight h⟩

/-- A base and its exponent stand on the sides of a power. -/
theorem sides_of_isOperand (hbase : left.isOperand = true) (hexponent : right.Above 8) :
    Sides 9 left right where
  lower h := by omega
  higher h := by omega
  base _ := by
    simp only [isOperand, Bool.and_eq_true, Bool.not_eq_true'] at hbase
    exact hbase.1
  exponent _ hkind := by
    obtain ⟨m, hm, hlow, hhigh⟩ := hexponent.operation hkind
    rw [hm, show m = 9 by omega]
  tight _ := ⟨(above_of_isOperand hbase 0).tight (Int.le_refl 0),
    hexponent.tight (by decide)⟩

end Syntax.Node

/-- Several nodes that are grouped alike. -/
def AllGrouped (tokens : List Token) (blocked : Nat) (nodes : List Node) : Prop :=
  ∀ n ∈ nodes, Grouped tokens blocked n

variable {tokens : List Token} {blocked : Nat} {n : Node} {nodes others : List Node}

namespace AllGrouped

/-- No nodes: all of them are grouped. -/
theorem nil : AllGrouped tokens blocked [] := fun _ hn => absurd hn List.not_mem_nil

/-- A grouped node may be put in front of grouped nodes. -/
theorem cons (hn : Grouped tokens blocked n) (h : AllGrouped tokens blocked nodes) :
    AllGrouped tokens blocked (n :: nodes) :=
  List.forall_mem_cons.mpr ⟨hn, h⟩

/-- One grouped node. -/
theorem one (hn : Grouped tokens blocked n) : AllGrouped tokens blocked [n] := .cons hn .nil

/-- Two grouped nodes. -/
theorem two {m : Node} (hm : Grouped tokens blocked m) (hn : Grouped tokens blocked n) :
    AllGrouped tokens blocked [m, n] :=
  .cons hm (.one hn)

/-- Grouped nodes may be put in front of grouped nodes. -/
theorem append (h : AllGrouped tokens blocked nodes) (hothers : AllGrouped tokens blocked others) :
    AllGrouped tokens blocked (nodes ++ others) :=
  List.forall_mem_append.mpr ⟨h, hothers⟩

/-- A grouped node may be put behind grouped nodes. -/
theorem concat (h : AllGrouped tokens blocked nodes) (hn : Grouped tokens blocked n) :
    AllGrouped tokens blocked (nodes ++ [n]) :=
  h.append (.one hn)

/-- Nodes that leave a `do` to the calls around them are grouped without such calls, too. -/
theorem weaken (h : AllGrouped tokens blocked nodes) : AllGrouped tokens 0 nodes :=
  Grouped.weakenAll h

/-- A tree of most kinds is grouped like its children. -/
theorem tree (h : AllGrouped tokens blocked nodes) {kind : Syntax.Kind} (hkind : kind.isUniform)
    (span : Option Span) : Grouped tokens blocked (.tree kind span nodes) :=
  .uniform hkind h

/-- In a construction with a body of its own a `do` belongs to the nearest call again. -/
theorem body (h : AllGrouped tokens 0 nodes) {kind : Syntax.Kind} (hkind : kind.isUniform)
    (hreopens : ∀ span, Node.reopens tokens (.tree kind span nodes)) (span : Option Span) :
    Grouped tokens blocked (.tree kind span nodes) := by
  refine .reopening ?_ (hreopens span) (fun hdo => ?_) h
  · rintro rfl
    cases hkind
  · rw [Node.kind_of_isDoBlock hdo] at hkind
    cases hkind

/-- Between delimiters a `do` belongs to the nearest call again, and without anything between them
there is none. -/
theorem opened (h : AllGrouped tokens 0 nodes) {kind : Syntax.Kind} (hkind : kind.isUniform)
    (hopens : nodes = [] ∨ ∀ span, Node.reopens tokens (.tree kind span nodes))
    (span : Option Span) : Grouped tokens blocked (.tree kind span nodes) := by
  rcases hopens with rfl | hopens
  · exact AllGrouped.nil.tree hkind span
  · exact h.body hkind hopens span

end AllGrouped

/-- A node that is grouped and binds as tightly as an operand. -/
def Whole (tokens : List Token) (blocked : Nat) (n : Node) : Prop :=
  Grouped tokens blocked n ∧ n.isOperand = true

/-- A node that is grouped and may stand to the right of an operator of a level. -/
def Standing (tokens : List Token) (blocked : Nat) (level : Int) (n : Node) : Prop :=
  Grouped tokens blocked n ∧ n.Above level

/-- An operand may stand beside an operator of every level. -/
theorem Whole.standing (h : Whole tokens blocked n) (level : Int) :
    Standing tokens blocked level n :=
  ⟨h.1, Node.above_of_isOperand h.2 level⟩

/-- Another span makes no difference. -/
theorem Grammar.mapSpan_grouped (change : Span → Span) (h : Grouped tokens blocked n) :
    Grouped tokens blocked (mapSpan change n) := by
  cases h with
  | absent => exact .absent
  | leaf content => exact .leaf content
  | uniform uniform all => exact .uniform uniform all
  | operation hlevel hlow hhigh hsides hleft hright =>
    exact .operation hlevel hlow hhigh hsides hleft hright
  | command call hreceiver name harguments => exact .command call hreceiver name harguments
  | @reopening _ kind span children hkind hreopens hblock all =>
    have hopen : Node.reopens tokens (.tree kind (span.map change) children) =
        Node.reopens tokens (.tree kind span children) := by
      cases kind <;> rfl
    have hdo : Node.isDoBlock (.tree kind (span.map change) children) =
        Node.isDoBlock (.tree kind span children) := by
      unfold Node.isDoBlock
      split
      · rename_i heq
        cases heq
        rfl
      · rename_i hother
        split
        · rename_i heq
          cases heq
          exact absurd rfl (hother _ _ _ _ _)
        · rfl
    exact .reopening hkind (hopen ▸ hreopens) (hdo ▸ hblock) all

namespace Grammar

variable {α : Type}

/-- A state among the tokens of a source, where so many calls keep a `do` for themselves. -/
structure State.Grouping (tokens : List Token) (blocked : Nat) (s : State) : Prop where
  along : s.Along tokens
  spelled : ∀ t ∈ tokens, t.kind.IsSpelled t.text ∧ (t.kind = .eof → t.stop = t.start)
  count : s.blocked = blocked

variable {s t : State}

namespace State.Grouping

/-- Nothing lies behind the end of a source, which is empty. -/
theorem step (h : s.Grouping tokens blocked) : s.advance.Grouping tokens blocked := by
  have hcount : s.advance.blocked = blocked := by
    rw [State.advance]
    split <;> exact h.count
  refine ⟨?_, h.spelled, hcount⟩
  by_cases hkind : s.current.kind = .eof
  · have hahead : s.ahead = [] := by
      by_contra hne
      obtain ⟨before, hsplit⟩ := h.along.ahead
      exact h.along.inOrder.ne_eof_of_behind hsplit.symm hne hkind
    have hadvance : s.advance = { s with previous := s.current } := by
      rw [State.advance, hahead]
    rw [hadvance]
    refine ⟨h.along.inOrder, h.along.ahead, ?_⟩
    change Gap tokens s.current.stop s.current.start
    rw [(h.spelled s.current h.along.mem).2 hkind]
    exact .refl tokens _
  · exact h.along.step hkind

/-- Scopes make no difference. -/
theorem rescope (h : s.Grouping tokens blocked) (scope : List String)
    (outer : List (List String)) :
    State.Grouping tokens blocked ⟨s.current, s.ahead, s.previous, s.blocked, scope, outer⟩ :=
  ⟨h.along.congr _ _ _, h.spelled, h.count⟩

/-- Another count. -/
theorem recount (h : s.Grouping tokens blocked) (count : Nat) :
    State.Grouping tokens count { s with blocked := count } :=
  ⟨h.along.congr _ _ _, h.spelled, rfl⟩

end State.Grouping

instance : Lasting (State.Grouping tokens blocked) where
  advance := State.Grouping.step
  declare h _ := h.rescope _ _

/-- A production that answers `P` and leaves the count of calls that keep a `do` as it was. -/
abbrev GroupsAs (tokens : List Token) (blocked : Nat) (P : α → Prop) (p : Parser α) : Prop :=
  Upholds (State.Grouping tokens blocked) P p

variable {P : α → Prop} {p : Parser α} {count : Nat}

/-- What is read with another count of blocked calls is grouped for that count. -/
theorem groups_withBlocked {count : Nat → Nat} (h : GroupsAs tokens (count blocked) P p) :
    GroupsAs tokens blocked P (withBlocked count p) := by
  intro s a t hs hrun
  obtain ⟨u, hbody, rfl⟩ := of_withBlocked hrun
  rw [hs.count] at hbody ⊢
  obtain ⟨hu, ha⟩ := h (hs.recount _) hbody
  exact ⟨hu.recount blocked, ha⟩

/-- In brackets no call keeps a `do` for itself. -/
theorem groups_bracketed (h : GroupsAs tokens 0 P p) :
    GroupsAs tokens blocked P (bracketed p) :=
  groups_withBlocked h

/-- What leaves a `do` to the head around it is grouped for one more call. -/
theorem groups_keepingDo (h : GroupsAs tokens (blocked + 1) P p) :
    GroupsAs tokens blocked P (keepingDo p) :=
  groups_withBlocked h

/-- A scope of its own does not change which calls keep a `do`. -/
theorem groups_inScope (h : GroupsAs tokens blocked P p) (inherits : Bool) :
    GroupsAs tokens blocked P (inScope inherits p) := by
  intro s a t hs hrun
  obtain ⟨u, hbody, rfl⟩ := of_inScope hrun
  obtain ⟨hu, ha⟩ := h (hs.rescope _ _) hbody
  exact ⟨hu.rescope _ _, ha⟩

/-- What is built from grouped children is grouped. -/
theorem groups_build {kind : Syntax.Kind} {children : List Node} {start : Mark}
    (h : AllGrouped tokens count children) (hkind : kind.isUniform) :
    GroupsAs tokens blocked (Grouped tokens count) (build kind children start) :=
  upholds_build (h.tree hkind)

/-- What is built from grouped children is grouped, and an operand if its kind is one. -/
theorem groups_uniform {kind : Syntax.Kind} {children : List Node} {start : Mark}
    (h : AllGrouped tokens count children) (hkind : kind.isUniform)
    (hoperand : ∀ span, (Node.tree kind span children).isOperand = true) :
    GroupsAs tokens blocked (Whole tokens count) (build kind children start) :=
  upholds_build fun span => ⟨h.tree hkind span, hoperand span⟩

/-- A node of one token, with the token as a leaf, is an operand. -/
theorem groups_singleAs {kind : Syntax.Kind} (hkind : kind.isUniform)
    (hoperand : ∀ span children, (Node.tree kind span children).isOperand = true) (role : Role) :
    GroupsAs tokens blocked (Whole tokens count) (singleAs kind role) :=
  maintains_advance.bind fun _ _ => groups_uniform (.one (.leaf _)) hkind fun _ => hoperand ..

/-- A node of one token is an operand. -/
theorem groups_single {kind : Syntax.Kind} (hkind : kind.isUniform)
    (hoperand : ∀ span children, (Node.tree kind span children).isOperand = true) :
    GroupsAs tokens blocked (Whole tokens count) (single kind) :=
  maintains_advance.bind fun _ _ => groups_uniform (.one (.leaf _)) hkind fun _ => hoperand ..

/-- A node of one token without its text is an operand. -/
theorem groups_bare {kind : Syntax.Kind} (hkind : kind.isUniform)
    (hoperand : ∀ span children, (Node.tree kind span children).isOperand = true) :
    GroupsAs tokens blocked (Whole tokens count) (bare kind) :=
  maintains_advance.bind fun _ _ => groups_uniform .nil hkind fun _ => hoperand ..

/-- Rules whose phrases group what they read; a sign binds its operand more tightly than every
operation but a power. -/
structure Rules.Groups (tokens : List Token) (g : Rules) : Prop where
  nests : g.Nests tokens
  read (phrase : Phrase) (blocked : Nat) :
    GroupsAs tokens blocked (Grouped tokens blocked) (g.read phrase)
  signed (blocked : Nat) : GroupsAs tokens blocked (Node.Above 8) (g.read .signed)

/-- In front of the token behind another one stands that one, or what stands in front of it when it
is a line break. -/
theorem kindBefore?_advance (hs : s.Along tokens) (hkind : s.current.kind ≠ .eof) :
    Token.kindBefore? tokens s.advance.current.start =
      if s.current.kind = .newline then Token.kindBefore? tokens s.current.start
      else some s.current.kind := by
  obtain ⟨before, hsplit⟩ := hs.ahead
  obtain ⟨front, hnext⟩ := (hs.step hkind).ahead
  have hfront : front = before ++ [s.current] := by
    cases hahead : s.ahead with
    | nil =>
      obtain ⟨others, last, rfl, hlast, -⟩ := hs.inOrder.closed
      rw [hahead] at hsplit
      obtain ⟨-, ⟨⟩⟩ := List.append_inj' hsplit rfl
      exact absurd hlast hkind
    | cons next others =>
      rw [State.advance, hahead] at hnext
      rw [hahead] at hsplit
      have hsame : front ++ next :: others = (before ++ [s.current]) ++ next :: others := by
        rw [hnext, List.append_assoc, ← hsplit]
        rfl
      exact List.append_cancel_right hsame
  rw [Token.kindBefore?, Token.kindBefore?, hs.inOrder.takeWhile_start hnext.symm,
    hs.inOrder.takeWhile_start hsplit.symm, hfront, List.reverse_append, List.reverse_singleton,
    List.singleton_append, List.find?_cons]
  by_cases hnewline : s.current.kind = .newline
  · rw [if_pos hnewline, hnewline]
    rfl
  · rw [if_neg hnewline, bne_iff_ne.mpr hnewline]
    rfl

end Grammar

end XhrKeywords
