import XhrKeywords.Grammar.Expression
import XhrKeywords.Proofs.Syntax.Descent
import XhrKeywords.Token.Operator

/-!
# How trees are grouped

Operators bind by levels, and a `do` belongs to the outermost call without parentheses. Both are
matters of which tree stands in which, and neither leaves parentheses in the tree. `Grouped` says
how the trees of a source are grouped: what stands on both sides of an operator, and how many calls
keep a `do` for themselves where a tree is read. Main statements: `Grouped.sides`, for every
operator anywhere in a tree, and `Grouped.reopened`, for every `do` block in the arguments of a call
without parentheses.
-/

namespace XhrKeywords

open Syntax hiding Kind
open Token (Kind)

/-- How tightly a binary operator binds: `and` and `or` most loosely, then the levels of operations,
and powers most tightly. -/
def Token.Kind.level? (kind : Kind) : Option Int :=
  if kind == .kwAnd || kind == .kwOr then some (-1)
  else if kind == .pow then some 9
  else (Grammar.binaryLevels.findIdx? (·.contains kind)).map Int.ofNat

namespace Syntax.Node

/-- The level of an operator with a spelling. -/
def operatorLevel? (text : String) : Option Int :=
  ((Kind.ofKeyword? text).or (Operator.table.lookup text.toList)).bind Kind.level?

/-- The level of a binary operation. -/
def level? : Node → Option Int
  | .tree .binop _ [_, .leaf operator, _] => operatorLevel? operator.text
  | _ => none

/-- Whether an expression binds more loosely than all operators between operands: an assignment, a
choice, a statement with a modifier, or a range with a lower bound. -/
def isLoose : Node → Bool
  | .tree .asgn _ _ | .tree .masgn _ _ | .tree .ternary _ _ | .tree .ifMod _ _
  | .tree .whileMod _ _ | .tree .rescueMod _ _ => true
  | .tree .range _ (lower :: _) => !lower.isAbsent
  | _ => false

/-- Whether an expression is neither an operation nor a looser one. -/
def isOperand (n : Node) : Bool := !n.isKind .binop && !n.isLoose

/-- What stands on both sides of an operator of a level: to its left what binds as tightly, to its
right what binds more tightly. For powers it is the other way round, and `and` and `or` may have
looser expressions on both sides. -/
structure Sides (level : Int) (left right : Node) : Prop where
  lower : level ≤ 8 → left.isKind .binop → ∃ m, left.level? = some m ∧ level ≤ m
  higher : level ≤ 8 → right.isKind .binop → ∃ m, right.level? = some m ∧ level < m
  base : level = 9 → left.isKind .binop = false
  exponent : level = 9 → right.isKind .binop → right.level? = some 9
  tight : 0 ≤ level → left.isLoose = false ∧ right.isLoose = false

/-- The arguments of a call. -/
def arguments : Node → List Node
  | .tree .call _ children | .tree .csend _ children => children.drop 2
  | .tree .superCall _ children | .tree .yieldCall _ children => children
  | _ => []

/-- Whether a tree is a block between `do` and `end`. -/
def isDoBlock : Node → Bool
  | .tree .block _ [_, _, _, .leaf style] => style.text == "do"
  | _ => false

/-- A block is a tree of the kind of blocks. -/
theorem kind_of_isDoBlock {kind : Syntax.Kind} {span : Option Span} {children : List Node}
    (h : isDoBlock (.tree kind span children) = true) : kind = .block := by
  unfold isDoBlock at h
  split at h
  · rename_i heq
    cases heq
    rfl
  · cases h

end Syntax.Node

/-- The kind of the last token in front of an offset, line breaks aside. -/
def Token.kindBefore? (tokens : List Token) (offset : Nat) : Option Kind :=
  ((tokens.takeWhile (·.start < offset)).reverse.find? (·.kind != .newline)).map (·.kind)

/-- Whether a mark stands in front of the first of several nodes. -/
def Token.opens (tokens : List Token) (mark : Kind) : List Node → Bool
  | [] => false
  | n :: _ => kindBefore? tokens (Grammar.ofNode n).start == some mark

namespace Syntax.Node

variable (tokens : List Token)

/-- Whether a tree is a call whose arguments are not in parentheses, and there are some. -/
def isBare (n : Node) : Bool :=
  (n.isKind .call || n.isKind .csend) && !n.arguments.isEmpty &&
    !Token.opens tokens .lpar n.arguments

/-- Whether a `do` in a tree belongs to the nearest call again: brackets, arguments in parentheses,
and constructions with a body of their own. -/
def reopens : Node → Bool
  | .tree kind span children =>
    match kind with
    | .paren | .array | .index | .block | .lambda | .defStmt | .classStmt | .sclass | .moduleStmt
    | .ifStmt | .whileStmt | .forStmt | .caseStmt | .kwBegin => true
    | .hash => Token.opens tokens .lbrace children
    | .call | .csend | .superCall | .yieldCall =>
      Token.opens tokens .lpar (arguments (.tree kind span children))
    | _ => false
  | _ => false

end Syntax.Node

/-- The trees on the way from a tree down to another one, that one left out. -/
inductive Syntax.Descent : Node → List Node → Node → Prop
  | here (n : Node) : Descent n [] n
  | into {kind span children child passed target} (hchild : child ∈ children)
      (hpath : Descent child passed target) :
      Descent (.tree kind span children) (.tree kind span children :: passed) target

/-- The way down goes through a child. -/
theorem Syntax.Descent.child {n child target : Node} {passed : List Node}
    (hchild : child ∈ n.children) (hpath : Descent child passed target) :
    Descent n (n :: passed) target := by
  cases n with
  | absent | leaf _ => exact absurd hchild List.not_mem_nil
  | tree kind span children => exact .into hchild hpath

/-- The kinds of trees whose children are grouped like the tree itself. -/
def Syntax.Kind.isUniform : Syntax.Kind → Bool
  | .binop | .call | .csend | .block => false
  | _ => true

/-- `Grouped tokens blocked n` says that the node is grouped as the tokens are where so many calls
keep a `do` for themselves. -/
inductive Grouped (tokens : List Token) : Nat → Node → Prop
  | absent {blocked} : Grouped tokens blocked .absent
  | leaf {blocked} (content : Leaf) : Grouped tokens blocked (.leaf content)
  | uniform {blocked kind span children} (uniform : kind.isUniform)
      (all : ∀ n ∈ children, Grouped tokens blocked n) :
      Grouped tokens blocked (.tree kind span children)
  | operation {blocked span left right} {operator : Leaf} {level : Int}
      (hlevel : Node.operatorLevel? operator.text = some level) (hlow : -1 ≤ level)
      (hhigh : level ≤ 9) (hsides : Node.Sides level left right)
      (hleft : Grouped tokens blocked left) (hright : Grouped tokens blocked right) :
      Grouped tokens blocked (.tree .binop span [left, .leaf operator, right])
  /-- One more call keeps a `do` for itself in the arguments of a call without parentheses. -/
  | command {blocked kind span receiver arguments} (call : kind = .call ∨ kind = .csend)
      (hreceiver : Grouped tokens blocked receiver) (name : Leaf)
      (harguments : ∀ n ∈ arguments, Grouped tokens (blocked + 1) n) :
      Grouped tokens blocked (.tree kind span (receiver :: .leaf name :: arguments))
  | reopening {blocked kind span children} (hkind : kind ≠ .binop)
      (hreopens : Node.reopens tokens (.tree kind span children))
      (hblock : Node.isDoBlock (.tree kind span children) = true → blocked = 0)
      (all : ∀ n ∈ children, Grouped tokens 0 n) : Grouped tokens blocked (.tree kind span children)

namespace Grouped

variable {tokens : List Token} {blocked fewer : Nat} {n c : Node}

/-- Where fewer calls keep a `do` for themselves, the same trees may be read. -/
theorem weaken (h : Grouped tokens blocked n) (hle : fewer ≤ blocked) : Grouped tokens fewer n := by
  induction h generalizing fewer with
  | absent => exact .absent
  | leaf content => exact .leaf content
  | uniform uniform _ ih => exact .uniform uniform fun n hn => ih n hn hle
  | operation hlevel hlow hhigh hsides _ _ ihleft ihright =>
    exact .operation hlevel hlow hhigh hsides (ihleft hle) (ihright hle)
  | command call _ name _ ihreceiver iharguments =>
    exact .command call (ihreceiver hle) name
      fun n hn => iharguments n hn (Nat.add_le_add_right hle 1)
  | reopening hkind hreopens hblock all _ =>
    exact .reopening hkind hreopens (fun hdo => by have := hblock hdo; omega) all

/-- Nowhere do more calls keep a `do` for themselves than nowhere at all. -/
theorem weakenAll {nodes : List Node} (h : ∀ n ∈ nodes, Grouped tokens blocked n) :
    ∀ n ∈ nodes, Grouped tokens 0 n :=
  fun n hn => (h n hn).weaken (Nat.zero_le _)

/-- The children of a tree are grouped. -/
theorem children {kind : Syntax.Kind} {span : Option Span} {children : List Node}
    (h : Grouped tokens blocked (.tree kind span children)) :
    ∀ n ∈ children, Grouped tokens 0 n := by
  cases h with
  | uniform _ all => exact weakenAll all
  | operation _ _ _ _ hleft hright =>
    simpa using ⟨hleft.weaken (Nat.zero_le _), Grouped.leaf _, hright.weaken (Nat.zero_le _)⟩
  | command _ hreceiver name harguments =>
    simpa using ⟨hreceiver.weaken (Nat.zero_le _), Grouped.leaf _, weakenAll harguments⟩
  | reopening _ _ _ all => exact all

/-- The trees in a tree are grouped. -/
theorem subtrees (h : Grouped tokens 0 n) : ∀ c ∈ n.subtrees, Grouped tokens 0 c := by
  induction n using Node.subtrees.induct (motive_2 := fun nodes =>
    (∀ n ∈ nodes, Grouped tokens 0 n) → ∀ c ∈ Node.subtreesAll nodes, Grouped tokens 0 c) with
  | case1 kind span children ih =>
    rw [Node.subtrees]
    exact List.forall_mem_cons.mpr ⟨h, ih h.children⟩
  | case2 n hn =>
    cases h with
    | absent | leaf _ => exact fun _ hc => absurd hc List.not_mem_nil
    | uniform | operation | command | reopening => exact absurd rfl (hn _ _ _)
  | case3 _ _ hc => exact absurd hc List.not_mem_nil
  | case4 n others ih ihothers hall c hc =>
    rw [Node.subtreesAll] at hc
    rcases List.mem_append.mp hc with hc | hc
    · exact ih (hall n List.mem_cons_self) c hc
    · exact ihothers (fun m hm => hall m (List.mem_cons_of_mem n hm)) c hc

/-- A binary operation has an operator of some level between operands that may stand there. -/
theorem sides (h : Grouped tokens blocked n) (hkind : n.isKind .binop) :
    ∃ span left operator right level, n = .tree .binop span [left, .leaf operator, right] ∧
      n.level? = some level ∧ -1 ≤ level ∧ level ≤ 9 ∧ Node.Sides level left right := by
  cases h with
  | absent | leaf _ => cases hkind
  | uniform uniform =>
    rw [Node.isKind, Node.kind?, beq_iff_eq, Option.some.injEq] at hkind
    subst hkind
    cases uniform
  | operation hlevel hlow hhigh hsides =>
    exact ⟨_, _, _, _, _, rfl, hlevel, hlow, hhigh, hsides⟩
  | command call =>
    rw [Node.isKind, Node.kind?, beq_iff_eq, Option.some.injEq] at hkind
    subst hkind
    simp at call
  | reopening hne =>
    rw [Node.isKind, Node.kind?, beq_iff_eq, Option.some.injEq] at hkind
    exact absurd hkind hne

/-- Where a call keeps a `do` for itself, a `do` block lies in something that reopens. -/
theorem reopened {a b : Node} {passed : List Node} (h : Grouped tokens blocked a)
    (hblocked : 0 < blocked) (hpath : Descent a passed b) (hdo : b.isDoBlock) :
    ∃ m ∈ passed, m.reopens tokens := by
  induction hpath generalizing blocked with
  | here n =>
    -- The block itself would be read where no call keeps its `do`.
    cases h with
    | absent | leaf _ | operation => cases hdo
    | uniform uniform =>
      rw [Node.kind_of_isDoBlock hdo] at uniform
      cases uniform
    | command call =>
      rw [Node.kind_of_isDoBlock hdo] at call
      simp at call
    | reopening _ _ hblock =>
      have := hblock hdo
      omega
  | @into kind span children child passed target hchild _ ih =>
    have hlater (hlater : ∃ m ∈ passed, m.reopens tokens) :
        ∃ m ∈ Node.tree kind span children :: passed, m.reopens tokens :=
      hlater.imp fun m hm => ⟨List.mem_cons_of_mem _ hm.1, hm.2⟩
    cases h with
    | uniform _ all => exact hlater (ih (all child hchild) hblocked hdo)
    | operation _ _ _ _ hleft hright =>
      simp only [List.mem_cons, List.not_mem_nil, or_false] at hchild
      rcases hchild with rfl | rfl | rfl
      · exact hlater (ih hleft hblocked hdo)
      · exact hlater (ih (.leaf _) hblocked hdo)
      · exact hlater (ih hright hblocked hdo)
    | command _ hreceiver name harguments =>
      rcases List.mem_cons.mp hchild with rfl | hchild
      · exact hlater (ih hreceiver hblocked hdo)
      · rcases List.mem_cons.mp hchild with rfl | hchild
        · exact hlater (ih (.leaf name) hblocked hdo)
        · exact hlater (ih (harguments child hchild) (Nat.succ_pos _) hdo)
    | reopening _ hreopens => exact ⟨_, List.mem_cons_self, hreopens⟩

/-- The arguments of a call without parentheses are read where the call keeps a `do` for itself. -/
theorem arguments_of_isBare (h : Grouped tokens blocked c) (hbare : c.isBare tokens) :
    ∀ n ∈ c.arguments, Grouped tokens (blocked + 1) n := by
  simp only [Node.isBare, Bool.and_eq_true, Bool.or_eq_true, Bool.not_eq_true'] at hbare
  obtain ⟨⟨hcall, -⟩, hbare⟩ := hbare
  cases h with
  | absent | leaf _ => simp [Node.isKind, Node.kind?] at hcall
  | uniform uniform =>
    rcases hcall with hcall | hcall <;>
    · rw [Node.isKind, Node.kind?, beq_iff_eq, Option.some.injEq] at hcall
      subst hcall
      cases uniform
  | operation => simp [Node.isKind, Node.kind?] at hcall
  | command call _ _ harguments =>
    rcases call with rfl | rfl
    · exact harguments
    · exact harguments
  | reopening _ hreopens =>
    rcases hcall with hcall | hcall <;>
    · rw [Node.isKind, Node.kind?, beq_iff_eq, Option.some.injEq] at hcall
      subst hcall
      rw [Node.reopens, hbare] at hreopens
      cases hreopens

end Grouped

end XhrKeywords
