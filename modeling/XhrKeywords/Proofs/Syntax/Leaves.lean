import XhrKeywords.Syntax.Node

/-!
# Leaves of literals and names

The literals and names of a source are the leaves of its tree, each with the text of its token. What
a leaf may have beside that text, and which tokens have two leaves or none, is told by the trees
around it.
-/

namespace XhrKeywords

namespace Token.Kind

/-- Literals and names. -/
def isAtom : Kind → Bool
  | int | float | string | xstring | symbol | dsym | regex | words | label | stringLabel | ident
  | const | ivar | gvar | cvar => true
  | _ => false

/-- Keywords, operators, punctuation and line breaks: neither a literal or a name nor the end of the
source. -/
def isMark (kind : Kind) : Bool := !kind.isAtom && kind != .eof

theorem ne_eof_of_isAtom {kind : Kind} (h : kind.isAtom = true) : kind ≠ .eof := by
  rintro rfl
  cases h

theorem ne_eof_of_isMark {kind : Kind} (h : kind.isMark = true) : kind ≠ .eof := by
  rintro rfl
  cases h

theorem isAtom_of_isMark {kind : Kind} (h : kind.isMark = true) : kind.isAtom = false := by
  simpa using (Bool.and_eq_true_iff.mp h).1

end Token.Kind

namespace Syntax

namespace Leaf

/-- Whether a leaf starts at an offset. -/
def isAt (content : Leaf) (offset : Nat) : Bool := content.place.start == some offset

theorem isAt_iff {content : Leaf} {offset : Nat} :
    content.isAt offset = true ↔ content.place.start = some offset :=
  beq_iff_eq

/-- Whether a leaf starts with a literal or a name among some tokens. -/
def isAtomOf (tokens : List Token) (content : Leaf) : Bool :=
  tokens.any fun t => t.kind.isAtom && content.isAt t.start

theorem isAtomOf_iff {tokens : List Token} {content : Leaf} :
    content.isAtomOf tokens = true ↔ ∃ t ∈ tokens, t.kind.isAtom ∧ content.isAt t.start := by
  simp [isAtomOf]

/-- Of two leaves that have their places in a source the first does not start behind the second. -/
def StartsNoLater (l m : Leaf) : Prop :=
  ∀ a ∈ l.place.start, ∀ b ∈ m.place.start, a ≤ b

/-- The texts of the leaves that start at an offset. -/
def textsAt (leaves : List Leaf) (offset : Nat) : List String :=
  (leaves.filter (·.isAt offset)).map (·.text)

theorem textsAt_append (leaves others : List Leaf) (offset : Nat) :
    textsAt (leaves ++ others) offset = textsAt leaves offset ++ textsAt others offset := by
  rw [textsAt, List.filter_append, List.map_append]
  rfl

theorem textsAt_eq_nil {leaves : List Leaf} {offset : Nat}
    (h : ∀ l ∈ leaves, l.isAt offset = false) : textsAt leaves offset = [] := by
  rw [textsAt, List.map_eq_nil_iff, List.filter_eq_nil_iff]
  exact fun l hl => Bool.not_eq_true _ ▸ h l hl

end Leaf

namespace Node

mutual

/-- All leaves of a node, from left to right. -/
def leaves : Node → List Leaf
  | absent => []
  | leaf content => [content]
  | tree _ _ children => leavesAll children

/-- The leaves of several nodes, one node after the other. -/
def leavesAll : List Node → List Leaf
  | [] => []
  | n :: others => leaves n ++ leavesAll others

end

@[simp] theorem leaves_absent : absent.leaves = [] := by
  rw [leaves]

@[simp] theorem leaves_leaf (content : Leaf) : (leaf content).leaves = [content] := by
  rw [leaves]

@[simp] theorem leaves_tree (kind : Kind) (span : Option Span) (children : List Node) :
    (tree kind span children).leaves = leavesAll children := by
  rw [leaves]

@[simp] theorem leavesAll_nil : leavesAll [] = [] := by
  rw [leavesAll]

@[simp] theorem leavesAll_cons (n : Node) (others : List Node) :
    leavesAll (n :: others) = n.leaves ++ leavesAll others := by
  rw [leavesAll]

end Node

/-- What a tree says of a token beside the leaf that is made of it. -/
inductive Remark
  /-- The token is the first one of a pair. -/
  | key
  /-- The token is the `self` that a method is defined on, which is no name of a variable. -/
  | owner
  /-- The token is a number with a sign in front of it. -/
  | signed
  /-- The token is the name of a method that is defined. -/
  | name
  deriving DecidableEq, Repr

namespace Node

/-- Whether a node is the value `self` that starts at an offset. -/
def isSelfAt (offset : Nat) : Node → Bool
  | tree .selfRef (some span) _ => span.start == offset
  | _ => false

/-- Whether a tree makes a remark about the token at an offset. -/
def remarks (n : Node) (remark : Remark) (offset : Nat) : Bool :=
  match remark, n with
  | .key, tree .pair (some span) _ => span.start == offset
  | .owner, tree .defStmt _ (owner :: _) => owner.isSelfAt offset
  | .signed, tree .int (some span) [leaf content]
  | .signed, tree .float (some span) [leaf content] =>
    content.isAt offset && decide (span.start < offset)
  | .name, tree .defStmt _ (_ :: leaf content :: _) => content.isAt offset
  | _, _ => false

/-- Whether some tree of a node makes a remark about the token at an offset. -/
def isRemarked (n : Node) (remark : Remark) (offset : Nat) : Bool :=
  n.subtrees.any (·.remarks remark offset)

/-- Whether some tree of several nodes makes a remark about the token at an offset. -/
def isRemarkedIn (nodes : List Node) (remark : Remark) (offset : Nat) : Bool :=
  (subtreesAll nodes).any (·.remarks remark offset)

@[simp] theorem isRemarked_absent (remark : Remark) (offset : Nat) :
    absent.isRemarked remark offset = false := by
  simp [isRemarked, subtrees]

@[simp] theorem isRemarked_leaf (content : Leaf) (remark : Remark) (offset : Nat) :
    (leaf content).isRemarked remark offset = false := by
  simp [isRemarked, subtrees]

@[simp] theorem isRemarked_tree (kind : Kind) (span : Option Span) (children : List Node)
    (remark : Remark) (offset : Nat) :
    (tree kind span children).isRemarked remark offset =
      ((tree kind span children).remarks remark offset ||
        isRemarkedIn children remark offset) := by
  rw [isRemarked, subtrees, List.any_cons, isRemarkedIn]

@[simp] theorem isRemarkedIn_nil : isRemarkedIn [] = fun _ _ => false := by
  funext remark offset
  rw [isRemarkedIn, subtreesAll, List.any_nil]

@[simp] theorem isRemarkedIn_cons (n : Node) (others : List Node) :
    isRemarkedIn (n :: others) = fun remark offset =>
      n.isRemarked remark offset || isRemarkedIn others remark offset := by
  funext remark offset
  rw [isRemarkedIn, subtreesAll, List.any_append, isRemarked, isRemarkedIn]

end Node

/-- Whether the tokens behind a label leave out its value, so that its name is the value as well. -/
def omitsValue : List Token → Bool
  | next :: _ => next.kind.stopsLabelValue
  | [] => false

/-- Whether the tokens behind the name of a method are an equals sign that touches it and a
parenthesis. -/
def opensSetter : List Token → Bool
  | sign :: opener :: _ => sign.kind == .assign && !sign.spaced && opener.kind == .lpar
  | _ => false

/-- The texts of the leaves that are made of a literal or a name, given the remarks about it and the
tokens behind it. -/
def leafTexts (remarked : Remark → Bool) (t : Token) (behind : List Token) : List String :=
  if t.kind == .label && omitsValue behind && remarked .key then [t.text, t.text]
  else if t.text == "self" && remarked .owner then []
  else if (t.kind == .int || t.kind == .float) && remarked .signed then ["-" ++ t.text]
  else if opensSetter behind && remarked .name then [t.text ++ "="]
  else [t.text]

end Syntax

end XhrKeywords
