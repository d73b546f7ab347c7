import XhrKeywords.Migration.Replacement

/-!
# Plain expressions

The expressions that requests are mostly made of: numbers, quoted texts, symbols, names, and
arrays, hashes and calls of them. Positions say nothing about what an expression is, so
a tree read from a source counts as the tree that is left when they are forgotten.
-/

namespace XhrKeywords.Syntax

open Unicode

namespace Node

mutual

/-- Nodes are equal when they look alike everywhere. -/
def decEq (m n : Node) : Decidable (m = n) :=
  match m, n with
  | absent, absent => isTrue rfl
  | leaf first, leaf second =>
    decidable_of_iff (first = second) (by simp)
  | tree kind span children, tree kind' span' children' =>
    match decEqAll children children' with
    | isTrue h => decidable_of_iff (kind = kind' ∧ span = span') (by simp [h])
    | isFalse h => isFalse (by simp [h])
  | absent, leaf _ | absent, tree .. | leaf _, absent | leaf _, tree .. | tree .., absent
  | tree .., leaf _ => isFalse (by simp)

/-- Lists of nodes are equal when their nodes are. -/
def decEqAll (nodes others : List Node) : Decidable (nodes = others) :=
  match nodes, others with
  | [], [] => isTrue rfl
  | m :: nodes, n :: others =>
    match decEq m n, decEqAll nodes others with
    | isTrue h, isTrue h' => isTrue (by rw [h, h'])
    | isFalse h, _ => isFalse (by simp [h])
    | _, isFalse h => isFalse (by simp [h])
  | [], _ :: _ | _ :: _, [] => isFalse (by simp)

end

instance : DecidableEq Node := decEq

mutual

/-- A node without the places of its leaves and trees. -/
def erase : Node → Node
  | absent => absent
  | leaf content => .word content.role content.text
  | tree kind _ children => .made kind (eraseAll children)

/-- Several nodes without places. -/
def eraseAll : List Node → List Node
  | [] => []
  | n :: others => erase n :: eraseAll others

end

theorem eraseAll_eq_map (nodes : List Node) : eraseAll nodes = nodes.map erase := by
  induction nodes with
  | nil => rfl
  | cons n others ih => rw [eraseAll, ih, List.map_cons]

@[simp] theorem erase_absent : erase absent = absent := rfl

@[simp] theorem erase_leaf (content : Leaf) :
    erase (leaf content) = .word content.role content.text := rfl

@[simp] theorem erase_word (role : Role) (text : String) :
    erase (.word role text) = .word role text := rfl

@[simp] theorem erase_tree (kind : Kind) (span : Option Span) (children : List Node) :
    erase (tree kind span children) = .made kind (children.map erase) := by
  rw [erase, eraseAll_eq_map]

@[simp] theorem erase_made (kind : Kind) (children : List Node) :
    erase (.made kind children) = .made kind (children.map erase) :=
  erase_tree kind none children

mutual

/-- There is nothing left to forget. -/
@[simp] theorem erase_erase (n : Node) : n.erase.erase = n.erase := by
  match n with
  | absent | leaf _ => rfl
  | tree kind span children => rw [erase, made, erase, eraseAll_eraseAll children, made]

theorem eraseAll_eraseAll (nodes : List Node) : eraseAll (eraseAll nodes) = eraseAll nodes := by
  match nodes with
  | [] => rfl
  | n :: others => rw [eraseAll, eraseAll, erase_erase n, eraseAll_eraseAll others]

end

@[simp] theorem erase_comp_erase : erase ∘ erase = erase := funext erase_erase

mutual

/-- The trees of a node are the same ones without places. -/
theorem subtrees_erase (n : Node) : n.erase.subtrees = n.subtrees.map erase := by
  match n with
  | absent | leaf _ => rfl
  | tree kind span children =>
    rw [erase, made, subtrees, subtrees, subtreesAll_eraseAll children, List.map_cons, erase, made]

theorem subtreesAll_eraseAll (nodes : List Node) :
    subtreesAll (eraseAll nodes) = (subtreesAll nodes).map erase := by
  match nodes with
  | [] => rfl
  | n :: others =>
    rw [eraseAll, subtreesAll, subtreesAll, subtrees_erase n, subtreesAll_eraseAll others,
      List.map_append]

end

@[simp] theorem children_erase (n : Node) : n.erase.children = n.children.map erase := by
  cases n with
  | absent | leaf _ => rfl
  | tree kind span found => rw [erase_tree, made, children, children]

/-- What becomes a leaf without its place is a leaf. -/
theorem erase_eq_word_iff {n : Node} {role : Role} {text : String} :
    n.erase = .word role text ↔ ∃ place, n = .leaf ⟨role, text, place⟩ := by
  cases n with
  | absent => simp [word]
  | tree kind span children => simp [word, made]
  | leaf content =>
    obtain ⟨r, t, place⟩ := content
    simp only [erase_leaf, word, leaf.injEq, Leaf.mk.injEq]
    grind

/-- What becomes a tree without its places is a tree. -/
theorem erase_eq_made_iff {n : Node} {kind : Kind} {children : List Node} :
    n.erase = .made kind children ↔
      ∃ span found, n = .tree kind span found ∧ found.map erase = children := by
  cases n with
  | absent => simp [made]
  | leaf content => simp [word, made]
  | tree k span found =>
    simp only [erase_tree, made, tree.injEq, true_and]
    grind

theorem erase_eq_absent_iff {n : Node} : n.erase = .absent ↔ n = .absent := by
  cases n <;> simp [word, made]

@[simp] theorem kind?_erase (n : Node) : n.erase.kind? = n.kind? := by
  cases n <;> simp [kind?, made, word]

@[simp] theorem isAbsent_erase (n : Node) : n.erase.isAbsent = n.isAbsent := by
  cases n <;> rfl

/-- Nodes that differ in their places are of one kind. -/
theorem isKind_of_erase_eq {m n : Node} (h : m.erase = n.erase) (kind : Kind) :
    m.isKind kind = n.isKind kind := by
  rw [isKind, isKind, ← kind?_erase m, h, kind?_erase]

theorem symbolName?_eq_none {kind : Kind} {span : Option Span} {children : List Node}
    (h : kind ≠ .sym) : (tree kind span children).symbolName? = none := by
  rw [symbolName?]
  rintro _ _ _ heq
  injection heq with hkind
  exact h hkind

/-- A symbol has its name without its place too. -/
theorem symbolName?_erase (n : Node) : n.erase.symbolName? = n.symbolName? := by
  cases n with
  | absent | leaf _ => rfl
  | tree kind span children =>
    rw [erase_tree, made]
    by_cases hkind : kind = .sym
    · subst hkind
      rcases children with _ | ⟨_ | _ | ⟨k, s, inner⟩, others⟩
      · rfl
      · rfl
      · rfl
      · rw [List.map_cons, erase_tree]
        rfl
    · rw [symbolName?_eq_none hkind, symbolName?_eq_none hkind]

end Node

/-- A lower-case letter or an underscore. -/
def isLowerStart (c : Char) : Bool :=
  ('a' ≤ c && c ≤ 'z') || c == '_'

/-- A lower-case letter, a digit or an underscore. -/
def isLowerPart (c : Char) : Bool :=
  isLowerStart c || isAsciiDigit c

/-- A lower-case identifier. -/
def isLowerName (name : String) : Bool :=
  match name.toList with
  | [] => false
  | first :: others => isLowerStart first && others.all isLowerPart

/-- A lower-case identifier that can name a method: no keyword, and not the legacy method. -/
def isMethodName (name : String) : Bool :=
  isLowerName name && (Token.Kind.ofKeyword? name).isNone && name != Migration.legacyMethod

/-- What a name of a method is. -/
theorem isMethodName_facts {name : String} (h : isMethodName name = true) :
    isLowerName name = true ∧ Token.Kind.ofKeyword? name = none ∧
      name ≠ Migration.legacyMethod := by
  simpa [isMethodName, and_assoc] using h

/-- A capital letter. -/
def isCapital (c : Char) : Bool :=
  'A' ≤ c && c ≤ 'Z'

/-- An identifier that starts with a capital. -/
def isConstantName (name : String) : Bool :=
  match name.toList with
  | [] => false
  | first :: others =>
    isCapital first && others.all fun c => isAsciiLetter c || isAsciiDigit c || c == '_'

/-- A number without sign, fraction and exponent. -/
def isNumeral (text : String) : Bool :=
  !text.toList.isEmpty && text.toList.all isAsciiDigit

/-- A text between single quotes without a quote or a backslash in it. -/
def IsQuoted (text : String) : Prop :=
  ∃ inner, text.toList = '\x27' :: (inner ++ ['\x27']) ∧ ∀ c ∈ inner, c ≠ '\x27' ∧ c ≠ '\\'

/-- The values that are written as one word each. -/
def wordKinds : List Kind := [.nilLit, .trueLit, .falseLit, .selfRef]

/-- The plain expressions, without places. -/
inductive Plain : Node → Prop
  | int {text : String} (h : isNumeral text) : Plain (.made .int [.word (.token .int) text])
  | str {text : String} (h : IsQuoted text) : Plain (.made .str [.word (.token .string) text])
  | ivar {name : String} (h : isLowerName name) :
    Plain (.made .ivar [.word (.token .ivar) ("@" ++ name)])
  | sym {name : String} (h : isLowerName name) : Plain (.symbol name)
  | const {name : String} (h : isConstantName name) :
    Plain (.made .const [.absent, .word (.token .const) name])
  | value {kind : Kind} (h : kind ∈ wordKinds) : Plain (.made kind [])
  | array {elements : List Node} (h : ∀ n ∈ elements, Plain n) : Plain (.made .array elements)
  | hash {pairs : List (String × Node)} (hkeys : ∀ p ∈ pairs, isLowerName p.1)
    (h : ∀ p ∈ pairs, Plain p.2) :
    Plain (.made .hash (pairs.map fun p => Migration.keyword p.1 p.2))
  | call {name : String} {arguments : List Node} (hname : isMethodName name)
    (h : ∀ n ∈ arguments, Plain n) :
    Plain (.made .call (.absent :: .word (.token .ident) name :: arguments))
  | methodCall {receiver : Node} {name : String} {arguments : List Node}
    (hreceiver : Plain receiver) (hhash : receiver.isKind .hash = false)
    (hname : isMethodName name) (h : ∀ n ∈ arguments, Plain n) :
    Plain (.made .call (receiver :: .word (.token .ident) name :: arguments))

/-- Something is written where a plain expression stands. -/
theorem Plain.isAbsent {n : Node} (h : Plain n) : n.isAbsent = false := by
  cases h <;> rfl

end XhrKeywords.Syntax
