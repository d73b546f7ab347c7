import XhrKeywords.Proofs.Token.Moved
import XhrKeywords.Syntax.Printer

/-!
# Moved nodes print alike

A node that is moved keeps its kinds, texts and children. The printer looks at places only to tell
whether an array starts where its first element does, so it cannot tell a moved node from the node.
-/

namespace XhrKeywords

open Syntax

instance : Movable Span where
  moved d s :=
    { s with
      line := s.line + 1, start := s.start + d, endLine := s.endLine + 1, stop := s.stop + d }

instance : Movable Place where
  moved d p :=
    { p with
      line := p.line.map (· + 1), start := p.start.map (· + d)
      endLine := p.endLine.map (· + 1), stop := p.stop.map (· + d) }

instance : Movable Leaf := ⟨fun d l => { l with place := moved d l.place }⟩

namespace Syntax

/-- The text of a leaf stays. -/
theorem Leaf.text_moved (d : Nat) (content : Leaf) : (moved d content).text = content.text := rfl

namespace Node

mutual

/-- A node with everything in it moved. -/
def relocate (d : Nat) : Node → Node
  | absent => absent
  | leaf content => leaf (moved d content)
  | tree kind span children => tree kind (span.map (moved d)) (relocateAll d children)

/-- Nodes with everything in them moved. -/
def relocateAll (d : Nat) : List Node → List Node
  | [] => []
  | n :: others => relocate d n :: relocateAll d others

end

instance : Movable Node := ⟨relocate⟩

variable (d : Nat)

/-- The recursion over children moves each of them. -/
theorem relocateAll_eq (nodes : List Node) : relocateAll d nodes = moved d nodes := by
  induction nodes with
  | nil => rfl
  | cons n others ih => rw [relocateAll, ih]; rfl

/-- A missing part stays missing. -/
@[simp] theorem moved_absent : moved d absent = absent := rfl

/-- A tree is moved with its children. -/
@[simp] theorem moved_tree (kind : Kind) (span : Option Span) (children : List Node) :
    moved d (tree kind span children) = tree kind (span.map (moved d)) (moved d children) := by
  rw [← relocateAll_eq]
  rfl

/-- Places aside, a moved node is the node itself. -/
theorem isAbsent_relocate (n : Node) : (relocate d n).isAbsent = n.isAbsent := by
  cases n <;> rfl

/-- The kind of a node stays. -/
theorem isKind_relocate (n : Node) (kind : Kind) : (relocate d n).isKind kind = n.isKind kind := by
  cases n <;> rfl

/-- The children of a moved node are the moved children. -/
theorem children_relocate (n : Node) : (relocate d n).children = relocateAll d n.children := by
  cases n <;> rfl

/-- The extent of a moved node is shifted, and a node without one gets none. -/
theorem extent?_relocate (n : Node) :
    (relocate d n).extent? = n.extent?.map fun extent => (extent.1 + d, extent.2 + d) := by
  match n with
  | absent => rfl
  | tree _ none _ | tree _ (some _) _ => rfl
  | leaf ⟨_, _, place⟩ =>
    obtain ⟨_, _, start, _, _, stop⟩ := place
    cases start <;> cases stop <;> rfl

/-- Nothing but a tree is moved to a tree. -/
theorem relocate_eq_tree {n : Node} {kind : Kind} {span : Option Span} {children : List Node}
    (h : relocate d n = tree kind span children) :
    ∃ span' children', n = tree kind span' children' ∧ relocateAll d children' = children := by
  cases n with
  | absent | leaf _ => cases h
  | tree kind' span' children' =>
    cases h
    exact ⟨span', children', rfl, rfl⟩

/-- Nodes are still there when they have been moved. -/
theorem isEmpty_relocateAll (nodes : List Node) :
    (relocateAll d nodes).isEmpty = nodes.isEmpty := by
  cases nodes <;> rfl

/-- As many nodes are there when they have been moved. -/
theorem length_relocateAll (nodes : List Node) : (relocateAll d nodes).length = nodes.length := by
  rw [relocateAll_eq]
  exact List.length_map _

end Node

namespace Printer

open Node

variable (d : Nat)

/-- The name at the head of a tree stays. -/
theorem headText_relocateAll (kind : Kind) (nodes : List Node) :
    headText kind (relocateAll d nodes) = headText kind nodes := by
  match nodes with
  | [] | .absent :: _ | .leaf _ :: _ | .tree .. :: _ => rfl

/-- The name of a parameter stays. -/
theorem parameterName_relocateAll (nodes : List Node) :
    parameterName (relocateAll d nodes) = parameterName nodes := by
  match nodes with
  | [] | .absent :: _ | .leaf _ :: _ | .tree .. :: _ => rfl

/-- A key is written as a label or not, by its text. -/
theorem label?_relocate (n : Node) : label? (relocate d n) = label? n := by
  match n with
  | .absent | .leaf _ => rfl
  | .tree kind _ [] | .tree kind _ (.absent :: _) | .tree kind _ (.leaf _ :: _)
  | .tree kind _ (.tree .. :: _) => cases kind <;> rfl

/-- A symbol is written with its text. -/
theorem symbolText?_relocate (n : Node) : symbolText? (relocate d n) = symbolText? n := by
  match n with
  | .absent | .leaf _ => rfl
  | .tree kind _ [] | .tree kind _ (.absent :: _) | .tree kind _ (.leaf _ :: _)
  | .tree kind _ (.tree .. :: _) => cases kind <;> rfl

/-- An assignment through a method is told by its name and arguments. -/
theorem assignedName?_relocate (receiver : Node) (name : String) (arguments : List Node) :
    assignedName? (relocate d receiver) name (relocateAll d arguments) =
      assignedName? receiver name arguments := by
  rw [assignedName?, isAbsent_relocate, length_relocateAll]
  rfl

/-- Two starts that are moved by the same number of characters are equal if they were. -/
theorem isBareArray_relocate (n : Node) : isBareArray (relocate d n) = isBareArray n := by
  have hfirst : (relocateAll d n.children).head?.bind Node.extent? =
      (n.children.head?.bind Node.extent?).map fun extent => (extent.1 + d, extent.2 + d) := by
    cases n.children with
    | nil => rfl
    | cons first others => exact extent?_relocate d first
  rw [isBareArray, isBareArray, children_relocate, extent?_relocate, hfirst]
  cases n.extent? with
  | none => rfl
  | some whole =>
    cases n.children.head?.bind Node.extent? with
    | none => rfl
    | some first =>
      change (whole.1 + d == first.1 + d) = (whole.1 == first.1)
      rw [Bool.eq_iff_iff, beq_iff_eq, beq_iff_eq, Nat.add_right_cancel_iff]

/-- Whether only blocks are passed is told by kinds. -/
theorem all_isBlockPass_relocateAll (nodes : List Node) :
    (relocateAll d nodes).all (·.isKind .blockPass) = nodes.all (·.isKind .blockPass) := by
  induction nodes with
  | nil => rfl
  | cons n others ih => rw [relocateAll, List.all_cons, List.all_cons, isKind_relocate, ih]

mutual

/-- A moved node prints as the node does. -/
theorem print_relocate (level : Int) (n : Node) : print level (relocate d n) = print level n := by
  match n with
  | .absent | .leaf _ => rfl
  | .tree kind span children =>
    have hparts := And.intro (printAll_relocateAll level children) <|
      And.intro (printFirst_relocateAll level children) <|
      And.intro (printSingle_relocateAll kind level children) <|
      And.intro (printArguments_relocateAll level children) <|
      And.intro (printStatements_relocateAll level children) <|
      And.intro (printAlias_relocateAll children) <|
      And.intro (printClauses_relocateAll (level - 1) children) <|
      printBranches_relocateAll none level children
    rw [relocate]
    cases kind <;>
      simp only [print, headText_relocateAll, isEmpty_relocateAll, hparts,
        fun dot parens => printCall_relocateAll dot parens level children,
        printIndex_relocateAll level children, printBlock_relocateAll level children,
        printLambda_relocateAll level children, printPair_relocateAll level children,
        fun kind gap => printBinary_relocateAll kind gap level children,
        printUnary_relocateAll level children, printTuple_relocateAll level children,
        printChoice_relocateAll level children, printConstant_relocateAll level children,
        fun kind => printModifier_relocateAll kind level children,
        printRescue_relocateAll level children, printDefinition_relocateAll level children,
        printClass_relocateAll level children,
        fun kind heading => printNamed_relocateAll kind heading level children,
        printWhile_relocateAll level children, printFor_relocateAll level children,
        printCase_relocateAll level children, printBegin_relocateAll level children]

/-- Several nodes, each printed on the same level. -/
theorem printAll_relocateAll (level : Int) (nodes : List Node) :
    printAll level (relocateAll d nodes) = printAll level nodes := by
  match nodes with
  | [] => rfl
  | n :: others =>
    simp only [relocateAll, printAll, print_relocate level n, printAll_relocateAll level others]

/-- The first node, if there is one. -/
theorem printFirst_relocateAll (level : Int) (nodes : List Node) :
    printFirst level (relocateAll d nodes) = printFirst level nodes := by
  match nodes with
  | [] => rfl
  | n :: _ => exact print_relocate level n

/-- The first node, which has to be there. -/
theorem printSingle_relocateAll (kind : Kind) (level : Int) (nodes : List Node) :
    printSingle kind level (relocateAll d nodes) = printSingle kind level nodes := by
  match nodes with
  | [] => rfl
  | n :: _ => exact print_relocate level n

/-- Statements are printed one to a line. -/
theorem printStatements_relocateAll (level : Int) (nodes : List Node) :
    printStatements level (relocateAll d nodes) = printStatements level nodes := by
  match nodes with
  | [] => rfl
  | n :: others =>
    simp only [relocateAll, printStatements, print_relocate level n,
      printStatements_relocateAll level others]

/-- Arguments: a hash among them loses its braces by its position, not by its place. -/
theorem printArguments_relocateAll (level : Int) (nodes : List Node) :
    printArguments level (relocateAll d nodes) = printArguments level nodes := by
  match nodes with
  | [] => rfl
  | .absent :: others | .leaf _ :: others =>
    simp only [relocateAll, relocate, Leaf.text_moved, printArguments, print,
      printArguments_relocateAll level others]
  | .tree kind span [] :: others =>
    have hfirst := print_relocate level (.tree kind span [])
    have hothers := printArguments_relocateAll level others
    rw [relocate] at hfirst
    simp only [relocateAll, relocate, printArguments, hothers] at hfirst ⊢
    rw [hfirst]
  | .tree kind span (pair :: pairs) :: others =>
    have hothers := printArguments_relocateAll level others
    by_cases hkind : kind = .hash
    · subst hkind
      simp only [relocateAll, relocate, printArguments, print_relocate level pair,
        printAll_relocateAll level pairs, all_isBlockPass_relocateAll, hothers]
    · have hfirst := print_relocate level (.tree kind span (pair :: pairs))
      rw [relocate] at hfirst
      rw [relocateAll, relocate, printArguments.eq_3, printArguments.eq_3, hfirst, hothers]
      all_goals
        intro span' pair' pairs' h
        cases h
        exact hkind rfl

/-- A call with its receiver and arguments. -/
theorem printCall_relocateAll (dot : String) (parens : Bool) (level : Int) (nodes : List Node) :
    printCall dot parens level (relocateAll d nodes) = printCall dot parens level nodes := by
  match nodes with
  | receiver :: .leaf name :: arguments =>
    simp only [relocateAll, relocate, Leaf.text_moved, printCall, print_relocate level receiver,
      assignedName?_relocate, printFirst_relocateAll level arguments, isAbsent_relocate,
      isEmpty_relocateAll, printArguments_relocateAll level arguments]
  | [] | [_] | _ :: .absent :: _ | _ :: .tree .. :: _ => rfl

/-- An index with its arguments. -/
theorem printIndex_relocateAll (level : Int) (nodes : List Node) :
    printIndex level (relocateAll d nodes) = printIndex level nodes := by
  match nodes with
  | [] => rfl
  | receiver :: arguments =>
    simp only [relocateAll, printIndex, print_relocate level receiver,
      printArguments_relocateAll level arguments]

/-- Parameters, with the names local to a block behind them. -/
theorem printParameters_relocateAll (level : Int) (plain shadow : List String)
    (nodes : List Node) :
    printParameters level plain shadow (relocateAll d nodes) =
      printParameters level plain shadow nodes := by
  match nodes with
  | [] | .absent :: _ | .leaf _ :: _ => rfl
  | .tree kind _ children :: others =>
    have hothers := fun plain shadow => printParameters_relocateAll level plain shadow others
    have hchildren := printParameters_relocateAll level [] [] children
    have hsecond := fun kind => printSecond_relocateAll kind level children
    cases kind <;>
      simp only [relocateAll, relocate, printParameters, parameterName_relocateAll, hothers,
        hchildren, hsecond]

/-- The second node, which has to be there. -/
theorem printSecond_relocateAll (kind : Kind) (level : Int) (nodes : List Node) :
    printSecond kind level (relocateAll d nodes) = printSecond kind level nodes := by
  match nodes with
  | [] | [_] => rfl
  | _ :: n :: _ => exact print_relocate level n

/-- A parameter list with its opening and closing marks. -/
theorem printSignature_relocate (opener closer : String) (level : Int) (n : Node) :
    printSignature opener closer level (relocate d n) = printSignature opener closer level n := by
  match n with
  | .absent | .leaf _ => rfl
  | .tree _ _ parameters =>
    simp only [relocate, printSignature, printParameters_relocateAll level [] [] parameters]

/-- The first statement of a body that stands on one line. -/
theorem printFirstStatement_relocate (level : Int) (n : Node) :
    printFirstStatement level (relocate d n) = printFirstStatement level n := by
  match n with
  | .absent | .leaf _ | .tree _ _ [] => rfl
  | .tree _ _ (first :: _) => exact print_relocate level first

/-- The statements of a body that stands on one line. -/
theorem printAllStatements_relocate (level : Int) (n : Node) :
    printAllStatements level (relocate d n) = printAllStatements level n := by
  match n with
  | .absent | .leaf _ => rfl
  | .tree _ _ statements => exact printAll_relocateAll level statements

/-- A block is printed in the style in which it was read. -/
theorem printBlock_relocateAll (level : Int) (nodes : List Node) :
    printBlock level (relocateAll d nodes) = printBlock level nodes := by
  match nodes with
  | [call, parameters, body, .leaf style] =>
    simp only [relocateAll, relocate, Leaf.text_moved, printBlock, print_relocate level call,
      printSignature_relocate " |" "|" level parameters, children_relocate, length_relocateAll,
      printFirstStatement_relocate level body, print_relocate (level + 1) body]
  | [] | [_] | [_, _] | [_, _, _] | _ :: _ :: _ :: .absent :: _ | _ :: _ :: _ :: .tree .. :: _
  | _ :: _ :: _ :: .leaf _ :: _ :: _ => rfl

/-- A lambda, with its parameters and its body. -/
theorem printLambda_relocateAll (level : Int) (nodes : List Node) :
    printLambda level (relocateAll d nodes) = printLambda level nodes := by
  match nodes with
  | [parameters, body, .leaf style] =>
    simp only [relocateAll, relocate, Leaf.text_moved, printLambda,
      printSignature_relocate "(" ")" level parameters, printAllStatements_relocate level body,
      print_relocate (level + 1) body]
  | [] | [_] | [_, _] | _ :: _ :: .absent :: _ | _ :: _ :: .tree .. :: _
  | _ :: _ :: .leaf _ :: _ :: _ => rfl

/-- A pair, with a label or an arrow. -/
theorem printPair_relocateAll (level : Int) (nodes : List Node) :
    printPair level (relocateAll d nodes) = printPair level nodes := by
  match nodes with
  | [key, value] =>
    simp only [relocateAll, printPair, label?_relocate, print_relocate level key,
      print_relocate level value]
  | [] | [_] | _ :: _ :: _ :: _ => rfl

/-- An `alias` and its two names. -/
theorem printAlias_relocateAll (nodes : List Node) :
    printAlias (relocateAll d nodes) = printAlias nodes := by
  match nodes with
  | new :: old :: _ =>
    simp only [relocateAll, printAlias, symbolText?_relocate, print_relocate 0 new,
      print_relocate 0 old]
  | [] | [_] => rfl

/-- Two operands around an operator. -/
theorem printBinary_relocateAll (kind : Kind) (gap : String) (level : Int) (nodes : List Node) :
    printBinary kind gap level (relocateAll d nodes) = printBinary kind gap level nodes := by
  match nodes with
  | [left, .leaf operator, right] =>
    simp only [relocateAll, relocate, Leaf.text_moved, printBinary, print_relocate level left,
      print_relocate level right]
  | [] | [_] | _ :: .absent :: _ | _ :: .tree .. :: _ | [_, .leaf _]
  | _ :: .leaf _ :: _ :: _ :: _ => rfl

/-- An operand behind its sign. -/
theorem printUnary_relocateAll (level : Int) (nodes : List Node) :
    printUnary level (relocateAll d nodes) = printUnary level nodes := by
  match nodes with
  | [.leaf operator, operand] =>
    simp only [relocateAll, relocate, Leaf.text_moved, printUnary, print_relocate level operand]
  | [] | .absent :: _ | .tree .. :: _ | [.leaf _] | .leaf _ :: _ :: _ :: _ => rfl

/-- A multiple assignment with its values. -/
theorem printTuple_relocateAll (level : Int) (nodes : List Node) :
    printTuple level (relocateAll d nodes) = printTuple level nodes := by
  match nodes with
  | [.tree _ _ targets, .absent] | [.tree _ _ targets, .leaf _] =>
    simp only [relocateAll, relocate, Leaf.text_moved, printTuple,
      printAll_relocateAll level targets, print]
  | [.tree _ _ targets, .tree kind span values] =>
    by_cases hkind : kind = .array
    · subst hkind
      have hbare := isBareArray_relocate d (.tree .array span values)
      rw [relocate] at hbare
      simp only [relocateAll, relocate, printTuple, printAll_relocateAll level targets,
        printAll_relocateAll level values, hbare]
    · have hvalue := print_relocate level (.tree kind span values)
      rw [relocate] at hvalue
      simp only [relocateAll, relocate]
      rw [printTuple.eq_2, printTuple.eq_2, printAll_relocateAll level targets, hvalue]
      all_goals
        intro span' values' h
        cases h
        exact hkind rfl
  | [] | [.tree ..] | .absent :: _ | .leaf _ :: _ | .tree .. :: .absent :: _ :: _
  | .tree .. :: .leaf _ :: _ :: _ => rfl
  | .tree .. :: .tree kind _ _ :: _ :: _ => cases kind <;> rfl

/-- The three parts of a choice. -/
theorem printChoice_relocateAll (level : Int) (nodes : List Node) :
    printChoice level (relocateAll d nodes) = printChoice level nodes := by
  match nodes with
  | [test, first, other] =>
    simp only [relocateAll, printChoice, print_relocate level test, print_relocate level first,
      print_relocate level other]
  | [] | [_] | [_, _] | _ :: _ :: _ :: _ :: _ => rfl

/-- A constant behind its path. -/
theorem printConstant_relocateAll (level : Int) (nodes : List Node) :
    printConstant level (relocateAll d nodes) = printConstant level nodes := by
  match nodes with
  | [.absent, .leaf name] | [.leaf _, .leaf name] => rfl
  | [.tree kind span children, .leaf name] =>
    have hscope := print_relocate level (.tree kind span children)
    rw [relocate] at hscope
    simp only [relocateAll, relocate, Leaf.text_moved, printConstant, hscope]
  | [] => rfl
  | [scope] | scope :: .absent :: _ | scope :: .tree .. :: _ | scope :: .leaf _ :: _ :: _ =>
    cases scope <;> rfl

/-- A statement with the condition behind it. -/
theorem printModifier_relocateAll (kind : Kind) (level : Int) (nodes : List Node) :
    printModifier kind level (relocateAll d nodes) = printModifier kind level nodes := by
  match nodes with
  | [.leaf keyword, statement, test] =>
    simp only [relocateAll, relocate, Leaf.text_moved, printModifier,
      print_relocate level statement, print_relocate level test]
  | [] | .absent :: _ | .tree .. :: _ | [.leaf _] | [.leaf _, _]
  | .leaf _ :: _ :: _ :: _ :: _ => rfl

/-- A statement with the `rescue` behind it. -/
theorem printRescue_relocateAll (level : Int) (nodes : List Node) :
    printRescue level (relocateAll d nodes) = printRescue level nodes := by
  match nodes with
  | [statement, fallback] =>
    simp only [relocateAll, printRescue, print_relocate level statement,
      print_relocate level fallback]
  | [] | [_] | _ :: _ :: _ :: _ => rfl

/-- A method with its owner, parameters and body. -/
theorem printDefinition_relocateAll (level : Int) (nodes : List Node) :
    printDefinition level (relocateAll d nodes) = printDefinition level nodes := by
  match nodes with
  | [owner, .leaf name, .tree _ _ parameters, body] =>
    simp only [relocateAll, relocate, Leaf.text_moved, printDefinition, print_relocate level owner,
      printParameters_relocateAll level [] [] parameters, isAbsent_relocate, isEmpty_relocateAll,
      print_relocate (level + 1) body]
  | [] | [_] | _ :: .absent :: _ | _ :: .tree .. :: _ | [_, .leaf _]
  | _ :: .leaf _ :: .absent :: _ | _ :: .leaf _ :: .leaf _ :: _ | [_, .leaf _, .tree ..]
  | _ :: .leaf _ :: .tree .. :: _ :: _ :: _ => rfl

/-- A class with its superclass. -/
theorem printClass_relocateAll (level : Int) (nodes : List Node) :
    printClass level (relocateAll d nodes) = printClass level nodes := by
  match nodes with
  | [path, parent, body] =>
    simp only [relocateAll, printClass, print_relocate level path, print_relocate level parent,
      isAbsent_relocate, print_relocate (level + 1) body]
  | [] | [_] | [_, _] | _ :: _ :: _ :: _ :: _ => rfl

/-- A module or a singleton class, with its heading. -/
theorem printNamed_relocateAll (kind : Kind) (heading : String) (level : Int)
    (nodes : List Node) :
    printNamed kind heading level (relocateAll d nodes) = printNamed kind heading level nodes := by
  match nodes with
  | [name, body] =>
    simp only [relocateAll, printNamed, print_relocate level name, print_relocate (level + 1) body]
  | [] | [_] | _ :: _ :: _ :: _ => rfl

/-- The branches of a condition, `elsif` by `elsif`. -/
theorem printBranches_relocateAll (keyword : Option String) (level : Int) (nodes : List Node) :
    printBranches keyword level (relocateAll d nodes) = printBranches keyword level nodes := by
  match nodes with
  | [.leaf own, test, body, .absent] =>
    simp only [relocateAll, relocate, Leaf.text_moved, printBranches, print,
      print_relocate level test, print_relocate (level + 1) body]
  | [.leaf own, test, body, .leaf _] =>
    simp only [relocateAll, relocate, printBranches, print, print_relocate level test,
      print_relocate (level + 1) body]
    rfl
  | [.leaf own, test, body, .tree kind span children] =>
    by_cases hkind : kind = .ifStmt
    · subst hkind
      simp only [relocateAll, relocate, Leaf.text_moved, printBranches, print_relocate level test,
        print_relocate (level + 1) body, printBranches_relocateAll (some "elsif") level children]
    · have hotherwise := print_relocate (level + 1) (.tree kind span children)
      rw [relocate] at hotherwise
      simp only [relocateAll, relocate]
      rw [printBranches.eq_2, printBranches.eq_2, print_relocate level test,
        print_relocate (level + 1) body, hotherwise]
      · rfl
      all_goals
        intro span' children' h
        cases h
        exact hkind rfl
  | [] | .absent :: _ | .tree .. :: _ | [.leaf _] | [.leaf _, _] | [.leaf _, _, _]
  | .leaf _ :: _ :: _ :: .absent :: _ :: _ | .leaf _ :: _ :: _ :: .leaf _ :: _ :: _ => rfl
  | .leaf _ :: _ :: _ :: .tree kind _ _ :: _ :: _ => cases kind <;> rfl

/-- A loop with its test. -/
theorem printWhile_relocateAll (level : Int) (nodes : List Node) :
    printWhile level (relocateAll d nodes) = printWhile level nodes := by
  match nodes with
  | [.leaf keyword, test, body] =>
    simp only [relocateAll, relocate, Leaf.text_moved, printWhile, print_relocate level test,
      print_relocate (level + 1) body]
  | [] | .absent :: _ | .tree .. :: _ | [.leaf _] | [.leaf _, _]
  | .leaf _ :: _ :: _ :: _ :: _ => rfl

/-- A loop with its variables. -/
theorem printFor_relocateAll (level : Int) (nodes : List Node) :
    printFor level (relocateAll d nodes) = printFor level nodes := by
  match nodes with
  | [.absent, collection, body] | [.leaf _, collection, body] =>
    simp only [relocateAll, relocate, Leaf.text_moved, printFor, print,
      print_relocate level collection, print_relocate (level + 1) body]
  | [.tree kind span children, collection, body] =>
    by_cases hkind : kind = .mlhs
    · subst hkind
      simp only [relocateAll, relocate, printFor, printAll_relocateAll level children,
        print_relocate level collection, print_relocate (level + 1) body]
    · have hbound := print_relocate level (.tree kind span children)
      rw [relocate] at hbound
      simp only [relocateAll, relocate]
      rw [printFor.eq_2, printFor.eq_2, hbound, print_relocate level collection,
        print_relocate (level + 1) body]
      all_goals
        intro span' children' h
        cases h
        exact hkind rfl
  | [] => rfl
  | [bound] | [bound, _] | bound :: _ :: _ :: _ :: _ =>
    match bound with
    | .absent | .leaf _ => rfl
    | .tree kind _ _ => cases kind <;> rfl

/-- A `case` with what it looks at. -/
theorem printCase_relocateAll (level : Int) (nodes : List Node) :
    printCase level (relocateAll d nodes) = printCase level nodes := by
  match nodes with
  | subject :: clause :: clauses =>
    have hclauses := printCases_relocateAll level (clause :: clauses)
    rw [relocateAll] at hclauses
    simp only [relocateAll, printCase, print_relocate level subject, isAbsent_relocate, hclauses]
  | [] | [_] => rfl

/-- The clauses of a `case` and its `else`. -/
theorem printCases_relocateAll (level : Int) (nodes : List Node) :
    printCases level (relocateAll d nodes) = printCases level nodes := by
  match nodes with
  | [] | [.absent] | [.leaf _] | .absent :: _ :: _ | .leaf _ :: _ :: _ => rfl
  | [.tree kind span children] =>
    have hotherwise := print_relocate (level + 1) (.tree kind span children)
    rw [relocate] at hotherwise
    simp only [relocateAll, relocate, printCases, hotherwise]
  | .tree kind span children :: next :: others =>
    have hothers := printCases_relocateAll level (next :: others)
    rw [relocateAll] at hothers
    simp only [relocateAll, relocate, printCases, printWhen_relocateAll level [] children, hothers]

/-- A clause of a `case`, with the values read before. -/
theorem printWhen_relocateAll (level : Int) (values : List String) (nodes : List Node) :
    printWhen level values (relocateAll d nodes) = printWhen level values nodes := by
  match nodes with
  | [] => rfl
  | [body] => simp only [relocateAll, printWhen, print_relocate (level + 1) body]
  | value :: next :: others =>
    have hothers := fun values => printWhen_relocateAll level values (next :: others)
    rw [relocateAll] at hothers
    simp only [relocateAll, printWhen, print_relocate level value, hothers]

/-- A body with its clauses. -/
theorem printBegin_relocateAll (level : Int) (nodes : List Node) :
    printBegin level (relocateAll d nodes) = printBegin level nodes := by
  match nodes with
  | [] | .absent :: _ | .leaf _ :: _ => rfl
  | .tree kind span children :: _ =>
    by_cases hkind : kind = .bodyStmt
    · subst hkind
      simp only [relocateAll, relocate, printBegin, printClauses_relocateAll level children]
    · have hbody := print_relocate (level + 1) (.tree kind span children)
      rw [relocate] at hbody
      rw [relocateAll, relocate, printBegin.eq_2, printBegin.eq_2, hbody]
      all_goals
        intro span' children' h
        cases h
        exact hkind rfl

/-- The clauses of a body in the order in which they stand. -/
theorem printClauses_relocateAll (level : Int) (nodes : List Node) :
    printClauses level (relocateAll d nodes) = printClauses level nodes := by
  match nodes with
  | [] => rfl
  | body :: clauses =>
    simp only [relocateAll, printClauses, print_relocate (level + 1) body,
      printClauseList_relocateAll level clauses]

/-- The clauses behind the first one. -/
theorem printClauseList_relocateAll (level : Int) (nodes : List Node) :
    printClauseList level (relocateAll d nodes) = printClauseList level nodes := by
  match nodes with
  | [] | .absent :: _ | .leaf _ :: _ => rfl
  | .tree kind _ children :: others =>
    have hrescue := printRescueClause_relocateAll level children
    have hbody := fun keyword kind => printBodyClause_relocateAll keyword kind level children
    cases kind <;>
      simp only [relocateAll, relocate, printClauseList, hrescue, hbody,
        printClauseList_relocateAll level others]

/-- A `rescue` with its classes and its variable. -/
theorem printRescueClause_relocateAll (level : Int) (nodes : List Node) :
    printRescueClause level (relocateAll d nodes) = printRescueClause level nodes := by
  match nodes with
  | [.tree _ _ classes, bound, body] =>
    simp only [relocateAll, relocate, printRescueClause, printAll_relocateAll level classes,
      print_relocate level bound, isEmpty_relocateAll, isAbsent_relocate,
      print_relocate (level + 1) body]
  | [] | .absent :: _ | .leaf _ :: _ | [.tree ..] | [.tree .., _]
  | .tree .. :: _ :: _ :: _ :: _ => rfl

/-- An `else` or `ensure` with its statements. -/
theorem printBodyClause_relocateAll (keyword : String) (kind : Kind) (level : Int)
    (nodes : List Node) :
    printBodyClause keyword kind level (relocateAll d nodes) =
      printBodyClause keyword kind level nodes := by
  match nodes with
  | [] => rfl
  | body :: _ => simp only [relocateAll, printBodyClause, print_relocate (level + 1) body]

end

end Printer

/-- Printing does not tell a moved node from the node itself. -/
theorem Node.print_moved (d : Nat) (n : Node) (command : Bool) :
    (moved d n).print command = n.print command := by
  match command, n with
  | false, n => exact Printer.print_relocate d 0 n
  | true, .absent | true, .leaf _ => rfl
  | true, .tree kind span children =>
    by_cases hcall : kind = .call
    · subst hcall
      exact Printer.printCall_relocateAll d "." false 0 children
    by_cases hsafe : kind = .csend
    · subst hsafe
      exact Printer.printCall_relocateAll d "&." false 0 children
    change (relocate d (tree kind span children)).print true = _
    rw [relocate, Node.print.eq_3, Node.print.eq_3]
    · exact Printer.print_relocate d 0 (.tree kind span children)
    all_goals
      intro _ _ _ h
      cases h
      first
      | exact hcall rfl
      | exact hsafe rfl

end Syntax

end XhrKeywords
