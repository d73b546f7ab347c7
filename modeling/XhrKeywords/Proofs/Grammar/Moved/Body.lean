import XhrKeywords.Grammar.Block
import XhrKeywords.Proofs.Grammar.Moved.Argument

/-!
# Bodies, parameters and blocks on moved tokens

Statements, parameters and targets are told apart by kinds and texts, which do not move.
-/

namespace XhrKeywords.Grammar

open Syntax hiding Kind
open Token (Kind)

variable {d : Nat} {taken : Bool} {g : Rules}

/-- One statement and the separator behind it. -/
theorem moves_statementRound (hg : g.Moving d) (stops : List Kind) {found : List Node}
    (hfound : ArePlaced found) :
    Moves d taken taken (Rounded ArePlaced ArePlaced) (statementRound g stops found)
      (statementRound g stops (moved d found)) := by
  refine moves_skipSeparators.bind fun _ _ => (moves_seesAny _).bind fun _ _ =>
    .ite Iff.rfl (moves_pure hfound rfl) ?_
  exact (hg .statement).weaken.bind fun next hnext => (moves_seesAny _).bind fun _ _ =>
    .ite Iff.rfl (moves_again hfound hnext) (moves_fail _)

/-- Statements up to a keyword that stops them. -/
theorem moves_statements (hg : g.Moving d) (stops : List Kind) :
    Moves d taken taken ArePlaced (statements g stops) (statements g stops) :=
  moves_rounds g.limit (moves_statementRound hg stops arePlaced_nil)
    fun _ => moves_statementRound hg stops

/-- The statements of a body; an empty one has no place, and none is asked for. -/
theorem moves_body (hg : g.Moving d) (stops : List Kind) :
    Moves d taken taken IsPlaced (body g stops) (body g stops) := by
  refine moves_current.bind fun start _ => (moves_statements hg stops).bind fun found hfound => ?_
  match found, hfound with
  | [], _ => exact moves_pure (isPlaced_tree ..) rfl
  | first :: others, hfound =>
    exact moves_pure (isPlaced_tree ..) (enclose_all_moved .body hfound)

/-- The mark between two elements. -/
theorem moves_separator : Moves d taken taken Anything separator separator := by
  refine (moves_seesClass _).bind fun _ _ => moves_skipSeparators.bind fun _ _ =>
    (moves_accept .kwThen).bind fun _ _ => .ite Iff.rfl (moves_pure trivial rfl) ?_
  exact .ite Iff.rfl (moves_pure trivial rfl) (moves_fail _)

/-- One element of a list without a closing mark. -/
theorem moves_elementRound {element : Parser Node}
    (helement : ∀ taken, Moves d taken true IsPlaced element element) {found : List Node}
    (hfound : ArePlaced found) :
    Moves d taken true (Rounded ArePlaced ArePlaced) (elementRound element found)
      (elementRound element (moved d found)) := by
  exact (helement taken).bind fun next hnext =>
    moves_listRound (hfound.concat hnext) (moved_append found [next]).symm

/-- The elements of a list without a closing mark. -/
theorem moves_elements {element : Parser Node}
    (helement : ∀ taken, Moves d taken true IsPlaced element element) :
    Moves d taken true ArePlaced (elements g element) (elements g element) :=
  moves_rounds g.limit (moves_elementRound helement arePlaced_nil)
    fun _ => moves_elementRound helement

/-- A name may be assigned to by its text and whether it has a receiver. -/
theorem isAssignableName_moved (receiver : Node) (name : String) :
    isAssignableName (moved d receiver) name = isAssignableName receiver name := by
  cases receiver <;> rfl

/-- Whether a node may be assigned to does not depend on its place. -/
theorem isAssignable_moved (n : Node) : isAssignable (moved d n) = isAssignable n := by
  match n with
  | .absent | .leaf _ => rfl
  | .tree kind _ [receiver, .leaf name] =>
    cases kind <;>
      first
      | rfl
      | exact isAssignableName_moved receiver name.text
  | .tree kind _ [] | .tree kind _ [_] | .tree kind _ (_ :: .absent :: _)
  | .tree kind _ (_ :: .tree .. :: _) | .tree kind _ (_ :: .leaf _ :: _ :: _) =>
    cases kind <;> rfl

/-- Nor does whether it may stand among several targets. -/
theorem isTarget_moved (n : Node) : isTarget (moved d n) = isTarget n := by
  have hkind := Node.isKind_relocate d n
  rw [isTarget, isTarget, isAssignable_moved]
  change (_ || (Node.relocate d n).isKind _ || (Node.relocate d n).isKind _) = _
  rw [hkind, hkind]

/-- Behind a call without receiver and arguments the name alone is left. -/
theorem children_eq_of_moved {children : List Node} {name : Leaf}
    (h : Node.relocateAll d children = [.absent, .leaf name]) :
    ∃ name', children = [.absent, .leaf name'] := by
  match children with
  | [.absent, .leaf name'] => exact ⟨name', rfl⟩
  | [] | [_] | .leaf _ :: _ :: _ | .tree .. :: _ :: _ | .absent :: .absent :: _
  | .absent :: .tree .. :: _ | .absent :: .leaf _ :: _ :: _ =>
    simp [Node.relocateAll, Node.relocate] at h

/-- A node read as a value becomes the target at the same place. -/
theorem moves_toTarget {n : Node} (hn : IsPlaced n) :
    Moves d taken taken IsPlaced (toTarget n) (toTarget (moved d n)) := by
  by_cases hcall : ∃ span name, n = .tree .call span [.absent, .leaf name]
  · obtain ⟨span, name, rfl⟩ := hcall
    obtain ⟨_, span, _, ⟨⟩⟩ := hn
    exact (moves_declare name.text).bind fun _ _ => moves_pure (isPlaced_tree ..) rfl
  · have hmoved (span : Option Span) (name : Leaf)
        (h : moved d n = .tree .call span [.absent, .leaf name]) : False := by
      obtain ⟨span', children, rfl, hchildren⟩ := Node.relocate_eq_tree d h
      obtain ⟨name', rfl⟩ := children_eq_of_moved hchildren
      exact hcall ⟨span', name', rfl⟩
    have hkind : (moved d n).kind? = n.kind? := by cases n <;> rfl
    rw [toTarget.eq_2 _ hmoved, toTarget.eq_2 _ fun span name h => hcall ⟨span, name, h⟩, hkind]
    exact .ite (by rw [isTarget_moved]) (moves_pure hn rfl) (moves_fail _)

/-- The default of a parameter. -/
theorem moves_default (hg : g.Moving d) (inBlock : Bool) :
    Moves d taken true IsPlaced (g.read (defaultPhrase inBlock))
      (g.read (defaultPhrase inBlock)) := by
  cases inBlock with
  | false => exact hg .choice
  | true => exact hg .operand

/-- The name behind a mark, which may be left out. -/
theorem moves_markedName : Moves d true true Anything markedName markedName :=
  (moves_sees .ident).bind fun _ _ => .ite Iff.rfl
    (moves_takeName.bind fun _ _ => moves_pure trivial rfl) (moves_pure trivial rfl)

/-- A parameter `*name`, `**name` or `&name`. -/
theorem moves_markedParameter (kind : Syntax.Kind) :
    Moves d taken true IsPlaced (markedParameter kind) (markedParameter kind) :=
  moves_advance.bind fun _ _ => moves_markedName.bind fun _ _ => moves_build kind rfl rfl

/-- A parameter `name:`, with or without a default. -/
theorem moves_keywordParameter (hg : g.Moving d) (closers : List Kind) (inBlock : Bool) :
    Moves d taken true IsPlaced (keywordParameter g closers inBlock)
      (keywordParameter g closers inBlock) := by
  refine moves_advance.bind fun label _ => (moves_seesAny _).bind fun _ _ => .ite Iff.rfl ?_ ?_
  · exact moves_build .kwArg rfl rfl
  · exact (moves_default hg inBlock).bind fun _ _ => moves_build .kwOptArg rfl rfl

/-- A parameter, with or without a default. -/
theorem moves_positionalParameter (hg : g.Moving d) (inBlock : Bool) :
    Moves d taken true IsPlaced (positionalParameter g inBlock)
      (positionalParameter g inBlock) := by
  refine moves_advance.bind fun name _ => (moves_accept .assign).bind fun _ _ => .ite Iff.rfl ?_ ?_
  · exact (moves_default hg inBlock).bind fun _ _ => moves_build .optArg rfl rfl
  · exact moves_build .arg rfl rfl

/-- One parameter, by its first token. -/
theorem moves_parameter (hg : g.Moving d) (closers : List Kind) (inBlock : Bool) :
    Moves d taken true IsPlaced (parameter g closers inBlock) (parameter g closers inBlock) := by
  refine moves_current.bind fun t _ => ?_
  rw [kind_moved]
  split
  · exact moves_markedParameter .restArg
  · exact moves_markedParameter .kwRestArg
  · exact moves_markedParameter .blockArg
  · exact moves_keywordParameter hg closers inBlock
  · exact moves_advance.bind fun opener _ => hg (.parameterGroup opener inBlock)
  · exact moves_positionalParameter hg inBlock
  · exact moves_fail _

/-- A parameter declares the same name. -/
theorem parameterName?_moved (n : Node) : parameterName? (moved d n) = parameterName? n := by
  match n with
  | .absent | .leaf _ | .tree _ _ [] | .tree _ _ (.absent :: _) | .tree _ _ (.leaf _ :: _)
  | .tree _ _ (.tree .. :: _) => rfl

/-- The name of a parameter is declared. -/
theorem moves_declareParameter (n : Node) :
    Moves d taken taken Anything (declareParameter n) (declareParameter (moved d n)) := by
  rw [declareParameter, declareParameter, parameterName?_moved]
  cases parameterName? n with
  | some name => exact moves_declare name
  | none => exact moves_pure trivial rfl

/-- A name local to a block. -/
theorem moves_shadowParameter :
    Moves d taken true IsPlaced shadowParameter shadowParameter :=
  moves_advance.bind fun name _ => (moves_declare name.text).bind fun _ _ =>
    moves_build .shadowArg rfl rfl

/-- One round of the names local to a block. -/
theorem moves_shadowRound {found : List Node} (hfound : ArePlaced found) :
    Moves d taken taken (Rounded ArePlaced ArePlaced) (shadowRound found)
      (shadowRound (moved d found)) := by
  refine (moves_sees .ident).bind fun _ _ => .ite Iff.rfl ?_ (moves_pure hfound rfl)
  exact Moves.weaken (moves_shadowParameter.bind fun next hnext =>
    moves_commaRound (hfound.concat hnext) (moved_append found [next]).symm)

/-- One round of a parameter list. -/
theorem moves_parameterRound (hg : g.Moving d) (closers : List Kind) (inBlock : Bool)
    {found : List Node} (hfound : ArePlaced found) :
    Moves d taken taken (Rounded ArePlaced ArePlaced) (parameterRound g closers inBlock found)
      (parameterRound g closers inBlock (moved d found)) := by
  refine (moves_seesAny closers).bind fun _ _ => .ite Iff.rfl (moves_pure hfound rfl) ?_
  refine (moves_accept .semi).bind fun _ _ => .ite Iff.rfl ?_ ?_
  · exact (moves_rounds g.limit (moves_shadowRound hfound) fun _ => moves_shadowRound).again
  · refine Moves.weaken ((moves_parameter hg closers inBlock).bind fun next hnext => ?_)
    exact (moves_declareParameter next).bind fun _ _ =>
      moves_listRound (hfound.concat hnext) (moved_append found [next]).symm

/-- A parameter list up to its closing mark. -/
theorem moves_parameters (hg : g.Moving d) (closers : List Kind) (inBlock : Bool) :
    Moves d taken taken ArePlaced (parameters g closers inBlock) (parameters g closers inBlock) :=
  moves_rounds g.limit (moves_parameterRound hg closers inBlock arePlaced_nil)
    fun _ => moves_parameterRound hg closers inBlock

/-- A parameter that is a list in parentheses. -/
theorem moves_parameterGroup (hg : g.Moving d) (opener : Token) (inBlock : Bool) :
    Moves d taken true IsPlaced (parameterGroup g opener inBlock)
      (parameterGroup g (moved d opener) inBlock) :=
  (moves_parameters hg [.rpar] inBlock).bind fun _ _ => (moves_expect .rpar).bind fun _ _ =>
    moves_build .mlhs rfl rfl

/-- The classes of a `rescue`. -/
theorem moves_rescueClasses (hg : g.Moving d) :
    Moves d true true Anything (rescueClasses g) (rescueClasses g) :=
  (moves_seesAny _).bind fun _ _ => .ite Iff.rfl (moves_pure trivial rfl)
    ((moves_elements fun _ => moves_splatOr fun _ => hg .choice).mono fun _ _ => trivial)

/-- The variable of a `rescue`. -/
theorem moves_rescueVariable (hg : g.Moving d) :
    Moves d true true Anything (rescueVariable g) (rescueVariable g) :=
  (moves_accept .assoc).bind fun _ _ => .ite Iff.rfl
    ((hg .operand).bind fun _ hn => (moves_toTarget hn).anything) (moves_pure trivial rfl)

/-- A `rescue` with its body. -/
theorem moves_rescueClause (hg : g.Moving d) :
    Moves d taken true IsPlaced (rescueClause g) (rescueClause g) :=
  moves_advance.bind fun _ _ => (moves_rescueClasses hg).bind fun _ _ =>
    (moves_rescueVariable hg).bind fun _ _ => moves_separator.bind fun _ _ =>
      (moves_body hg _).bind fun _ _ => (moves_build .excList rfl rfl).bind fun _ _ =>
        moves_build .resBody rfl rfl

/-- One round of the `rescue` clauses. -/
theorem moves_rescueRound (hg : g.Moving d) {found : List Node} (hfound : ArePlaced found) :
    Moves d true true (Rounded ArePlaced ArePlaced) (rescueRound g found)
      (rescueRound g (moved d found)) :=
  (moves_sees .kwRescue).bind fun _ _ => .ite Iff.rfl
    ((moves_rescueClause hg).againWith hfound) (moves_pure hfound rfl)

/-- An `else` or `ensure` clause, if there is one. -/
theorem moves_bodyClause (hg : g.Moving d) (keyword : Kind) (kind : Syntax.Kind)
    (stops : List Kind) :
    Moves d true true Anything (bodyClause g keyword kind stops)
      (bodyClause g keyword kind stops) := by
  refine (moves_sees keyword).bind fun _ _ => .ite Iff.rfl ?_ (moves_pure trivial rfl)
  exact moves_advance.bind fun _ _ => (moves_body hg stops).bind fun _ _ =>
    (moves_build kind rfl rfl).bind fun _ _ => moves_pure trivial rfl

/-- A body with its `rescue`, `else` and `ensure` clauses. -/
theorem moves_bodyStatement (hg : g.Moving d) :
    Moves d true true IsPlaced (bodyStatement g) (bodyStatement g) := by
  refine moves_current.bind fun start _ => (moves_body hg _).bind fun main hmain =>
    (moves_seesAny _).bind fun _ _ => .ite Iff.rfl ?_ (moves_pure hmain rfl)
  refine (moves_rounds g.limit (moves_rescueRound hg arePlaced_nil)
    fun _ => moves_rescueRound hg).bind fun rescues _ => ?_
  refine (moves_bodyClause hg .kwElse .elseClause _).bind fun otherwise _ =>
    (moves_bodyClause hg .kwEnsure .ensureClause _).bind fun atLast _ =>
      moves_build .bodyStmt ?_ rfl
  rw [moved_append, moved_append, moved_cons]

/-- The parameters of a block between bars, if there are any. -/
theorem moves_blockParameters (hg : g.Moving d) :
    Moves d true true Anything (blockParameters g) (blockParameters g) := by
  refine (moves_sees .orOr).bind fun _ _ => .ite Iff.rfl (moves_bare .args).anything ?_
  refine (moves_sees .pipe).bind fun _ _ => .ite Iff.rfl ?_ (moves_pure trivial rfl)
  exact moves_advance.bind fun bar _ => (moves_parameters hg _ true).bind fun _ _ =>
    (moves_expectCloser .pipe _ _).bind fun _ _ => (moves_build .args rfl rfl).anything

/-- A body up to its brace. -/
theorem moves_bracedBody (hg : g.Moving d) (construction : String) :
    Moves d true true IsPlaced (bracedBody g construction) (bracedBody g construction) :=
  (moves_body hg _).bind fun _ hn => (moves_expectCloser .rbrace _ _).bind fun _ _ =>
    moves_pure hn rfl

/-- A body up to its `end`. -/
theorem moves_closedBody (hg : g.Moving d) (construction : String) :
    Moves d true true IsPlaced (closedBody g construction) (closedBody g construction) :=
  (moves_bodyStatement hg).bind fun _ hn => (moves_expectEnd _).bind fun _ _ => moves_pure hn rfl

/-- A body up to its `end`, where a `do` may be taken again. -/
theorem moves_bracketedBody (hg : g.Moving d) (construction : String) :
    Moves d true true IsPlaced (bracketedBody g construction) (bracketedBody g construction) :=
  (moves_bodyStatement hg).bracketed.bind fun _ hn => (moves_expectEnd construction).bind
    fun _ _ => moves_pure hn rfl

/-- The parameters and the body of a block. -/
theorem moves_blockParts (hg : g.Moving d) (braces : Bool) :
    Moves d true true Anything (blockParts g braces) (blockParts g braces) := by
  refine (moves_blockParameters hg).bind fun _ _ => .ite Iff.rfl ?_ ?_
  · exact (moves_bracedBody hg _).bind fun _ _ => moves_pure trivial rfl
  · exact (moves_closedBody hg _).bind fun _ _ => moves_pure trivial rfl

/-- A block behind its call. -/
theorem moves_block (hg : g.Moving d) {call : Node} (hcall : IsPlaced call) :
    Moves d taken true IsPlaced (block g call) (block g (moved d call)) := by
  refine moves_advance.bind fun opener _ => ?_
  exact ((moves_blockParts hg _).inScope true).bracketed.bind fun _ _ =>
    moves_build .block rfl (ofNode_moved hcall)

/-- The parameters of a lambda, in parentheses or without. -/
theorem moves_lambdaParameters (hg : g.Moving d) :
    Moves d true true Anything (lambdaParameters g) (lambdaParameters g) := by
  refine (moves_sees .lpar).bind fun _ _ => .ite Iff.rfl ?_ ?_
  · refine moves_advance.bind fun opener _ => (moves_parameters hg _ false).bind fun found _ =>
      (moves_build .args rfl rfl).bind fun args hargs => (moves_expect .rpar).bind fun closer _ =>
        moves_pure trivial ?_
    obtain ⟨kind, span, children, rfl⟩ := hargs
    rfl
  · refine (moves_seesAny _).bind fun _ _ => .ite Iff.rfl ?_ (moves_pure trivial rfl)
    exact moves_current.bind fun start _ => (moves_parameters hg _ false).bind fun _ _ =>
      (moves_build .args rfl rfl).anything

/-- The body of a lambda, in braces or between `do` and `end`. -/
theorem moves_lambdaBody (hg : g.Moving d) :
    Moves d true true Anything (lambdaBody g) (lambdaBody g) := by
  refine (moves_accept .lbrace).bind fun _ _ => .ite Iff.rfl ?_ ?_
  · exact (moves_bracedBody hg _).bind fun _ _ => moves_pure trivial rfl
  · exact (moves_expectOr .kwDo _).bind fun _ _ => (moves_closedBody hg _).bind fun _ _ =>
      moves_pure trivial rfl

/-- The parameters and the body of a lambda. -/
theorem moves_lambdaParts (hg : g.Moving d) :
    Moves d true true Anything (lambdaParts g) (lambdaParts g) :=
  (moves_lambdaParameters hg).bind fun _ _ => (moves_lambdaBody hg).bracketed.bind fun _ _ =>
    moves_pure trivial rfl

/-- A lambda literal. -/
theorem moves_lambda (hg : g.Moving d) : Moves d taken true IsPlaced (lambda g) (lambda g) :=
  (moves_expect .arrow).bind fun _ _ => ((moves_lambdaParts hg).inScope true).bind fun _ _ =>
    moves_build .lambda rfl rfl

end XhrKeywords.Grammar
