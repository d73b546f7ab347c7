import XhrKeywords.Grammar.Program
import XhrKeywords.Proofs.Grammar.Moved.Primary
import XhrKeywords.Proofs.Token.Order

/-!
# Programs on moved tokens

Expressions and statements close the circle: the rules for any number of tokens read moved tokens
as they read the tokens. So the tree of a source behind a line without tokens is the moved tree of
the source.
-/

namespace XhrKeywords

namespace Grammar

open Syntax hiding Kind
open Token (Kind)

variable {d : Nat} {taken : Bool} {g : Rules}

/-- Whether a node may take a block does not depend on its place. -/
theorem takesBlock_moved (n : Node) : takesBlock (moved d n) = takesBlock n := by
  cases n with
  | absent | leaf _ => rfl
  | tree kind span children => cases kind <;> rfl

/-- Nor does whether it is a variable. -/
theorem isVariable_moved (n : Node) : isVariable (moved d n) = isVariable n := by
  cases n with
  | absent | leaf _ => rfl
  | tree kind span children => cases kind <;> rfl

/-- A constant or a call behind `::`. -/
theorem moves_scopeTrailer (hg : g.Moving d) {n : Node} (hn : IsPlaced n) :
    Moves d taken true IsPlaced (scopeTrailer g n) (scopeTrailer g (moved d n)) := by
  refine moves_advance.bind fun _ _ => moves_second.bind fun behind _ =>
    (moves_sees .const).bind fun _ _ => .ite Iff.rfl ?_ (moves_methodCall hg hn .colon2)
  exact moves_advance.bind fun _ _ => moves_build .const rfl (ofNode_moved hn)

/-- A call behind a dot. -/
theorem moves_callTrailer (hg : g.Moving d) {n : Node} (hn : IsPlaced n) :
    Moves d taken true IsPlaced (callTrailer g n) (callTrailer g (moved d n)) :=
  moves_advance.bind fun operator _ => moves_skipNewlines.bind fun _ _ =>
    moves_methodCall hg hn operator.kind

/-- An index in brackets ends at its bracket. -/
theorem moves_indexTrailer (hg : g.Moving d) {n : Node} (hn : IsPlaced n) :
    Moves d taken true IsPlaced (indexTrailer g n) (indexTrailer g (moved d n)) :=
  (moves_delimitedArguments hg .rbrack).bind fun _ _ => moves_build .index rfl (ofNode_moved hn)

/-- Whether brackets are an index is told by whether they touch what is in front of them. -/
theorem moves_trailerRound (hg : g.Moving d) {n : Node} (hn : IsPlaced n) :
    Moves d true true (Rounded IsPlaced IsPlaced) (trailerRound g n)
      (trailerRound g (moved d n)) := by
  have hdone : Moves d true true (Rounded IsPlaced IsPlaced) (pure (.done n))
      (pure (.done (moved d n))) := moves_pure hn rfl
  refine moves_current.bind fun t _ => ?_
  rw [kind_moved]
  split
  · exact (moves_callTrailer hg hn).again
  · exact (moves_callTrailer hg hn).again
  · exact .ite Iff.rfl hdone (moves_scopeTrailer hg hn).again
  · rw [isVariable_moved]
    exact .ite Iff.rfl hdone (moves_indexTrailer hg hn).again
  · rw [takesBlock_moved]
    exact .ite Iff.rfl (moves_block hg hn).again hdone
  · rw [takesBlock_moved]
    exact moves_doBinds.bind fun _ _ => .ite Iff.rfl (moves_block hg hn).again hdone
  · exact hdone

/-- A primary with what follows it encloses it again and again. -/
theorem moves_operand (hg : g.Moving d) : Moves d taken true IsPlaced (operand g) (operand g) :=
  (moves_primary hg).bind fun _ hn => moves_rounds g.limit (moves_trailerRound hg hn)
    fun _ => moves_trailerRound hg

/-- What `defined?` asks about, in parentheses or without. -/
theorem moves_testedOperand (hg : g.Moving d) :
    Moves d true true Anything (testedOperand g) (testedOperand g) := by
  refine (moves_seesGlued .lpar).bind fun _ _ => .ite Iff.rfl ?_ (hg .unary).anything
  exact moves_advance.bind fun _ _ => moves_skipNewlines.bind fun _ _ =>
    (hg .sequence).bind fun _ _ => moves_skipNewlines.bind fun _ _ =>
      (moves_expect .rpar).bind fun _ _ => moves_pure trivial rfl

/-- A `defined?` starts at its keyword. -/
theorem moves_definedTest (hg : g.Moving d) :
    Moves d taken true IsPlaced (definedTest g) (definedTest g) :=
  moves_advance.bind fun _ _ => (moves_testedOperand hg).bind fun _ _ =>
    moves_build .defined rfl rfl

/-- A sign in front of an operand that binds tighter. -/
theorem moves_unaryOperation (hg : g.Moving d) {tighter : Phrase}
    (htighter : moved d tighter = tighter) :
    Moves d taken true IsPlaced (unaryOperation g tighter) (unaryOperation g tighter) := by
  have hread : Moves d true true IsPlaced (g.read tighter) (g.read (moved d tighter)) := hg tighter
  rw [htighter] at hread
  exact moves_advance.bind fun _ _ => hread.bind fun _ _ => moves_build .unop rfl rfl

/-- An operand with or without a sign in front. -/
theorem moves_unary (hg : g.Moving d) : Moves d taken true IsPlaced (unary g) (unary g) :=
  (moves_seesAny _).bind fun _ _ => .ite Iff.rfl (moves_unaryOperation hg rfl) <|
    (moves_sees .kwDefined).bind fun _ _ =>
      .ite Iff.rfl (moves_definedTest hg) (moves_operand hg)

/-- The right side of a power is read with its own sign and power. -/
theorem moves_power (hg : g.Moving d) {base : Node} (hbase : IsPlaced base) :
    Moves d true true IsPlaced (power g base) (power g (moved d base)) := by
  refine (moves_sees .pow).bind fun _ _ => .ite Iff.rfl ?_ (moves_pure hbase rfl)
  exact moves_advance.bind fun _ _ => moves_skipNewlines.bind fun _ _ => (hg .signed).bind
    fun _ _ => moves_build .binop rfl (ofNode_moved hbase)

/-- A number literal with its sign starts at the sign. -/
theorem moves_negativeNumber (sign : Token) :
    Moves d true true IsPlaced (negativeNumber sign) (negativeNumber (moved d sign)) :=
  moves_advance.bind fun _ _ => moves_build _ rfl rfl

/-- A minus sign touches the number behind it if they share a border, which moves. -/
theorem moves_signed (hg : g.Moving d) : Moves d taken true IsPlaced (signed g) (signed g) := by
  refine (moves_sees .minus).bind fun _ _ => .ite Iff.rfl ?_
    ((moves_unary hg).bind fun _ hn => moves_power hg hn)
  refine moves_advance.bind fun sign _ => moves_current.bind fun number _ => .ite ?_ ?_ ?_
  · rw [kind_moved, start_moved, stop_moved, beq_add_right]
  · exact (moves_negativeNumber sign).bind fun _ hn => moves_power hg hn
  · exact (hg .signed).bind fun _ _ => moves_build .unop rfl rfl

/-- One operator of a level with its right operand. -/
theorem moves_binaryRound (operators : List Kind) {tighter : Parser Node}
    (htighter : Moves d true true IsPlaced tighter tighter) {left : Node} (hleft : IsPlaced left) :
    Moves d true true (Rounded IsPlaced IsPlaced) (binaryRound operators tighter left)
      (binaryRound operators tighter (moved d left)) := by
  refine (moves_seesAny operators).bind fun _ _ => .ite Iff.rfl ?_ (moves_pure hleft rfl)
  exact moves_advance.bind fun _ _ => moves_skipNewlines.bind fun _ _ => htighter.bind fun _ _ =>
    (moves_build .binop rfl (ofNode_moved hleft)).again

/-- The operands of a level, grouped from the left. -/
theorem moves_leftAssociative (g : Rules) (operators : List Kind) {tighter : Parser Node}
    (htighter : ∀ taken, Moves d taken true IsPlaced tighter tighter) :
    Moves d taken true IsPlaced (leftAssociative g operators tighter)
      (leftAssociative g operators tighter) :=
  (htighter taken).bind fun _ hn => moves_rounds g.limit
    (moves_binaryRound operators (htighter true) hn)
    fun _ => moves_binaryRound operators (htighter true)

/-- All levels of binary operators, by induction on the levels. -/
theorem moves_operation (hg : g.Moving d) (levels : List (List Kind)) (taken : Bool) :
    Moves d taken true IsPlaced (operation g levels) (operation g levels) := by
  induction levels generalizing taken with
  | nil => exact moves_signed hg
  | cons operators tighter ih => exact moves_leftAssociative g operators ih

/-- The upper bound of a range may be left out. -/
theorem moves_upperBound (hg : g.Moving d) :
    Moves d true true Anything (upperBound g) (upperBound g) :=
  (moves_seesClass _).bind fun _ _ =>
    .ite Iff.rfl (moves_pure trivial rfl) (moves_operation hg _ true).anything

/-- A range, or the operation that would be its lower bound. -/
theorem moves_range (hg : g.Moving d) : Moves d taken true IsPlaced (range g) (range g) := by
  refine (moves_operation hg _ taken).bind fun lower hlower => (moves_seesAny _).bind fun _ _ =>
    .ite Iff.rfl ?_ (moves_pure hlower rfl)
  exact moves_advance.bind fun operator _ => (moves_upperBound hg).bind fun _ _ =>
    moves_build .range rfl (ofNode_moved hlower)

/-- The place of a node that covers text may be cut short before or after it is moved. -/
theorem mapSpan_shorten_moved {n : Node} (h : IsExtended n) :
    mapSpan shorten (moved d n) = moved d (mapSpan shorten n) := by
  obtain ⟨⟨kind, span, children, rfl⟩, hstop⟩ := h
  rw [mapSpan, Node.moved_tree, Node.moved_tree]
  exact congrArg (fun span => Node.tree kind (some span) _) (shorten_moved span hstop)

/-- A node whose place is changed has one. -/
theorem isPlaced_mapSpan (change : Span → Span) {n : Node} (h : IsPlaced n) :
    IsPlaced (mapSpan change n) := by
  obtain ⟨kind, span, children, rfl⟩ := h
  exact isPlaced_tree ..

/-- The second branch of a choice, behind its colon. -/
theorem moves_chosenBranch (hg : g.Moving d) :
    Moves d true true IsPlaced (chosenBranch g) (chosenBranch g) :=
  (hg .choice).bind fun _ hn => moves_skipNewlines.bind fun _ _ =>
    (moves_expectOr .colon _).bind fun _ _ => moves_pure hn rfl

/-- A label in the first branch gives its colon back, and its place ends before it. -/
theorem moves_firstBranch (hg : g.Moving d) :
    Moves d true true IsPlaced (firstBranch g) (firstBranch g) := by
  refine moves_current.bind fun t _ => ?_
  rw [kind_moved]
  split
  · exact moves_advance.bind fun _ ht => moves_nameReference ht
  · exact (moves_singleAs_extended .str _).bind fun _ hn =>
      moves_pure (isPlaced_mapSpan shorten hn.1) (mapSpan_shorten_moved hn)
  · exact moves_chosenBranch hg

/-- A choice `test ? first : second`, or its test alone. -/
theorem moves_choice (hg : g.Moving d) : Moves d taken true IsPlaced (choice g) (choice g) := by
  refine (moves_range hg).bind fun test htest => (moves_accept .qmark).bind fun _ _ =>
    .ite Iff.rfl ?_ (moves_pure htest rfl)
  exact moves_skipNewlines.bind fun _ _ => (moves_firstBranch hg).bind fun _ _ =>
    moves_skipNewlines.bind fun _ _ => (hg .choice).bind fun _ _ =>
      moves_build .ternary rfl (ofNode_moved htest)

/-- What is assigned to is read as a value first. -/
theorem moves_assignment (hg : g.Moving d) :
    Moves d taken true IsPlaced (assignment g) (assignment g) := by
  refine (moves_choice hg).bind fun left hleft => (moves_seesAny _).bind fun _ _ =>
    .ite (by rw [isAssignable_moved]; exact Iff.rfl) ?_ (moves_pure hleft rfl)
  exact moves_advance.bind fun _ _ => moves_skipNewlines.bind fun _ _ =>
    (moves_toTarget hleft).bind fun _ htarget => (hg .assignment).bind fun _ _ =>
      moves_build .asgn rfl (ofNode_moved htarget)

/-- `not` in front of an expression. -/
theorem moves_negation (hg : g.Moving d) (taken : Bool) :
    Moves d taken true IsPlaced (negation g) (negation g) :=
  (moves_sees .kwNot).bind fun _ _ =>
    .ite Iff.rfl (moves_unaryOperation hg rfl) (moves_assignment hg)

/-- Expressions joined by `and` and `or`. -/
theorem moves_sequence (hg : g.Moving d) :
    Moves d taken true IsPlaced (sequence g) (sequence g) :=
  moves_leftAssociative g _ (moves_negation hg)

/-- Whether a comma is ahead of an equals sign is told by kinds and depth. -/
theorem hasTargets_moved (depth : Nat) (comma : Bool) (tokens : List Token) :
    hasTargets depth comma (moved d tokens) = hasTargets depth comma tokens := by
  induction tokens generalizing depth comma with
  | nil => rfl
  | cons t others ih => simp only [moved_cons, hasTargets, kind_moved, ih]

/-- Whether several targets follow is told by the tokens ahead. -/
theorem moves_seesTargets : Moves d taken taken Anything seesTargets seesTargets := by
  intro s s' hs
  have hget (s : State) : (get : Parser State) s = .ok (s, s) := rfl
  rw [seesTargets, bind_of_eq (hget s), bind_of_eq (hget s'), hs.current, hs.second.1, hs.ahead]
  refine Moves.bind (moves_isLocal s.current.text) (fun known _ => ?_) s s' hs
  refine .ite Iff.rfl (moves_pure trivial rfl) (moves_pure trivial ?_)
  exact hasTargets_moved 0 false (s.current :: s.ahead)

/-- A target is read as an operand first. -/
theorem moves_targetOperand (hg : g.Moving d) :
    Moves d taken true IsPlaced (targetOperand g) (targetOperand g) :=
  (moves_operand hg).bind fun _ hn => moves_toTarget hn

/-- The variable behind a star may be left out. -/
theorem moves_splatVariable (hg : g.Moving d) (closer : Kind) :
    Moves d true true Anything (splatVariable g closer) (splatVariable g closer) :=
  (moves_seesAny _).bind fun _ _ => .ite Iff.rfl (moves_pure trivial rfl)
    ((moves_targetOperand hg).bind fun _ _ => moves_pure trivial rfl)

/-- A target with a star. -/
theorem moves_splatTarget (hg : g.Moving d) (closer : Kind) :
    Moves d taken true IsPlaced (splatTarget g closer) (splatTarget g closer) :=
  moves_advance.bind fun _ _ => (moves_splatVariable hg closer).bind fun _ _ =>
    moves_build .splat rfl rfl

/-- One of several targets, by its first token. -/
theorem moves_target (hg : g.Moving d) (closer : Kind) :
    Moves d taken true IsPlaced (target g closer) (target g closer) := by
  refine (moves_sees .star).bind fun _ _ => .ite Iff.rfl (moves_splatTarget hg closer) ?_
  exact (moves_sees .lpar).bind fun _ _ => .ite Iff.rfl
    (moves_advance.bind fun opener _ => hg (.targetGroup opener)) (moves_targetOperand hg)

/-- One round of a list of targets. -/
theorem moves_targetRound (hg : g.Moving d) (closer : Kind) {found : List Node}
    (hfound : ArePlaced found) :
    Moves d taken true (Rounded ArePlaced ArePlaced) (targetRound g closer found)
      (targetRound g closer (moved d found)) := by
  refine (moves_target hg closer).bind fun _ hn => (moves_accept .comma).bind fun _ _ =>
    .ite Iff.rfl ?_ (moves_done hfound hn)
  exact (moves_sees closer).bind fun _ _ =>
    .ite Iff.rfl (moves_done hfound hn) (moves_again hfound hn)

/-- A list of targets up to its closing mark. -/
theorem moves_targets (hg : g.Moving d) (closer : Kind) :
    Moves d taken true ArePlaced (targets g closer) (targets g closer) :=
  moves_rounds g.limit (moves_targetRound hg closer arePlaced_nil)
    fun _ => moves_targetRound hg closer

/-- Targets in parentheses start at their opening one. -/
theorem moves_targetGroup (hg : g.Moving d) (opener : Token) :
    Moves d taken true IsPlaced (targetGroup g opener) (targetGroup g (moved d opener)) :=
  (moves_targets hg .rpar).bind fun _ _ => (moves_expect .rpar).bind fun _ _ =>
    moves_build .mlhs rfl rfl

/-- Several values on the right side are one array. -/
theorem moves_assignedValues (hg : g.Moving d) :
    Moves d true true IsPlaced (assignedValues g) (assignedValues g) := by
  refine (moves_elements fun _ => moves_splatOr fun _ => hg .assignment).bind
    fun values hvalues => ?_
  match values, hvalues with
  | [], _ => exact moves_fail _
  | [only], hvalues => exact moves_pure (hvalues only List.mem_cons_self) rfl
  | first :: _ :: _, hvalues =>
    exact moves_build .array rfl (ofNode_moved (hvalues first List.mem_cons_self))

/-- Several targets, an equals sign and the values. -/
theorem moves_multipleAssignment (hg : g.Moving d) :
    Moves d taken true IsPlaced (multipleAssignment g) (multipleAssignment g) :=
  moves_current.bind fun _ _ => (moves_targets hg .assign).bind fun _ _ =>
    (moves_build .mlhs rfl rfl).bind fun _ _ => (moves_expect .assign).bind fun _ _ =>
      moves_skipNewlines.bind fun _ _ => (moves_assignedValues hg).bind fun _ _ =>
        moves_build .masgn rfl rfl

/-- A condition behind a statement encloses it. -/
theorem moves_conditionModifier (hg : g.Moving d) (kind : Syntax.Kind) {n : Node}
    (hn : IsPlaced n) :
    Moves d taken true IsPlaced (conditionModifier g kind n)
      (conditionModifier g kind (moved d n)) :=
  moves_advance.bind fun _ _ => (moves_sequence hg).bind fun _ _ =>
    moves_build kind rfl (ofNode_moved hn)

/-- A `rescue` behind a statement encloses it. -/
theorem moves_rescueModifier (hg : g.Moving d) {n : Node} (hn : IsPlaced n) :
    Moves d taken true IsPlaced (rescueModifier g n) (rescueModifier g (moved d n)) :=
  moves_advance.bind fun _ _ => (moves_sequence hg).bind fun _ _ =>
    moves_build .rescueMod rfl (ofNode_moved hn)

/-- One modifier behind a statement. -/
theorem moves_modifierRound (hg : g.Moving d) {n : Node} (hn : IsPlaced n) :
    Moves d true true (Rounded IsPlaced IsPlaced) (modifierRound g n)
      (modifierRound g (moved d n)) := by
  refine moves_current.bind fun t _ => ?_
  rw [kind_moved]
  split
  · exact (moves_conditionModifier hg .ifMod hn).again
  · exact (moves_conditionModifier hg .ifMod hn).again
  · exact (moves_conditionModifier hg .whileMod hn).again
  · exact (moves_conditionModifier hg .whileMod hn).again
  · exact (moves_rescueModifier hg hn).again
  · exact moves_pure hn rfl

/-- A statement without its modifiers. -/
theorem moves_statementHead (hg : g.Moving d) :
    Moves d taken true IsPlaced (statementHead g) (statementHead g) :=
  moves_seesTargets.bind fun _ _ =>
    .ite Iff.rfl (moves_multipleAssignment hg) (moves_sequence hg)

/-- A statement with its modifiers. -/
theorem moves_statement (hg : g.Moving d) :
    Moves d taken true IsPlaced (statement g) (statement g) :=
  (moves_statementHead hg).bind fun _ hn =>
    moves_rounds g.limit (moves_modifierRound hg hn) fun _ => moves_modifierRound hg

/-- Every production moves if what it asks for does. -/
theorem moves_production (hg : g.Moving d) (phrase : Phrase) :
    Moves d taken true IsPlaced (production g phrase) (production g (moved d phrase)) := by
  cases phrase with
  | statement => exact moves_statement hg
  | sequence => exact moves_sequence hg
  | negation => exact moves_negation hg taken
  | assignment => exact moves_assignment hg
  | choice => exact moves_choice hg
  | operation => exact moves_operation hg binaryLevels taken
  | signed => exact moves_signed hg
  | unary => exact moves_unary hg
  | operand => exact moves_operand hg
  | parameterGroup opener inBlock => exact moves_parameterGroup hg opener inBlock
  | targetGroup opener => exact moves_targetGroup hg opener
  | conditional keyword => exact moves_conditional hg (moves_sequence hg) keyword

/-- The rules of every depth move, by induction on the depth. -/
theorem moving_readTo (d depth : Nat) : (Rules.mk depth (readTo depth)).Moving d := by
  induction depth with
  | zero =>
    intro phrase taken
    change Moves d taken true IsPlaced (readTo 0 phrase) (readTo 0 (moved d phrase))
    rw [readTo, readTo]
    exact moves_fail _
  | succ depth ih => exact fun phrase _ => moves_production ih phrase

/-- A program asks for no token before its first one. -/
theorem moves_program (hg : g.Moving d) : Moves d false true IsPlaced (program g) (program g) :=
  moves_current.bind fun _ _ => (moves_statements hg []).bind fun _ _ =>
    (moves_expectOr .eof _).bind fun _ _ => moves_build .program rfl rfl

variable {source : String} {first t : Token} {others tokens : List Token}

/-- A program without statements is as long as the end of the source. -/
theorem parseTokens_eof (hkind : t.kind = .eof) :
    parseTokens [t] =
      .ok (.tree .program (some ((ofToken t).upTo t.endLine t.endColumn t.stop)) []) := by
  obtain ⟨kind, text, line, column, start, spaced, endLine, endColumn, stop⟩ := t
  subst hkind
  rfl

/-- Moved tokens that cover text give the moved tree or the moved error. -/
theorem parseTokens_moved (hsolid : ∀ t ∈ first :: others, 0 < t.stop) :
    parseTokens (moved d (first :: others)) = moved d (parseTokens (first :: others)) := by
  have hstart : (State.start first others).Moved d false
      (.start (moved d first) (moved d others)) :=
    ⟨rfl, rfl, nofun, rfl, rfl, rfl, hsolid⟩
  have hprogram := moves_program (moving_readTo d (others.length + 2)) _ _ hstart
  have hlength : (moved d others).length = others.length := List.length_map _
  rw [moved_cons, parseTokens, parseTokens, hlength]
  change (program _ _ >>= _) = moved d (program _ _ >>= _)
  unfold rulesFor
  generalize program _ (State.start first others) = x,
    program _ (State.start (moved d first) (moved d others)) = x' at hprogram ⊢
  cases hprogram with
  | ok _ _ => rfl
  | error e => rfl

/-- The tokens of a source are read alike wherever the source starts. -/
theorem parseTokens_of_tokenize {source : String} {tokens : List Token}
    (h : Token.tokenize source = .ok tokens) :
    parseTokens (moved d tokens) = moved d (parseTokens tokens) := by
  have hin := Token.tokens_inOrder h
  match tokens with
  | [] =>
    obtain ⟨front, last, heq, -⟩ := hin.closed
    simp at heq
  | [t] =>
    have hkind : t.kind = .eof := Token.kind_last h
    have hspan := upTo_moved (d := d) (ofToken t) t.endLine t.endColumn t.stop
    rw [moved_cons, moved_nil, parseTokens_eof ((kind_moved d t).trans hkind),
      parseTokens_eof hkind, moved_ok, Syntax.Node.moved_tree]
    exact congrArg (fun span => Except.ok (Syntax.Node.tree .program (some span) [])) hspan
  | first :: second :: others =>
    have hkind : first.kind ≠ .eof :=
      hin.ne_eof_of_behind (List.nil_append _).symm (List.cons_ne_nil second others)
    have hfirst : first.start < first.stop := hin.solid first List.mem_cons_self hkind
    refine parseTokens_moved fun t ht => ?_
    rcases List.mem_cons.mp ht with rfl | hmem
    · exact Nat.zero_lt_of_lt hfirst
    · have hbehind : first.stop ≤ t.start := (List.pairwise_cons.mp hin.behind).1 t hmem
      have hstop : t.start ≤ t.stop := Token.start_le_stop h ht
      omega

end Grammar

instance : Movable ReadError where
  moved d
    | .lex error => .lex (moved d error)
    | .grammar error => .grammar (moved d error)

/-- The tree of a source behind a line without tokens is the tree of the source, moved. -/
theorem parse_tokenFree {front : String} (hfront : Token.TokenFree front.toList)
    (source : String) : parse (front ++ source) = moved front.length (parse source) := by
  rw [parse, parse, Token.tokenize_tokenFree hfront]
  cases h : Token.tokenize source with
  | error e => rfl
  | ok tokens =>
    change (Grammar.parseTokens (moved _ tokens)).mapError _ =
      moved _ ((Grammar.parseTokens tokens).mapError _)
    rw [Grammar.parseTokens_of_tokenize h]
    cases Grammar.parseTokens tokens <;> rfl

end XhrKeywords
