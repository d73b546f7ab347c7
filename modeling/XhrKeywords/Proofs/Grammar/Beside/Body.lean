import XhrKeywords.Grammar.Block
import XhrKeywords.Proofs.Grammar.Beside.Argument

/-!
# Bodies, parameters and blocks beside each other

Statements, parameters and targets are told apart by kinds and texts. A list that a closer ends is
the one place where the two runs part: only one of them meets the closer that it looks for, and the
other one fails on its own.
-/

namespace XhrKeywords.Grammar

open Syntax hiding Kind
open Token (Kind)

variable {k l : Int} {g g' : Rules}

/-- Statements end in front of either closer. -/
theorem agrees_statementRound (hg : g.Beside k l g') (stops : List Kind) {found found' : List Node}
    (h : Alike found found') :
    Agrees k l (statementRound g stops found) (statementRound g' stops found') := by
  refine agrees_skipSeparators.bind fun _ _ _ => .branch (.eof :: stops).contains
    (agrees_pure (Round.Like.done h)) ?_ (hg.stuck .statement rfl).bind
      (hg.stuck' .statement rfl).bind
  refine (hg.phrase .statement).bind fun next next' hnext =>
    .branch (.newline :: .semi :: .eof :: stops).contains ?_ (agrees_fail _ _) (stuck_fail _)
      (stuck_fail _)
  exact agrees_pure (.again (alike_concat h hnext))

/-- Statements up to a keyword or to the closer around. -/
theorem agrees_statements (hg : g.Beside k l g') (stops : List Kind) :
    Agrees k l (statements g stops) (statements g' stops) :=
  Agrees.rounds (fun _ _ => agrees_statementRound hg stops) g.limit g'.limit alike_nil

/-- The statements of a body. -/
theorem agrees_body (hg : g.Beside k l g') (stops : List Kind) :
    Agrees k l (body g stops) (body g' stops) := by
  refine Agrees.current fun start start' _ => (agrees_statements hg stops).bind fun ns ns' h => ?_
  have hlength := length_eq_of_alike h
  match ns, ns' with
  | [], [] => exact agrees_pure rfl
  | first :: others, first' :: others' => exact agrees_pure (alike_enclose .body h _ _ _ _)

/-- The mark between two elements. -/
theorem agrees_separator : Agrees k l separator separator := by
  refine (agrees_seesClass _ rfl).bind fun a b hab => agrees_skipSeparators.bind fun _ _ _ =>
    (agrees_accept rfl).test ?_ ?_
  · exact agrees_pure trivial
  · exact .ite (by rw [show a = b from hab]) (agrees_pure trivial) (agrees_fail _ _)

/-- One element of a list without a closing mark. -/
theorem agrees_elementRound {element element' : Parser Node}
    (helement : Agrees k l element element') {found found' : List Node}
    (h : Alike found found') :
    Agrees k l (elementRound element found) (elementRound element' found') :=
  helement.bind fun _ _ hnext => agrees_listRound (alike_concat h hnext)

/-- The elements of a list without a closing mark. -/
theorem agrees_elements {element element' : Parser Node} (h : Agrees k l element element') :
    Agrees k l (elements g element) (elements g' element') :=
  Agrees.rounds (fun _ _ => agrees_elementRound h) g.limit g'.limit alike_nil

/-- A name may be assigned to by its text and whether it has a receiver. -/
theorem isAssignableName_erase (receiver : Node) (name : String) :
    isAssignableName receiver.erase name = isAssignableName receiver name := by
  cases receiver <;> rfl

/-- Whether a node may be assigned to does not depend on its place. -/
theorem isAssignable_erase (n : Node) : isAssignable n.erase = isAssignable n := by
  match n with
  | .absent | .leaf _ => rfl
  | .tree kind _ [receiver, .leaf name] =>
    cases kind <;>
      first
      | rfl
      | exact isAssignableName_erase receiver name.text
  | .tree kind _ [] | .tree kind _ [_] | .tree kind _ (_ :: .absent :: _)
  | .tree kind _ (_ :: .tree .. :: _) | .tree kind _ (_ :: .leaf _ :: _ :: _) =>
    cases kind <;> rfl

/-- Whether a node may stand among several targets does not depend on its place. -/
theorem isTarget_erase (n : Node) : isTarget n.erase = isTarget n := by
  rw [isTarget, isTarget, isAssignable_erase, Node.isKind, Node.isKind, Node.kind?_erase]
  rfl

/-- A bare call is one without its places too. -/
theorem bareCall_of_alike {n n' : Node} (h : Alike n n') {span : Option Span} {name : Leaf}
    (hn : n = .tree .call span [.absent, .leaf name]) :
    ∃ span' place, n' = .tree .call span' [.absent, .leaf ⟨name.role, name.text, place⟩] := by
  subst hn
  have herase : n'.erase = .made .call [.absent, .word name.role name.text] := by
    rw [← show _ = n'.erase from h]
    simp
  obtain ⟨span', found, rfl, hfound⟩ := Node.erase_eq_made_iff.mp herase
  have hlength : found.length = 2 := by simpa using congrArg List.length hfound
  obtain ⟨receiver, word, rfl⟩ := List.length_eq_two.mp hlength
  rw [List.map_cons, List.map_cons, List.map_nil, List.cons.injEq, List.cons.injEq] at hfound
  obtain ⟨hreceiver, hword, -⟩ := hfound
  obtain ⟨place, rfl⟩ := Node.erase_eq_word_iff.mp hword
  rw [Node.erase_eq_absent_iff.mp hreceiver]
  exact ⟨span', place, rfl⟩

/-- Nodes that are alike are targets on both sides or on none. -/
theorem agrees_toTarget {n n' : Node} (h : Alike n n') :
    Agrees k l (toTarget n) (toTarget n') := by
  by_cases hcall : ∃ span name, n = .tree .call span [.absent, .leaf name]
  · obtain ⟨span, name, hn⟩ := hcall
    obtain ⟨span', place, rfl⟩ := bareCall_of_alike h hn
    subst hn
    exact (agrees_declare name.text).bind fun _ _ _ => agrees_pure rfl
  · have hcall' (span : Option Span) (name : Leaf) :
        n' ≠ .tree .call span [.absent, .leaf name] := by
      intro hn'
      obtain ⟨span', place, hn⟩ := bareCall_of_alike (show Alike n' n from h.symm) hn'
      exact hcall ⟨span', _, hn⟩
    have htarget : isTarget n' = isTarget n := by
      rw [← isTarget_erase n', ← isTarget_erase n, show n.erase = n'.erase from h]
    rw [toTarget.eq_2 _ fun span name hn => hcall ⟨span, name, hn⟩, toTarget.eq_2 _ hcall', htarget]
    exact .ite Iff.rfl (agrees_pure h) (agrees_fail _ _)

/-- The default of a parameter. -/
theorem agrees_default (hg : g.Beside k l g') (inBlock : Bool) :
    Agrees k l (g.read (defaultPhrase inBlock)) (g'.read (defaultPhrase inBlock)) :=
  hg.phrase _

/-- The name behind a mark, which may be left out. -/
theorem agrees_markedName : Agrees k l markedName markedName :=
  (agrees_sees rfl).test
    (agrees_takeName.bind fun _ _ h => agrees_pure (alike_cons h alike_nil)) (agrees_pure alike_nil)

/-- A parameter `*name`, `**name` or `&name`. -/
theorem agrees_markedParameter (kind : Syntax.Kind) :
    Agrees k l (markedParameter kind) (markedParameter kind) :=
  agrees_advance.bind fun _ _ _ => agrees_markedName.bind fun _ _ h => agrees_build kind _ _ h

/-- A default is an expression. -/
theorem isExpression_defaultPhrase (inBlock : Bool) :
    (defaultPhrase inBlock).isExpression = true := by
  cases inBlock <;> rfl

/-- A parameter `name:` has no default in front of either closer. -/
theorem agrees_keywordParameter (hg : g.Beside k l g') (closers : List Kind) (inBlock : Bool) :
    Agrees k l (keywordParameter g closers inBlock) (keywordParameter g' closers inBlock) := by
  refine agrees_advance.bind fun label label' hlabel =>
    .branch (.comma :: .newline :: closers).contains ?_ ?_
      (hg.stuck _ (isExpression_defaultPhrase inBlock)).bind
      (hg.stuck' _ (isExpression_defaultPhrase inBlock)).bind
  · exact agrees_build .kwArg _ _ (alike_cons (alike_leafAs hlabel _) alike_nil)
  · exact (agrees_default hg inBlock).bind fun _ _ hvalue => agrees_build .kwOptArg _ _
      (alike_cons (alike_leafAs hlabel _) (alike_cons hvalue alike_nil))

/-- A parameter, with or without a default. -/
theorem agrees_positionalParameter (hg : g.Beside k l g') (inBlock : Bool) :
    Agrees k l (positionalParameter g inBlock) (positionalParameter g' inBlock) := by
  refine agrees_advance.bind fun name name' hname => (agrees_accept rfl).test ?_ ?_
  · exact (agrees_default hg inBlock).bind fun _ _ hvalue => agrees_build .optArg _ _
      (alike_cons (alike_leafOf hname) (alike_cons hvalue alike_nil))
  · exact agrees_build .arg _ _ (alike_cons (alike_leafOf hname) alike_nil)

/-- One parameter, by its first token. -/
theorem agrees_parameter (hg : g.Beside k l g') (closers : List Kind) (inBlock : Bool) :
    Agrees k l (parameter g closers inBlock) (parameter g' closers inBlock) := by
  refine Agrees.current fun t t' ht => ?_
  rcases ht with ⟨hkind, -, -⟩ | ⟨hbrace, hparen⟩
  · rw [hkind]
    split
    · exact agrees_markedParameter .restArg
    · exact agrees_markedParameter .kwRestArg
    · exact agrees_markedParameter .blockArg
    · exact agrees_keywordParameter hg closers inBlock
    · exact agrees_advance.bind fun opener opener' _ =>
        hg.read (.parameterGroup opener opener' inBlock)
    · exact agrees_positionalParameter hg inBlock
    · exact agrees_fail _ _
  · rw [hbrace, hparen]
    exact agrees_fail _ _

/-- No parameter starts with a closer. -/
theorem stuck_parameter {kind : Kind} (hkind : kind = .rbrace ∨ kind = .rpar) (closers : List Kind)
    (inBlock : Bool) : Stuck (State.Before kind) (parameter g closers inBlock) := by
  intro s r hs
  rw [parameter, bind_of_eq (current_run s), show s.current.kind = kind from hs]
  rcases hkind with rfl | rfl
  · exact stuck_fail _ hs
  · exact stuck_fail _ hs

/-- A parameter declares the same name wherever it is. -/
theorem parameterName?_erase (n : Node) : parameterName? n.erase = parameterName? n := by
  match n with
  | .absent | .leaf _ | .tree _ _ [] | .tree _ _ (.absent :: _) | .tree _ _ (.leaf _ :: _)
  | .tree _ _ (.tree .. :: _) => rfl

/-- The name of a parameter is declared on both sides. -/
theorem agrees_declareParameter {n n' : Node} (h : Alike n n') :
    Agrees k l (declareParameter n) (declareParameter n') := by
  have hname : parameterName? n' = parameterName? n := by
    rw [← parameterName?_erase n', ← parameterName?_erase n, show n.erase = n'.erase from h]
  rw [declareParameter, declareParameter, hname]
  cases parameterName? n with
  | some name => exact agrees_declare name
  | none => exact agrees_pure trivial

/-- A name local to a block. -/
theorem agrees_shadowParameter : Agrees k l shadowParameter shadowParameter := by
  refine agrees_advance.bind fun name name' hname => ?_
  rw [hname.2.1]
  exact (agrees_declare name.text).bind fun _ _ _ =>
    agrees_build .shadowArg _ _ (alike_cons (alike_leafOf hname) alike_nil)

/-- One round of the names local to a block. -/
theorem agrees_shadowRound {found found' : List Node} (h : Alike found found') :
    Agrees k l (shadowRound found) (shadowRound found') :=
  (agrees_sees rfl).test
    (agrees_shadowParameter.bind fun _ _ hn => agrees_commaRound (alike_concat h hn))
    (agrees_pure (.done h))

/-- One round of a parameter list. -/
theorem agrees_parameterRound (hg : g.Beside k l g') (closers : List Kind) (inBlock : Bool)
    {found found' : List Node} (h : Alike found found') :
    Agrees k l (parameterRound g closers inBlock found)
      (parameterRound g' closers inBlock found') := by
  refine .branch closers.contains (agrees_pure (.done h)) ?_
    (.accept rfl (stuck_parameter (.inl rfl) closers inBlock).bind)
    (.accept rfl (stuck_parameter (.inr rfl) closers inBlock).bind)
  refine (agrees_accept rfl).test ?_ ?_
  · exact (Agrees.rounds (fun _ _ => agrees_shadowRound) g.limit g'.limit h).again
  · exact (agrees_parameter hg closers inBlock).bind fun _ _ hnext =>
      (agrees_declareParameter hnext).bind fun _ _ _ => agrees_listRound (alike_concat h hnext)

/-- A parameter list up to its closing mark. -/
theorem agrees_parameters (hg : g.Beside k l g') (closers : List Kind) (inBlock : Bool) :
    Agrees k l (parameters g closers inBlock) (parameters g' closers inBlock) :=
  Agrees.rounds (fun _ _ => agrees_parameterRound hg closers inBlock) g.limit g'.limit alike_nil

/-- A parameter that is a list in parentheses of its own. -/
theorem agrees_parameterGroup (hg : g.Beside k l g') (opener opener' : Token) (inBlock : Bool) :
    Agrees k l (parameterGroup g opener inBlock) (parameterGroup g' opener' inBlock) :=
  (agrees_parameters hg [.rpar] inBlock).bind fun _ _ h => (agrees_expect .rpar).bind fun _ _ _ =>
    agrees_build .mlhs _ _ h

/-- The classes of a `rescue`. -/
theorem agrees_rescueClasses (hg : g.Beside k l g') :
    Agrees k l (rescueClasses g) (rescueClasses g') :=
  (agrees_seesAny rfl).test (agrees_pure alike_nil)
    (agrees_elements (agrees_splatOr (hg.phrase .choice)))

/-- The variable of a `rescue`. -/
theorem agrees_rescueVariable (hg : g.Beside k l g') :
    Agrees k l (rescueVariable g) (rescueVariable g') :=
  (agrees_accept rfl).test ((hg.phrase .operand).bind fun _ _ hn => agrees_toTarget hn)
    (agrees_pure rfl)

/-- A `rescue` with its body. -/
theorem agrees_rescueClause (hg : g.Beside k l g') :
    Agrees k l (rescueClause g) (rescueClause g') := by
  refine agrees_advance.bind fun keyword keyword' _ => (agrees_rescueClasses hg).bind
    fun _ _ hclasses => (agrees_rescueVariable hg).bind fun _ _ hbound => ?_
  exact agrees_separator.bind fun _ _ _ => (agrees_body hg _).bind fun _ _ hhandler =>
    (agrees_build .excList _ _ hclasses).bind fun _ _ hexceptions => agrees_build .resBody _ _
      (alike_cons hexceptions (alike_cons hbound (alike_cons hhandler alike_nil)))

/-- One round of the `rescue` clauses. -/
theorem agrees_rescueRound (hg : g.Beside k l g') {found found' : List Node}
    (h : Alike found found') : Agrees k l (rescueRound g found) (rescueRound g' found') :=
  (agrees_sees rfl).test ((agrees_rescueClause hg).againWith h) (agrees_pure (.done h))

/-- A clause is chosen by its keyword, which is no closer. -/
theorem agrees_bodyClause (hg : g.Beside k l g') {keyword : Kind}
    (h : (Kind.rbrace == keyword) = (Kind.rpar == keyword)) (kind : Syntax.Kind)
    (stops : List Kind) :
    Agrees k l (bodyClause g keyword kind stops) (bodyClause g' keyword kind stops) := by
  refine (agrees_sees h).test ?_ (agrees_pure alike_nil)
  exact agrees_advance.bind fun _ _ _ => (agrees_body hg stops).bind fun _ _ hinner =>
    (agrees_build kind _ _ (alike_cons hinner alike_nil)).bind fun _ _ hn =>
      agrees_pure (alike_cons hn alike_nil)

/-- A body with its `rescue`, `else` and `ensure` clauses. -/
theorem agrees_bodyStatement (hg : g.Beside k l g') :
    Agrees k l (bodyStatement g) (bodyStatement g') := by
  refine Agrees.current fun start start' _ => (agrees_body hg _).bind fun main main' hmain =>
    (agrees_seesAny rfl).test ?_ (agrees_pure hmain)
  refine (Agrees.rounds (fun _ _ => agrees_rescueRound hg) g.limit g'.limit alike_nil).bind
    fun rescues rescues' hrescues => ?_
  refine (agrees_bodyClause hg rfl .elseClause _).bind fun otherwise otherwise' hotherwise =>
    (agrees_bodyClause hg rfl .ensureClause _).bind fun atLast atLast' hlast => ?_
  exact agrees_build .bodyStmt _ _
    (alike_append (alike_append (alike_cons hmain hrescues) hotherwise) hlast)

/-- The parameters of a block between bars, if there are any. -/
theorem agrees_blockParameters (hg : g.Beside k l g') :
    Agrees k l (blockParameters g) (blockParameters g') := by
  refine (agrees_sees rfl).test (agrees_bare .args) ?_
  refine (agrees_sees rfl).test ?_ (agrees_pure rfl)
  exact agrees_advance.bind fun _ _ _ => (agrees_parameters hg _ true).bind fun _ _ h =>
    (agrees_expectCloser .pipe _ _).bind fun _ _ _ => agrees_build .args _ _ h

/-- A body in braces is closed by a brace of its own. -/
theorem agrees_bracedBody (hg : g.Beside k l g') (construction : String) :
    Agrees k l (bracedBody g construction) (bracedBody g' construction) :=
  (agrees_body hg _).bind fun _ _ hn => (agrees_expectCloser .rbrace _ _).bind fun _ _ _ =>
    agrees_pure hn

/-- A body up to its `end`. -/
theorem agrees_closedBody (hg : g.Beside k l g') (construction : String) :
    Agrees k l (closedBody g construction) (closedBody g' construction) :=
  (agrees_bodyStatement hg).bind fun _ _ hn => agrees_expectEnd.bind fun _ _ _ => agrees_pure hn

/-- A body up to its `end`, where a `do` may be taken again. -/
theorem agrees_bracketedBody (hg : g.Beside k l g') (construction : String) :
    Agrees k l (bracketedBody g construction) (bracketedBody g' construction) :=
  (agrees_bodyStatement hg).bracketed.bind fun _ _ hn => agrees_expectEnd.bind fun _ _ _ =>
    agrees_pure hn

/-- The parameters and the body of a block. -/
theorem agrees_blockParts (hg : g.Beside k l g') (braces : Bool) :
    Agrees k l (blockParts g braces) (blockParts g' braces) := by
  refine (agrees_blockParameters hg).bind fun bound bound' hbound => .ite Iff.rfl ?_ ?_
  · exact (agrees_bracedBody hg _).bind fun _ _ hinner => agrees_pure ⟨hbound, hinner⟩
  · exact (agrees_closedBody hg _).bind fun _ _ hinner => agrees_pure ⟨hbound, hinner⟩

/-- A block behind calls that are alike. -/
theorem agrees_block (hg : g.Beside k l g') {call call' : Node} (hcall : Alike call call') :
    Agrees k l (block g call) (block g' call') := by
  refine agrees_advance.bind fun opener opener' hopener => ?_
  rw [hopener.1]
  refine ((agrees_blockParts hg _).inScope true).bracketed.bind fun parts parts' h =>
    agrees_build .block _ _ ?_
  exact alike_cons hcall (alike_cons h.1 (alike_cons h.2 (Likeness.refl _)))

/-- Nodes that are alike stay so whatever is done to their places. -/
theorem alike_mapSpan {n n' : Node} (h : Alike n n') (change change' : Span → Span) :
    Alike (mapSpan change n) (mapSpan change' n') := by
  have hspan (change : Span → Span) (n : Node) : (mapSpan change n).erase = n.erase := by
    cases n <;> simp [mapSpan]
  change (mapSpan change n).erase = (mapSpan change' n').erase
  rw [hspan, hspan]
  exact h

/-- The parameters of a lambda, in parentheses or without. -/
theorem agrees_lambdaParameters (hg : g.Beside k l g') :
    Agrees k l (lambdaParameters g) (lambdaParameters g') := by
  refine (agrees_sees rfl).test ?_ ?_
  · exact agrees_advance.bind fun _ _ _ => (agrees_parameters hg _ false).bind fun _ _ h =>
      (agrees_build .args _ _ h).bind fun _ _ hargs => (agrees_expect .rpar).bind fun _ _ _ =>
        agrees_pure (alike_mapSpan hargs _ _)
  · refine (agrees_seesAny rfl).test ?_ (agrees_pure rfl)
    exact Agrees.current fun _ _ _ => (agrees_parameters hg _ false).bind fun _ _ h =>
      agrees_build .args _ _ h

/-- The body of a lambda, in braces or between `do` and `end`. -/
theorem agrees_lambdaBody (hg : g.Beside k l g') : Agrees k l (lambdaBody g) (lambdaBody g') := by
  refine (agrees_accept rfl).test ?_ ?_
  · exact (agrees_bracedBody hg _).bind fun _ _ hinner => agrees_pure ⟨hinner, rfl⟩
  · exact (agrees_expectOr .kwDo _ _).bind fun _ _ _ => (agrees_closedBody hg _).bind
      fun _ _ hinner => agrees_pure ⟨hinner, rfl⟩

/-- The parameters and the body of a lambda. -/
theorem agrees_lambdaParts (hg : g.Beside k l g') :
    Agrees k l (lambdaParts g) (lambdaParts g') :=
  (agrees_lambdaParameters hg).bind fun _ _ hbound => (agrees_lambdaBody hg).bracketed.bind
    fun _ _ hinner => agrees_pure ⟨hbound, hinner⟩

/-- A lambda literal; only its place is set by hand. -/
theorem agrees_lambda (hg : g.Beside k l g') : Agrees k l (lambda g) (lambda g') := by
  refine (agrees_expect .arrow).bind fun start start' _ =>
    ((agrees_lambdaParts hg).inScope true).bind fun parts parts' h => ?_
  refine agrees_build .lambda _ _ ?_
  rw [show parts.2.2 = parts'.2.2 from h.2.2]
  exact alike_cons h.1 (alike_cons h.2.1 (Likeness.refl _))

end XhrKeywords.Grammar
