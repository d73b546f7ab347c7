import XhrKeywords.Grammar.Primary
import XhrKeywords.Proofs.Grammar.Beside.Body

/-!
# Calls, definitions and primaries beside each other

These productions open with a keyword, a name or a mark, none of which is the brace or the
parenthesis that ends the tokens. What they close, they have opened themselves.
-/

namespace XhrKeywords.Grammar

open Syntax hiding Kind
open Token (Kind)

variable {k l : Int} {g g' : Rules}

/-- What is stuck at the closer is stuck there also where a `do` is left to the head around it. -/
theorem stuck_keepingDo {α : Type} {kind : Kind} {p : Parser α} (h : Stuck (State.Ends kind) p) :
    Stuck (State.Ends kind) (keepingDo p) := by
  rintro s ⟨a, t⟩ hs hrun
  obtain ⟨u, hp, -⟩ := of_withBlocked hrun
  exact h (s := { s with blocked := s.blocked + 1 }) hs hp

/-- A call in command style ends in front of either closer. -/
theorem agrees_command (hg : g.Beside k l g') (kind : Syntax.Kind) {head head' : List Node}
    (hhead : Alike head head') (start start' : Mark) :
    Agrees k l (command g kind head start) (command g' kind head' start') := by
  refine (agrees_arguments hg closesValues_none).keepingDo.bind fun found found' hfound =>
    (agrees_build kind _ _ (alike_append hhead hfound)).bind fun node node' hnode => ?_
  exact agrees_doBinds.bind fun a b hab => (agrees_sees rfl).bind fun c d hcd =>
    .ite (by rw [show a = b from hab, show c = d from hcd]) (agrees_block hg hnode)
      (agrees_pure hnode)

/-- Arguments in parentheses that touch the name, or else in command style. -/
theorem agrees_callArguments (hg : g.Beside k l g') (kind : Syntax.Kind) {head head' : List Node}
    (hhead : Alike head head') (start start' : Mark) :
    Agrees k l (callArguments g kind head start) (callArguments g' kind head' start') := by
  refine (agrees_seesGlued rfl rfl).test ?_ ?_
  · exact (agrees_delimitedArguments hg rfl).bind fun found found' hfound =>
      agrees_build kind _ _ (alike_append hhead hfound)
  · exact .commandStart (agrees_command hg kind hhead start start')
      (agrees_build kind _ _ hhead)
      (stuck_keepingDo (stuck_arguments_none (.inl rfl) hg.ends)).bind
      (stuck_keepingDo (stuck_arguments_none (.inr rfl) hg.ends')).bind

/-- A closer is no name of a method, so one of the runs fails at it. -/
theorem agrees_methodName : Agrees k l methodName methodName := by
  refine Agrees.current fun t t' ht => ?_
  rcases ht with ⟨hkind, -, -⟩ | ⟨hbrace, hparen⟩
  · rw [hkind]
    split
    · exact agrees_pure rfl
    · exact agrees_takeName
    · exact agrees_takeName
    · exact agrees_fail _ _
    · exact .ite Iff.rfl agrees_takeName (agrees_fail _ _)
  · rw [hbrace, hparen]
    exact agrees_fail _ _

/-- A call on a receiver that is alike. -/
theorem agrees_methodCall (hg : g.Beside k l g') {receiver receiver' : Node}
    (h : Alike receiver receiver') (operator : Kind) :
    Agrees k l (methodCall g receiver operator) (methodCall g' receiver' operator) :=
  agrees_methodName.bind fun _ _ hname =>
    agrees_callArguments hg _ (alike_cons h (alike_cons hname alike_nil)) _ _

/-- A bare name is a variable or a call, by the names declared on both sides. -/
theorem agrees_identifier (hg : g.Beside k l g') :
    Agrees k l (identifier g) (identifier g') := by
  refine agrees_advance.bind fun t t' ht => ?_
  rw [ht.2.1]
  refine (agrees_isLocal t.text).bind fun a b hab => (agrees_seesGlued rfl rfl).bind fun c d hcd =>
    .ite (by rw [show a = b from hab, show c = d from hcd]) ?_ ?_
  · exact agrees_build .lvar _ _ (alike_cons (alike_leafOf ht) alike_nil)
  · exact agrees_callArguments hg .call (alike_cons rfl (alike_cons (alike_leafOf ht) alike_nil))
      _ _

/-- The statements of a branch, up to the keyword of the next one. -/
theorem agrees_branch (hg : g.Beside k l g') (stops : List Kind) :
    Agrees k l (branch g stops) (branch g' stops) :=
  (agrees_body hg stops).bracketed

/-- The statements behind `else`, if there is one. -/
theorem agrees_otherwiseBranch (hg : g.Beside k l g') :
    Agrees k l (otherwiseBranch g) (otherwiseBranch g') :=
  (agrees_accept rfl).test (agrees_branch hg _) (agrees_pure rfl)

/-- What follows a branch is chosen by a keyword, which is no closer. -/
theorem agrees_nextBranch (hg : g.Beside k l g') {keyword keyword' : Token}
    (h : Alike keyword keyword') :
    Agrees k l (nextBranch g keyword) (nextBranch g' keyword') := by
  refine (agrees_sees rfl).bind fun a b hab => .ite (by rw [show a = b from hab, h.1]) ?_ ?_
  · exact agrees_advance.bind fun _ _ hnext => hg.read (.conditional hnext)
  · exact agrees_otherwiseBranch hg

/-- A condition with its test and branches. -/
theorem agrees_conditional (hg : g.Beside k l g') {test test' : Parser Node}
    (htest : Agrees k l test test') {keyword keyword' : Token} (h : Alike keyword keyword') :
    Agrees k l (conditional g test keyword) (conditional g' test' keyword') :=
  htest.bracketed.bind fun _ _ hcondition => agrees_separator.bind fun _ _ _ =>
    (agrees_branch hg _).bind fun _ _ hinner => (agrees_nextBranch hg h).bind fun _ _ hotherwise =>
      agrees_build .ifStmt _ _ (alike_cons (alike_leafAs h _) (alike_cons hcondition
        (alike_cons hinner (alike_cons hotherwise alike_nil))))

/-- `if` and `unless` differ in the order of their branches only. -/
theorem agrees_condition (hg : g.Beside k l g') : Agrees k l (condition g) (condition g') :=
  agrees_advance.bind fun _ _ hkeyword =>
    (agrees_conditional hg (hg.phrase .sequence) hkeyword).bind fun _ _ hnode =>
      agrees_expectEnd.bind fun _ _ _ => agrees_pure (alike_mapSpan hnode _ _)

/-- The `do` of a loop may be left out. -/
theorem agrees_loopOpener : Agrees k l loopOpener loopOpener :=
  (agrees_accept rfl).test (agrees_pure trivial) <|
    (agrees_seesClass _ rfl).test (agrees_pure trivial) (agrees_fail _ _)

/-- The statements of a loop up to its `end`. -/
theorem agrees_loopBody (hg : g.Beside k l g') (construction construction' : String) :
    Agrees k l (loopBody g construction) (loopBody g' construction') :=
  agrees_loopOpener.bind fun _ _ _ => (agrees_branch hg _).bind fun _ _ hn =>
    agrees_expectEnd.bind fun _ _ _ => agrees_pure hn

/-- A `while` or `until` loop. -/
theorem agrees_whileLoop (hg : g.Beside k l g') : Agrees k l (whileLoop g) (whileLoop g') :=
  agrees_advance.bind fun _ _ hkeyword => (hg.phrase .sequence).keepingDo.bind fun _ _ htest =>
    (agrees_loopBody hg _ _).bind fun _ _ hinner => agrees_build .whileStmt _ _
      (alike_cons (alike_leafAs hkeyword _) (alike_cons htest (alike_cons hinner alike_nil)))

/-- A variable of a `for` loop is declared on both sides. -/
theorem agrees_loopVariable : Agrees k l loopVariable loopVariable := by
  refine (agrees_expectOr .ident _ _).bind fun name name' hname => ?_
  rw [hname.2.1]
  exact (agrees_declare name.text).bind fun _ _ _ =>
    agrees_build .lvar _ _ (alike_cons (alike_leafOf hname) alike_nil)

/-- One round of the variables of a `for` loop. -/
theorem agrees_loopVariableRound {found found' : List Node} (h : Alike found found') :
    Agrees k l (loopVariableRound found) (loopVariableRound found') :=
  agrees_loopVariable.bind fun _ _ hn => agrees_commaRound (alike_concat h hn)

/-- The variables of a loop are counted alike. -/
theorem agrees_loopTarget (start start' : Token) {targets targets' : List Node}
    (h : Alike targets targets') :
    Agrees k l (loopTarget start targets) (loopTarget start' targets') := by
  have hlength := length_eq_of_alike h
  match targets, targets' with
  | [only], [only'] => exact agrees_pure (List.singleton_inj.mp h)
  | [], [] => exact agrees_build .mlhs _ _ h
  | _ :: _ :: _, _ :: _ :: _ => exact agrees_build .mlhs _ _ h

/-- A `for` loop: its variables, what it goes through and its body. -/
theorem agrees_forLoop (hg : g.Beside k l g') : Agrees k l (forLoop g) (forLoop g') := by
  refine (agrees_expect .kwFor).bind fun start start' _ => ?_
  refine (Agrees.rounds (fun _ _ => agrees_loopVariableRound) g.limit g'.limit alike_nil).bind
    fun targets targets' htargets => (agrees_loopTarget start start' htargets).bind
      fun bound bound' hbound => ?_
  exact (agrees_expectOr .kwIn _ _).bind fun _ _ _ => (hg.phrase .sequence).keepingDo.bind
    fun _ _ hcollection => (agrees_loopBody hg _ _).bind fun _ _ hinner =>
      agrees_build .forStmt _ _
        (alike_cons hbound (alike_cons hcollection (alike_cons hinner alike_nil)))

/-- A `when` with its values and statements. -/
theorem agrees_whenClause (hg : g.Beside k l g') : Agrees k l (whenClause g) (whenClause g') :=
  agrees_advance.bind fun _ _ _ =>
    (agrees_elements (agrees_splatOr (hg.phrase .choice))).bind fun _ _ hvalues =>
      agrees_separator.bind fun _ _ _ => (agrees_branch hg _).bind fun _ _ hinner =>
        agrees_build .whenClause _ _ (alike_concat hvalues hinner)

/-- One round of the `when` clauses. -/
theorem agrees_whenRound (hg : g.Beside k l g') {found found' : List Node}
    (h : Alike found found') : Agrees k l (whenRound g found) (whenRound g' found') :=
  (agrees_sees rfl).test ((agrees_whenClause hg).againWith h) (agrees_pure (.done h))

/-- The first `when` must be there, the others may. -/
theorem agrees_whenClauses (hg : g.Beside k l g') :
    Agrees k l (whenClauses g) (whenClauses g') := by
  refine (Agrees.rounds (fun _ _ => agrees_whenRound hg) g.limit g'.limit alike_nil).bind
    fun clauses clauses' h => (agrees_sees rfl).test (agrees_fail _ _) ?_
  have hempty : clauses.isEmpty = clauses'.isEmpty := isEmpty_eq_of_alike h
  exact .ite (by rw [hempty]) (agrees_fail _ _) (agrees_pure h)

/-- The value a `case` looks at is left out in front of a line end only. -/
theorem agrees_caseSubject (hg : g.Beside k l g') :
    Agrees k l (caseSubject g) (caseSubject g') :=
  (agrees_seesClass _ rfl).test (agrees_pure rfl) (hg.phrase .sequence)

/-- A `case` with its clauses. -/
theorem agrees_caseChoice (hg : g.Beside k l g') :
    Agrees k l (caseChoice g) (caseChoice g') :=
  (agrees_expect .kwCase).bind fun _ _ _ => (agrees_caseSubject hg).bind fun _ _ hsubject =>
    agrees_skipSeparators.bind fun _ _ _ => (agrees_whenClauses hg).bind fun _ _ hclauses =>
      (agrees_otherwiseBranch hg).bind fun _ _ hotherwise => agrees_expectEnd.bind fun _ _ _ =>
        agrees_build .caseStmt _ _ (alike_concat (alike_cons hsubject hclauses) hotherwise)

/-- What ends a list is no token of another kind. -/
theorem Resembles.isKind {t t' : Token} (h : Resembles t t') {kind : Kind}
    (hkind : isEnd kind = false) : (t'.kind == kind) = (t.kind == kind) := by
  have hne {found : Kind} (hend : isEnd found = true) : (found == kind) = false := by
    rw [beq_eq_false_iff_ne]
    rintro rfl
    rw [hkind] at hend
    cases hend
  rcases h with h | ⟨hend, hend'⟩
  · rw [h.1]
  · rw [hne hend, hne hend']

/-- The owner of a singleton method is `self` or a name. -/
theorem agrees_singletonOwner {t t' : Token} (h : Alike t t') :
    Agrees k l (singletonOwner t) (singletonOwner t') := by
  rw [singletonOwner, singletonOwner, h.1, h.2.1]
  refine .ite Iff.rfl (agrees_bare .selfRef) (.ite Iff.rfl ?_ (agrees_single .lvar))
  exact agrees_advance.bind fun _ _ hname =>
    agrees_build .const _ _ (alike_cons rfl (alike_cons (alike_leafOf hname) alike_nil))

/-- Whether a dot follows is told by the token behind the current one. -/
theorem agrees_singleton : Agrees k l singleton singleton := by
  refine Agrees.current fun t t' ht => Agrees.second fun next next' hnext => ?_
  rw [show (next'.kind == .dot) = (next.kind == .dot) from hnext.isKind rfl]
  rcases ht with ht | ⟨hbrace, hparen⟩
  · rw [ht.1]
    refine .ite Iff.rfl ?_ (agrees_pure rfl)
    exact (agrees_singletonOwner ht).bind fun _ _ howner => agrees_advance.bind fun _ _ _ =>
      agrees_pure howner
  · rw [hbrace, hparen]
    exact agrees_pure rfl

/-- The name of a method that is defined, with its `=` where it touches. -/
theorem agrees_plainName : Agrees k l plainName plainName := by
  refine agrees_advance.bind fun t t' ht => Agrees.second fun next next' hnext =>
    (agrees_seesGlued rfl rfl).bind fun a b hab => ?_
  refine .ite (by rw [show a = b from hab, hnext.isKind rfl]) ?_ (agrees_pure (alike_leafAs ht _))
  rw [ht.2.1]
  exact agrees_advance.bind fun _ _ _ => agrees_pure (alike_leafWith _ _ _ _)

/-- The names `[]` and `[]=`. -/
theorem agrees_indexName : Agrees k l indexName indexName := by
  refine agrees_advance.bind fun _ _ _ => (agrees_expect .rbrack).bind fun _ _ _ =>
    (agrees_seesGlued rfl rfl).test ?_ (agrees_pure (alike_leafWith _ _ _ _))
  exact agrees_advance.bind fun _ _ _ => agrees_pure (alike_leafWith _ _ _ _)

/-- The name of a method that is defined; a closer is none. -/
theorem agrees_definedName : Agrees k l definedName definedName := by
  refine Agrees.current fun t t' ht => ?_
  rcases ht with ht | ⟨hbrace, hparen⟩
  · rw [ht.1]
    split
    · exact agrees_plainName
    · exact agrees_plainName
    · exact agrees_indexName
    · exact .ite Iff.rfl agrees_takeName (agrees_fail _ _)
  · rw [hbrace, hparen]
    exact agrees_fail _ _

/-- The parameters of a method; their closing parenthesis is their own. -/
theorem agrees_definedParameters (hg : g.Beside k l g') :
    Agrees k l (definedParameters g) (definedParameters g') := by
  refine Agrees.current fun start start' _ => (agrees_accept rfl).test ?_ ?_
  · exact (agrees_parameters hg _ false).bind fun _ _ h => agrees_skipNewlines.bind fun _ _ _ =>
      (agrees_expectCloser .rpar _ _).bind fun _ _ _ => agrees_build .args _ _ h
  · refine (agrees_seesAny rfl).test (agrees_build .args _ _ alike_nil) ?_
    exact (agrees_parameters hg _ false).bind fun _ _ h => agrees_build .args _ _ h

/-- The body of a method, behind `=` or up to its `end`. -/
theorem agrees_definedBody (hg : g.Beside k l g') :
    Agrees k l (definedBody g) (definedBody g') := by
  refine Agrees.bracketed ((agrees_accept rfl).test ?_ (agrees_closedBody hg _))
  exact agrees_skipNewlines.bind fun _ _ _ => (hg.phrase .statement).bind fun _ _ hn =>
    agrees_build .body _ _ (alike_cons hn alike_nil)

/-- The parameters and the body are read in a scope of their own. -/
theorem agrees_definedParts (hg : g.Beside k l g') :
    Agrees k l (definedParts g) (definedParts g') :=
  (agrees_definedParameters hg).bind fun _ _ hargs => (agrees_definedBody hg).bind
    fun _ _ hinner => agrees_pure ⟨hargs, hinner⟩

/-- A definition of a method. -/
theorem agrees_definition (hg : g.Beside k l g') :
    Agrees k l (definition g) (definition g') :=
  (agrees_expect .kwDef).bind fun _ _ _ => agrees_singleton.bind fun _ _ howner =>
    agrees_definedName.bind fun _ _ hname => ((agrees_definedParts hg).inScope false).bind
      fun _ _ h => agrees_build .defStmt _ _
        (alike_cons howner (alike_cons hname (alike_cons h.1 (alike_cons h.2 alike_nil))))

/-- A further constant of a path. -/
theorem agrees_pathRound (start start' : Token) {scope scope' : Node} (h : Alike scope scope') :
    Agrees k l (pathRound start scope) (pathRound start' scope') := by
  refine (agrees_accept rfl).test ?_ (agrees_pure (.done h))
  exact (agrees_expect .const).bind fun _ _ hname => Agrees.again <|
    agrees_build .const _ _ (alike_cons h (alike_cons (alike_leafOf hname) alike_nil))

/-- The first constant of a path may follow `::`. -/
theorem agrees_pathBase (start start' : Token) :
    Agrees k l (pathBase start) (pathBase start') :=
  (agrees_accept rfl).test (agrees_build .cbase _ _ alike_nil) (agrees_pure rfl)

/-- The name of a class or module. -/
theorem agrees_constantPath (g g' : Rules) :
    Agrees k l (constantPath g) (constantPath g') :=
  Agrees.current fun start start' _ => (agrees_pathBase start start').bind fun _ _ hbase =>
    (agrees_expectOr .const _ _).bind fun _ _ hname => (agrees_build .const _ _
      (alike_cons hbase (alike_cons (alike_leafOf hname) alike_nil))).bind fun _ _ hfirst =>
        Agrees.rounds (fun _ _ => agrees_pathRound start start') g.limit g'.limit hfirst

/-- The body of a class or module is read in a scope of its own. -/
theorem agrees_enclosedBody (hg : g.Beside k l g') (construction : String) :
    Agrees k l (enclosedBody g construction) (enclosedBody g' construction) :=
  (agrees_bracketedBody hg construction).inScope false

/-- The superclass may be left out. -/
theorem agrees_superclass (hg : g.Beside k l g') :
    Agrees k l (superclass g) (superclass g') :=
  (agrees_accept rfl).test (hg.phrase .choice) (agrees_pure rfl)

/-- A class, or the singleton class of a value. -/
theorem agrees_classDefinition (hg : g.Beside k l g') :
    Agrees k l (classDefinition g) (classDefinition g') := by
  refine (agrees_expect .kwClass).bind fun start start' _ => (agrees_accept rfl).test ?_ ?_
  · exact (hg.phrase .sequence).bind fun _ _ htarget => (agrees_enclosedBody hg _).bind
      fun _ _ hinner => agrees_build .sclass _ _ (alike_cons htarget (alike_cons hinner alike_nil))
  · exact (agrees_constantPath g g').bind fun _ _ hpath => (agrees_superclass hg).bind
      fun _ _ hparent => (agrees_enclosedBody hg _).bind fun _ _ hinner =>
        agrees_build .classStmt _ _
          (alike_cons hpath (alike_cons hparent (alike_cons hinner alike_nil)))

/-- A module with its body. -/
theorem agrees_moduleDefinition (hg : g.Beside k l g') :
    Agrees k l (moduleDefinition g) (moduleDefinition g') :=
  (agrees_expect .kwModule).bind fun _ _ _ => (agrees_constantPath g g').bind fun _ _ hpath =>
    (agrees_enclosedBody hg _).bind fun _ _ hinner => agrees_build .moduleStmt _ _
      (alike_cons hpath (alike_cons hinner alike_nil))

/-- A capitalised name is a call only if parentheses touch it. -/
theorem agrees_constant (hg : g.Beside k l g') : Agrees k l (constant g) (constant g') := by
  refine agrees_advance.bind fun t t' ht => (agrees_seesGlued rfl rfl).test ?_ ?_
  · exact (agrees_delimitedArguments hg rfl).bind fun _ _ hfound => agrees_build .call _ _
      (alike_cons rfl (alike_cons (alike_leafAs ht _) hfound))
  · exact agrees_build .const _ _ (alike_cons rfl (alike_cons (alike_leafOf ht) alike_nil))

/-- A constant behind `::`. -/
theorem agrees_rootConstant : Agrees k l rootConstant rootConstant :=
  agrees_advance.bind fun _ _ _ => (agrees_build .cbase _ _ alike_nil).bind fun _ _ hbase =>
    (agrees_expect .const).bind fun _ _ hname => agrees_build .const _ _
      (alike_cons hbase (alike_cons (alike_leafOf hname) alike_nil))

/-- An array literal is closed by a bracket, which is no closer. -/
theorem agrees_array (hg : g.Beside k l g') : Agrees k l (array g) (array g') :=
  Agrees.current fun _ _ _ => (agrees_delimitedArguments hg rfl).bind fun _ _ hfound =>
    agrees_build .array _ _ hfound

/-- Parentheses inside are closed by a parenthesis of their own. -/
theorem agrees_parenthesized (hg : g.Beside k l g') :
    Agrees k l (parenthesized g) (parenthesized g') :=
  agrees_advance.bind fun _ _ _ => (agrees_statements hg _).bracketed.bind fun _ _ hfound =>
    (agrees_expect .rpar).bind fun _ _ _ => agrees_build .paren _ _ hfound

/-- A range without a lower bound. -/
theorem agrees_openRange (hg : g.Beside k l g') : Agrees k l (openRange g) (openRange g') :=
  agrees_advance.bind fun _ _ ht => (hg.phrase .operation).bind fun _ _ hupper =>
    agrees_build .range _ _
      (alike_cons rfl (alike_cons (alike_leafAs ht _) (alike_cons hupper alike_nil)))

/-- `!` in front of an operand. -/
theorem agrees_negatedOperand (hg : g.Beside k l g') :
    Agrees k l (negatedOperand g) (negatedOperand g') :=
  agrees_advance.bind fun _ _ ht => (hg.phrase .assignment).bind fun _ _ hoperand =>
    agrees_build .unop _ _ (alike_cons (alike_leafAs ht _) (alike_cons hoperand alike_nil))

/-- The values of a jump are left out in front of either closer. -/
theorem agrees_jumpValues (hg : g.Beside k l g') : Agrees k l (jumpValues g) (jumpValues g') :=
  (agrees_seesClass _ rfl).test (agrees_pure alike_nil) (agrees_arguments hg closesValues_none)

/-- `return`, `break` and `next` with their values. -/
theorem agrees_jump (hg : g.Beside k l g') (kind : Syntax.Kind) :
    Agrees k l (jump g kind) (jump g' kind) :=
  agrees_advance.bind fun _ _ _ => (agrees_jumpValues hg).bind fun _ _ hvalues =>
    agrees_build kind _ _ hvalues

/-- The values of a `yield`, in parentheses or without. -/
theorem agrees_yieldValues (hg : g.Beside k l g') :
    Agrees k l (yieldValues g) (yieldValues g') := by
  refine (agrees_seesGlued rfl rfl).test (agrees_delimitedArguments hg rfl) ?_
  exact .commandStart (agrees_arguments hg closesValues_none) (agrees_pure alike_nil)
    (stuck_arguments_none (.inl rfl) hg.ends) (stuck_arguments_none (.inr rfl) hg.ends')

/-- A `yield` with its values. -/
theorem agrees_yieldCall (hg : g.Beside k l g') : Agrees k l (yieldCall g) (yieldCall g') :=
  agrees_advance.bind fun _ _ _ => (agrees_yieldValues hg).bind fun _ _ hvalues =>
    agrees_build .yieldCall _ _ hvalues

/-- A `super` with or without arguments. -/
theorem agrees_superCall (hg : g.Beside k l g') : Agrees k l (superCall g) (superCall g') := by
  refine agrees_advance.bind fun t t' _ => (agrees_seesGlued rfl rfl).test ?_ ?_
  · exact (agrees_delimitedArguments hg rfl).bind fun _ _ h => agrees_build .superCall _ _ h
  · exact .commandStart (agrees_command hg .superCall alike_nil _ _)
      (agrees_build .zsuper _ _ alike_nil)
      (stuck_keepingDo (stuck_arguments_none (.inl rfl) hg.ends)).bind
      (stuck_keepingDo (stuck_arguments_none (.inr rfl) hg.ends')).bind

/-- An `alias` takes two names. -/
theorem agrees_aliasStatement : Agrees k l aliasStatement aliasStatement :=
  agrees_advance.bind fun _ _ _ => agrees_aliasName.bind fun _ _ hnew => agrees_aliasName.bind
    fun _ _ hold => agrees_build .aliasStmt _ _ (alike_cons hnew (alike_cons hold alike_nil))

/-- `begin` with its body and clauses. -/
theorem agrees_beginBlock (hg : g.Beside k l g') : Agrees k l (beginBlock g) (beginBlock g') :=
  agrees_advance.bind fun _ _ _ => (agrees_bracketedBody hg _).bind fun _ _ hinner =>
    agrees_build .kwBegin _ _ (alike_cons hinner alike_nil)

/-- A primary is chosen by the kind of its first token, and no closer starts one. -/
theorem agrees_primary (hg : g.Beside k l g') : Agrees k l (primary g) (primary g') := by
  refine Agrees.current fun t t' ht => ?_
  rcases ht with ⟨hkind, -, -⟩ | ⟨hbrace, hparen⟩
  · rw [hkind]
    split
    · exact agrees_single .int
    · exact agrees_single .float
    · exact agrees_strings g g'
    · exact agrees_single .xstr
    · exact agrees_single .regexp
    · exact agrees_single .words
    · exact agrees_singleAs .sym _
    · exact agrees_singleAs .sym _
    · exact agrees_bare .nilLit
    · exact agrees_bare .trueLit
    · exact agrees_bare .falseLit
    · exact agrees_bare .selfRef
    · exact agrees_single .ivar
    · exact agrees_single .gvar
    · exact agrees_single .cvar
    · exact agrees_identifier hg
    · exact agrees_constant hg
    · exact agrees_rootConstant
    · exact agrees_array hg
    · exact agrees_hash hg
    · exact agrees_parenthesized hg
    · exact agrees_openRange hg
    · exact agrees_openRange hg
    · exact agrees_lambda hg
    · exact agrees_negatedOperand hg
    · exact agrees_jump hg .returnStmt
    · exact agrees_jump hg .breakStmt
    · exact agrees_jump hg .nextStmt
    · exact agrees_bare .redoStmt
    · exact agrees_bare .retryStmt
    · exact agrees_yieldCall hg
    · exact agrees_superCall hg
    · exact agrees_aliasStatement
    · exact agrees_definition hg
    · exact agrees_classDefinition hg
    · exact agrees_moduleDefinition hg
    · exact agrees_condition hg
    · exact agrees_condition hg
    · exact agrees_whileLoop hg
    · exact agrees_whileLoop hg
    · exact agrees_forLoop hg
    · exact agrees_caseChoice hg
    · exact agrees_beginBlock hg
    · exact agrees_fail _ _
  · rw [hbrace, hparen]
    exact agrees_fail _ _

end XhrKeywords.Grammar
