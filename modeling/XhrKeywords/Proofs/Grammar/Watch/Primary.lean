import XhrKeywords.Grammar.Primary
import XhrKeywords.Proofs.Grammar.Watch.Body

/-!
# Watching blocks, calls, definitions and primaries

What is known of calls differs from watch to watch, so the productions that read a name and the
arguments behind it are taken as known; where knowing the parts is enough they follow. All other
primaries are known from their parts.
-/

namespace XhrKeywords.Grammar

open Syntax hiding Kind
open Token (Kind)

variable {W : Watch} {g : Rules} {found : List Node} {n : Node}

/-- Two bars in a row hold no parameters. -/
theorem builds_blockParameters (hg : g.Watched W) : W.Builds .signature (blockParameters g) := by
  apply tells_if_sees
  · apply tells_take_kind .orOr nofun
    intro bars _ _
    exact builds_hollow rfl fun _ hspan => W.rule (.parameters hspan Watch.KnowsAll.nil)
  · apply tells_if_sees
    · apply tells_take_kind .pipe nofun
      intro bar _ _
      apply (builds_parameters hg _ true).bind
      intro found hfound
      apply (tells_expectCloser .pipe nofun _ _).next
      intro _
      exact builds_hollow rfl fun _ hspan => W.rule (.parameters hspan hfound)
    · exact tells_pure (W.rule .noSignature)

/-- The statements of a body up to its brace. -/
theorem builds_bracedBody (hg : g.Watched W) (construction : String) :
    W.Builds .statements (bracedBody g construction) := by
  apply (builds_body hg _).bind
  intro inner hinner
  apply (tells_expectCloser .rbrace nofun _ _).next
  intro _
  exact tells_pure hinner

/-- What stands in braces has no clauses. -/
structure Watch.KnowsBody (W : Watch) (inner : Node) (braces : Bool) : Prop where
  suite : W.Knows .suite inner
  statements (h : braces = true) : W.Knows .statements inner

namespace Watch.KnowsBody

variable {inner : Node} {braces : Bool}

/-- A list of statements may be a body in braces. -/
theorem braced (h : W.Knows .statements inner) : W.KnowsBody inner braces :=
  ⟨W.plain h, fun _ => h⟩

/-- A list of statements with clauses may be a body up to its `end`. -/
theorem closed (h : W.Knows .suite inner) : W.KnowsBody inner false := ⟨h, nofun⟩

/-- Where the style is braces, the body is a list of statements. -/
theorem of_style (h : W.KnowsBody inner braces)
    (hstyle : (if braces then "\x7b" else "do") = "\x7b") : W.Knows .statements inner := by
  cases braces with
  | true => exact h.statements rfl
  | false => exact absurd hstyle (by decide)

end Watch.KnowsBody

/-- The parameters of a block and a body of its style. -/
theorem tells_blockParts (hg : g.Watched W) (braces : Bool) :
    W.Tells (fun parts => W.Knows .signature parts.1 ∧ W.KnowsBody parts.2 braces)
      (blockParts g braces) := by
  apply (builds_blockParameters hg).bind
  intro bound hbound
  cases braces with
  | true =>
    apply (builds_bracedBody hg _).bind
    intro inner hinner
    exact tells_pure ⟨hbound, .braced hinner⟩
  | false =>
    apply (builds_closedBody hg _).bind
    intro inner hinner
    exact tells_pure ⟨hbound, .closed hinner⟩

/-- A block hangs on a call that is known. -/
theorem builds_block (hg : g.Watched W) {call : Node} (hcall : W.Knows .value call) :
    W.BuildsAt W.Takes .value (block g call) := by
  apply tells_take
  intro opener _
  apply (tells_bracketed (tells_inScope true (tells_blockParts hg _))).bind
  intro parts hparts
  exact builds_rule (W.starts hcall) fun _ hspan =>
    .block hspan hcall hparts.1 hparts.2.suite rfl (W.mark rfl) hparts.2.of_style

/-- The parameters in parentheses end in front of what follows them. -/
theorem builds_lambdaParameters (hg : g.Watched W) :
    W.Builds .signature (lambdaParameters g) := by
  apply tells_if_sees
  · apply tells_take_kind .lpar nofun
    intro opener _ _
    apply (builds_parameters hg _ false).bind
    intro found hfound
    have hargs : W.Tells (fun n => ∃ span, n = .tree .args (some span) found)
        (build .args found (ofToken opener)) :=
      builds_hollow rfl fun span _ => ⟨span, rfl⟩
    apply hargs.bind
    rintro _ ⟨span, rfl⟩
    apply (tells_expect .rpar nofun).next
    intro closer
    exact tells_pure (W.rule (.parameters (W.hollow rfl _) hfound))
  · apply (tells_seesAny _).cond
    · apply tells_current.next
      intro start
      apply (builds_parameters hg _ false).bind
      intro found hfound
      exact builds_hollow rfl fun _ hspan => W.rule (.parameters hspan hfound)
    · exact tells_pure (W.rule .noSignature)

/-- The body of a lambda, with its style. -/
theorem tells_lambdaBody (hg : g.Watched W) :
    W.Tells (fun inner => W.KnowsBody inner.1 inner.2) (lambdaBody g) := by
  apply (tells_accept .lbrace nofun).cond
  · apply (builds_bracedBody hg _).bind
    intro inner hinner
    exact tells_pure (.braced hinner)
  · apply (tells_expectOr .kwDo nofun _).next
    intro _
    apply (builds_closedBody hg _).bind
    intro inner hinner
    exact tells_pure (.closed hinner)

/-- The parameters and the body of a lambda, with its style. -/
theorem tells_lambdaParts (hg : g.Watched W) :
    W.Tells (fun parts => W.Knows .signature parts.1 ∧ W.KnowsBody parts.2.1 parts.2.2)
      (lambdaParts g) := by
  apply (builds_lambdaParameters hg).bind
  intro bound hbound
  apply (tells_bracketed (tells_lambdaBody hg)).bind
  intro inner hinner
  exact tells_pure ⟨hbound, hinner⟩

/-- A lambda literal is a value. -/
theorem builds_lambda (hg : g.Watched W) : W.Builds .value (lambda g) := by
  apply (tells_expect .arrow nofun).bind
  intro start hstart
  apply (tells_inScope true (tells_lambdaParts hg)).bind
  intro parts hparts
  exact builds_rule hstart.1.starts fun _ hspan =>
    .lambda hspan hparts.1 hparts.2.suite rfl (W.mark rfl) hparts.2.of_style

section Arguments

variable {kind : Syntax.Kind} {head : List Node} {start : Mark}
  (hhead : ∀ span found, W.Lies kind span → W.KnowsAll .value found →
    W.Knows .value (.tree kind span (head ++ found)))
  (hstart : W.Starts start)

include hhead hstart

/-- The arguments of a call without parentheses build a tree that is known when its parts are. -/
theorem builds_command (hg : g.Watched W) : W.Builds .value (command g kind head start) := by
  apply (tells_keepingDo (builds_openArguments hg)).bind
  intro found hfound
  apply (builds_tree hstart fun span hspan => hhead (some span) found hspan hfound).bind
  intro call hcall
  apply tells_doBinds.next
  intro binds
  apply tells_if_seesToo
  · exact (builds_block hg hcall).at_kind _ nofun
  · exact tells_pure hcall

/-- A call with its arguments is a value whatever its head is. -/
theorem builds_callArguments (hg : g.Watched W) :
    W.Builds .value (callArguments g kind head start) := by
  apply tells_if_seesGlued
  · have harguments := builds_delimitedArguments hg (W.takesAny [.rpar] (by decide))
    apply (harguments.at_kind .lpar nofun).bind
    intro found hfound
    exact builds_tree hstart fun span hspan => hhead (some span) found hspan hfound
  · apply tells_commandStart.cond
    · exact builds_command hhead hstart hg
    · exact builds_tree hstart fun span hspan =>
        List.append_nil head ▸ hhead (some span) [] hspan .nil

end Arguments

/-- The productions that read the name of a call and its arguments. -/
structure Watch.Calls (W : Watch) : Prop where
  identifier {g : Rules} (hg : g.Watched W) : W.BuildsAt (·.kind = .ident) .value (identifier g)
  constant {g : Rules} (hg : g.Watched W) : W.BuildsAt (·.kind = .const) .value (constant g)
  methodCall {g : Rules} (hg : g.Watched W) {receiver : Node} (hreceiver : W.Knows .value receiver)
    (operator : Kind) : W.Builds .value (methodCall g receiver operator)

/-- The name of a call. -/
inductive Watch.IsName (W : Watch) : Node → Prop
  /-- A call behind a dot has a name without a token of its own. -/
  | implied : IsName W (.word (.token .ident) "call")
  /-- All other names are tokens. -/
  | token {t : Token} (role : Role) (h : W.Sound t) (hnames : t.kind.namesCall) :
      IsName W (leafAs role t)

/-- One sees a token that names a call. -/
theorem isVisible_of_namesCall {kind : Kind} (h : kind.namesCall) : kind.isVisible := by
  cases kind <;> first | rfl | cases h

/-- The name behind a dot is a leaf. -/
theorem tells_methodName : W.Tells W.IsName methodName := by
  have hname {t : Token} (hnames : t.kind.namesCall) : W.TellsAt (· = t) W.IsName takeName := by
    apply tells_take_at fun u (hu : u = t) =>
      Watch.takes_visible (hu ▸ isVisible_of_namesCall hnames)
    intro u hu htaken
    exact tells_pure (.token _ htaken.sound (hu ▸ hnames))
  apply tells_at_current
  intro t _ _
  split
  · exact tells_pure .implied
  · rename_i hkind
    exact hname (by rw [hkind]; rfl)
  · rename_i hkind
    exact hname (by rw [hkind]; rfl)
  · exact tells_fail _
  · split
    · rename_i hoperator
      exact hname (by rw [Kind.namesCall, hoperator, Bool.or_true])
    · exact tells_fail _

/-- Where a call is known when its receiver and its arguments are, all productions that read calls
build known trees. -/
theorem Watch.Calls.of_heads
    (h : ∀ {kind receiver name}, kind = .call ∨ kind = .csend → W.Knows .optional receiver →
      W.IsName name → ∀ span found, W.Lies kind span → W.KnowsAll .value found →
      W.Knows .value (.tree kind span (receiver :: name :: found))) :
    W.Calls where
  identifier hg := by
    apply tells_take_kind .ident nofun
    intro t hkind ht
    apply (tells_isLocal _).next
    intro known
    apply (tells_seesGlued .lpar).next
    intro glued
    apply Watch.TellsAt.ite
    · exact builds_rule ht.starts fun _ hspan => .literal rfl hspan (ht.leafAs hkind rfl rfl)
    · have hname : W.IsName (leafOf t) := .token _ ht.sound (by rw [hkind]; rfl)
      exact builds_callArguments (h (.inl rfl) W.absent hname) ht.starts hg
  constant hg := by
    apply tells_take_kind .const nofun
    intro t hkind ht
    apply tells_if_seesGlued
    · have hname : W.IsName (nameLeaf t) := .token _ ht.sound (by rw [hkind]; rfl)
      have harguments := builds_delimitedArguments hg (W.takesAny [.rpar] (by decide))
      apply (harguments.at_kind .lpar nofun).bind
      intro found hfound
      exact builds_tree ht.starts fun span hspan =>
        h (.inl rfl) W.absent hname (some span) found hspan hfound
    · exact builds_rule ht.starts fun _ hspan => .const hspan W.absent (ht.leafAs hkind rfl rfl)
  methodCall hg receiver hreceiver operator := by
    apply tells_methodName.bind
    intro name hname
    exact builds_callArguments (h (by split <;> simp) (W.present hreceiver) hname)
      (W.starts hreceiver) hg

/-- The statements of a branch. -/
theorem builds_branch (hg : g.Watched W) (stops : List Kind) :
    W.Builds .statements (branch g stops) :=
  tells_bracketed (builds_body hg stops)

/-- The statements behind `else`, or nothing. -/
theorem builds_otherwiseBranch (hg : g.Watched W) :
    W.Builds .otherwise (otherwiseBranch g) := by
  apply (tells_accept .kwElse nofun).cond
  · exact (builds_branch hg _).mono fun _ hn => W.rule (.branch (W.plain hn))
  · exact tells_pure (W.rule .nothing)

/-- What follows a branch: a further condition, statements or nothing. -/
theorem builds_nextBranch (hg : g.Watched W) (keyword : Token) :
    W.Builds .otherwise (nextBranch g keyword) := by
  apply tells_if_seesToo
  · apply tells_take_kind .kwElsif nofun
    intro next _ hnext
    exact hg.conditional next hnext.starts
  · exact builds_otherwiseBranch hg

/-- A condition is known wherever it ends. -/
theorem builds_conditional (hg : g.Watched W) {test : Parser Node} (htest : W.Builds .value test)
    {keyword : Token} (hkeyword : W.Starts (ofToken keyword)) :
    W.Tells (W.Shapes .value .ifStmt) (conditional g test keyword) := by
  apply (tells_bracketed htest).bind
  intro condition hcondition
  apply tells_separator.next
  intro _
  apply (builds_branch hg _).bind
  intro inner hinner
  apply (builds_nextBranch hg keyword).bind
  intro otherwise hotherwise
  exact builds_shape hkeyword fun _ hspan =>
    .condition hspan rfl (W.keyword keyword) hcondition (W.plain hinner) hotherwise

/-- A condition with its branches is a value. -/
theorem builds_condition (hg : g.Watched W) : W.BuildsAt W.Takes .value (condition g) := by
  apply tells_take
  intro keyword hkeyword
  apply (builds_conditional hg (hg.value .sequence rfl) hkeyword.starts).bind
  intro n hn
  apply (tells_expectEnd _).bind
  intro closer hcloser
  exact tells_pure (hn.mapSpan fun _ hspan => W.endsAt hspan rfl hcloser.1.sound hcloser.1.takes)

/-- The statements of a loop up to its `end`. -/
theorem builds_loopBody (hg : g.Watched W) (construction : String) :
    W.Builds .suite (loopBody g construction) := by
  apply tells_loopOpener.next
  intro _
  apply (builds_branch hg _).bind
  intro inner hinner
  apply (tells_expectEnd _).next
  intro _
  exact tells_pure (W.plain hinner)

/-- A `while` or `until` loop is a value. -/
theorem builds_whileLoop (hg : g.Watched W) : W.BuildsAt W.Takes .value (whileLoop g) := by
  apply tells_take
  intro keyword hkeyword
  apply (tells_keepingDo (hg.value .sequence rfl)).bind
  intro test htest
  apply (builds_loopBody hg keyword.text).bind
  intro inner hinner
  exact builds_rule hkeyword.starts fun _ hspan =>
    .whileLoop hspan (W.keyword keyword) htest hinner

/-- A variable of a `for` loop is a value. -/
theorem builds_loopVariable : W.Builds .value loopVariable := by
  apply (tells_expectOr .ident nofun _).bind
  intro name hname
  apply (tells_declare name.text).next
  intro _
  exact builds_rule hname.1.starts fun _ hspan =>
    .literal rfl hspan (hname.1.leafAs hname.2 rfl rfl)

/-- One round of the variables of a `for` loop. -/
theorem tells_loopVariableRound (hfound : W.KnowsAll .value found) :
    W.Gathers .value (loopVariableRound found) := by
  apply builds_loopVariable.bind
  intro next hnext
  exact tells_commaRound (hfound.concat hnext)

/-- Several variables are one target. -/
theorem builds_loopTarget {start : Token} (hstart : W.Starts (ofToken start))
    (hfound : W.KnowsAll .value found) : W.Builds .value (loopTarget start found) := by
  rw [loopTarget.eq_def]
  split
  · exact tells_pure (hfound _ List.mem_cons_self)
  · exact builds_rule hstart fun _ hspan => .series rfl rfl hspan hfound

/-- A `for` loop is a value. -/
theorem builds_forLoop (hg : g.Watched W) : W.Builds .value (forLoop g) := by
  apply (tells_expect .kwFor nofun).bind
  intro start hstart
  apply (tells_loop (fun _ => tells_loopVariableRound) Watch.KnowsAll.nil).bind
  intro targets htargets
  apply (builds_loopTarget hstart.1.starts htargets).bind
  intro bound hbound
  apply (tells_expectOr .kwIn nofun _).next
  intro _
  apply (tells_keepingDo (hg.value .sequence rfl)).bind
  intro collection hcollection
  apply (builds_loopBody hg _).bind
  intro inner hinner
  exact builds_rule hstart.1.starts fun _ hspan => .forLoop hspan hbound hcollection hinner

/-- A `when` with its values and statements. -/
theorem builds_whenClause (hg : g.Watched W) : W.BuildsAt W.Takes .choice (whenClause g) := by
  apply tells_take
  intro keyword hkeyword
  apply (builds_elements (builds_splatOr (hg.value .choice rfl))).bind
  intro values hvalues
  apply tells_separator.next
  intro _
  apply (builds_branch hg _).bind
  intro inner hinner
  exact builds_rule hkeyword.starts fun _ hspan => .whenClause hspan hvalues (W.plain hinner)

/-- One round of the `when` clauses. -/
theorem tells_whenRound (hg : g.Watched W) (hfound : W.KnowsAll .choice found) :
    W.Gathers .choice (whenRound g found) := by
  apply tells_if_sees
  · exact (tells_againWith hfound (builds_whenClause hg)).at_kind _ nofun
  · exact tells_pure hfound

/-- There is one `when` clause at least. -/
theorem tells_whenClauses (hg : g.Watched W) :
    W.Tells (fun clauses => W.KnowsAll .choice clauses ∧ clauses ≠ []) (whenClauses g) := by
  apply (tells_loop (fun _ => tells_whenRound hg) Watch.KnowsAll.nil).bind
  intro clauses hclauses
  apply (tells_sees .kwIn).cond
  · exact tells_fail _
  · split
    · exact tells_fail _
    · rename_i hsome
      exact tells_pure ⟨hclauses, fun h => hsome (by rw [h]; rfl)⟩

/-- The value a `case` looks at, or nothing. -/
theorem builds_caseSubject (hg : g.Watched W) : W.Builds .optional (caseSubject g) := by
  apply (tells_seesClass _).cond
  · exact tells_pure W.absent
  · exact (hg.value .sequence rfl).mono fun _ => W.present

/-- A `case` with its clauses is a value. -/
theorem builds_caseChoice (hg : g.Watched W) : W.Builds .value (caseChoice g) := by
  apply (tells_expect .kwCase nofun).bind
  intro start hstart
  apply (builds_caseSubject hg).bind
  intro subject hsubject
  apply tells_skipSeparators.next
  intro _
  apply (tells_whenClauses hg).bind
  intro clauses hclauses
  apply (builds_otherwiseBranch hg).bind
  intro otherwise hotherwise
  apply (tells_expectEnd _).next
  intro _
  exact builds_rule hstart.1.starts fun _ hspan =>
    .caseChoice hspan hsubject hclauses.2 hclauses.1 hotherwise

/-- The object of a singleton method is one token. -/
theorem leads_singletonOwner {t : Token} {s u : State}
    (h : singletonOwner t s = .ok (n, u)) : u = s.advance := by
  rw [singletonOwner] at h
  split at h
  · cases h
    rfl
  · split at h
    · cases h
      rfl
    · cases h
      rfl

/-- The owner of a singleton method is a value. -/
theorem builds_singletonOwner {t : Token} (hvisible : t.kind.isVisible) :
    W.BuildsAt (· = t) .value (singletonOwner t) := by
  have htakes : ∀ u, u = t → W.Takes u := fun _ h => Watch.takes_visible (h ▸ hvisible)
  apply Watch.TellsAt.ite
  · exact (builds_bare rfl).weaken htakes
  · apply Watch.TellsAt.ite
    · apply tells_take_at htakes
      intro name hname hparts
      exact builds_rule hparts.starts fun _ hspan =>
        .const hspan W.absent (hparts.leaf (hname ▸ hvisible) rfl)
    · exact (builds_single rfl).weaken fun _ h => h ▸ hvisible

/-- The dot behind the object of a singleton method has been seen in front of it. -/
theorem builds_singleton : W.Builds .optional singleton := by
  intro i s n u hs _ hrun
  rw [singleton, current_bind, second_bind] at hrun
  split at hrun
  · rename_i hseen
    simp only [Bool.and_eq_true, Bool.or_eq_true, beq_iff_eq] at hseen
    have hvisible : s.current.kind.isVisible := by
      rcases hseen.1 with hkind | hkind <;> rw [hkind] <;> rfl
    obtain ⟨owner, v, howner, hrun⟩ := of_bind hrun
    obtain ⟨hv, hknown⟩ := builds_singletonOwner hvisible hs rfl howner
    have hdot : v.current.kind = .dot := by
      rw [leads_singletonOwner howner, State.current_advance]
      exact hseen.2
    cases hrun
    exact ⟨W.advance hv (Watch.takes_kind (by decide) hdot), W.present hknown⟩
  · cases hrun
    exact ⟨hs, W.absent⟩

/-- A name with an equals sign ends as no line break does. -/
theorem isTrim_setter (name : String) : IsTrim (name ++ "=") := by
  intro hlast
  simp at hlast

/-- The name of a method that is defined, with its `=` where it touches. -/
theorem tells_plainName : W.TellsAt (·.kind.isVisible) W.Names plainName := by
  apply tells_take_visible
  intro t hvisible ht
  have hname : W.Names (nameLeaf t) := ⟨_, rfl, ht.leaf hvisible rfl⟩
  apply tells_second.next
  intro next
  apply tells_seenGlued
  · apply Watch.TellsAt.ite
    · apply tells_take_kind .assign nofun
      intro _ _ _
      exact tells_pure ⟨_, rfl, W.trim (isTrim_setter _)⟩
    · exact tells_pure hname
  · exact tells_pure hname

/-- The names `[]` and `[]=`. -/
theorem tells_indexName : W.TellsAt W.Takes W.Names indexName := by
  have htrim {text : String} (h : text = "[]" ∨ text = "[]=") (t : Token) :
      W.Names (leafWith (.token .ident) text t) := by
    have htext : IsTrim text := by
      intro hlast
      rcases h with rfl | rfl <;> cases hlast
    exact ⟨_, rfl, W.trim htext⟩
  apply tells_take
  intro t _
  apply (tells_expect .rbrack nofun).next
  intro _
  apply tells_if_seesGlued
  · apply tells_take_kind .assign nofun
    intro _ _ _
    exact tells_pure (htrim (.inr rfl) t)
  · exact tells_pure (htrim (.inl rfl) t)

/-- The name of a method that is defined is a leaf. -/
theorem tells_definedName : W.Tells W.Names definedName := by
  apply tells_at_current
  intro t _ _
  split
  · exact tells_plainName.at_visible ‹_› rfl
  · exact tells_plainName.at_visible ‹_› rfl
  · exact tells_indexName.at_taken ‹_› (by decide)
  · split
    · exact tells_takeName.at_visible rfl (isVisible_of_isOperatorMethod ‹_›)
    · exact tells_fail _

/-- One more constant of a path. -/
theorem builds_path {start : Mark} (hstart : W.Starts start) {scope : Node}
    (hscope : W.Knows .optional scope) {name : Token} (h : W.Taken name ∧ name.kind = .const) :
    W.Builds .value (build .const [scope, leafOf name] start) :=
  builds_rule hstart fun _ hspan => .const hspan hscope (h.1.leafAs h.2 rfl rfl)

/-- A further constant makes a path grow. -/
theorem tells_pathRound {start : Token} (hstart : W.Starts (ofToken start)) {scope : Node}
    (hscope : W.Knows .value scope) : W.Grows (pathRound start scope) := by
  apply (tells_accept .colon2 nofun).cond
  · apply (tells_expect .const nofun).bind
    intro name hname
    exact tells_again (builds_path hstart (W.present hscope) hname)
  · exact tells_pure hscope

/-- The first constant of a path may follow `::`. -/
theorem builds_pathBase {start : Token} (hstart : W.Starts (ofToken start)) :
    W.Builds .optional (pathBase start) := by
  apply (tells_accept .colon2 nofun).cond
  · exact (builds_rule hstart fun _ hspan => .word rfl hspan).mono fun _ => W.present
  · exact tells_pure W.absent

/-- At the end of the source there is no path. -/
theorem ne_eof_of_path {start : Token} {s : State} {f : Node → Token → Parser Node}
    {r : Node × State}
    (h : (pathBase start >>= fun base => expectOr .const .missingConstantName >>= f base) s =
      .ok r) : s.current.kind ≠ .eof := by
  intro heof
  obtain ⟨base, u, hbase, h⟩ := of_bind h
  rw [pathBase, accept_bind, if_neg (by rw [heof]; decide)] at hbase
  cases hbase
  obtain ⟨hconst, -⟩ := of_expectOr h
  rw [heof] at hconst
  cases hconst

/-- The name of a class or module is a value. -/
theorem builds_constantPath (g : Rules) : W.Builds .value (constantPath g) := by
  apply tells_at_current
  intro start _ hsound i s n u hs heq hrun
  have hkind : start.kind ≠ .eof := heq ▸ ne_eof_of_path hrun
  have hstart : W.Starts (ofToken start) := W.opens hsound (W.takes hkind)
  refine Watch.TellsAt.bind (builds_pathBase hstart) (fun base hbase => ?_) hs trivial hrun
  apply (tells_expectOr .const nofun _).bind
  intro name hname
  apply (builds_path hstart hbase hname).bind
  intro first hfirst
  exact tells_loop (fun _ => tells_pathRound hstart) hfirst

/-- The parameters of a method are one list. -/
theorem tells_definedParameters (hg : g.Watched W) :
    W.Tells (fun n => ∃ listed args, n = .tree .args listed args ∧ W.KnowsAll .parameter args)
      (definedParameters g) := by
  have hlist {found : List Node} (hfound : W.KnowsAll .parameter found) (start : Mark) :
      W.Tells (fun n => ∃ listed args, n = .tree .args listed args ∧ W.KnowsAll .parameter args)
        (build .args found start) :=
    builds_hollow rfl fun span _ => ⟨some span, found, rfl, hfound⟩
  apply tells_current.next
  intro start
  apply (tells_accept .lpar nofun).cond
  · apply (builds_parameters hg _ false).bind
    intro found hfound
    apply tells_skipNewlines.next
    intro _
    apply (tells_expectCloser .rpar nofun _ _).next
    intro _
    exact hlist hfound _
  · apply (tells_seesAny _).cond
    · exact hlist .nil _
    · apply (builds_parameters hg _ false).bind
      intro found hfound
      exact hlist hfound _

/-- The body of a method, behind `=` or up to its `end`. -/
theorem builds_definedBody (hg : g.Watched W) : W.Builds .suite (definedBody g) := by
  apply tells_bracketed
  apply (tells_accept .assign nofun).cond
  · apply tells_skipNewlines.next
    intro _
    apply (hg.value .statement rfl).bind
    intro only honly
    exact builds_hollow rfl fun _ hspan =>
      W.plain (W.rule (.body hspan (Watch.KnowsAll.one honly)))
  · exact builds_closedBody hg _

/-- The parameters and the body of a method. -/
theorem tells_definedParts (hg : g.Watched W) :
    W.Tells (fun parts => (∃ listed args, parts.1 = .tree .args listed args ∧
      W.KnowsAll .parameter args) ∧ W.Knows .suite parts.2) (definedParts g) := by
  apply (tells_definedParameters hg).bind
  intro args hargs
  apply (builds_definedBody hg).bind
  intro inner hinner
  exact tells_pure ⟨hargs, hinner⟩

/-- A definition of a method is a value. -/
theorem builds_definition (hg : g.Watched W) : W.Builds .value (definition g) := by
  apply (tells_expect .kwDef nofun).bind
  intro start hstart
  apply builds_singleton.bind
  intro owner howner
  apply tells_definedName.bind
  rintro _ ⟨name, rfl, hname⟩
  apply (tells_inScope false (tells_definedParts hg)).bind
  rintro ⟨_, inner⟩ ⟨⟨listed, args, rfl, hargs⟩, hinner⟩
  exact builds_rule hstart.1.starts fun _ hspan =>
    .definition hspan howner hname (W.hollow rfl _) hargs hinner

/-- The body of a class or module. -/
theorem builds_enclosedBody (hg : g.Watched W) (construction : String) :
    W.Builds .suite (enclosedBody g construction) :=
  tells_inScope false (builds_bracketedBody hg construction)

/-- The superclass, or nothing. -/
theorem builds_superclass (hg : g.Watched W) : W.Builds .optional (superclass g) := by
  apply (tells_accept .lt nofun).cond
  · exact (hg.value .choice rfl).mono fun _ => W.present
  · exact tells_pure W.absent

/-- A class, or the singleton class of a value, is a value. -/
theorem builds_classDefinition (hg : g.Watched W) : W.Builds .value (classDefinition g) := by
  apply (tells_expect .kwClass nofun).bind
  intro start hstart
  apply (tells_accept .lshift nofun).cond
  · apply (hg.value .sequence rfl).bind
    intro target htarget
    apply (builds_enclosedBody hg _).bind
    intro inner hinner
    exact builds_rule hstart.1.starts fun _ hspan => .named (.inl rfl) hspan htarget hinner
  · apply (builds_constantPath g).bind
    intro path hpath
    apply (builds_superclass hg).bind
    intro parent hparent
    apply (builds_enclosedBody hg _).bind
    intro inner hinner
    exact builds_rule hstart.1.starts fun _ hspan => .classDefinition hspan hpath hparent hinner

/-- A module is a value. -/
theorem builds_moduleDefinition (hg : g.Watched W) : W.Builds .value (moduleDefinition g) := by
  apply (tells_expect .kwModule nofun).bind
  intro start hstart
  apply (builds_constantPath g).bind
  intro path hpath
  apply (builds_enclosedBody hg _).bind
  intro inner hinner
  exact builds_rule hstart.1.starts fun _ hspan => .named (.inr rfl) hspan hpath hinner

/-- A constant behind `::` is a value. -/
theorem builds_rootConstant : W.BuildsAt W.Takes .value rootConstant := by
  apply tells_take
  intro t ht
  apply Watch.TellsAt.bind (builds_rule ht.starts fun _ hspan => .word rfl hspan)
  intro base hbase
  apply (tells_expect .const nofun).bind
  intro name hname
  exact builds_path ht.starts (W.present hbase) hname

/-- An array literal is a value. -/
theorem builds_array (hg : g.Watched W) : W.BuildsAt (·.kind = .lbrack) .value (array g) := by
  apply tells_at_current
  intro t hkind hsound
  have harguments := builds_delimitedArguments hg (W.takesAny [.rbrack] (by decide))
  have htakes : W.Takes t := Watch.takes_kind (by decide) hkind
  apply (harguments.weaken fun u (hu : u = t) => hu ▸ htakes).bind
  intro found hfound
  exact builds_rule (W.opens hsound htakes) fun _ hspan => .series rfl rfl hspan hfound

/-- Statements in parentheses are a value. -/
theorem builds_parenthesized (hg : g.Watched W) :
    W.BuildsAt W.Takes .value (parenthesized g) := by
  apply tells_take
  intro t ht
  apply (tells_bracketed (builds_statements hg _)).bind
  intro found hfound
  apply (tells_expect .rpar nofun).next
  intro _
  exact builds_rule ht.starts fun _ hspan => .series rfl rfl hspan hfound

/-- A range without a lower bound is a value. -/
theorem builds_openRange (hg : g.Watched W) : W.BuildsAt W.Takes .value (openRange g) := by
  apply tells_take
  intro t ht
  apply (hg.value .operation rfl).bind
  intro upper hupper
  exact builds_rule ht.starts fun _ hspan =>
    .range hspan W.absent (W.operator t) (W.present hupper)

/-- `!` with its operand is a value. -/
theorem builds_negatedOperand (hg : g.Watched W) :
    W.BuildsAt W.Takes .value (negatedOperand g) := by
  apply tells_take
  intro t ht
  apply (hg.value .assignment rfl).bind
  intro operand hoperand
  exact builds_rule ht.starts fun _ hspan => .unop hspan (W.operator t) hoperand

/-- The values of a jump. -/
theorem builds_jumpValues (hg : g.Watched W) : W.BuildsAll .value (jumpValues g) := by
  apply (tells_seesClass _).cond
  · exact tells_pure .nil
  · exact builds_openArguments hg

/-- `return`, `break` and `next` with their values are values. -/
theorem builds_jump (hg : g.Watched W) {kind : Syntax.Kind} (hkind : kind.isSeries)
    (hopen : kind.isOpen) : W.BuildsAt W.Takes .value (jump g kind) := by
  apply tells_take
  intro t ht
  apply (builds_jumpValues hg).bind
  intro values hvalues
  exact builds_rule ht.starts fun _ hspan => .series hkind hopen hspan hvalues

/-- The values of a `yield`. -/
theorem builds_yieldValues (hg : g.Watched W) : W.BuildsAll .value (yieldValues g) := by
  apply tells_if_seesGlued
  · exact (builds_delimitedArguments hg (W.takesAny _ (by decide))).at_kind _ nofun
  · apply tells_commandStart.cond
    · exact builds_openArguments hg
    · exact tells_pure .nil

/-- A `yield` with its values is a value. -/
theorem builds_yieldCall (hg : g.Watched W) : W.BuildsAt W.Takes .value (yieldCall g) := by
  apply tells_take
  intro t ht
  apply (builds_yieldValues hg).bind
  intro values hvalues
  exact builds_rule ht.starts fun _ hspan => .series rfl rfl hspan hvalues

/-- A `super` with its arguments is a value. -/
theorem builds_superCall (hg : g.Watched W) : W.BuildsAt W.Takes .value (superCall g) := by
  apply tells_take
  intro t ht
  apply tells_if_seesGlued
  · have harguments := builds_delimitedArguments hg (W.takesAny [.rpar] (by decide))
    apply (harguments.at_kind .lpar nofun).bind
    intro values hvalues
    exact builds_rule ht.starts fun _ hspan => .series rfl rfl hspan hvalues
  · apply tells_commandStart.cond
    · exact builds_command (fun _ _ hspan hfound => W.rule (.series rfl rfl hspan hfound))
        ht.starts hg
    · exact builds_rule ht.starts fun _ hspan => .word rfl hspan

/-- An `alias` of two names is a value. -/
theorem builds_aliasStatement : W.BuildsAt W.Takes .value aliasStatement := by
  apply tells_take
  intro t ht
  apply builds_aliasName.bind
  intro new hnew
  apply builds_aliasName.bind
  intro old hold
  exact builds_rule ht.starts fun _ hspan => .couple (.inr (.inl rfl)) hspan hnew hold

/-- `begin` with its body is a value. -/
theorem builds_beginBlock (hg : g.Watched W) : W.BuildsAt W.Takes .value (beginBlock g) := by
  apply tells_take
  intro t ht
  apply (builds_bracketedBody hg _).bind
  intro inner hinner
  exact builds_rule ht.starts fun _ hspan => .beginBlock hspan hinner

/-- A primary is told apart by its first token. -/
theorem builds_primary (hcalls : W.Calls) (hg : g.Watched W) : W.Builds .value (primary g) := by
  have hsymbol (role : Role) : W.BuildsAt (·.kind.isVisible) .value (singleAs .sym role) :=
    (builds_singleAs rfl role).mono fun _ => Watch.Shapes.knows
  apply tells_at_current
  intro t _ _
  split
  case h_3 => exact builds_strings.any
  case h_7 | h_8 => exact (hsymbol _).at_visible ‹_› rfl
  case h_9 | h_10 | h_11 | h_12 | h_29 | h_30 =>
    exact (builds_bare rfl).at_taken ‹_› (by decide)
  case h_16 => exact (hcalls.identifier hg).at_token ‹_›
  case h_17 => exact (hcalls.constant hg).at_token ‹_›
  case h_18 => exact builds_rootConstant.at_taken ‹_› (by decide)
  case h_19 => exact (builds_array hg).at_token ‹_›
  case h_20 => exact (builds_hash hg).any
  case h_21 => exact (builds_parenthesized hg).at_taken ‹_› (by decide)
  case h_22 | h_23 => exact (builds_openRange hg).at_taken ‹_› (by decide)
  case h_24 => exact (builds_lambda hg).any
  case h_25 => exact (builds_negatedOperand hg).at_taken ‹_› (by decide)
  case h_26 | h_27 | h_28 => exact (builds_jump hg rfl rfl).at_taken ‹_› (by decide)
  case h_31 => exact (builds_yieldCall hg).at_taken ‹_› (by decide)
  case h_32 => exact (builds_superCall hg).at_taken ‹_› (by decide)
  case h_33 => exact builds_aliasStatement.at_taken ‹_› (by decide)
  case h_34 => exact (builds_definition hg).any
  case h_35 => exact (builds_classDefinition hg).any
  case h_36 => exact (builds_moduleDefinition hg).any
  case h_37 | h_38 => exact (builds_condition hg).at_taken ‹_› (by decide)
  case h_39 | h_40 => exact (builds_whileLoop hg).at_taken ‹_› (by decide)
  case h_41 => exact (builds_forLoop hg).any
  case h_42 => exact (builds_caseChoice hg).any
  case h_43 => exact (builds_beginBlock hg).at_taken ‹_› (by decide)
  case h_44 => exact tells_fail _
  all_goals exact (builds_single rfl).at_visible ‹_› rfl

end XhrKeywords.Grammar
