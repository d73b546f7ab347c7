import XhrKeywords.Proofs.Grammar.Watch.Program

/-!
# Scopes around a production

A production may declare variables in the scope it is read in, and nothing else of the scopes or of
the count of calls that keep a `do` is different behind it. Blocks, lambdas, methods and modules
have scopes of their own and leave even the scope around them as it was. Main statement:
`scopes_kept`.
-/

namespace XhrKeywords.Grammar

open Syntax hiding Kind
open Token (Kind)

/-- Behind a production: the count of calls that keep a `do` is what it was, the scopes around are
untouched and the innermost one has at most gained variables. -/
structure State.Scoped (s t : State) : Prop where
  blocked : t.blocked = s.blocked
  outer : t.outer = s.outer
  scope : s.scope ⊆ t.scope

/-- Behind a production with a scope of its own: only the tokens have moved on. -/
structure State.Sealed (s t : State) : Prop where
  blocked : t.blocked = s.blocked
  outer : t.outer = s.outer
  scope : t.scope = s.scope

variable {α : Type} {s t u : State}

/-- Taking a token leaves the scopes and the count alone. -/
theorem State.sealed_advance (s : State) : s.Sealed s.advance := by
  rw [State.advance]
  split <;> exact ⟨rfl, rfl, rfl⟩

namespace State.Scoped

theorem refl (s : State) : s.Scoped s := ⟨rfl, rfl, List.Subset.refl _⟩

theorem trans (h : s.Scoped t) (h' : t.Scoped u) : s.Scoped u :=
  ⟨h'.blocked.trans h.blocked, h'.outer.trans h.outer, List.Subset.trans h.scope h'.scope⟩

end State.Scoped

namespace State.Sealed

theorem refl (s : State) : s.Sealed s := ⟨rfl, rfl, rfl⟩

theorem trans (h : s.Sealed t) (h' : t.Sealed u) : s.Sealed u :=
  ⟨h'.blocked.trans h.blocked, h'.outer.trans h.outer, h'.scope.trans h.scope⟩

theorem loosen (h : s.Sealed t) : s.Scoped t :=
  ⟨h.blocked, h.outer, h.scope ▸ List.Subset.refl _⟩

/-- What is read behind it is read as at the same tokens in front of it. -/
theorem eq (h : s.Sealed t) :
    t = { s with current := t.current, ahead := t.ahead, previous := t.previous } := by
  obtain ⟨current, ahead, previous, blocked, scope, outer⟩ := t
  obtain ⟨rfl, rfl, rfl⟩ := h
  rfl

end State.Sealed

instance : Steady s.Sealed where
  advance h := h.trans (State.sealed_advance _)

variable {p : Parser α} {P : α → Prop} {g : Rules}

/-- A production that keeps to the scope it is read in, whatever state it is read in. -/
def KeepsScope (p : Parser α) : Prop := ∀ ⦃s a t⦄, p s = .ok (a, t) → s.Scoped t

/-- A production that leaves everything but the tokens as it was: names are read behind it as they
would have been read in front of it. -/
def SealsScope (p : Parser α) : Prop :=
  ∀ ⦃s a t⦄, p s = .ok (a, t) →
    t = { s with current := t.current, ahead := t.ahead, previous := t.previous }

theorem sealsScope_of_maintains (h : ∀ s : State, Maintains s.Sealed p) : SealsScope p :=
  fun s _ _ hrun => (h s (.refl s) hrun).1.eq

/-- The scopes are watched: behind each production they are what they were in front of it, apart
from the variables that it declares. -/
def scopeWatch : Watch where
  Index := State
  Holds := State.Scoped
  Sound _ := True
  Knows _ _ := True
  advance h _ := h.trans (State.sealed_advance _).loosen
  declare h _ := h.trans ⟨rfl, rfl, fun _ hmem => List.mem_insert_of_mem hmem⟩
  sound _ := trivial
  scope {s t} h inherits := by
    refine ⟨t.enter inherits, .refl _, fun u hu => h.trans ?_⟩
    have houter : u.outer = t.scope :: t.outer := hu.outer
    constructor
    · exact hu.blocked
    · rw [State.leave, houter]
      rfl
    · rw [State.leave, houter]
      exact List.Subset.refl _
  count h blocked := ⟨_, .refl _, fun u hu => h.trans ⟨rfl, hu.outer, hu.scope⟩⟩
  rule _ := trivial
  target _ := trivial
  label _ _ := trivial

theorem keepsScope_of_tells (h : scopeWatch.Tells P p) : KeepsScope p :=
  fun s _ _ hrun => (h (i := s) (.refl s) trivial hrun).1

theorem KeepsScope.tells (h : KeepsScope p) : scopeWatch.Keeps p :=
  fun _ _ _ _ hs _ hrun => ⟨hs.trans (h hrun), trivial⟩

/-- Outside of its scope nothing is seen of what a production declares. -/
theorem sealed_inScope (inherits : Bool) (h : KeepsScope p) (s : State) :
    Maintains s.Sealed (inScope inherits p) := by
  intro t a v ht hrun
  obtain ⟨u, hbody, rfl⟩ := of_inScope hrun
  have hu := h hbody
  have houter : u.outer = t.scope :: t.outer := hu.outer
  refine ⟨ht.trans ⟨hu.blocked, ?_, ?_⟩, trivial⟩ <;> rw [State.leave, houter]
  · rfl
  · rfl

/-- Another count of calls that keep a `do` lasts no longer than the production that is read
with it. -/
theorem sealed_withBlocked (count : Nat → Nat) (h : ∀ s : State, Maintains s.Sealed p)
    (s : State) : Maintains s.Sealed (withBlocked count p) := by
  intro t a v ht hrun
  obtain ⟨u, hbody, rfl⟩ := of_withBlocked hrun
  have hu := (h _ (.refl _) hbody).1
  exact ⟨ht.trans ⟨rfl, hu.outer, hu.scope⟩, trivial⟩

theorem calls_scopeWatch : scopeWatch.Calls := .of_heads fun _ _ _ _ _ _ _ => trivial

/-- Rules of every depth keep to their scopes. -/
theorem watched_scopes (limit depth : Nat) : (Rules.mk limit (readTo depth)).Watched scopeWatch :=
  watched_readTo calls_scopeWatch (fun _ => trivial) trivial

/-- Any token may be taken. -/
theorem takesAny_scopes (kinds : List Kind) : scopeWatch.TakesAny kinds := fun _ _ => trivial

/-- What keeps to its scope in front of tokens that may be taken does so in front of any token. -/
theorem keepsScope_of_takes (h : scopeWatch.TellsAt scopeWatch.Takes P p) : KeepsScope p :=
  keepsScope_of_tells (h.weaken fun _ _ => trivial)

/-- What is built keeps to its scope. -/
theorem tells_build (kind : Syntax.Kind) (children : List Node) (start : Mark) :
    scopeWatch.Builds .value (build kind children start) :=
  builds_tree trivial fun _ _ => trivial

/-- The phrases that are no values keep to their scopes as well. -/
theorem keepsScope_phrase (hg : g.Watched scopeWatch) (phrase : Phrase) :
    KeepsScope (g.read phrase) := by
  cases phrase with
  | parameterGroup opener inBlock =>
    exact keepsScope_of_tells (hg.parameters opener inBlock trivial)
  | targetGroup opener => exact keepsScope_of_tells (hg.targets opener trivial)
  | conditional keyword => exact keepsScope_of_tells (hg.conditional keyword trivial)
  | _ => exact keepsScope_of_tells (hg.value _ rfl)

theorem keepsScope_program (hg : g.Watched scopeWatch) : KeepsScope (program g) := by
  apply keepsScope_of_tells (P := fun _ => True)
  apply tells_current.next
  intro start
  apply (builds_statements hg []).next
  intro found
  apply (tells_expectOf (takesAny_scopes _) _).next
  intro _
  exact tells_build ..

/-- A label need not be known to be one. -/
theorem keepsScope_labelPair (hg : g.Watched scopeWatch) {closer : Option Kind} :
    KeepsScope (labelPair g closer) := by
  apply keepsScope_of_takes (P := fun _ => True)
  apply tells_take
  intro label _
  apply (tells_build ..).next
  intro key
  apply (builds_labelValue hg trivial).next
  intro value
  exact tells_build ..

/-- Neither does a name. -/
theorem keepsScope_identifier (hg : g.Watched scopeWatch) : KeepsScope (identifier g) := by
  apply keepsScope_of_takes (P := fun _ => True)
  apply tells_take
  intro name _
  apply (tells_isLocal _).next
  intro known
  apply (tells_seesGlued .lpar).next
  intro seen
  apply Watch.TellsAt.ite
  · exact tells_build ..
  · exact builds_callArguments (fun _ _ _ _ => trivial) trivial hg

section Heads

variable {I : State → Prop} [Steady I]

theorem maintains_singletonOwner (t : Token) : Maintains I (singletonOwner t) := by
  apply Upholds.ite
  · exact maintains_bare .selfRef
  · apply Upholds.ite
    · exact maintains_advance.bind fun _ _ => maintains_build ..
    · exact maintains_single .lvar

theorem maintains_singleton : Maintains I singleton := by
  apply maintains_current.bind
  intro t _
  apply maintains_second.bind
  intro next _
  apply Upholds.ite
  · apply (maintains_singletonOwner t).bind
    intro owner _
    exact maintains_advance.bind fun _ _ => maintains_pure owner
  · exact maintains_pure Node.absent

/-- An equals sign that belongs to a name is passed over. -/
theorem maintains_glued {p q : Parser Node} (hp : Maintains I p) (hq : Maintains I q)
    (seen : Bool) : Maintains I (if seen then advance >>= fun _ => p else q) :=
  .ite (maintains_advance.bind fun _ _ => hp) hq

theorem maintains_plainName : Maintains I plainName := by
  apply maintains_advance.bind
  intro t _
  apply maintains_second.bind
  intro next _
  apply (maintains_seesGlued .assign).bind
  intro seen _
  exact maintains_glued (maintains_pure _) (maintains_pure _) _

theorem maintains_indexName : Maintains I indexName := by
  apply maintains_advance.bind
  intro t _
  apply (maintains_expect .rbrack).bind
  intro closer _
  apply (maintains_seesGlued .assign).bind
  intro seen _
  exact maintains_glued (maintains_pure _) (maintains_pure _) _

theorem maintains_definedName : Maintains I definedName := by
  apply maintains_current.bind
  intro t _
  split
  · exact maintains_plainName
  · exact maintains_plainName
  · exact maintains_indexName
  · exact .ite (maintains_advance.bind fun _ _ => maintains_pure _) (upholds_fail _)

theorem maintains_pathRound (start : Token) (scope : Node) :
    Maintains I (pathRound start scope) := by
  apply (maintains_accept .colon2).bind
  intro seen _
  apply Upholds.ite
  · apply (maintains_expect .const).bind
    intro name _
    exact (maintains_build ..).bind fun _ _ => maintains_pure _
  · exact maintains_pure _

theorem maintains_constantPath (g : Rules) : Maintains I (constantPath g) := by
  apply maintains_current.bind
  intro start _
  have hbase : Maintains I (pathBase start) :=
    (maintains_accept .colon2).bind fun _ _ => .ite (maintains_build ..) (maintains_pure _)
  apply hbase.bind
  intro base _
  apply (maintains_expectOr .const _).bind
  intro name _
  apply (maintains_build ..).bind
  intro first _
  exact maintains_rounds g.limit (maintains_pathRound start) first

end Heads

section Sealed

variable (hg : g.Watched scopeWatch)

include hg

/-- What a block declares is not seen behind it. -/
theorem seals_block (call : Node) : SealsScope (block g call) := by
  apply sealsScope_of_maintains
  intro s
  apply maintains_advance.bind
  intro opener _
  have hparts : KeepsScope (blockParts g (opener.kind != .kwDo)) :=
    keepsScope_of_tells (tells_blockParts hg _)
  apply (sealed_withBlocked _ (sealed_inScope true hparts) s).bind
  intro parts _
  exact maintains_build ..

/-- What a lambda declares is not seen behind it. -/
theorem seals_lambda : SealsScope (lambda g) := by
  apply sealsScope_of_maintains
  intro s
  apply (maintains_expect .arrow).bind
  intro start _
  have hparts : KeepsScope (lambdaParts g) := keepsScope_of_tells (tells_lambdaParts hg)
  apply (sealed_inScope true hparts s).bind
  intro parts _
  exact maintains_build ..

/-- The name of a method declares nothing, and what is behind it has a scope of its own. -/
theorem seals_definition : SealsScope (definition g) := by
  apply sealsScope_of_maintains
  intro s
  apply (maintains_expect .kwDef).bind
  intro start _
  apply maintains_singleton.bind
  intro owner _
  apply maintains_definedName.bind
  intro name _
  have hparts : KeepsScope (definedParts g) := keepsScope_of_tells (tells_definedParts hg)
  apply (sealed_inScope false hparts s).bind
  intro parts _
  exact maintains_build ..

/-- The name of a module declares nothing, and its body has a scope of its own. -/
theorem seals_moduleDefinition : SealsScope (moduleDefinition g) := by
  apply sealsScope_of_maintains
  intro s
  apply (maintains_expect .kwModule).bind
  intro start _
  apply (maintains_constantPath g).bind
  intro path _
  have hbody : KeepsScope (bracketedBody g "module") :=
    keepsScope_of_tells (builds_bracketedBody hg _)
  apply (sealed_inScope false hbody s).bind
  intro inner _
  exact maintains_build ..

end Sealed

/-- What every production over some rules does with the scopes it is read in. Blocks, lambdas,
methods and modules come last: they leave no trace in them. -/
structure KeepsScopes (g : Rules) : Prop where
  phrase (phrase : Phrase) : KeepsScope (g.read phrase)
  program : KeepsScope (program g)
  statements (stops : List Kind) : KeepsScope (statements g stops)
  body (stops : List Kind) : KeepsScope (body g stops)
  bodyStatement : KeepsScope (bodyStatement g)
  separator : KeepsScope separator
  statement : KeepsScope (statement g)
  multipleAssignment : KeepsScope (multipleAssignment g)
  targets (closer : Kind) : KeepsScope (targets g closer)
  sequence : KeepsScope (sequence g)
  negation : KeepsScope (negation g)
  assignment : KeepsScope (assignment g)
  target (n : Node) : KeepsScope (toTarget n)
  choice : KeepsScope (choice g)
  range : KeepsScope (range g)
  /-- The operators from a level on, loosest first. -/
  operation (levels : List (List Kind)) : KeepsScope (operation g levels)
  signed : KeepsScope (signed g)
  power (base : Node) : KeepsScope (power g base)
  unary : KeepsScope (unary g)
  operand : KeepsScope (operand g)
  methodCall (receiver : Node) (operator : Kind) : KeepsScope (methodCall g receiver operator)
  command (kind : Syntax.Kind) (head : List Node) (start : Mark) :
    KeepsScope (command g kind head start)
  /-- Brackets change the count of calls that keep a `do` and restore it. -/
  bracketed {α : Type} (p : Parser α) (hp : KeepsScope p) : KeepsScope (bracketed p)
  /-- So do the arguments of a call without parentheses and the head of a loop. -/
  keepingDo {α : Type} (p : Parser α) (hp : KeepsScope p) : KeepsScope (keepingDo p)
  arguments (closer : Option Kind) : KeepsScope (arguments g closer)
  delimitedArguments (closer : Kind) : KeepsScope (delimitedArguments g closer)
  labelPair (closer : Option Kind) : KeepsScope (labelPair g closer)
  splatOr (element : Parser Node) (helement : KeepsScope element) : KeepsScope (splatOr element)
  blockParameters : KeepsScope (blockParameters g)
  parameters (closers : List Kind) (inBlock : Bool) : KeepsScope (parameters g closers inBlock)
  primary : KeepsScope (primary g)
  identifier : KeepsScope (identifier g)
  strings : KeepsScope (strings g)
  hash : KeepsScope (hash g)
  aliasName : KeepsScope aliasName
  definedName : KeepsScope definedName
  constantPath : KeepsScope (constantPath g)
  classDefinition : KeepsScope (classDefinition g)
  condition : KeepsScope (condition g)
  conditional (test : Parser Node) (htest : KeepsScope test) (keyword : Token) :
    KeepsScope (conditional g test keyword)
  whileLoop : KeepsScope (whileLoop g)
  loopOpener : KeepsScope loopOpener
  forLoop : KeepsScope (forLoop g)
  caseChoice : KeepsScope (caseChoice g)
  block (call : Node) : SealsScope (block g call)
  lambda : SealsScope (lambda g)
  definition : SealsScope (definition g)
  moduleDefinition : SealsScope (moduleDefinition g)
  /-- Behind these a name is a variable if it was one in front of them. -/
  isLocal {α : Type} (p : Parser α) (hp : SealsScope p) (name : String) {s t : State} {a : α}
    (h : p s = .ok (a, t)) : isLocal name t = .ok (s.scope.contains name, t)

/-- Every production keeps to the scope it is read in. -/
theorem scopes_kept (limit depth : Nat) : KeepsScopes ⟨limit, readTo depth⟩ :=
  have hg := watched_scopes limit depth
  { phrase := keepsScope_phrase hg
    program := keepsScope_program hg
    statements := fun stops => keepsScope_of_tells (builds_statements hg stops)
    body := fun stops => keepsScope_of_tells (builds_body hg stops)
    bodyStatement := keepsScope_of_tells (builds_bodyStatement hg)
    separator := keepsScope_of_tells tells_separator
    statement := keepsScope_of_tells (builds_statement calls_scopeWatch hg)
    multipleAssignment := keepsScope_of_takes (builds_multipleAssignment calls_scopeWatch hg)
    targets := fun closer => keepsScope_of_tells (builds_targets calls_scopeWatch hg closer)
    sequence := keepsScope_of_tells (builds_sequence calls_scopeWatch hg)
    negation := keepsScope_of_tells (builds_negation calls_scopeWatch hg)
    assignment := keepsScope_of_tells (builds_assignment calls_scopeWatch hg)
    target := fun _ => keepsScope_of_tells (builds_toTarget trivial)
    choice := keepsScope_of_tells (builds_choice calls_scopeWatch hg)
    range := keepsScope_of_tells (builds_range calls_scopeWatch hg)
    operation := fun _ =>
      keepsScope_of_tells (builds_operation calls_scopeWatch hg fun _ _ => takesAny_scopes _)
    signed := keepsScope_of_tells (builds_signed calls_scopeWatch hg)
    power := fun _ => keepsScope_of_tells (builds_power hg trivial)
    unary := keepsScope_of_tells (builds_unary calls_scopeWatch hg)
    operand := keepsScope_of_tells (builds_operand calls_scopeWatch hg)
    methodCall := fun _ operator =>
      keepsScope_of_tells (calls_scopeWatch.methodCall hg trivial operator)
    command := fun _ _ _ => keepsScope_of_tells (builds_command (fun _ _ _ _ => trivial) trivial hg)
    bracketed := fun _ hp => keepsScope_of_tells (tells_bracketed hp.tells)
    keepingDo := fun _ hp => keepsScope_of_tells (tells_keepingDo hp.tells)
    arguments := fun _ => keepsScope_of_tells (builds_arguments hg (takesAny_scopes _))
    delimitedArguments := fun _ =>
      keepsScope_of_takes (builds_delimitedArguments hg (takesAny_scopes _))
    labelPair := fun _ => keepsScope_labelPair hg
    splatOr := fun _ helement => keepsScope_of_tells (builds_splatOr helement.tells)
    blockParameters := keepsScope_of_tells (builds_blockParameters hg)
    parameters := fun closers inBlock =>
      keepsScope_of_tells (builds_parameters hg closers inBlock)
    primary := keepsScope_of_tells (builds_primary calls_scopeWatch hg)
    identifier := keepsScope_identifier hg
    strings := keepsScope_of_tells builds_strings
    hash := keepsScope_of_tells (builds_hash hg)
    aliasName := keepsScope_of_tells builds_aliasName
    definedName := keepsScope_of_tells tells_definedName
    constantPath := keepsScope_of_tells (builds_constantPath _)
    classDefinition := keepsScope_of_tells (builds_classDefinition hg)
    condition := keepsScope_of_takes (builds_condition hg)
    conditional := fun _ htest _ =>
      keepsScope_of_tells (builds_conditional hg htest.tells trivial)
    whileLoop := keepsScope_of_takes (builds_whileLoop hg)
    loopOpener := keepsScope_of_tells tells_loopOpener
    forLoop := keepsScope_of_tells (builds_forLoop hg)
    caseChoice := keepsScope_of_tells (builds_caseChoice hg)
    block := seals_block hg
    lambda := seals_lambda hg
    definition := seals_definition hg
    moduleDefinition := seals_moduleDefinition hg
    isLocal := fun _ hp name s t _ h => by rw [hp h]; rfl }

end XhrKeywords.Grammar
