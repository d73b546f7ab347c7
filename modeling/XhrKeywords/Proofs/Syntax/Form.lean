import XhrKeywords.Syntax.Node

/-!
# The grammar of trees

Which children a tree of each kind has: the trees that the productions build, and those of
converted calls. Some kinds stand in certain places only, such as the clauses of a body and the
parameters of a method. A condition on the kind and the span of every tree is carried along.
-/

namespace XhrKeywords.Syntax

/-- The places that a node may stand in. -/
inductive Form
  /-- A statement, an expression or an argument. -/
  | value
  /-- A value that may be left out. -/
  | optional
  /-- A list of statements. -/
  | statements
  /-- A list of statements, with clauses behind it or without. -/
  | suite
  /-- What follows `else`, if anything does; behind a condition it may be a condition again. -/
  | otherwise
  /-- A clause of a body. -/
  | clause
  /-- A `when` clause. -/
  | choice
  /-- A formal parameter. -/
  | parameter
  /-- A parameter list that may be left out. -/
  | signature
  deriving DecidableEq, Repr

namespace Kind

/-- The kinds of trees that hold one leaf. -/
def isLiteral : Kind → Bool
  | int | float | str | xstr | regexp | words | sym | lvar | ivar | gvar | cvar => true
  | _ => false

/-- The kinds of values without children. -/
def isWord : Kind → Bool
  | nilLit | trueLit | falseLit | selfRef | redoStmt | retryStmt | zsuper | cbase => true
  | _ => false

/-- The kinds of values with any number of values. -/
def isSeries : Kind → Bool
  | dstr | splat | blockPass | paren | array | mlhs | hash | returnStmt | breakStmt | nextStmt
  | yieldCall | superCall => true
  | _ => false

/-- The kinds of parameters that hold their name alone, which may be left out. -/
def isPlainParameter : Kind → Bool
  | arg | restArg | kwArg | kwRestArg | blockArg | shadowArg => true
  | _ => false

/-- The kinds of trees that may be empty and then lie at the token behind them. -/
def mayBeHollow : Kind → Bool
  | body | bodyStmt | args => true
  | _ => false

/-- The kinds of a class may not be empty when those that may be are not in it. -/
theorem mayBeHollow_eq_false {p : Kind → Bool} {kind : Kind} (h : p kind = true)
    (hbody : p body = false) (hstmt : p bodyStmt = false) (hargs : p args = false) :
    kind.mayBeHollow = false := by
  unfold mayBeHollow
  split
  · rw [hbody] at h
    cases h
  · rw [hstmt] at h
    cases h
  · rw [hargs] at h
    cases h
  · rfl

end Kind

/-- `Fits ok form n` says that the node `n` may stand in a place of the form, and that `ok` holds of
the kind and the span of each of its trees. -/
inductive Fits (ok : Kind → Option Span → Prop) : Form → Node → Prop
  | literal {kind span} (literal : kind.isLiteral) (fit : ok kind span) (content : Leaf) :
      Fits ok .value (.tree kind span [.leaf content])
  | word {kind span} (word : kind.isWord) (fit : ok kind span) :
      Fits ok .value (.tree kind span [])
  | series {kind span children} (series : kind.isSeries) (fit : ok kind span)
      (all : ∀ n ∈ children, Fits ok .value n) : Fits ok .value (.tree kind span children)
  | single {kind span inner} (single : kind = .kwsplat ∨ kind = .defined) (fit : ok kind span)
      (hinner : Fits ok .value inner) : Fits ok .value (.tree kind span [inner])
  | couple {kind span first second} (couple : kind = .pair ∨ kind = .aliasStmt ∨ kind = .rescueMod)
      (fit : ok kind span) (hfirst : Fits ok .value first) (hsecond : Fits ok .value second) :
      Fits ok .value (.tree kind span [first, second])
  | operation {kind span left right} (operation : kind = .binop ∨ kind = .asgn)
      (fit : ok kind span) (hleft : Fits ok .value left) (operator : Leaf)
      (hright : Fits ok .value right) :
      Fits ok .value (.tree kind span [left, .leaf operator, right])
  | range {span lower upper} (fit : ok .range span) (hlower : Fits ok .optional lower)
      (operator : Leaf) (hupper : Fits ok .optional upper) :
      Fits ok .value (.tree .range span [lower, .leaf operator, upper])
  | unop {span inner} (fit : ok .unop span) (operator : Leaf) (hinner : Fits ok .value inner) :
      Fits ok .value (.tree .unop span [.leaf operator, inner])
  | ternary {span test first other} (fit : ok .ternary span) (htest : Fits ok .value test)
      (hfirst : Fits ok .value first) (hother : Fits ok .value other) :
      Fits ok .value (.tree .ternary span [test, first, other])
  | masgn {span tuple targets value} (fit : ok .masgn span) (htuple : ok .mlhs tuple)
      (htargets : ∀ n ∈ targets, Fits ok .value n) (hvalue : Fits ok .value value) :
      Fits ok .value (.tree .masgn span [.tree .mlhs tuple targets, value])
  | const {span scope} (fit : ok .const span) (hscope : Fits ok .optional scope) (name : Leaf) :
      Fits ok .value (.tree .const span [scope, .leaf name])
  | modifier {kind span inner test} (modifier : kind = .ifMod ∨ kind = .whileMod)
      (fit : ok kind span) (keyword : Leaf) (hinner : Fits ok .value inner)
      (htest : Fits ok .value test) :
      Fits ok .value (.tree kind span [.leaf keyword, inner, test])
  | call {kind span receiver arguments} (call : kind = .call ∨ kind = .csend) (fit : ok kind span)
      (hreceiver : Fits ok .optional receiver) (name : Leaf)
      (harguments : ∀ n ∈ arguments, Fits ok .value n) :
      Fits ok .value (.tree kind span (receiver :: .leaf name :: arguments))
  | index {span receiver arguments} (fit : ok .index span) (hreceiver : Fits ok .value receiver)
      (harguments : ∀ n ∈ arguments, Fits ok .value n) :
      Fits ok .value (.tree .index span (receiver :: arguments))
  | block {span call bound inner} (fit : ok .block span) (hcall : Fits ok .value call)
      (hbound : Fits ok .signature bound) (hinner : Fits ok .suite inner) (style : Leaf)
      (braces : style.text = "\x7b" → Fits ok .statements inner) :
      Fits ok .value (.tree .block span [call, bound, inner, .leaf style])
  | lambda {span bound inner} (fit : ok .lambda span) (hbound : Fits ok .signature bound)
      (hinner : Fits ok .suite inner) (style : Leaf)
      (braces : style.text = "\x7b" → Fits ok .statements inner) :
      Fits ok .value (.tree .lambda span [bound, inner, .leaf style])
  | definition {span owner listed args inner} (fit : ok .defStmt span)
      (howner : Fits ok .optional owner) (name : Leaf) (hlisted : ok .args listed)
      (hargs : ∀ n ∈ args, Fits ok .parameter n) (hinner : Fits ok .suite inner) :
      Fits ok .value (.tree .defStmt span [owner, .leaf name, .tree .args listed args, inner])
  | classDefinition {span path parent inner} (fit : ok .classStmt span)
      (hpath : Fits ok .value path) (hparent : Fits ok .optional parent)
      (hinner : Fits ok .suite inner) : Fits ok .value (.tree .classStmt span [path, parent, inner])
  | named {kind span name inner} (named : kind = .sclass ∨ kind = .moduleStmt)
      (fit : ok kind span) (hname : Fits ok .value name) (hinner : Fits ok .suite inner) :
      Fits ok .value (.tree kind span [name, inner])
  | condition {span test inner other} (fit : ok .ifStmt span) (keyword : Leaf)
      (htest : Fits ok .value test) (hinner : Fits ok .suite inner)
      (hother : Fits ok .otherwise other) :
      Fits ok .value (.tree .ifStmt span [.leaf keyword, test, inner, other])
  | whileLoop {span test inner} (fit : ok .whileStmt span) (keyword : Leaf)
      (htest : Fits ok .value test) (hinner : Fits ok .suite inner) :
      Fits ok .value (.tree .whileStmt span [.leaf keyword, test, inner])
  | forLoop {span bound collection inner} (fit : ok .forStmt span) (hbound : Fits ok .value bound)
      (hcollection : Fits ok .value collection) (hinner : Fits ok .suite inner) :
      Fits ok .value (.tree .forStmt span [bound, collection, inner])
  | caseChoice {span subject clauses other} (fit : ok .caseStmt span)
      (hsubject : Fits ok .optional subject) (some : clauses ≠ [])
      (hclauses : ∀ n ∈ clauses, Fits ok .choice n) (hother : Fits ok .otherwise other) :
      Fits ok .value (.tree .caseStmt span (subject :: (clauses ++ [other])))
  | beginBlock {span inner} (fit : ok .kwBegin span) (hinner : Fits ok .suite inner) :
      Fits ok .value (.tree .kwBegin span [inner])
  | absent : Fits ok .optional .absent
  | present {n} (hn : Fits ok .value n) : Fits ok .optional n
  | body {span children} (fit : ok .body span) (all : ∀ n ∈ children, Fits ok .value n) :
      Fits ok .statements (.tree .body span children)
  | plain {n} (hn : Fits ok .statements n) : Fits ok .suite n
  | bodyStatement {span main clauses} (fit : ok .bodyStmt span) (hmain : Fits ok .suite main)
      (hclauses : ∀ n ∈ clauses, Fits ok .clause n) :
      Fits ok .suite (.tree .bodyStmt span (main :: clauses))
  | nothing : Fits ok .otherwise .absent
  | branch {n} (hn : Fits ok .suite n) : Fits ok .otherwise n
  | conditional {n} (condition : n.isKind .ifStmt) (hn : Fits ok .value n) :
      Fits ok .otherwise n
  | rescueClause {span listed classes bound handler} (fit : ok .resBody span)
      (hlisted : ok .excList listed) (hclasses : ∀ n ∈ classes, Fits ok .value n)
      (hbound : Fits ok .optional bound) (hhandler : Fits ok .suite handler) :
      Fits ok .clause (.tree .resBody span [.tree .excList listed classes, bound, handler])
  | bodyClause {kind span inner} (bodyClause : kind = .elseClause ∨ kind = .ensureClause)
      (fit : ok kind span) (hinner : Fits ok .suite inner) :
      Fits ok .clause (.tree kind span [inner])
  | whenClause {span values inner} (fit : ok .whenClause span)
      (hvalues : ∀ n ∈ values, Fits ok .value n) (hinner : Fits ok .suite inner) :
      Fits ok .choice (.tree .whenClause span (values ++ [inner]))
  | plainParameter {kind span children} (plain : kind.isPlainParameter) (fit : ok kind span)
      (all : ∀ n ∈ children, n.isLeaf) : Fits ok .parameter (.tree kind span children)
  | defaultParameter {kind span value} (withDefault : kind = .optArg ∨ kind = .kwOptArg)
      (fit : ok kind span) (name : Leaf) (hvalue : Fits ok .value value) :
      Fits ok .parameter (.tree kind span [.leaf name, value])
  | parameterGroup {span children} (fit : ok .mlhs span)
      (all : ∀ n ∈ children, Fits ok .parameter n) :
      Fits ok .parameter (.tree .mlhs span children)
  | noSignature : Fits ok .signature .absent
  | parameters {span children} (fit : ok .args span)
      (all : ∀ n ∈ children, Fits ok .parameter n) :
      Fits ok .signature (.tree .args span children)

/-- A value is a tree with characters of its own. -/
theorem Fits.tree_of_value {ok : Kind → Option Span → Prop} {n : Node} (h : Fits ok .value n) :
    ∃ kind span children, n = .tree kind span children ∧ ok kind span ∧
      kind.mayBeHollow = false := by
  cases h with
  | literal hkind fit | word hkind fit | series hkind fit =>
    exact ⟨_, _, _, rfl, fit, Kind.mayBeHollow_eq_false hkind rfl rfl rfl⟩
  | single hkind fit | operation hkind fit | modifier hkind fit | call hkind fit
  | named hkind fit =>
    refine ⟨_, _, _, rfl, fit, ?_⟩
    rcases hkind with rfl | rfl <;> rfl
  | couple hkind fit =>
    refine ⟨_, _, _, rfl, fit, ?_⟩
    rcases hkind with rfl | rfl | rfl <;> rfl
  | range fit | unop fit | ternary fit | masgn fit | const fit | index fit | block fit | lambda fit
  | definition fit | classDefinition fit | condition fit | whileLoop fit | forLoop fit
  | caseChoice fit | beginBlock fit => exact ⟨_, _, _, rfl, fit, rfl⟩

/-- A call on either dot has a receiver or none, a name and arguments. -/
theorem Fits.parts_of_call {ok : Kind → Option Span → Prop} {kind : Kind} {span : Option Span}
    {children : List Node} (h : Fits ok .value (.tree kind span children))
    (call : kind = .call ∨ kind = .csend) :
    ok kind span ∧ ∃ receiver name arguments, children = receiver :: .leaf name :: arguments ∧
      Fits ok .optional receiver ∧ ∀ n ∈ arguments, Fits ok .value n := by
  cases h with
  | call _ fit hreceiver name harguments => exact ⟨fit, _, name, _, rfl, hreceiver, harguments⟩
  | literal hkind | word hkind | series hkind => rcases call with rfl | rfl <;> cases hkind
  | single hkind | couple hkind | operation hkind | modifier hkind | named hkind =>
    rcases call with rfl | rfl <;> simp at hkind
  | range | unop | ternary | masgn | const | index | block | lambda | definition | classDefinition
  | condition | whileLoop | forLoop | caseChoice | beginBlock => simp at call

theorem Fits.call_parts {ok : Kind → Option Span → Prop} {span : Option Span}
    {children : List Node} (h : Fits ok .value (.tree .call span children)) :
    ok .call span ∧ ∃ receiver name arguments, children = receiver :: .leaf name :: arguments ∧
      Fits ok .optional receiver ∧ ∀ n ∈ arguments, Fits ok .value n :=
  h.parts_of_call (.inl rfl)

end XhrKeywords.Syntax
