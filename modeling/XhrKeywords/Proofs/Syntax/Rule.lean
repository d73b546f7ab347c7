import XhrKeywords.Proofs.Syntax.Exposed
import XhrKeywords.Proofs.Syntax.Form

/-!
# The rules of the grammar of trees

How one tree is made from its parts. A rule asks where the tree lies, that its words are known and
that its children are known in their places; what follows for the tree is left open. So whatever is
closed under the rules holds of everything that the productions build. Method calls have no rule,
since their names are read in ways of their own.
-/

namespace XhrKeywords.Syntax

namespace Kind

/-- The kinds of method calls. -/
def isCall (kind : Kind) : Bool :=
  kind == .call || kind == .csend

/-- A tree of a kind that prints all of its children is no method call. -/
theorem isCall_of_isOpen {kind : Kind} (h : kind.isOpen) : kind.isCall = false := by
  cases kind <;> first | rfl | cases h

/-- A mark is no method call. -/
theorem isCall_of_isMarked {kind : Kind} (h : kind.isMarked) : kind.isCall = false := by
  cases kind <;> first | rfl | cases h

/-- A literal prints its leaf. -/
theorem isOpen_of_isLiteral {kind : Kind} (h : kind.isLiteral) : kind.isOpen := by
  cases kind <;> first | rfl | cases h

/-- A value without children prints all of them. -/
theorem isOpen_of_isWord {kind : Kind} (h : kind.isWord) : kind.isOpen := by
  cases kind <;> first | rfl | cases h

/-- A parameter prints its name alone. -/
theorem isMarked_of_isPlainParameter {kind : Kind} (h : kind.isPlainParameter) :
    kind.isMarked := by
  cases kind <;> first | rfl | cases h

end Kind

/-- Whether a node is a method call. -/
def Node.isCall (n : Node) : Bool :=
  n.kind?.any Kind.isCall

/-- `Rule lies word known form n` says that a node is made by one rule of the grammar of trees for
places of the form: `lies` holds of the kinds and spans that it adds, `word` of its leaves, and
`known` of its parts in their places. -/
inductive Rule (lies : Kind → Option Span → Prop) (word : Leaf → Prop)
    (known : Form → Node → Prop) : Form → Node → Prop
  | literal {kind span content} (literal : kind.isLiteral) (fit : lies kind span)
      (hcontent : word content) : Rule lies word known .value (.tree kind span [.leaf content])
  | word {kind span} (isWord : kind.isWord) (fit : lies kind span) :
      Rule lies word known .value (.tree kind span [])
  | series {kind span children} (series : kind.isSeries) (isOpen : kind.isOpen)
      (fit : lies kind span) (all : ∀ n ∈ children, known .value n) :
      Rule lies word known .value (.tree kind span children)
  | mark {kind span children} (mark : kind = .splat ∨ kind = .blockPass) (fit : lies kind span)
      (sole : children.length ≤ 1) (all : ∀ n ∈ children, known .value n) :
      Rule lies word known .value (.tree kind span children)
  | single {kind span inner} (single : kind = .kwsplat ∨ kind = .defined) (fit : lies kind span)
      (hinner : known .value inner) : Rule lies word known .value (.tree kind span [inner])
  | couple {kind span first second} (couple : kind = .pair ∨ kind = .aliasStmt ∨ kind = .rescueMod)
      (fit : lies kind span) (hfirst : known .value first) (hsecond : known .value second) :
      Rule lies word known .value (.tree kind span [first, second])
  | operation {kind span left operator right} (operation : kind = .binop ∨ kind = .asgn)
      (fit : lies kind span) (hleft : known .value left) (hoperator : word operator)
      (hright : known .value right) :
      Rule lies word known .value (.tree kind span [left, .leaf operator, right])
  | range {span lower operator upper} (fit : lies .range span) (hlower : known .optional lower)
      (hoperator : word operator) (hupper : known .optional upper) :
      Rule lies word known .value (.tree .range span [lower, .leaf operator, upper])
  | unop {span operator inner} (fit : lies .unop span) (hoperator : word operator)
      (hinner : known .value inner) :
      Rule lies word known .value (.tree .unop span [.leaf operator, inner])
  | ternary {span test first other} (fit : lies .ternary span) (htest : known .value test)
      (hfirst : known .value first) (hother : known .value other) :
      Rule lies word known .value (.tree .ternary span [test, first, other])
  | masgn {span tuple targets value} (fit : lies .masgn span) (htuple : lies .mlhs tuple)
      (htargets : ∀ n ∈ targets, known .value n) (hvalue : known .value value) :
      Rule lies word known .value (.tree .masgn span [.tree .mlhs tuple targets, value])
  | const {span scope name} (fit : lies .const span) (hscope : known .optional scope)
      (hname : word name) : Rule lies word known .value (.tree .const span [scope, .leaf name])
  | modifier {kind span keyword inner test} (modifier : kind = .ifMod ∨ kind = .whileMod)
      (fit : lies kind span) (role : keyword.role = .keyword) (hkeyword : word keyword)
      (hinner : known .value inner) (htest : known .value test) :
      Rule lies word known .value (.tree kind span [.leaf keyword, inner, test])
  | index {span receiver arguments} (fit : lies .index span) (hreceiver : known .value receiver)
      (harguments : ∀ n ∈ arguments, known .value n) :
      Rule lies word known .value (.tree .index span (receiver :: arguments))
  | block {span call bound inner style} (fit : lies .block span) (hcall : known .value call)
      (hbound : known .signature bound) (hinner : known .suite inner) (role : style.role = .style)
      (hstyle : word style) (braces : style.text = "\x7b" → known .statements inner) :
      Rule lies word known .value (.tree .block span [call, bound, inner, .leaf style])
  | lambda {span bound inner style} (fit : lies .lambda span) (hbound : known .signature bound)
      (hinner : known .suite inner) (role : style.role = .style) (hstyle : word style)
      (braces : style.text = "\x7b" → known .statements inner) :
      Rule lies word known .value (.tree .lambda span [bound, inner, .leaf style])
  | definition {span owner name listed args inner} (fit : lies .defStmt span)
      (howner : known .optional owner) (hname : word name) (hlisted : lies .args listed)
      (hargs : ∀ n ∈ args, known .parameter n) (hinner : known .suite inner) :
      Rule lies word known .value
        (.tree .defStmt span [owner, .leaf name, .tree .args listed args, inner])
  | classDefinition {span path parent inner} (fit : lies .classStmt span)
      (hpath : known .value path) (hparent : known .optional parent)
      (hinner : known .suite inner) :
      Rule lies word known .value (.tree .classStmt span [path, parent, inner])
  | named {kind span name inner} (named : kind = .sclass ∨ kind = .moduleStmt)
      (fit : lies kind span) (hname : known .value name) (hinner : known .suite inner) :
      Rule lies word known .value (.tree kind span [name, inner])
  | condition {span keyword test inner other} (fit : lies .ifStmt span)
      (role : keyword.role = .keyword) (hkeyword : word keyword) (htest : known .value test)
      (hinner : known .suite inner) (hother : known .otherwise other) :
      Rule lies word known .value (.tree .ifStmt span [.leaf keyword, test, inner, other])
  | whileLoop {span keyword test inner} (fit : lies .whileStmt span) (hkeyword : word keyword)
      (htest : known .value test) (hinner : known .suite inner) :
      Rule lies word known .value (.tree .whileStmt span [.leaf keyword, test, inner])
  | forLoop {span bound collection inner} (fit : lies .forStmt span) (hbound : known .value bound)
      (hcollection : known .value collection) (hinner : known .suite inner) :
      Rule lies word known .value (.tree .forStmt span [bound, collection, inner])
  | caseChoice {span subject clauses other} (fit : lies .caseStmt span)
      (hsubject : known .optional subject) (some : clauses ≠ [])
      (hclauses : ∀ n ∈ clauses, known .choice n) (hother : known .otherwise other) :
      Rule lies word known .value (.tree .caseStmt span (subject :: (clauses ++ [other])))
  | beginBlock {span inner} (fit : lies .kwBegin span) (hinner : known .suite inner) :
      Rule lies word known .value (.tree .kwBegin span [inner])
  | absent : Rule lies word known .optional .absent
  | present {n} (hn : known .value n) : Rule lies word known .optional n
  | body {span children} (fit : lies .body span) (all : ∀ n ∈ children, known .value n) :
      Rule lies word known .statements (.tree .body span children)
  | plain {n} (hn : known .statements n) : Rule lies word known .suite n
  | bodyStatement {span main clauses} (fit : lies .bodyStmt span) (hmain : known .suite main)
      (hclauses : ∀ n ∈ clauses, known .clause n) :
      Rule lies word known .suite (.tree .bodyStmt span (main :: clauses))
  | nothing : Rule lies word known .otherwise .absent
  | branch {n} (hn : known .suite n) : Rule lies word known .otherwise n
  | conditional {n} (condition : n.isKind .ifStmt) (hn : known .value n) :
      Rule lies word known .otherwise n
  | rescueClause {span listed classes bound handler} (fit : lies .resBody span)
      (hlisted : lies .excList listed) (hclasses : ∀ n ∈ classes, known .value n)
      (hbound : known .optional bound) (hhandler : known .suite handler) :
      Rule lies word known .clause
        (.tree .resBody span [.tree .excList listed classes, bound, handler])
  | bodyClause {kind span inner} (bodyClause : kind = .elseClause ∨ kind = .ensureClause)
      (fit : lies kind span) (hinner : known .suite inner) :
      Rule lies word known .clause (.tree kind span [inner])
  | whenClause {span values inner} (fit : lies .whenClause span)
      (hvalues : ∀ n ∈ values, known .value n) (hinner : known .suite inner) :
      Rule lies word known .choice (.tree .whenClause span (values ++ [inner]))
  | plainParameter {kind span children} (plain : kind.isPlainParameter) (fit : lies kind span)
      (sole : children.length ≤ 1) (all : ∀ n ∈ children, ∃ name, n = .leaf name ∧ word name) :
      Rule lies word known .parameter (.tree kind span children)
  | defaultParameter {kind span name value} (withDefault : kind = .optArg ∨ kind = .kwOptArg)
      (fit : lies kind span) (hname : word name) (hvalue : known .value value) :
      Rule lies word known .parameter (.tree kind span [.leaf name, value])
  | parameterGroup {span children} (fit : lies .mlhs span)
      (all : ∀ n ∈ children, known .parameter n) :
      Rule lies word known .parameter (.tree .mlhs span children)
  | noSignature : Rule lies word known .signature .absent
  | parameters {span children} (fit : lies .args span)
      (all : ∀ n ∈ children, known .parameter n) :
      Rule lies word known .signature (.tree .args span children)

namespace Rule

variable {lies : Kind → Option Span → Prop} {word : Leaf → Prop} {form : Form} {n : Node}

/-- What is made of parts that fit the grammar of trees fits it. -/
theorem fits (h : Rule lies word (Fits lies) form n) : Fits lies form n := by
  cases h with
  | literal hkind fit => exact .literal hkind fit _
  | word hkind fit => exact .word hkind fit
  | series hkind _ fit all => exact .series hkind fit all
  | mark hkind fit _ all => exact .series (by rcases hkind with rfl | rfl <;> rfl) fit all
  | single hkind fit hinner => exact .single hkind fit hinner
  | couple hkind fit hfirst hsecond => exact .couple hkind fit hfirst hsecond
  | operation hkind fit hleft _ hright => exact .operation hkind fit hleft _ hright
  | range fit hlower _ hupper => exact .range fit hlower _ hupper
  | unop fit _ hinner => exact .unop fit _ hinner
  | ternary fit htest hfirst hother => exact .ternary fit htest hfirst hother
  | masgn fit htuple htargets hvalue => exact .masgn fit htuple htargets hvalue
  | const fit hscope => exact .const fit hscope _
  | modifier hkind fit _ _ hinner htest => exact .modifier hkind fit _ hinner htest
  | index fit hreceiver harguments => exact .index fit hreceiver harguments
  | block fit hcall hbound hinner _ _ braces => exact .block fit hcall hbound hinner _ braces
  | lambda fit hbound hinner _ _ braces => exact .lambda fit hbound hinner _ braces
  | definition fit howner _ hlisted hargs hinner =>
    exact .definition fit howner _ hlisted hargs hinner
  | classDefinition fit hpath hparent hinner => exact .classDefinition fit hpath hparent hinner
  | named hkind fit hname hinner => exact .named hkind fit hname hinner
  | condition fit _ _ htest hinner hother => exact .condition fit _ htest hinner hother
  | whileLoop fit _ htest hinner => exact .whileLoop fit _ htest hinner
  | forLoop fit hbound hcollection hinner => exact .forLoop fit hbound hcollection hinner
  | caseChoice fit hsubject some hclauses hother =>
    exact .caseChoice fit hsubject some hclauses hother
  | beginBlock fit hinner => exact .beginBlock fit hinner
  | absent => exact .absent
  | present hn => exact .present hn
  | body fit all => exact .body fit all
  | plain hn => exact .plain hn
  | bodyStatement fit hmain hclauses => exact .bodyStatement fit hmain hclauses
  | nothing => exact .nothing
  | branch hn => exact .branch hn
  | conditional hkind hn => exact .conditional hkind hn
  | rescueClause fit hlisted hclasses hbound hhandler =>
    exact .rescueClause fit hlisted hclasses hbound hhandler
  | bodyClause hkind fit hinner => exact .bodyClause hkind fit hinner
  | whenClause fit hvalues hinner => exact .whenClause fit hvalues hinner
  | plainParameter hkind fit _ all =>
    refine .plainParameter hkind fit fun n hn => ?_
    obtain ⟨name, rfl, -⟩ := all n hn
    rfl
  | defaultParameter hkind fit _ hvalue => exact .defaultParameter hkind fit _ hvalue
  | parameterGroup fit all => exact .parameterGroup fit all
  | noSignature => exact .noSignature
  | parameters fit all => exact .parameters fit all

variable {P : Node → Prop}

/-- What holds of leaves with known words, and of every tree but method calls that leaves out no
word when it holds of the children, holds of what is made of parts that it holds of. -/
theorem closed (h : Rule lies word (fun _ => P) form n) (absent : P .absent)
    (leaf : ∀ {content}, word content → P (.leaf content))
    (tree : ∀ {kind span children}, kind.isCall = false → Bares kind children →
      (∀ n ∈ children, P n) → P (.tree kind span children)) : P n := by
  have whole {kind : Kind} {span : Option Span} {children : List Node} (hkind : kind.isOpen)
      (all : ∀ n ∈ children, P n) : P (.tree kind span children) :=
    tree (Kind.isCall_of_isOpen hkind) (.all hkind) all
  -- Trees that show all of their words go by `whole`; the others have a keyword, a style or a mark
  -- in front that is left out.
  cases h with
  | literal hkind _ hcontent =>
    exact whole (Kind.isOpen_of_isLiteral hkind) (by simp [leaf hcontent])
  | word hkind => exact whole (Kind.isOpen_of_isWord hkind) (by simp)
  | series _ hkind _ all => exact whole hkind all
  | mark hkind _ sole all =>
    rcases hkind with rfl | rfl
    · exact tree rfl (.first rfl sole) all
    · exact tree rfl (.first rfl sole) all
  | single hkind _ hinner => rcases hkind with rfl | rfl <;> exact whole rfl (by simp [hinner])
  | couple hkind _ hfirst hsecond =>
    rcases hkind with rfl | rfl | rfl <;> exact whole rfl (by simp [hfirst, hsecond])
  | operation hkind _ hleft hoperator hright =>
    rcases hkind with rfl | rfl <;> exact whole rfl (by simp [hleft, leaf hoperator, hright])
  | range _ hlower hoperator hupper => exact whole rfl (by simp [hlower, leaf hoperator, hupper])
  | unop _ hoperator hinner => exact whole rfl (by simp [leaf hoperator, hinner])
  | ternary _ htest hfirst hother => exact whole rfl (by simp [htest, hfirst, hother])
  | @masgn _ tuple targets _ _ _ htargets hvalue =>
    have htuple : P (.tree .mlhs tuple targets) := whole rfl htargets
    exact whole rfl (by simp [htuple, hvalue])
  | const _ hscope hname => exact whole rfl (by simp [hscope, leaf hname])
  | modifier hkind _ role hkeyword hinner htest =>
    rcases hkind with rfl | rfl <;>
      exact tree rfl (.keyword rfl role) (by simp [leaf hkeyword, hinner, htest])
  | index _ hreceiver harguments =>
    exact whole rfl (List.forall_mem_cons.mpr ⟨hreceiver, harguments⟩)
  | block _ hcall hbound hinner role hstyle =>
    exact tree rfl (.block role) (by simp [hcall, hbound, hinner, leaf hstyle])
  | lambda _ hbound hinner role hstyle =>
    exact tree rfl (.lambda role) (by simp [hbound, hinner, leaf hstyle])
  | @definition _ _ _ listed args _ _ howner hname _ hargs hinner =>
    have hparameters : P (.tree .args listed args) := whole rfl hargs
    exact whole rfl (by simp [howner, leaf hname, hparameters, hinner])
  | classDefinition _ hpath hparent hinner => exact whole rfl (by simp [hpath, hparent, hinner])
  | named hkind _ hname hinner =>
    rcases hkind with rfl | rfl <;> exact whole rfl (by simp [hname, hinner])
  | condition _ role hkeyword htest hinner hother =>
    exact tree rfl (.keyword rfl role) (by simp [leaf hkeyword, htest, hinner, hother])
  | whileLoop _ hkeyword htest hinner => exact whole rfl (by simp [leaf hkeyword, htest, hinner])
  | forLoop _ hbound hcollection hinner =>
    exact whole rfl (by simp [hbound, hcollection, hinner])
  | caseChoice _ hsubject _ hclauses hother =>
    refine whole rfl (List.forall_mem_cons.mpr ⟨hsubject, ?_⟩)
    exact List.forall_mem_append.mpr ⟨hclauses, by simp [hother]⟩
  | beginBlock _ hinner => exact whole rfl (by simp [hinner])
  | absent | nothing | noSignature => exact absent
  | present hn | plain hn | branch hn | conditional _ hn => exact hn
  | body _ all | parameterGroup _ all | parameters _ all => exact whole rfl all
  | bodyStatement _ hmain hclauses => exact whole rfl (List.forall_mem_cons.mpr ⟨hmain, hclauses⟩)
  | @rescueClause _ listed classes _ _ _ _ hclasses hbound hhandler =>
    have hlist : P (.tree .excList listed classes) := whole rfl hclasses
    exact whole rfl (by simp [hlist, hbound, hhandler])
  | bodyClause hkind _ hinner =>
    rcases hkind with rfl | rfl <;> exact whole rfl (by simp [hinner])
  | whenClause _ hvalues hinner =>
    exact whole rfl (List.forall_mem_append.mpr ⟨hvalues, by simp [hinner]⟩)
  | plainParameter hkind _ sole all =>
    have hmarked := Kind.isMarked_of_isPlainParameter hkind
    refine tree (Kind.isCall_of_isMarked hmarked) (.first hmarked sole) fun n hn => ?_
    obtain ⟨name, rfl, hname⟩ := all n hn
    exact leaf hname
  | defaultParameter hkind _ hname hvalue =>
    rcases hkind with rfl | rfl <;> exact whole rfl (by simp [leaf hname, hvalue])

end Rule

end XhrKeywords.Syntax
