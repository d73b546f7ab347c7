import XhrKeywords.Grammar.Program
import XhrKeywords.Proofs.Grammar.Upholding
import XhrKeywords.Proofs.Syntax.Rule

/-!
# Watching the productions

Some properties are followed through all productions in the same way: a condition holds of the
states that are passed through, and something is known of the nodes that are built. A watch says
which, and that tokens, scopes, spans and the rules of the grammar of trees agree with it. What a
production tells under any watch is proved once, and a property is had for all productions by giving
its watch.
-/

namespace XhrKeywords

/-- A token that one sees: neither a line break nor the end of the source. -/
def Token.Kind.isVisible (kind : Token.Kind) : Bool :=
  kind != .newline && kind != .eof

namespace Token.Kind

variable {kind : Token.Kind}

/-- A token that one sees is no line break. -/
theorem ne_newline_of_isVisible (h : kind.isVisible) : kind ≠ .newline := by
  rintro rfl
  cases h

/-- A token that one sees is not the end of the source. -/
theorem ne_eof_of_isVisible (h : kind.isVisible) : kind ≠ .eof := by
  rintro rfl
  cases h

end Token.Kind

/-- A span that ends with a token. -/
def Syntax.Span.endingAt (span : Syntax.Span) (t : Token) : Syntax.Span :=
  { span with endLine := t.endLine, endColumn := t.endColumn, stop := t.stop }

namespace Grammar

open Syntax hiding Kind
open Token (Kind)

variable {α β σ : Type}

/-- The call of a label whose value is left out. -/
def labelCall (label : Token) : Node :=
  .tree .call (some (shorten label.span))
    [.absent, .leaf { role := .token .ident, text := label.text
                      place := (shorten label.span).place }]

/-- What is watched while productions read: a condition on states that reading keeps, and what is
known of the tokens that are taken and of the nodes that are built. -/
structure Watch where
  /-- What the condition depends on. -/
  Index : Type := Unit
  /-- The condition on states. -/
  Holds : Index → State → Prop
  /-- Which tokens may be taken. -/
  Takes : Token → Prop := fun _ => True
  /-- What is known of a token that comes next. -/
  Sound : Token → Prop
  /-- Where trees may start. -/
  Starts : Mark → Prop := fun _ => True
  /-- Where trees of a kind may lie. -/
  Lies : Syntax.Kind → Option Span → Prop := fun _ _ => True
  /-- What is known of a leaf that is built. -/
  Word : Leaf → Prop := fun _ => True
  /-- What is known of a node that is built for places of a form. -/
  Knows : Form → Node → Prop
  /-- The rules that the productions are watched over. -/
  Allows : Rules → Prop := fun _ => True
  takes {t : Token} (h : t.kind ≠ .eof) : Takes t := by intros; trivial
  advance {i : Index} {s : State} (h : Holds i s) (ht : Takes s.current) : Holds i s.advance
  declare {i : Index} {s : State} (h : Holds i s) (name : String) :
    Holds i { s with scope := s.scope.insert name }
  sound {i : Index} {s : State} (h : Holds i s) : Sound s.current
  /-- What holds in a scope of its own lets the condition hold behind it. -/
  scope {i : Index} {s : State} (h : Holds i s) (inherits : Bool) :
    ∃ j, Holds j (s.enter inherits) ∧ ∀ t, Holds j t → Holds i t.leave
  /-- The same for another count of calls that keep a `do` for themselves. -/
  count {i : Index} {s : State} (h : Holds i s) (blocked : Nat) :
    ∃ j, Holds j { s with blocked } ∧ ∀ t, Holds j t → Holds i { t with blocked := s.blocked }
  /-- A tree may start with a token that is taken. -/
  opens {t : Token} (h : Sound t) (ht : Takes t) : Starts (ofToken t) := by intros; trivial
  /-- A tree may start with a value. -/
  starts {n : Node} (h : Knows .value n) : Starts (ofNode n) := by intros; trivial
  /-- A tree may end with the last token taken. -/
  lies {i : Index} {s : State} {start : Mark} (h : Holds i s) (kind : Syntax.Kind)
    (hstart : Starts start) :
    Lies kind (some (start.upTo s.previous.endLine s.previous.endColumn s.previous.stop)) := by
      intros; trivial
  /-- A tree may end with a value. -/
  encloses {first last : Node} (kind : Syntax.Kind) (hfirst : Knows .value first)
    (hlast : Knows .value last) :
    Lies kind (some ((ofNode first).upTo (spanOf last).endLine (spanOf last).endColumn
      (spanOf last).stop)) := by intros; trivial
  /-- Where a tree lies that may be empty is not asked for. -/
  hollow {kind : Syntax.Kind} (h : kind.mayBeHollow) (span : Option Span) : Lies kind span := by
      intros; trivial
  /-- The end of a tree that is no call may be moved to a token. -/
  endsAt {kind : Syntax.Kind} {span : Span} {t : Token} (h : Lies kind (some span))
    (hkind : kind.isCall = false) (ht : Sound t) (htakes : Takes t) :
    Lies kind (some (span.endingAt t)) := by
      intros; trivial
  /-- The end of a tree that is no call may be moved back. -/
  shortens {kind : Syntax.Kind} {span : Span} (h : Lies kind (some span))
    (hkind : kind.isCall = false) : Lies kind (some (shorten span)) := by intros; trivial
  /-- The name in front of the colon of a label may be a tree. -/
  labels {t : Token} (h : Sound t) (hkind : t.kind = .label) (kind : Syntax.Kind) :
    Lies kind (some (shorten t.span)) := by intros; trivial
  /-- A leaf with the text of a token that is no line break. -/
  word {t : Token} {content : Leaf} (h : Sound t) (hkind : t.kind ≠ .newline)
    (htext : content.text = t.text) : Word content := by intros; trivial
  /-- A number with a sign in front of it. -/
  negative {t : Token} {content : Leaf} (h : Sound t) (hkind : t.kind = .int ∨ t.kind = .float)
    (htext : content.text = "-" ++ t.text) : Word content := by intros; trivial
  /-- A leaf whose text can be told from line feeds behind it. -/
  trim {content : Leaf} (h : IsTrim content.text) : Word content := by intros; trivial
  /-- A leaf that is no word of the source. -/
  mark {content : Leaf} (h : content.role.isContent = false) : Word content := by intros; trivial
  /-- What is made of known parts is known. -/
  rule {form : Form} {n : Node} (h : Rule Lies Word Knows form n) : Knows form n
  /-- A bare call that is assigned to is a variable. -/
  target {span : Option Span} {name : Leaf}
    (h : Knows .value (.tree .call span [.absent, .leaf name])) :
    Knows .value (.tree .lvar span [.leaf { name with role := .token .ident }])
  /-- A label whose value is left out is a call. -/
  label {t : Token} (h : Sound t) (hkind : t.kind = .label) : Knows .value (labelCall t)

namespace Watch

variable {W : Watch}

/-- In front of a token that satisfies a condition, a production keeps what is watched and something
may be said of its answer. -/
def TellsAt (W : Watch) (pre : Token → Prop) (P : α → Prop) (p : Parser α) : Prop :=
  ∀ ⦃i s a t⦄, W.Holds i s → pre s.current → p s = .ok (a, t) → W.Holds i t ∧ P a

/-- The same in front of any token. -/
abbrev Tells (W : Watch) (P : α → Prop) (p : Parser α) : Prop := W.TellsAt (fun _ => True) P p

/-- A production that keeps what is watched. -/
abbrev Keeps (W : Watch) (p : Parser α) : Prop := W.Tells (fun _ => True) p

/-- A production of which it is known what it builds for places of a form. -/
abbrev Builds (W : Watch) (form : Form) (p : Parser Node) : Prop := W.Tells (W.Knows form) p

/-- The same in front of a token that satisfies a condition. -/
abbrev BuildsAt (W : Watch) (pre : Token → Prop) (form : Form) (p : Parser Node) : Prop :=
  W.TellsAt pre (W.Knows form) p

/-- Several nodes of which the same is known. -/
def KnowsAll (W : Watch) (form : Form) (nodes : List Node) : Prop := ∀ n ∈ nodes, W.Knows form n

/-- The same for a production that builds several nodes. -/
abbrev BuildsAll (W : Watch) (form : Form) (p : Parser (List Node)) : Prop :=
  W.Tells (W.KnowsAll form) p

/-- The same for a round that collects nodes. -/
abbrev Gathers (W : Watch) (form : Form) (p : Parser (Round (List Node) (List Node))) : Prop :=
  W.Tells (Round.All (W.KnowsAll form) (W.KnowsAll form)) p

/-- The same for a round that makes one value grow. -/
abbrev Grows (W : Watch) (p : Parser (Round Node Node)) : Prop :=
  W.Tells (Round.All (W.Knows .value) (W.Knows .value)) p

/-- A token that is taken. -/
structure Taken (W : Watch) (t : Token) : Prop where
  sound : W.Sound t
  takes : W.Takes t

/-- Tokens of these kinds may be taken. -/
def TakesAny (W : Watch) (kinds : List Kind) : Prop := ∀ t, t.kind ∈ kinds → W.Takes t

/-- A leaf whose word is known. -/
def Names (W : Watch) (n : Node) : Prop := ∃ name, n = .leaf name ∧ W.Word name

/-- A tree of a kind, known for places of a form wherever it lies. -/
def Shapes (W : Watch) (form : Form) (kind : Syntax.Kind) (n : Node) : Prop :=
  ∃ span children, n = .tree kind (some span) children ∧ W.Lies kind (some span) ∧
    ∀ other, W.Lies kind (some other) → W.Knows form (.tree kind (some other) children)

end Watch

/-- The phrases that are values. -/
def Phrase.isValue : Phrase → Bool
  | .parameterGroup .. | .targetGroup _ | .conditional _ => false
  | _ => true

/-- A default is a value. -/
theorem isValue_defaultPhrase (inBlock : Bool) : (defaultPhrase inBlock).isValue := by
  cases inBlock <;> rfl

/-- Rules of which it is known what their phrases build. -/
structure Rules.Watched (W : Watch) (g : Rules) : Prop where
  allowed : W.Allows g
  value (phrase : Phrase) (hvalue : phrase.isValue) : W.Builds .value (g.read phrase)
  parameters (opener : Token) (inBlock : Bool) (hopener : W.Starts (ofToken opener)) :
    W.Builds .parameter (g.read (.parameterGroup opener inBlock))
  targets (opener : Token) (hopener : W.Starts (ofToken opener)) :
    W.Builds .value (g.read (.targetGroup opener))
  conditional (keyword : Token) (hkeyword : W.Starts (ofToken keyword)) :
    W.Builds .otherwise (g.read (.conditional keyword))

variable {W : Watch} {pre : Token → Prop} {P P' : α → Prop} {Q : β → Prop} {p q : Parser α}
  {kind : Kind}

namespace Watch

/-- Tokens of kinds other than the end of the source may be taken. -/
theorem takesAny (W : Watch) (kinds : List Kind) (h : .eof ∉ kinds) : W.TakesAny kinds :=
  fun _ ht => W.takes fun heof => h (heof ▸ ht)

/-- A token of a kind other than the end of the source may be taken. -/
theorem takes_kind (hkind : kind ≠ .eof) {t : Token} (ht : t.kind = kind) : W.Takes t :=
  W.takes (ht ▸ hkind)

/-- A token that one sees may be taken. -/
theorem takes_visible {t : Token} (h : t.kind.isVisible) : W.Takes t :=
  W.takes (Kind.ne_eof_of_isVisible h)

namespace Taken

variable {t : Token}

/-- A tree may start with a token that is taken. -/
theorem starts (h : W.Taken t) : W.Starts (ofToken t) := W.opens h.sound h.takes

/-- The leaf of a token that one sees. -/
theorem leaf (h : W.Taken t) (hvisible : t.kind.isVisible) {content : Leaf}
    (htext : content.text = t.text) : W.Word content :=
  W.word h.sound (Kind.ne_newline_of_isVisible hvisible) htext

/-- The same for a token of a kind. -/
theorem leafAs (h : W.Taken t) (hkind : t.kind = kind) (hvisible : kind.isVisible) {content : Leaf}
    (htext : content.text = t.text) : W.Word content :=
  h.leaf (hkind ▸ hvisible) htext

end Taken

namespace TellsAt

/-- Less may be said of the answer. -/
theorem mono (h : W.TellsAt pre P p) (hP : ∀ a, P a → P' a) : W.TellsAt pre P' p :=
  fun _ _ _ _ hs hpre hrun => ⟨(h hs hpre hrun).1, hP _ (h hs hpre hrun).2⟩

/-- What is told in front of more tokens. -/
theorem weaken {pre' : Token → Prop} (h : W.TellsAt pre' P p) (hpre : ∀ t, pre t → pre' t) :
    W.TellsAt pre P p :=
  fun _ _ _ _ hs ht hrun => h hs (hpre _ ht) hrun

/-- What is told in front of any token. -/
theorem any (h : W.Tells P p) : W.TellsAt pre P p := h.weaken fun _ _ => trivial

/-- What is told in front of tokens of a kind is told in front of one of them. -/
theorem at_token {t : Token} (h : W.TellsAt (·.kind = kind) P p) (hkind : t.kind = kind) :
    W.TellsAt (· = t) P p :=
  h.weaken fun _ ht => ht ▸ hkind

/-- What is told in front of a token that is taken is told in front of one of a kind. -/
theorem at_kind (h : W.TellsAt W.Takes P p) (kind : Kind) (hkind : kind ≠ .eof) :
    W.TellsAt (·.kind = kind) P p :=
  h.weaken fun _ ht => takes_kind hkind ht

/-- What is told in front of a token that is taken is told in front of a token of a kind. -/
theorem at_taken {t : Token} (h : W.TellsAt W.Takes P p) (ht : t.kind = kind)
    (hkind : kind ≠ .eof) : W.TellsAt (· = t) P p :=
  (h.at_kind kind hkind).at_token ht

/-- What is told in front of a token that one sees is told in front of one of a kind. -/
theorem at_visible {t : Token} (h : W.TellsAt (·.kind.isVisible) P p) (ht : t.kind = kind)
    (hvisible : kind.isVisible) : W.TellsAt (· = t) P p :=
  h.weaken fun u hu => by rw [hu, ht]; exact hvisible

/-- One step after another; the second one may use what is told of the first one's answer. -/
theorem bind {f : α → Parser β} (h : W.TellsAt pre P p) (hf : ∀ a, P a → W.Tells Q (f a)) :
    W.TellsAt pre Q (p >>= f) := by
  intro i s b t hs hpre hrun
  obtain ⟨a, u, hp, hrun⟩ := of_bind hrun
  obtain ⟨hu, ha⟩ := h hs hpre hp
  exact hf a ha hu trivial hrun

/-- A production whose answer is not asked for. -/
theorem next {f : α → Parser β} (h : W.TellsAt pre P p) (hf : ∀ a, W.Tells Q (f a)) :
    W.TellsAt pre Q (p >>= f) :=
  h.bind fun a _ => hf a

/-- A choice tells what both of its branches do. -/
theorem ite {c : Prop} [Decidable c] (hp : W.TellsAt pre P p) (hq : W.TellsAt pre P q) :
    W.TellsAt pre P (if c then p else q) := by
  by_cases h : c
  · rwa [if_pos h]
  · rwa [if_neg h]

/-- A choice by what is seen: either way, the same is told. -/
theorem cond {look : Parser Bool} {p q : Parser β} (h : W.TellsAt pre (fun _ => True) look)
    (hp : W.Tells Q p) (hq : W.Tells Q q) :
    W.TellsAt pre Q (look >>= fun seen => if seen = true then p else q) :=
  h.next fun _ => hp.ite hq

end TellsAt

end Watch

/-- An answer without reading keeps what is watched. -/
theorem tells_pure {a : α} (ha : P a) : W.TellsAt pre P (pure a) := by
  intro i s b t hs _ hrun
  cases hrun
  exact ⟨hs, ha⟩

/-- A failure has no answer to tell of. -/
theorem tells_fail (cause : Kind → SyntaxError.Cause) : W.TellsAt pre P (fail cause) :=
  fun _ _ _ _ _ _ hrun => nomatch hrun

/-- A failure at a token has no answer to tell of. -/
theorem tells_failAt (t : Token) (cause : SyntaxError.Cause) : W.TellsAt pre P (failAt t cause) :=
  fun _ _ _ _ _ _ hrun => nomatch hrun

/-- What keeps the condition of a watch keeps what is watched. -/
theorem tells_of_maintains (h : ∀ i, Maintains (W.Holds i) p) : W.Keeps p :=
  fun i _ _ _ hs _ hrun => h i hs hrun

/-- A look at the token behind the next one. -/
theorem tells_second : W.Keeps second := tells_of_maintains fun _ => maintains_second

/-- A look at the kind of the next token. -/
theorem tells_sees (kind : Kind) : W.Keeps (sees kind) :=
  tells_of_maintains fun _ => maintains_sees kind

/-- A look for one of several kinds. -/
theorem tells_seesAny (kinds : List Kind) : W.Keeps (seesAny kinds) :=
  tells_of_maintains fun _ => maintains_seesAny kinds

/-- A look for a class of kinds. -/
theorem tells_seesClass (holds : Kind → Bool) : W.Keeps (seesClass holds) :=
  tells_of_maintains fun _ => maintains_seesClass holds

/-- A look for a kind that touches the last token. -/
theorem tells_seesGlued (kind : Kind) : W.Keeps (seesGlued kind) :=
  tells_of_maintains fun _ => maintains_seesGlued kind

/-- A look for the closing mark of a list, if it has one. -/
theorem tells_seesCloser (closer : Option Kind) : W.Keeps (seesCloser closer) :=
  tells_of_maintains fun _ => maintains_seesCloser closer

/-- A look for a name among those declared. -/
theorem tells_isLocal (name : String) : W.Keeps (isLocal name) :=
  tells_of_maintains fun _ => maintains_isLocal name

/-- A look whether a `do` may be taken. -/
theorem tells_doBinds : W.Keeps doBinds := tells_of_maintains fun _ => maintains_doBinds

/-- A look whether arguments without parentheses start. -/
theorem tells_commandStart : W.Keeps commandStart :=
  tells_of_maintains fun _ => maintains_commandStart

/-- What leaves the state as it is leaves the next token. -/
theorem tells_look {look : Parser α} {answer : State → α} (h : ∀ s, look s = .ok (answer s, s))
    {f : α → Parser β} (hf : ∀ a, W.TellsAt pre Q (f a)) : W.TellsAt pre Q (look >>= f) := by
  intro i s b t hs hpre hrun
  rw [bind_of_eq (h s)] at hrun
  exact hf _ hs hpre hrun

/-- Something is known of the token that is looked at. -/
theorem tells_current : W.Tells W.Sound current := by
  intro i s a t hs _ hrun
  cases hrun
  exact ⟨hs, W.sound hs⟩

/-- The token that is looked at is the next one. -/
theorem tells_at_current {f : Token → Parser β}
    (hf : ∀ t, pre t → W.Sound t → W.TellsAt (· = t) Q (f t)) :
    W.TellsAt pre Q (current >>= f) :=
  fun _ s _ _ hs hpre hrun => hf s.current hpre (W.sound hs) hs rfl hrun

/-- Where a test of the next token succeeds, what it tests is so. -/
theorem tells_tested {look : Parser Bool} (test : Token → Bool)
    (h : ∀ s, look s = .ok (test s.current, s)) {f : Bool → Parser β}
    (hpre : ∀ t, test t = true → pre t) (hseen : W.TellsAt pre Q (f true))
    (hnot : W.Tells Q (f false)) : W.Tells Q (look >>= f) := by
  intro i s b t hs _ hrun
  rw [bind_of_eq (h s)] at hrun
  by_cases htest : test s.current = true
  · rw [htest] at hrun
    exact hseen hs (hpre _ htest) hrun
  · rw [Bool.not_eq_true] at htest
    rw [htest] at hrun
    exact hnot hs trivial hrun

/-- Where a kind is seen, the next token is of that kind. -/
theorem tells_seen {f : Bool → Parser β} (hseen : W.TellsAt (·.kind = kind) Q (f true))
    (hnot : W.Tells Q (f false)) : W.Tells Q (sees kind >>= f) :=
  tells_tested (·.kind == kind) (fun s => sees_run s kind) (fun _ => beq_iff_eq.mp) hseen hnot

/-- The branch behind a look starts with the kind that was looked for. -/
theorem tells_if_sees {p q : Parser β} (hp : W.TellsAt (·.kind = kind) Q p) (hq : W.Tells Q q) :
    W.Tells Q (sees kind >>= fun seen => if seen = true then p else q) :=
  tells_seen hp hq

/-- Where one of several kinds is seen, the next token may be taken if tokens of these kinds may. -/
theorem tells_seenAny {kinds : List Kind} (hkinds : W.TakesAny kinds) {f : Bool → Parser β}
    (hseen : W.TellsAt W.Takes Q (f true)) (hnot : W.Tells Q (f false)) :
    W.Tells Q (seesAny kinds >>= f) :=
  tells_tested (fun t => kinds.contains t.kind) (fun s => seesAny_run s kinds)
    (fun t ht => hkinds t (List.contains_iff_mem.mp ht)) hseen hnot

/-- The branch behind a look for several kinds starts with a token that may be taken. -/
theorem tells_if_seesAny {kinds : List Kind} (hkinds : W.TakesAny kinds) {p q : Parser β}
    (hp : W.TellsAt W.Takes Q p) (hq : W.Tells Q q) :
    W.Tells Q (seesAny kinds >>= fun seen => if seen = true then p else q) :=
  tells_seenAny hkinds hp hq

/-- Where a kind is seen that touches the last token, the next token is of that kind. -/
theorem tells_seenGlued {f : Bool → Parser β} (hseen : W.TellsAt (·.kind = kind) Q (f true))
    (hnot : W.Tells Q (f false)) : W.Tells Q (seesGlued kind >>= f) :=
  tells_tested (fun t => t.kind == kind && !t.spaced) (fun s => seesGlued_run s kind)
    (fun _ ht => beq_iff_eq.mp (Bool.and_eq_true_iff.mp ht).1) hseen hnot

/-- The branch behind a look for a kind that touches starts with that kind. -/
theorem tells_if_seesGlued {p q : Parser β} (hp : W.TellsAt (·.kind = kind) Q p)
    (hq : W.Tells Q q) :
    W.Tells Q (seesGlued kind >>= fun seen => if seen = true then p else q) :=
  tells_seenGlued hp hq

/-- Where a kind is seen besides another condition. -/
theorem tells_if_seesToo {c : Bool} {p q : Parser β} (hp : W.TellsAt (·.kind = kind) Q p)
    (hq : W.Tells Q q) :
    W.Tells Q (sees kind >>= fun seen => if (c && seen) = true then p else q) := by
  cases c with
  | false => exact (tells_sees kind).next fun _ => hq
  | true => exact tells_if_sees hp hq

/-- Something is known of the token that is taken. -/
theorem tells_take_at (hpre : ∀ t, pre t → W.Takes t) {f : Token → Parser β}
    (hf : ∀ t, pre t → W.Taken t → W.Tells Q (f t)) : W.TellsAt pre Q (advance >>= f) :=
  fun _ s _ _ hs ht hrun =>
    hf s.current ht ⟨W.sound hs, hpre _ ht⟩ (W.advance hs (hpre _ ht)) trivial hrun

/-- What follows a token that is taken may use that it was. -/
theorem tells_take {f : Token → Parser β} (hf : ∀ t, W.Taken t → W.Tells Q (f t)) :
    W.TellsAt W.Takes Q (advance >>= f) :=
  tells_take_at (fun _ => id) fun t _ => hf t

/-- What follows a token of a kind may use its kind. -/
theorem tells_take_kind (kind : Kind) (hkind : kind ≠ .eof) {f : Token → Parser β}
    (hf : ∀ t, t.kind = kind → W.Taken t → W.Tells Q (f t)) :
    W.TellsAt (·.kind = kind) Q (advance >>= f) :=
  tells_take_at (fun _ => Watch.takes_kind hkind) hf

/-- What follows a token that one sees may use that one sees it. -/
theorem tells_take_visible {f : Token → Parser β}
    (hf : ∀ t, t.kind.isVisible → W.Taken t → W.Tells Q (f t)) :
    W.TellsAt (·.kind.isVisible) Q (advance >>= f) :=
  tells_take_at (fun _ => Watch.takes_visible) hf

/-- A token is taken if it is there. -/
theorem tells_accept (kind : Kind) (hkind : kind ≠ .eof) : W.Keeps (accept kind) :=
  tells_if_sees (tells_take_kind kind hkind fun _ _ _ => tells_pure trivial) (tells_pure trivial)

/-- A token that is expected is of the kind that it is expected to be of. -/
theorem tells_expectOf (hkind : W.TakesAny [kind]) (cause : Kind → SyntaxError.Cause) :
    W.Tells (fun t => W.Taken t ∧ t.kind = kind) (expectOr kind cause) := by
  refine tells_if_sees (fun i s t u hs ht hrun => ?_) (tells_fail _)
  have htakes : W.Takes s.current := hkind _ (List.mem_singleton.mpr ht)
  cases hrun
  exact ⟨W.advance hs htakes, ⟨W.sound hs, htakes⟩, ht⟩

/-- A token of a kind, or an error of a given cause. -/
theorem tells_expectOr (kind : Kind) (hkind : kind ≠ .eof) (cause : Kind → SyntaxError.Cause) :
    W.Tells (fun t => W.Taken t ∧ t.kind = kind) (expectOr kind cause) :=
  tells_expectOf (W.takesAny _ fun h => hkind (List.mem_singleton.mp h).symm) cause

/-- A token of a kind, or the error for its absence. -/
theorem tells_expect (kind : Kind) (hkind : kind ≠ .eof) :
    W.Tells (fun t => W.Taken t ∧ t.kind = kind) (expect kind) :=
  tells_expectOr kind hkind _

/-- A closing mark, or the error that names what it would have closed. -/
theorem tells_expectCloser (kind : Kind) (hkind : kind ≠ .eof) (mark construction : String) :
    W.Tells (fun t => W.Taken t ∧ t.kind = kind) (expectCloser kind mark construction) :=
  tells_expectOr kind hkind _

/-- An `end`, or the error that names what it would have closed. -/
theorem tells_expectEnd (construction : String) :
    W.Tells (fun t => W.Taken t ∧ t.kind = .kwEnd) (expectEnd construction) :=
  tells_expectCloser .kwEnd nofun _ _

/-- Passing over tokens is taking them one by one. -/
theorem Watch.skip {i : W.Index} {s : State} {holds : Kind → Bool} (hs : W.Holds i s)
    (heof : holds .eof = false) : W.Holds i (s.skip holds) := by
  have hgo : ∀ ahead current previous, W.Holds i { s with current, previous, ahead } →
      W.Holds i (State.skip.go holds s current previous ahead) := by
    intro ahead
    induction ahead with
    | nil => exact fun _ _ h => h
    | cons next others ih =>
      intro current previous h
      rw [State.skip.go]
      split
      · rename_i hholds
        have hkind : current.kind ≠ .eof := fun h => by simp [h, heof] at hholds
        exact ih next current (W.advance h (W.takes hkind))
      · exact h
  exact hgo s.ahead s.current s.previous hs

/-- Line breaks may be passed over. -/
theorem tells_skipNewlines : W.Keeps skipNewlines := by
  intro i s a t hs _ hrun
  cases hrun
  exact ⟨W.skip hs rfl, trivial⟩

/-- Line breaks and semicolons may be passed over. -/
theorem tells_skipSeparators : W.Keeps skipSeparators := by
  intro i s a t hs _ hrun
  cases hrun
  exact ⟨W.skip hs rfl, trivial⟩

/-- Line breaks may be passed over in a list with a closing mark. -/
theorem tells_skipNewlinesWithin (closer : Option Kind) : W.Keeps (skipNewlinesWithin closer) :=
  .ite tells_skipNewlines (tells_pure trivial)

/-- What separates a head from its body may be passed over. -/
theorem tells_separator : W.Keeps separator := by
  apply (tells_seesClass _).next
  intro separated
  apply tells_skipSeparators.next
  intro _
  apply (tells_accept .kwThen nofun).cond
  · exact tells_pure trivial
  · exact .ite (tells_pure trivial) (tells_fail _)

/-- What separates the head of a loop from its body may be passed over. -/
theorem tells_loopOpener : W.Keeps loopOpener := by
  apply (tells_accept .kwDo nofun).cond
  · exact tells_pure trivial
  · exact (tells_seesClass _).cond (tells_pure trivial) (tells_fail _)

/-- A name may be declared. -/
theorem tells_declare (name : String) : W.Keeps (declare name) := by
  intro i s a t hs _ hrun
  cases hrun
  exact ⟨W.declare hs name, trivial⟩

/-- The name of a parameter may be declared. -/
theorem tells_declareParameter (n : Node) : W.Keeps (declareParameter n) := by
  rw [declareParameter]
  split
  · exact tells_declare _
  · exact tells_pure trivial

/-- What is told holds in a scope of its own, too. -/
theorem tells_inScope (inherits : Bool) (h : W.Tells P p) : W.Tells P (inScope inherits p) := by
  intro i s a t hs _ hrun
  obtain ⟨u, hbody, rfl⟩ := of_inScope hrun
  obtain ⟨j, hin, hout⟩ := W.scope hs inherits
  obtain ⟨hu, ha⟩ := h hin trivial hbody
  exact ⟨hout u hu, ha⟩

/-- What is told holds for another count of calls that keep a `do`, too. -/
theorem tells_withBlocked (count : Nat → Nat) (h : W.Tells P p) :
    W.Tells P (withBlocked count p) := by
  intro i s a t hs _ hrun
  obtain ⟨u, hbody, rfl⟩ := of_withBlocked hrun
  obtain ⟨j, hin, hout⟩ := W.count hs (count s.blocked)
  obtain ⟨hu, ha⟩ := h hin trivial hbody
  exact ⟨hout u hu, ha⟩

/-- What is told holds in brackets, too. -/
theorem tells_bracketed (h : W.Tells P p) : W.Tells P (bracketed p) := tells_withBlocked _ h

/-- What is told holds where a `do` is kept, too. -/
theorem tells_keepingDo (h : W.Tells P p) : W.Tells P (keepingDo p) := tells_withBlocked _ h

section Nodes

variable {form : Form} {m n : Node} {nodes others : List Node} {made : Syntax.Kind} {start : Mark}
  {t : Token}

namespace Watch

namespace KnowsAll

/-- Nothing is to be known of no nodes. -/
theorem nil : W.KnowsAll form [] := fun _ hn => absurd hn List.not_mem_nil

/-- A known node may be put in front of known nodes. -/
theorem cons (hn : W.Knows form n) (h : W.KnowsAll form nodes) : W.KnowsAll form (n :: nodes) :=
  List.forall_mem_cons.mpr ⟨hn, h⟩

/-- One known node. -/
theorem one (hn : W.Knows form n) : W.KnowsAll form [n] := .cons hn .nil

/-- Known nodes may be put in front of known nodes. -/
theorem append (h : W.KnowsAll form nodes) (hothers : W.KnowsAll form others) :
    W.KnowsAll form (nodes ++ others) :=
  List.forall_mem_append.mpr ⟨h, hothers⟩

/-- A known node may be put behind known nodes. -/
theorem concat (h : W.KnowsAll form nodes) (hn : W.Knows form n) :
    W.KnowsAll form (nodes ++ [n]) :=
  h.append (.one hn)

end KnowsAll

/-- A shape is known where it lies. -/
theorem Shapes.knows (h : W.Shapes form made n) : W.Knows form n := by
  obtain ⟨span, children, rfl, hlies, hknown⟩ := h
  exact hknown span hlies

/-- A shape may be laid somewhere else. -/
theorem Shapes.mapSpan (h : W.Shapes form made n) {change : Span → Span}
    (hchange : ∀ span, W.Lies made (some span) → W.Lies made (some (change span))) :
    W.Knows form (mapSpan change n) := by
  obtain ⟨span, children, rfl, hlies, hknown⟩ := h
  exact hknown _ (hchange span hlies)

variable (W)

/-- A value may be left out. -/
theorem present (h : W.Knows .value n) : W.Knows .optional n := W.rule (.present h)

/-- A part may be left out. -/
theorem absent : W.Knows .optional .absent := W.rule .absent

/-- A list of statements need not have clauses. -/
theorem plain (h : W.Knows .statements n) : W.Knows .suite n := W.rule (.plain h)

/-- The leaf of an operator is no word of the source. -/
theorem operator (t : Token) : W.Word ⟨.operator, t.text, t.span.place⟩ := W.mark rfl

/-- The leaf of a keyword is no word of the source. -/
theorem keyword (t : Token) : W.Word ⟨.keyword, t.text, t.span.place⟩ := W.mark rfl

end Watch

/-- What is built from a place where trees may start is known if it is wherever it lies. -/
theorem builds_tree {P : Node → Prop} (hstart : W.Starts start)
    (h : ∀ span, W.Lies made (some span) → P (.tree made (some span) nodes)) :
    W.TellsAt pre P (build made nodes start) := by
  intro i s a t hs _ hrun
  cases hrun
  exact ⟨hs, h _ (W.lies hs made hstart)⟩

/-- What is built by a rule is known. -/
theorem builds_rule (hstart : W.Starts start)
    (h : ∀ span, W.Lies made (some span) →
      Rule W.Lies W.Word W.Knows form (.tree made (some span) nodes)) :
    W.BuildsAt pre form (build made nodes start) :=
  builds_tree hstart fun span hspan => W.rule (h span hspan)

/-- The same with what is known wherever the tree lies. -/
theorem builds_shape (hstart : W.Starts start)
    (h : ∀ span, W.Lies made (some span) →
      Rule W.Lies W.Word W.Knows form (.tree made (some span) nodes)) :
    W.TellsAt pre (W.Shapes form made) (build made nodes start) :=
  builds_tree hstart fun span hspan => ⟨span, nodes, rfl, hspan, fun other hother =>
    W.rule (h other hother)⟩

/-- Where a tree starts that may be empty is not asked for. -/
theorem builds_hollow (hmade : made.mayBeHollow) {P : Node → Prop}
    (h : ∀ span, W.Lies made (some span) → P (.tree made (some span) nodes)) :
    W.TellsAt pre P (build made nodes start) := by
  intro i s a t hs _ hrun
  cases hrun
  exact ⟨hs, h _ (W.hollow hmade _)⟩

/-- A token that one sees is a literal or a name. -/
theorem builds_single (hmade : made.isLiteral) :
    W.BuildsAt (·.kind.isVisible) .value (single made) := by
  apply tells_take_visible
  intro t hvisible ht
  exact builds_rule ht.starts fun _ hspan => .literal hmade hspan (ht.leaf hvisible rfl)

/-- A literal or a name, in a role, is known wherever it lies. -/
theorem builds_singleAs (hmade : made.isLiteral) (role : Role) :
    W.TellsAt (·.kind.isVisible) (W.Shapes .value made) (singleAs made role) := by
  apply tells_take_visible
  intro t hvisible ht
  exact builds_shape ht.starts fun _ hspan => .literal hmade hspan (ht.leaf hvisible rfl)

/-- A word is known without its text. -/
theorem builds_bare (hmade : made.isWord) : W.BuildsAt W.Takes .value (bare made) := by
  apply tells_take
  intro t ht
  exact builds_rule ht.starts fun _ hspan => .word hmade hspan

/-- A name is a leaf. -/
theorem tells_takeName : W.TellsAt (·.kind.isVisible) W.Names takeName := by
  apply tells_take_visible
  intro t hvisible ht
  exact tells_pure ⟨_, rfl, ht.leaf hvisible rfl⟩

end Nodes

/-- A repetition tells what its rounds tell. -/
theorem tells_loop {g : Rules} {S : σ → Prop} {round : σ → Parser (Round σ β)}
    (hround : ∀ x, S x → W.Tells (Round.All S Q) (round x)) {x : σ} (hx : S x) :
    W.Tells Q (g.loop round x) := by
  intro i s b t hs _ hrun
  refine of_rounds (I := fun x s => W.Holds i s ∧ S x) (Q := fun b t => W.Holds i t ∧ Q b) ?_
    ⟨hs, hx⟩ hrun
  intro y u r v hy hr
  obtain ⟨hv, hall⟩ := hround y hy.2 hy.1 trivial hr
  cases r with
  | again z => exact ⟨hv, hall⟩
  | done c => exact ⟨hv, hall⟩

/-- A round that goes on tells what its production does. -/
theorem tells_again (h : W.TellsAt pre P p) : W.TellsAt pre (Round.All P Q) (again p) :=
  h.bind fun _ ha => tells_pure ha

/-- A round that goes on behind what was found. -/
theorem tells_againWith {form : Form} {found : List Node} (hfound : W.KnowsAll form found)
    {p : Parser Node} (h : W.BuildsAt pre form p) :
    W.TellsAt pre (Round.All (W.KnowsAll form) (W.KnowsAll form)) (againWith found p) :=
  h.bind fun _ hn => tells_pure (hfound.concat hn)

/-- A round goes on behind a comma with what it has. -/
theorem tells_commaRound {S : σ → Prop} {x : σ} (hx : S x) :
    W.Tells (Round.All S S) (commaRound x) :=
  (tells_accept .comma nofun).cond (tells_pure hx) (tells_pure hx)

/-- A round goes on behind a comma and line breaks with what it has. -/
theorem tells_listRound {S : σ → Prop} {x : σ} (hx : S x) :
    W.Tells (Round.All S S) (listRound x) := by
  apply (tells_accept .comma nofun).cond
  · exact tells_skipNewlines.next fun _ => tells_pure hx
  · exact tells_pure hx

end Grammar

end XhrKeywords
