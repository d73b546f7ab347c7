import XhrKeywords.Grammar.Argument
import XhrKeywords.Proofs.Syntax.Moved

/-!
# Productions on moved tokens

A production compares places with each other and never with a number of its own. So on moved
tokens it answers with the moved answer and fails with the moved error. The token before the first
one is no token of the source and does not move with it; it is left out of account until a token
has been taken, and no production looks at it before.
-/

namespace XhrKeywords.Grammar

open Syntax hiding Kind
open Token (Kind)

variable {α β σ : Type} [Movable α] [Movable β] [Movable σ]

instance : Movable Unit := ⟨fun _ u => u⟩

instance : Movable Bool := ⟨fun _ b => b⟩

instance : Movable (α × β) := ⟨fun d a => (moved d a.1, moved d a.2)⟩

instance : Movable Mark := ⟨fun d m => { m with line := m.line + 1, start := m.start + d }⟩

instance : Movable Collected := ⟨fun d c => ⟨moved d c.arguments, moved d c.pairs⟩⟩

instance : Movable SyntaxError := ⟨fun d e => ⟨e.cause, moved d e.token⟩⟩

instance : Movable (Round σ β) where
  moved d
    | .again x => .again (moved d x)
    | .done b => .done (moved d b)

instance : Movable Phrase where
  moved d
    | .parameterGroup opener inBlock => .parameterGroup (moved d opener) inBlock
    | .targetGroup opener => .targetGroup (moved d opener)
    | .conditional keyword => .conditional (moved d keyword)
    | phrase => phrase

/-- A tree that knows its place. -/
def IsPlaced (n : Node) : Prop := ∃ kind span children, n = .tree kind (some span) children

/-- Several trees that know their places. -/
def ArePlaced (nodes : List Node) : Prop := ∀ n ∈ nodes, IsPlaced n

/-- No nodes: all of them have a place. -/
theorem arePlaced_nil : ArePlaced [] := fun _ h => absurd h List.not_mem_nil

/-- A node with a place may be put behind nodes with places. -/
theorem ArePlaced.concat {nodes : List Node} (h : ArePlaced nodes) {n : Node} (hn : IsPlaced n) :
    ArePlaced (nodes ++ [n]) := by
  intro m hm
  rcases List.mem_append.mp hm with hm | hm
  · exact h m hm
  · rwa [List.mem_singleton.mp hm]

/-- Anything. -/
def Anything (_ : α) : Prop := True

variable {d : Nat}

/-- A node built with a span has a place. -/
theorem isPlaced_tree (kind : Syntax.Kind) (span : Span) (children : List Node) :
    IsPlaced (.tree kind (some span) children) :=
  ⟨kind, span, children, rfl⟩

/-- A node that has a place keeps it when it is moved, by the same distance. -/
theorem spanOf_moved {n : Node} (h : IsPlaced n) : spanOf (moved d n) = moved d (spanOf n) := by
  obtain ⟨kind, span, children, rfl⟩ := h
  rw [Node.moved_tree]
  rfl

/-- The mark of a node that has a place moves with the node. -/
theorem ofNode_moved {n : Node} (h : IsPlaced n) : ofNode (moved d n) = moved d (ofNode n) := by
  rw [ofNode, spanOf_moved h]
  rfl

/-- Whether an end lies in front of a mark is a matter of their distance. -/
theorem upTo_moved (m : Mark) (endLine endColumn stop : Nat) :
    (moved d m).upTo (endLine + 1) endColumn (stop + d) =
      moved d (m.upTo endLine endColumn stop) := by
  have hiff : stop + d < (moved d m).start ↔ stop < m.start := Nat.add_lt_add_iff_right
  by_cases h : stop < m.start
  · rw [Mark.upTo, Mark.upTo, if_pos h, if_pos (hiff.mpr h)]
    rfl
  · rw [Mark.upTo, Mark.upTo, if_neg h, if_neg (mt hiff.mp h)]
    rfl

/-- The node around two nodes with places lies between their moved places. -/
theorem enclose_moved (kind : Syntax.Kind) (children : List Node) {first last : Node}
    (hfirst : IsPlaced first) (hlast : IsPlaced last) :
    enclose kind (moved d children) (moved d first) (moved d last) =
      moved d (enclose kind children first last) := by
  rw [enclose, enclose, ofNode_moved hfirst, spanOf_moved hlast, Node.moved_tree]
  exact congrArg (fun span => Node.tree kind (some span) _) (upTo_moved ..)

/-- The last of moved elements is the moved last element. -/
theorem getLastD_moved (l : List α) (a : α) :
    (moved d l).getLastD (moved d a) = moved d (l.getLastD a) := by
  induction l generalizing a with
  | nil => rfl
  | cons b others ih => rw [moved_cons, List.getLastD_cons, List.getLastD_cons, ih]

/-- Nodes from the first to the last one, moved. -/
theorem enclose_all_moved (kind : Syntax.Kind) {first : Node} {others : List Node}
    (h : ArePlaced (first :: others)) :
    enclose kind (moved d (first :: others)) (moved d first)
        ((moved d (first :: others)).getLastD (moved d first)) =
      moved d (enclose kind (first :: others) first ((first :: others).getLastD first)) := by
  have hlast : IsPlaced ((first :: others).getLastD first) := by
    rw [List.getLastD_cons]
    exact h _ (List.getLastD_mem_cons)
  rw [getLastD_moved, enclose_moved kind _ (h first List.mem_cons_self) hlast]

/-- A state with the tokens of another one, moved; the last token taken is one of them if there is
any. -/
structure State.Moved (d : Nat) (taken : Bool) (s s' : State) : Prop where
  current : s'.current = moved d s.current
  ahead : s'.ahead = moved d s.ahead
  previous : taken = true → s'.previous = moved d s.previous ∧ 0 < s.previous.stop
  blocked : s'.blocked = s.blocked
  scope : s'.scope = s.scope
  outer : s'.outer = s.outer
  solid : ∀ t ∈ s.current :: s.ahead, 0 < t.stop

/-- What a production comes to on moved tokens, given what it comes to on the tokens. -/
inductive Comes (d : Nat) (taken : Bool) (P : α → Prop) :
    Except SyntaxError (α × State) → Except SyntaxError (α × State) → Prop
  | ok {a : α} {s s' : State} (ha : P a) (hs : s.Moved d taken s') :
    Comes d taken P (.ok (a, s)) (.ok (moved d a, s'))
  | error (e : SyntaxError) : Comes d taken P (.error e) (.error (moved d e))

/-- On moved tokens the second production does what the first one does on the tokens. The flags
tell whether a token has been taken before and behind them. -/
def Moves (d : Nat) (before behind : Bool) (P : α → Prop) (p p' : Parser α) : Prop :=
  ∀ s s', State.Moved d before s s' → Comes d behind P (p s) (p' s')

variable {taken before between behind : Bool} {P : α → Prop} {Q : β → Prop} {s s' : State}

/-- States that agree on every token agree also where the token before is left out of account. -/
theorem State.Moved.weaken (h : s.Moved d true s') : s.Moved d taken s' :=
  { h with previous := fun _ => h.previous rfl }

/-- What needs a token taken and leaves one taken may stand where none is asked for. -/
theorem Moves.weaken {p p' : Parser α} (h : Moves d before true P p p') :
    Moves d before behind P p p' := by
  intro s s' hs
  have hcomes := h s s' hs
  generalize p s = x, p' s' = x' at hcomes ⊢
  cases hcomes with
  | ok ha hs => exact .ok ha hs.weaken
  | error e => exact .error e

/-- A result may be promised less of. -/
theorem Moves.mono {P' : α → Prop} {p p' : Parser α} (h : Moves d before behind P p p')
    (hP : ∀ a, P a → P' a) : Moves d before behind P' p p' := by
  intro s s' hs
  have hcomes := h s s' hs
  generalize p s = x, p' s' = x' at hcomes ⊢
  cases hcomes with
  | ok ha hs => exact .ok (hP _ ha) hs
  | error e => exact .error e

/-- A result may be promised nothing of. -/
theorem Moves.anything {p p' : Parser α} (h : Moves d before behind P p p') :
    Moves d before behind Anything p p' :=
  h.mono fun _ _ => trivial

/-- A result that needs no token moves as it is. -/
theorem moves_pure {a a' : α} (ha : P a) (h : a' = moved d a) :
    Moves d taken taken P (pure a) (pure a') := by
  subst h
  exact fun s s' hs => .ok ha hs

/-- What follows a production moves if the production and all that may follow it do. -/
theorem Comes.bind {p p' : Parser α} {f f' : α → Parser β}
    (h : Comes d between P (p s) (p' s'))
    (hf : ∀ a, P a → Moves d between behind Q (f a) (f' (moved d a))) :
    Comes d behind Q ((p >>= f) s) ((p' >>= f') s') := by
  change Comes d behind Q (p s >>= _) (p' s' >>= _)
  generalize p s = x, p' s' = x' at h ⊢
  cases h with
  | ok ha hs => exact hf _ ha _ _ hs
  | error e => exact .error e

/-- One step after another: the second one is given the moved result of the first. -/
theorem Moves.bind {p p' : Parser α} {f f' : α → Parser β} (h : Moves d before between P p p')
    (hf : ∀ a, P a → Moves d between behind Q (f a) (f' (moved d a))) :
    Moves d before behind Q (p >>= f) (p' >>= f') :=
  fun s s' hs => (h s s' hs).bind hf

/-- A choice is made alike on both sides, as its condition does not depend on the place. -/
theorem Moves.ite {c c' : Prop} [Decidable c] [Decidable c'] {p p' q q' : Parser α} (hc : c' ↔ c)
    (hp : Moves d before behind P p p') (hq : Moves d before behind P q q') :
    Moves d before behind P (if c then p else q) (if c' then p' else q') := by
  by_cases h : c
  · rwa [if_pos h, if_pos (hc.mpr h)]
  · rwa [if_neg h, if_neg (mt hc.mp h)]

/-- A token ends behind the start of everything. -/
def IsSolid (t : Token) : Prop := 0 < t.stop

/-- The token behind the current one is moved with it and covers text. -/
theorem State.Moved.second (h : s.Moved d taken s') :
    s'.second = moved d s.second ∧ IsSolid s.second := by
  rw [State.second, State.second, h.ahead, h.current]
  have hsolid := h.solid
  cases hahead : s.ahead with
  | nil => exact ⟨rfl, hsolid _ List.mem_cons_self⟩
  | cons t others =>
    exact ⟨rfl, hsolid t (by rw [hahead]; exact List.mem_cons_of_mem _ List.mem_cons_self)⟩

/-- The token passed over becomes the one before, and it is a token of the source. -/
theorem State.Moved.advance (h : s.Moved d taken s') : s.advance.Moved d true s'.advance := by
  obtain ⟨current, ahead, previous, blocked, scope, outer⟩ := s
  obtain ⟨current', ahead', previous', blocked', scope', outer'⟩ := s'
  obtain ⟨hcurrent, hahead, -, hblocked, hscope, houter, hsolid⟩ := h
  dsimp only at hcurrent hahead hblocked hscope houter hsolid
  subst hcurrent hahead hblocked hscope houter
  have hprevious : 0 < current.stop := hsolid current List.mem_cons_self
  cases ahead with
  | nil => exact ⟨rfl, rfl, fun _ => ⟨rfl, hprevious⟩, rfl, rfl, rfl, hsolid⟩
  | cons t others =>
    exact ⟨rfl, rfl, fun _ => ⟨rfl, hprevious⟩, rfl, rfl, rfl,
      fun u hu => hsolid u (List.mem_cons_of_mem _ hu)⟩

/-- Tokens are passed over by their kinds, which do not move. -/
theorem State.Moved.skip (h : s.Moved d taken s') (holds : Kind → Bool) :
    (s.skip holds).Moved d taken (s'.skip holds) := by
  have hgo : ∀ (ahead : List Token) (current previous previous' : Token),
      (taken = true → previous' = moved d previous ∧ 0 < previous.stop) →
      (∀ t ∈ current :: ahead, 0 < t.stop) →
      (State.skip.go holds s current previous ahead).Moved d taken
        (State.skip.go holds s' (moved d current) previous' (moved d ahead)) := by
    intro ahead
    induction ahead with
    | nil => exact fun _ _ _ hprevious hsolid =>
        ⟨rfl, rfl, hprevious, h.blocked, h.scope, h.outer, hsolid⟩
    | cons t others ih =>
      intro current previous previous' hprevious hsolid
      rw [moved_cons, State.skip.go, State.skip.go, kind_moved]
      by_cases hholds : holds current.kind = true
      · rw [if_pos hholds, if_pos hholds]
        exact ih t current (moved d current) (fun _ => ⟨rfl, hsolid _ List.mem_cons_self⟩)
          fun u hu => hsolid u (List.mem_cons_of_mem _ hu)
      · rw [if_neg hholds, if_neg hholds]
        exact ⟨rfl, rfl, hprevious, h.blocked, h.scope, h.outer, hsolid⟩
  rw [State.skip, State.skip, h.current, h.ahead]
  exact hgo s.ahead s.current s.previous s'.previous h.previous h.solid

/-- The current token moves. -/
theorem moves_current : Moves d taken taken IsSolid current current := by
  intro s s' hs
  change Comes d taken IsSolid (.ok (s.current, s)) (.ok (s'.current, s'))
  rw [hs.current]
  exact .ok (hs.solid _ List.mem_cons_self) hs

/-- The token behind the current one moves. -/
theorem moves_second : Moves d taken taken IsSolid second second := by
  intro s s' hs
  change Comes d taken IsSolid (.ok (s.second, s)) (.ok (s'.second, s'))
  rw [hs.second.1]
  exact .ok hs.second.2 hs

/-- The token before moves once a token has been taken. -/
theorem moves_previous : Moves d true true IsSolid previous previous := by
  intro s s' hs
  change Comes d true IsSolid (.ok (s.previous, s)) (.ok (s'.previous, s'))
  rw [(hs.previous rfl).1]
  exact .ok (hs.previous rfl).2 hs

/-- The token taken moves, and from here on the token before is one of the source. -/
theorem moves_advance : Moves d taken true IsSolid advance advance := by
  intro s s' hs
  change Comes d true IsSolid (.ok (s.current, s.advance)) (.ok (s'.current, s'.advance))
  rw [hs.current]
  exact .ok (hs.solid _ List.mem_cons_self) hs.advance

/-- A failure at a token becomes the failure at the moved token. -/
theorem moves_failAt (t : Token) (cause : SyntaxError.Cause) :
    Moves d before behind P (failAt t cause) (failAt (moved d t) cause) :=
  fun _ _ _ => .error ⟨cause, t⟩

/-- A failure at the current token blames the moved one. -/
theorem moves_fail (cause : Kind → SyntaxError.Cause) :
    Moves d before behind P (fail cause) (fail cause) :=
  moves_current.bind fun t _ => moves_failAt t (cause t.kind)

/-- The kind of the current token does not move. -/
theorem moves_sees (kind : Kind) : Moves d taken taken Anything (sees kind) (sees kind) :=
  moves_current.bind fun _ _ => moves_pure trivial rfl

/-- Whether its kind is in a list does not depend on its place. -/
theorem moves_seesAny (kinds : List Kind) :
    Moves d taken taken Anything (seesAny kinds) (seesAny kinds) :=
  moves_current.bind fun _ _ => moves_pure trivial rfl

/-- Whether its kind is in a class does not depend on its place. -/
theorem moves_seesClass (holds : Kind → Bool) :
    Moves d taken taken Anything (seesClass holds) (seesClass holds) :=
  moves_current.bind fun _ _ => moves_pure trivial rfl

/-- Whether the current token touches the one before is written in the token. -/
theorem moves_seesGlued (kind : Kind) :
    Moves d taken taken Anything (seesGlued kind) (seesGlued kind) :=
  moves_current.bind fun _ _ => moves_pure trivial rfl

/-- A token taken if it is there. -/
theorem moves_accept (kind : Kind) : Moves d taken taken Anything (accept kind) (accept kind) :=
  (moves_sees kind).bind fun _ _ =>
    .ite Iff.rfl (moves_advance.weaken.bind fun _ _ => moves_pure trivial rfl)
      (moves_pure trivial rfl)

/-- A token that must be there, or the error for its absence. -/
theorem moves_expectOr (kind : Kind) (cause : Kind → SyntaxError.Cause) :
    Moves d taken true IsSolid (expectOr kind cause) (expectOr kind cause) :=
  (moves_sees kind).bind fun _ _ => .ite Iff.rfl moves_advance (moves_fail cause)

/-- A token that must be there. -/
theorem moves_expect (kind : Kind) : Moves d taken true IsSolid (expect kind) (expect kind) :=
  moves_expectOr kind _

/-- A closing mark; the error names the construction, not its place. -/
theorem moves_expectCloser (kind : Kind) (mark construction : String) :
    Moves d taken true IsSolid (expectCloser kind mark construction)
      (expectCloser kind mark construction) :=
  moves_expectOr kind _

/-- The `end` of a construction. -/
theorem moves_expectEnd (construction : String) :
    Moves d taken true IsSolid (expectEnd construction) (expectEnd construction) :=
  moves_expectCloser .kwEnd "end" construction

/-- Line ends are passed over. -/
theorem moves_skipNewlines : Moves d taken taken Anything skipNewlines skipNewlines :=
  fun _ _ hs => .ok trivial (hs.skip _)

/-- Line ends and semicolons are passed over. -/
theorem moves_skipSeparators : Moves d taken taken Anything skipSeparators skipSeparators :=
  fun _ _ hs => .ok trivial (hs.skip _)

/-- A name is declared under its text. -/
theorem moves_declare (name : String) :
    Moves d taken taken Anything (declare name) (declare name) := by
  intro s s' hs
  refine .ok trivial { hs with scope := ?_ }
  change s'.scope.insert name = s.scope.insert name
  rw [hs.scope]

/-- A name is looked up by its text. -/
theorem moves_isLocal (name : String) :
    Moves d taken taken Anything (isLocal name) (isLocal name) := by
  intro s s' hs
  change Comes d taken Anything (.ok (s.scope.contains name, s)) (.ok (s'.scope.contains name, s'))
  rw [hs.scope]
  exact .ok trivial hs

/-- Whether a `do` may be taken is a matter of depth, not of place. -/
theorem moves_doBinds : Moves d taken taken Anything doBinds doBinds := by
  intro s s' hs
  change Comes d taken Anything (.ok (s.blocked == 0, s)) (.ok (s'.blocked == 0, s'))
  rw [hs.blocked]
  exact .ok trivial hs

/-- A scope entered on both sides holds the same names. -/
theorem State.Moved.enter (h : s.Moved d taken s') (inherits : Bool) :
    (s.enter inherits).Moved d taken (s'.enter inherits) :=
  { h with
    scope := by rw [State.enter, State.enter, h.scope]
    outer := by rw [State.enter, State.enter, h.scope, h.outer] }

/-- A scope left on both sides leaves the same names. -/
theorem State.Moved.leave (h : s.Moved d taken s') : s.leave.Moved d taken s'.leave :=
  { h with
    scope := by rw [State.leave, State.leave, h.outer]
    outer := by rw [State.leave, State.leave, h.outer] }

variable {p p' : Parser α}

/-- What is read in a scope of its own. -/
theorem Moves.inScope (h : Moves d before behind P p p') (inherits : Bool) :
    Moves d before behind P (inScope inherits p) (inScope inherits p') := by
  intro s s' hs
  have hcomes := h _ _ (hs.enter inherits)
  change Comes d behind P (p (s.enter inherits) >>= _) (p' (s'.enter inherits) >>= _)
  generalize p (s.enter inherits) = x, p' (s'.enter inherits) = x' at hcomes ⊢
  cases hcomes with
  | ok ha hs => exact .ok ha hs.leave
  | error e => exact .error e

/-- What is read with another count of enclosing heads. -/
theorem Moves.withBlocked (h : Moves d before behind P p p') (count : Nat → Nat) :
    Moves d before behind P (withBlocked count p) (withBlocked count p') := by
  intro s s' hs
  have hentered : State.Moved d before { s with blocked := count s.blocked }
      { s' with blocked := count s'.blocked } := { hs with blocked := by rw [hs.blocked] }
  have hcomes := h _ _ hentered
  change Comes d behind P (p { s with blocked := count s.blocked } >>= _)
    (p' { s' with blocked := count s'.blocked } >>= _)
  generalize p { s with blocked := count s.blocked } = x,
    p' { s' with blocked := count s'.blocked } = x' at hcomes ⊢
  cases hcomes with
  | ok ha hleft => exact .ok ha { hleft with blocked := hs.blocked }
  | error e => exact .error e

/-- What is read between brackets. -/
theorem Moves.bracketed (h : Moves d before behind P p p') :
    Moves d before behind P (bracketed p) (bracketed p') :=
  h.withBlocked _

/-- What is read where a `do` is left to the head around it. -/
theorem Moves.keepingDo (h : Moves d before behind P p p') :
    Moves d before behind P (keepingDo p) (keepingDo p') :=
  h.withBlocked _

/-- What a round leaves, or answers. -/
def Rounded (P : σ → Prop) (Q : β → Prop) : Round σ β → Prop
  | .again x => P x
  | .done b => Q b

/-- A repetition moves if its first round does and those behind it do. -/
theorem comes_rounds {S : σ → Prop} {round round' : σ → Parser (Round σ β)} {x : σ} (limit : Nat)
    (hs : s.Moved d before s')
    (hfirst : Comes d behind (Rounded S Q) (round x s) (round' (moved d x) s'))
    (hothers : ∀ x, S x → Moves d behind behind (Rounded S Q) (round x) (round' (moved d x))) :
    Comes d behind Q (rounds limit round x s) (rounds limit round' (moved d x) s') := by
  induction limit generalizing before s s' x with
  | zero => exact moves_fail _ _ _ hs
  | succ fewer ih =>
    refine hfirst.bind fun r hr => ?_
    cases r with
    | again next => exact fun t t' ht => ih ht (hothers next hr t t' ht)
    | done result => exact moves_pure hr rfl

/-- A loop, by induction on its limit: the first round and every other one move. -/
theorem moves_rounds {S : σ → Prop} {round round' : σ → Parser (Round σ β)} {x : σ} (limit : Nat)
    (hfirst : Moves d before behind (Rounded S Q) (round x) (round' (moved d x)))
    (hothers : ∀ x, S x → Moves d behind behind (Rounded S Q) (round x) (round' (moved d x))) :
    Moves d before behind Q (rounds limit round x) (rounds limit round' (moved d x)) :=
  fun s s' hs => comes_rounds limit hs (hfirst s s' hs) hothers

/-- A round that goes on with what was read. -/
theorem Moves.again {S : σ → Prop} {p p' : Parser σ} (h : Moves d before behind S p p') :
    Moves d before behind (Rounded S Q) (Grammar.again p) (Grammar.again p') :=
  h.bind fun _ hx => moves_pure hx rfl

/-- A round that goes on behind a comma. -/
theorem moves_commaRound {S : σ → Prop} {x x' : σ} (hx : S x) (h : x' = moved d x) :
    Moves d taken taken (Rounded S S) (commaRound x) (commaRound x') := by
  subst h
  exact (moves_accept .comma).bind fun _ _ =>
    .ite Iff.rfl (moves_pure hx rfl) (moves_pure hx rfl)

/-- A round that goes on behind a comma and line ends. -/
theorem moves_listRound {S : σ → Prop} {x x' : σ} (hx : S x) (h : x' = moved d x) :
    Moves d taken taken (Rounded S S) (listRound x) (listRound x') := by
  subst h
  exact (moves_accept .comma).bind fun _ _ => .ite Iff.rfl
    (moves_skipNewlines.bind fun _ _ => moves_pure hx rfl) (moves_pure hx rfl)

section Lists

variable {found : List Node} {n : Node}

/-- A node is put behind the ones found, and the loop goes on. -/
theorem moves_again (hfound : ArePlaced found) (hn : IsPlaced n) :
    Moves d taken taken (Rounded ArePlaced Q) (pure (.again (found ++ [n])))
      (pure (.again (moved d found ++ [moved d n]))) :=
  moves_pure (hfound.concat hn) (congrArg Round.again (moved_append found [n]).symm)

/-- A node is put behind the ones found, and the loop ends. -/
theorem moves_done {S : σ → Prop} (hfound : ArePlaced found) (hn : IsPlaced n) :
    Moves d taken taken (Rounded S ArePlaced) (pure (.done (found ++ [n])))
      (pure (.done (moved d found ++ [moved d n]))) :=
  moves_pure (hfound.concat hn) (congrArg Round.done (moved_append found [n]).symm)

/-- What is read is put behind the nodes found. -/
theorem Moves.againWith {p p' : Parser Node} (h : Moves d before behind IsPlaced p p')
    (hfound : ArePlaced found) :
    Moves d before behind (Rounded ArePlaced Q) (Grammar.againWith found p)
      (Grammar.againWith (moved d found) p') :=
  h.bind fun _ hn => moves_again hfound hn

end Lists

/-- A mark that is closed behind some text covers some. -/
theorem stop_upTo_pos (m : Mark) {endLine endColumn stop : Nat} (h : 0 < stop) :
    0 < (m.upTo endLine endColumn stop).stop := by
  rw [Mark.upTo]
  split
  · exact Nat.zero_lt_of_lt ‹_›
  · exact h

/-- A tree that ends behind the start of everything. -/
def IsExtended (n : Node) : Prop := IsPlaced n ∧ 0 < (spanOf n).stop

/-- A node built up to the token before covers the moved text. -/
theorem moves_build_extended (kind : Syntax.Kind) {children children' : List Node}
    {start start' : Mark} (hchildren : children' = moved d children)
    (hstart : start' = moved d start) :
    Moves d true true IsExtended (build kind children start) (build kind children' start') := by
  subst hchildren hstart
  refine moves_previous.bind fun last hlast =>
    moves_pure ⟨isPlaced_tree .., stop_upTo_pos start hlast⟩ ?_
  rw [Node.moved_tree]
  exact congrArg (fun span => Node.tree kind (some span) _) (upTo_moved ..)

/-- A node built up to the token before has a moved place. -/
theorem moves_build (kind : Syntax.Kind) {children children' : List Node} {start start' : Mark}
    (hchildren : children' = moved d children) (hstart : start' = moved d start) :
    Moves d true true IsPlaced (build kind children start) (build kind children' start') :=
  (moves_build_extended kind hchildren hstart).mono fun _ => And.left

/-- A node of one token. -/
theorem moves_single (kind : Syntax.Kind) :
    Moves d taken true IsPlaced (single kind) (single kind) :=
  moves_advance.bind fun _ _ => moves_build kind rfl rfl

/-- A node of one token covers its text. -/
theorem moves_singleAs_extended (kind : Syntax.Kind) (role : Role) :
    Moves d taken true IsExtended (singleAs kind role) (singleAs kind role) :=
  moves_advance.bind fun _ _ => moves_build_extended kind rfl rfl

/-- A node of one token, with the token as a leaf. -/
theorem moves_singleAs (kind : Syntax.Kind) (role : Role) :
    Moves d taken true IsPlaced (singleAs kind role) (singleAs kind role) :=
  (moves_singleAs_extended kind role).mono fun _ => And.left

/-- A node of one token without its text. -/
theorem moves_bare (kind : Syntax.Kind) : Moves d taken true IsPlaced (bare kind) (bare kind) :=
  moves_advance.bind fun _ _ => moves_build kind rfl rfl

/-- The text of a name does not move. -/
theorem moves_takeName : Moves d taken true Anything takeName takeName :=
  moves_advance.bind fun _ _ => moves_pure trivial rfl

/-- Rules whose phrases are read from moved tokens as from the tokens. -/
def Rules.Moving (d : Nat) (g : Rules) : Prop :=
  ∀ (phrase : Phrase) {taken : Bool},
    Moves d taken true IsPlaced (g.read phrase) (g.read (moved d phrase))

end XhrKeywords.Grammar
