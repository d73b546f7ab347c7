import XhrKeywords.Grammar.Literal
import XhrKeywords.Proofs.Grammar.Moved.Basic
import XhrKeywords.Proofs.Grammar.Running

/-!
# Arguments and literals on moved tokens

Whether an operator touches its operand and whether a string starts on the line on which another
one ends are told by differences of places.
-/

namespace XhrKeywords.Grammar

open Syntax hiding Kind
open Token (Kind)

variable {d : Nat} {taken : Bool} {g : Rules} {closer : Option Kind}

theorem beq_add_right (m n k : Nat) : (m + k == n + k) = (m == n) := by
  rw [Bool.eq_iff_iff, beq_iff_eq, beq_iff_eq, Nat.add_right_cancel_iff]

/-- Whether a token opens an argument is told by blanks and by whether the next token touches it. -/
theorem moves_commandStart : Moves d taken taken Anything commandStart commandStart := by
  refine moves_current.bind fun t _ => moves_second.bind fun next _ => moves_pure trivial ?_
  change (t.spaced && (t.kind.startsArgument ||
    (t.kind.startsGluedArgument && next.start + d == t.stop + d && next.kind != .newline
      && next.kind != .eof))) = _
  rw [beq_add_right]
  rfl

/-- The column in front of a token is none of its own line's, so it is not moved. -/
theorem shorten_moved (span : Span) (h : 0 < span.stop) :
    shorten (moved d span) = moved d (shorten span) := by
  have hstop : (moved d span).stop - 1 = span.stop - 1 + d := by
    change span.stop + d - 1 = _
    omega
  rw [shorten, hstop]
  rfl

/-- A name that stands for itself, behind `name:` without a value. -/
theorem moves_nameReference {label : Token} (hlabel : IsSolid label) :
    Moves d taken taken IsPlaced (nameReference label) (nameReference (moved d label)) := by
  have hspan : shorten (moved d label).span = moved d (shorten label.span) :=
    shorten_moved label.span hlabel
  rw [nameReference, nameReference, hspan]
  refine (moves_isLocal label.text).bind fun _ _ => .ite Iff.rfl ?_ ?_
  · exact moves_pure (isPlaced_tree ..) rfl
  · exact moves_pure (isPlaced_tree ..) rfl

/-- The key of a labelled pair. -/
theorem moves_labelKey (label : Token) :
    Moves d true true IsPlaced (labelKey label) (labelKey (moved d label)) :=
  moves_build .sym rfl rfl

/-- Whether the closing mark of a list, if it has one, is there. -/
theorem moves_seesCloser (closer : Option Kind) :
    Moves d taken taken Anything (seesCloser closer) (seesCloser closer) := by
  cases closer with
  | none => exact moves_pure trivial rfl
  | some kind => exact moves_sees kind

/-- Line ends are passed over in a list with a closing mark only. -/
theorem moves_skipNewlinesWithin (closer : Option Kind) :
    Moves d taken taken Anything (skipNewlinesWithin closer) (skipNewlinesWithin closer) :=
  .ite Iff.rfl moves_skipNewlines (moves_pure trivial rfl)

/-- The value behind a label, or the name that the label stands for. -/
theorem moves_labelValue (hg : g.Moving d) (closer : Option Kind) {label : Token}
    (hlabel : IsSolid label) :
    Moves d true true IsPlaced (labelValue g closer label)
      (labelValue g closer (moved d label)) := by
  refine (moves_seesClass _).bind fun _ _ => (moves_seesCloser closer).bind fun _ _ =>
    .ite Iff.rfl (.ite Iff.rfl ?_ ?_) (hg .assignment)
  · exact moves_nameReference hlabel
  · exact moves_failAt label _

/-- A pair `name: value`. -/
theorem moves_labelPair (hg : g.Moving d) (closer : Option Kind) :
    Moves d taken true IsPlaced (labelPair g closer) (labelPair g closer) :=
  moves_advance.bind fun label hlabel => (moves_labelKey label).bind fun _ _ =>
    (moves_labelValue hg closer hlabel).bind fun _ _ => moves_build .pair rfl rfl

/-- A pair `**value`. -/
theorem moves_doubleSplat (hg : g.Moving d) :
    Moves d taken true IsPlaced (doubleSplat g) (doubleSplat g) :=
  moves_advance.bind fun _ _ => (hg .assignment).bind fun _ _ => moves_build .kwsplat rfl rfl

/-- A pair `key => value` whose key has been read. -/
theorem moves_arrowPair (hg : g.Moving d) {key : Node} (hkey : IsPlaced key) :
    Moves d taken true IsPlaced (arrowPair g key) (arrowPair g (moved d key)) :=
  moves_skipNewlines.bind fun _ _ => (hg .assignment).bind fun _ _ =>
    moves_build .pair rfl (ofNode_moved hkey)

/-- An element of a list, with or without a star. -/
theorem moves_splatOr {element element' : Parser Node}
    (helement : ∀ taken, Moves d taken true IsPlaced element element') :
    Moves d taken true IsPlaced (splatOr element) (splatOr element') := by
  refine (moves_sees .star).bind fun _ _ => .ite Iff.rfl ?_ (helement taken)
  exact moves_advance.bind fun _ _ => (helement true).bind fun _ _ => moves_build .splat rfl rfl

/-- Pairs that wait for their hash know their places. -/
def ArePaired (c : Collected) : Prop := ArePlaced c.pairs

/-- The pairs collected so far become the same hash. -/
theorem flush_moved {c : Collected} (h : ArePaired c) :
    (moved d c).flush = moved d c.flush := by
  obtain ⟨arguments, pairs⟩ := c
  cases pairs with
  | nil => rfl
  | cons first others =>
    change moved d arguments ++ [enclose .hash (moved d (first :: others)) (moved d first)
      ((moved d (first :: others)).getLastD (moved d first))] = moved d (arguments ++ [_])
    rw [enclose_all_moved .hash h, moved_append]
    rfl

/-- An argument is collected behind the pairs in front of it. -/
theorem add_moved {c : Collected} (h : ArePaired c) (argument : Node) :
    (moved d c).add (moved d argument) = moved d (c.add argument) := by
  change Collected.mk ((moved d c).flush ++ [moved d argument]) [] =
    ⟨moved d (c.flush ++ [argument]), []⟩
  rw [flush_moved h, moved_append]
  rfl

/-- A pair is collected behind the others. -/
theorem addPair_moved (c : Collected) (pair : Node) :
    (moved d c).addPair (moved d pair) = moved d (c.addPair pair) := by
  change Collected.mk _ (moved d c.pairs ++ [moved d pair]) = ⟨_, moved d (c.pairs ++ [pair])⟩
  rw [moved_append]
  rfl

/-- No pairs are pending behind an argument. -/
theorem arePaired_add (c : Collected) (argument : Node) : ArePaired (c.add argument) :=
  arePlaced_nil

/-- A pair with a place may be collected. -/
theorem arePaired_addPair {c : Collected} (h : ArePaired c) {pair : Node} (hpair : IsPlaced pair) :
    ArePaired (c.addPair pair) :=
  ArePlaced.concat h hpair

/-- The value behind a star or an ampersand, which may be left out. -/
theorem moves_markedValue (hg : g.Moving d) (closer : Option Kind) :
    Moves d true true Anything (markedValue g closer) (markedValue g closer) := by
  refine (moves_sees .comma).bind fun _ _ => (moves_seesCloser closer).bind fun _ _ =>
    .ite Iff.rfl (moves_pure trivial rfl) ?_
  exact (hg .assignment).bind fun _ _ => moves_pure trivial rfl

/-- An argument `*value` or `&value`. -/
theorem moves_markedArgument (hg : g.Moving d) (closer : Option Kind) (kind : Syntax.Kind) :
    Moves d taken true IsPlaced (markedArgument g closer kind) (markedArgument g closer kind) :=
  moves_advance.bind fun _ _ => (moves_markedValue hg closer).bind fun _ _ =>
    moves_build kind rfl rfl

/-- An argument that turns out to be a pair at its arrow. -/
theorem moves_valueOrPair (hg : g.Moving d) (closer : Option Kind) {c : Collected}
    (hc : ArePaired c) :
    Moves d taken true ArePaired (valueOrPair g closer c) (valueOrPair g closer (moved d c)) := by
  have hread : Moves d taken true IsPlaced
      (g.read (if closer.isSome then .negation else .assignment))
      (g.read (if closer.isSome then .negation else .assignment)) := by
    cases closer with
    | none => exact hg .assignment
    | some _ => exact hg .negation
  refine hread.bind fun value hvalue => (moves_accept .assoc).bind fun _ _ => .ite Iff.rfl ?_ ?_
  · exact (moves_arrowPair hg hvalue).bind fun n hn =>
      moves_pure (arePaired_addPair hc hn) (addPair_moved c n)
  · exact moves_pure (arePaired_add c value) (add_moved hc value)

/-- One argument, by the kind of its first token. -/
theorem moves_argument (hg : g.Moving d) (closer : Option Kind) {c : Collected}
    (hc : ArePaired c) :
    Moves d taken true ArePaired (argument g closer c) (argument g closer (moved d c)) := by
  refine moves_current.bind fun t _ => ?_
  rw [kind_moved]
  split
  · exact (moves_markedArgument hg closer .splat).bind fun n _ =>
      moves_pure (arePaired_add c n) (add_moved hc n)
  · exact (moves_markedArgument hg closer .blockPass).bind fun n _ =>
      moves_pure (arePaired_add c n) (add_moved hc n)
  · exact (moves_doubleSplat hg).bind fun n hn =>
      moves_pure (arePaired_addPair hc hn) (addPair_moved c n)
  · exact (moves_labelPair hg closer).bind fun n hn =>
      moves_pure (arePaired_addPair hc hn) (addPair_moved c n)
  · exact (moves_labelPair hg closer).bind fun n hn =>
      moves_pure (arePaired_addPair hc hn) (addPair_moved c n)
  · exact moves_valueOrPair hg closer hc

/-- One round of an argument list. -/
theorem moves_argumentRound (hg : g.Moving d) (closer : Option Kind) {c : Collected}
    (hc : ArePaired c) :
    Moves d true true (Rounded ArePaired ArePaired) (argumentRound g closer c)
      (argumentRound g closer (moved d c)) := by
  refine (moves_skipNewlinesWithin closer).bind fun _ _ =>
    (moves_seesCloser closer).bind fun _ _ => .ite Iff.rfl (moves_pure hc rfl) ?_
  exact (moves_argument hg closer hc).bind fun _ hmore =>
    (moves_skipNewlinesWithin closer).bind fun _ _ => moves_listRound hmore rfl

/-- The arguments of a call, with the pairs among them as hashes. -/
theorem moves_arguments (hg : g.Moving d) (closer : Option Kind) :
    Moves d true true Anything (arguments g closer) (arguments g closer) := by
  have hempty : ArePaired .empty := arePlaced_nil
  refine (moves_rounds g.limit (moves_argumentRound hg closer hempty)
    fun _ => moves_argumentRound hg closer).bind fun c hc => ?_
  cases closer with
  | none => exact moves_pure trivial (flush_moved hc)
  | some kind =>
    exact (moves_expectOr kind _).bind fun _ _ => moves_pure trivial (flush_moved hc)

/-- Arguments between parentheses or brackets. -/
theorem moves_delimitedArguments (hg : g.Moving d) (closer : Kind) :
    Moves d taken true Anything (delimitedArguments g closer) (delimitedArguments g closer) :=
  moves_advance.bind fun _ _ => (moves_arguments hg (some closer)).bracketed

/-- A string literal behind another one, on the same line. -/
theorem moves_stringRound {found : List Node} (hfound : ArePlaced found) :
    Moves d true true (Rounded ArePlaced ArePlaced) (stringRound found)
      (stringRound (moved d found)) := by
  refine moves_current.bind fun t _ => moves_previous.bind fun last _ => ?_
  refine .ite ?_ ?_ (moves_pure hfound rfl)
  · rw [line_moved, endLine_moved, beq_add_right]
    cases found <;> rfl
  · exact (moves_single .str).againWith hfound

/-- The first round of a string asks for no token before. -/
theorem stringRound_nil :
    stringRound [] = sees .string >>= fun seen =>
      if seen then againWith [] (single .str) else pure (.done []) := by
  funext s
  rw [stringRound, bind_of_eq (current_run s), bind_of_eq (previous_run s),
    bind_of_eq (sees_run ..), List.isEmpty_nil, Bool.true_or, Bool.and_true]

/-- String literals side by side are one node. -/
theorem moves_strings (g : Rules) : Moves d taken true IsPlaced (strings g) (strings g) := by
  intro s s' hs
  have hfirst : stringRound [] s = if s.current.kind == .string then
      againWith [] (single .str) s else .ok (.done [], s) := by
    rw [stringRound_nil, bind_of_eq (sees_run ..)]
    split <;> rfl
  have hfirst' : stringRound [] s' = if s.current.kind == .string then
      againWith [] (single .str) s' else .ok (.done [], s') := by
    rw [stringRound_nil, bind_of_eq (sees_run ..), hs.current, kind_moved]
    split <;> rfl
  by_cases hkind : (s.current.kind == .string) = true
  · rw [if_pos hkind] at hfirst hfirst'
    have hloop : Comes d true ArePlaced (g.loop stringRound [] s) (g.loop stringRound [] s') := by
      refine comes_rounds g.limit hs (x := []) ?_ fun _ => moves_stringRound
      rw [hfirst, moved_nil, hfirst']
      exact (moves_single .str).againWith arePlaced_nil s s' hs
    refine hloop.bind fun nodes hnodes => ?_
    match nodes, hnodes with
    | [], _ => exact moves_fail _
    | [only], hnodes => exact moves_pure (hnodes only List.mem_cons_self) rfl
    | first :: second :: others, hnodes =>
      exact moves_build .dstr rfl (ofNode_moved (hnodes first List.mem_cons_self))
  · rw [if_neg hkind] at hfirst hfirst'
    have hloop : Comes d taken (fun nodes : List Node => nodes = []) (g.loop stringRound [] s)
        (g.loop stringRound [] s') := by
      refine comes_rounds g.limit hs (S := fun _ => False) (x := []) ?_ fun _ h => h.elim
      rw [hfirst, moved_nil, hfirst']
      exact .ok rfl hs
    refine hloop.bind fun nodes hnodes => ?_
    subst hnodes
    exact moves_fail _

/-- A pair of a hash literal, with its arrow. -/
theorem moves_rocketPair (hg : g.Moving d) :
    Moves d taken true IsPlaced (rocketPair g) (rocketPair g) :=
  (hg .assignment).bind fun _ hkey => moves_skipNewlines.bind fun _ _ =>
    (moves_expectOr .assoc _).bind fun _ _ => moves_arrowPair hg hkey

/-- An element of a hash literal, by its first token. -/
theorem moves_hashElement (hg : g.Moving d) :
    Moves d taken true IsPlaced (hashElement g) (hashElement g) := by
  refine moves_current.bind fun t _ => ?_
  rw [kind_moved]
  split
  · exact moves_doubleSplat hg
  · exact moves_labelPair hg _
  · exact moves_labelPair hg _
  · exact moves_rocketPair hg

/-- One round of a hash literal. -/
theorem moves_hashRound (hg : g.Moving d) {found : List Node} (hfound : ArePlaced found) :
    Moves d true true (Rounded ArePlaced ArePlaced) (hashRound g found)
      (hashRound g (moved d found)) := by
  refine moves_skipNewlines.bind fun _ _ => (moves_sees .rbrace).bind fun _ _ =>
    .ite Iff.rfl (moves_pure hfound rfl) ?_
  exact (moves_hashElement hg).bind fun next hnext => moves_skipNewlines.bind fun _ _ =>
    moves_commaRound (hfound.concat hnext) (moved_append found [next]).symm

/-- A hash literal up to its brace. -/
theorem moves_closedHash (start : Token) (pairs : List Node) :
    Moves d true true IsPlaced (closedHash start pairs)
      (closedHash (moved d start) (moved d pairs)) :=
  moves_skipNewlines.bind fun _ _ => (moves_expectCloser .rbrace _ _).bind fun _ _ =>
    moves_build .hash rfl rfl

/-- A hash literal. -/
theorem moves_hash (hg : g.Moving d) : Moves d taken true IsPlaced (hash g) (hash g) := by
  refine Moves.bracketed ((moves_expect .lbrace).bind fun start _ => ?_)
  refine (moves_rounds g.limit (moves_hashRound hg arePlaced_nil)
    fun _ => moves_hashRound hg).bind fun pairs _ => ?_
  exact moves_closedHash start pairs

/-- A name in an `alias`. -/
theorem moves_aliasName : Moves d taken true IsPlaced aliasName aliasName := by
  refine moves_current.bind fun t _ => ?_
  rw [kind_moved]
  split
  · exact moves_singleAs .sym _
  · exact moves_singleAs .sym _
  · exact moves_singleAs .sym _
  · exact moves_single .gvar
  · exact .ite Iff.rfl (moves_singleAs .sym _) (moves_fail _)

end XhrKeywords.Grammar
