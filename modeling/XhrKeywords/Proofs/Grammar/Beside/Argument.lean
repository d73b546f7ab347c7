import XhrKeywords.Grammar.Literal
import XhrKeywords.Proofs.Grammar.Beside.Basic

/-!
# Arguments and literals beside each other

A label, a star or an ampersand may stand without its value in front of a closer. Both closers end
a list of arguments in this way, so a value is left out on both sides or on none. Only an operator
that starts an argument when something touches it may be read on one side and not on the other:
the run that goes on has then no operand to read.
-/

namespace XhrKeywords.Grammar

open Syntax hiding Kind
open Token (Kind)

variable {α : Type} [Likeness α] {k l : Int} {g g' : Rules}

/-- Whether a state is in front of the arguments of a call without parentheses. -/
def State.startsCommand (s : State) : Bool :=
  s.current.spaced && (s.current.kind.startsArgument ||
    (s.current.kind.startsGluedArgument && s.second.start == s.current.stop
      && s.second.kind != .newline && s.second.kind != .eof))

/-- Whether an argument starts is told by the state alone. -/
theorem commandStart_eq (s : State) : commandStart s = .ok (s.startsCommand, s) := rfl

/-- Whether arguments start is a matter of what lies inside, unless there is but an operator. -/
theorem State.Beside.startsCommand {s s' : State} (hs : s.Beside k l s') :
    s.startsCommand = s'.startsCommand ∨ (s.Ends .rbrace ∧ s'.Ends .rpar) := by
  obtain ⟨current, ahead, previous, blocked, scope, outer⟩ := s
  obtain ⟨current', ahead', previous', blocked', scope', outer'⟩ := s'
  have htokens := hs.tokens
  dsimp only at htokens
  cases htokens with
  | closer brace paren _ _ _ => exact .inr ⟨.inl brace, .inl paren⟩
  | token displaced closed =>
    obtain ⟨next, others, rfl⟩ := List.exists_cons_of_ne_nil closed.ne_nil.1
    obtain ⟨next', others', rfl⟩ := List.exists_cons_of_ne_nil closed.ne_nil.2
    rcases closed.faces with hnext | ⟨hbrace, hparen⟩
    · left
      change (current.spaced && (current.kind.startsArgument ||
          (current.kind.startsGluedArgument && next.start == current.stop
            && next.kind != .newline && next.kind != .eof))) =
        (current'.spaced && (current'.kind.startsArgument ||
          (current'.kind.startsGluedArgument && next'.start == current'.stop
            && next'.kind != .newline && next'.kind != .eof)))
      rw [displaced.spaced, displaced.kind, hnext.kind, displaced.touches hnext]
    · cases hglued : current.kind.startsGluedArgument with
      | true =>
        have hglued' : current'.kind.startsGluedArgument = true := by rwa [displaced.kind]
        exact .inr ⟨.inr ⟨hglued, hbrace⟩, .inr ⟨hglued', hparen⟩⟩
      | false =>
        left
        have hglued' : current'.kind.startsGluedArgument = false := by rwa [displaced.kind]
        simp only [State.startsCommand, displaced.spaced, displaced.kind, hglued, Bool.false_and]

/-- Arguments that only one of the runs takes for such are no arguments. -/
theorem Agrees.commandStart {p p' q q' : Parser α} (hp : Agrees k l p p') (hq : Agrees k l q q')
    (hstuck : Stuck (State.Ends .rbrace) p) (hstuck' : Stuck (State.Ends .rpar) p') :
    Agrees k l (do if ← commandStart then p else q) (do if ← commandStart then p' else q') where
  stays := maintains_commandStart.bind fun _ _ => .ite hp.stays hq.stays
  alike := by
    intro s s' a b t t' hs hrun hrun'
    rw [bind_of_eq (commandStart_eq s)] at hrun
    rw [bind_of_eq (commandStart_eq s')] at hrun'
    rcases hs.startsCommand with hsame | ⟨hends, hends'⟩
    · rw [← hsame] at hrun'
      exact (Agrees.ite Iff.rfl hp hq).alike hs hrun hrun'
    · split at hrun
      · exact absurd hrun (hstuck hends)
      · split at hrun'
        · exact absurd hrun' (hstuck' hends')
        · exact hq.alike hs hrun hrun'

/-- A label that stands for itself is read as the same name. -/
theorem agrees_nameReference {label label' : Token} (h : Alike label label') :
    Agrees k l (nameReference label) (nameReference label') := by
  rw [nameReference, nameReference, h.2.1]
  refine (agrees_isLocal label.text).bind fun known known' hknown => ?_
  refine .ite (by rw [show known = known' from hknown]) (agrees_pure ?_) (agrees_pure ?_)
  · rfl
  · rfl

/-- A label is the same key wherever it is. -/
theorem agrees_labelKey {label label' : Token} (h : Alike label label') :
    Agrees k l (labelKey label) (labelKey label') := by
  refine agrees_build .sym _ _ (alike_cons ?_ alike_nil)
  rw [h.1]
  exact alike_leafAs h _

/-- The closing mark of a list is seen as a class of kinds is. -/
theorem seesCloser_eq (closer : Option Kind) :
    seesCloser closer = seesClass fun kind => some kind == closer := by
  cases closer <;> rfl

/-- Line ends in a list with a closing mark. -/
theorem agrees_skipNewlinesWithin (closer : Option Kind) :
    Agrees k l (skipNewlinesWithin closer) (skipNewlinesWithin closer) :=
  .ite Iff.rfl agrees_skipNewlines (agrees_pure trivial)

/-- The value of a label may be left out in front of any closer. -/
theorem labelValue_closer (g : Rules) {closer : Option Kind}
    (h : ∀ kind, closer = some kind → kind.stopsLabelValue = true) (label : Token) :
    labelValue g closer label = labelValue g none label := by
  funext s
  rw [labelValue, labelValue, bind_of_eq (seesClass_run ..), bind_of_eq (seesClass_run ..),
    seesCloser_eq, seesCloser_eq, bind_of_eq (seesClass_run ..), bind_of_eq (seesClass_run ..)]
  have hsame : (s.current.kind.stopsLabelValue || some s.current.kind == closer) =
      (s.current.kind.stopsLabelValue || some s.current.kind == none) := by
    cases hkind : some s.current.kind == closer with
    | false => rfl
    | true =>
      rw [h s.current.kind (beq_iff_eq.mp hkind).symm]
      rfl
  rw [hsame]

/-- The value behind a label ends in front of either closer. -/
theorem agrees_labelValue (hg : g.Beside k l g') {closer closer' : Option Kind}
    (h : ∀ kind, closer = some kind → kind.stopsLabelValue = true)
    (h' : ∀ kind, closer' = some kind → kind.stopsLabelValue = true) {label label' : Token}
    (hlabel : Alike label label') :
    Agrees k l (labelValue g closer label) (labelValue g' closer' label') := by
  rw [labelValue_closer g h, labelValue_closer g' h']
  refine (agrees_seesClass _ rfl).bind fun a b hab =>
    Agrees.bind (agrees_pure rfl) fun c d hcd => ?_
  refine .ite (by rw [show a = b from hab, show c = d from hcd]) (.ite (by rw [hlabel.1]) ?_ ?_) ?_
  · exact agrees_nameReference hlabel
  · exact agrees_failAt label label' _ _
  · exact hg.phrase .assignment

/-- A pair `name: value`. -/
theorem agrees_labelPair (hg : g.Beside k l g') {closer closer' : Option Kind}
    (h : ∀ kind, closer = some kind → kind.stopsLabelValue = true)
    (h' : ∀ kind, closer' = some kind → kind.stopsLabelValue = true) :
    Agrees k l (labelPair g closer) (labelPair g' closer') :=
  agrees_advance.bind fun _ _ hlabel => (agrees_labelKey hlabel).bind fun _ _ hkey =>
    (agrees_labelValue hg h h' hlabel).bind fun _ _ hvalue =>
      agrees_build .pair _ _ (alike_cons hkey (alike_cons hvalue alike_nil))

/-- A pair `**value`. -/
theorem agrees_doubleSplat (hg : g.Beside k l g') :
    Agrees k l (doubleSplat g) (doubleSplat g') :=
  agrees_advance.bind fun _ _ _ => (hg.phrase .assignment).bind fun _ _ hinner =>
    agrees_build .kwsplat _ _ (alike_cons hinner alike_nil)

/-- A pair `key => value` whose key has been read. -/
theorem agrees_arrowPair (hg : g.Beside k l g') {key key' : Node} (hkey : Alike key key') :
    Agrees k l (arrowPair g key) (arrowPair g' key') :=
  agrees_skipNewlines.bind fun _ _ _ => (hg.phrase .assignment).bind fun _ _ hvalue =>
    agrees_build .pair _ _ (alike_cons hkey (alike_cons hvalue alike_nil))

/-- An element of a list, with or without a star. -/
theorem agrees_splatOr {element element' : Parser Node} (h : Agrees k l element element') :
    Agrees k l (splatOr element) (splatOr element') := by
  refine (agrees_sees rfl).test ?_ h
  exact agrees_advance.bind fun _ _ _ => h.bind fun _ _ hn =>
    agrees_build .splat _ _ (alike_cons hn alike_nil)

/-- Pairs that are alike become hashes that are alike. -/
theorem alike_flush {c d : Collected} (h : Alike c d) : Alike c.flush d.flush := by
  obtain ⟨arguments, pairs⟩ := c
  obtain ⟨arguments', pairs'⟩ := d
  obtain ⟨harguments, hpairs⟩ := h
  have hlength : pairs.length = pairs'.length := length_eq_of_alike hpairs
  match pairs, pairs' with
  | [], [] => exact harguments
  | first :: others, first' :: others' =>
    exact alike_concat harguments (alike_enclose .hash hpairs _ _ _ _)

/-- An argument is collected on both sides. -/
theorem alike_add {c d : Collected} (h : Alike c d) {n n' : Node} (hn : Alike n n') :
    Alike (c.add n) (d.add n') :=
  ⟨alike_concat (alike_flush h) hn, alike_nil⟩

/-- A pair is collected on both sides. -/
theorem alike_addPair {c d : Collected} (h : Alike c d) {n n' : Node} (hn : Alike n n') :
    Alike (c.addPair n) (d.addPair n') :=
  ⟨h.1, alike_concat h.2 hn⟩

/-- The value of a mark is left out in front of a comma, and in front of the closer of its list. -/
theorem markedValue_eq (g : Rules) (closer : Option Kind) :
    markedValue g closer = (do
      if ← seesClass fun next => next == .comma || some next == closer then return []
      else return [← g.read .assignment]) := by
  rw [markedValue]
  simp only [seesCloser_eq]
  rfl

/-- The value behind a star or an ampersand is left out in front of either closer. -/
theorem agrees_markedValue (hg : g.Beside k l g') (closer : Option Kind) :
    Agrees k l (markedValue g closer) (markedValue g' closer) := by
  rw [markedValue_eq, markedValue_eq]
  refine .branch _ (agrees_pure alike_nil) ?_ (hg.stuck .assignment rfl).bind
    (hg.stuck' .assignment rfl).bind
  exact (hg.phrase .assignment).bind fun _ _ hn => agrees_pure (alike_cons hn alike_nil)

/-- An argument `*value` or `&value`. -/
theorem agrees_markedArgument (hg : g.Beside k l g') (closer : Option Kind)
    (kind : Syntax.Kind) :
    Agrees k l (markedArgument g closer kind) (markedArgument g' closer kind) :=
  agrees_advance.bind fun _ _ _ => (agrees_markedValue hg closer).bind fun _ _ hfound =>
    agrees_build kind _ _ hfound

/-- Closers in front of which a value may be left out. -/
def ClosesValues (closer : Option Kind) : Prop :=
  ∀ kind, closer = some kind → kind.stopsLabelValue = true

/-- An argument that turns out to be a pair at its arrow. -/
theorem agrees_valueOrPair (hg : g.Beside k l g') (closer : Option Kind) {c d : Collected}
    (h : Alike c d) : Agrees k l (valueOrPair g closer c) (valueOrPair g' closer d) := by
  refine (hg.phrase _).bind fun value value' hvalue =>
    (agrees_accept rfl).test ?_ (agrees_pure (alike_add h hvalue))
  exact (agrees_arrowPair hg hvalue).bind fun _ _ hn => agrees_pure (alike_addPair h hn)

/-- One argument, by the kind of its first token. -/
theorem agrees_argument (hg : g.Beside k l g') {closer : Option Kind}
    (hcloser : ClosesValues closer) {c d : Collected} (h : Alike c d) :
    Agrees k l (argument g closer c) (argument g' closer d) := by
  refine Agrees.current fun t t' ht => ?_
  rcases ht with ⟨hkind, -, -⟩ | ⟨hbrace, hparen⟩
  · rw [hkind]
    split
    · exact (agrees_markedArgument hg closer .splat).bind fun _ _ hn => agrees_pure (alike_add h hn)
    · exact (agrees_markedArgument hg closer .blockPass).bind fun _ _ hn =>
        agrees_pure (alike_add h hn)
    · exact (agrees_doubleSplat hg).bind fun _ _ hn => agrees_pure (alike_addPair h hn)
    · exact (agrees_labelPair hg hcloser hcloser).bind fun _ _ hn =>
        agrees_pure (alike_addPair h hn)
    · exact (agrees_labelPair hg hcloser hcloser).bind fun _ _ hn =>
        agrees_pure (alike_addPair h hn)
    · exact agrees_valueOrPair hg closer h
  · rw [hbrace, hparen]
    exact agrees_valueOrPair hg closer h

/-- The operators that may start an argument. -/
theorem cases_of_startsGluedArgument {kind : Kind} (h : kind.startsGluedArgument = true) :
    kind = .star ∨ kind = .amp ∨ kind = .pow ∨ kind = .minus ∨ kind = .plus ∨ kind = .colon2 := by
  revert h
  cases kind <;> decide

section Stuck

variable {kind : Kind} (hkind : kind = .rbrace ∨ kind = .rpar)

include hkind

/-- Nothing that starts with a closer is an argument. -/
theorem stuck_argument {closer : Option Kind} {c : Collected}
    (hread : ∀ phrase : Phrase, phrase.isExpression = true →
      Stuck (State.Before kind) (g.read phrase)) :
    Stuck (State.Before kind) (argument g closer c) := by
  have hphrase : (if closer.isSome then Phrase.negation else .assignment).isExpression = true := by
    split <;> rfl
  rintro s r hs
  rw [argument, bind_of_eq (current_run s), show s.current.kind = kind from hs]
  rcases hkind with rfl | rfl
  · exact (hread _ hphrase).bind hs
  · exact (hread _ hphrase).bind hs

variable (hread : ∀ phrase : Phrase, phrase.isExpression = true →
  Stuck (State.Ends kind) (g.read phrase))

include hread

/-- Nor is an operator that only a closer follows. -/
theorem stuck_argument_none {c : Collected} :
    Stuck (State.Ends kind) (argument g none c) := by
  have hsplat {s : State} {r : Node × State} (hs : s.second.kind = kind) :
      doubleSplat g s ≠ .ok r := by
    rw [doubleSplat, bind_of_eq (advance_run s)]
    refine (hread .assignment rfl).bind (.inl ?_)
    rwa [State.current_advance]
  have hmarked (tree : Syntax.Kind) {s : State} {r : Node × State} (hs : s.second.kind = kind) :
      markedArgument g none tree s ≠ .ok r := by
    have hcomma : ((kind == .comma) || some kind == none) = false := by
      rcases hkind with rfl | rfl <;> rfl
    intro hrun
    rw [markedArgument, bind_of_eq (advance_run s)] at hrun
    obtain ⟨found, u, hfound, -⟩ := of_bind hrun
    rw [markedValue_eq, bind_of_eq (seesClass_run ..), State.current_advance, hs, hcomma,
      if_neg Bool.false_ne_true] at hfound
    refine (hread .assignment rfl).bind (.inl ?_) hfound
    rwa [State.current_advance]
  intro s r hs
  rcases hs with hs | ⟨hglued, hs⟩
  · exact stuck_argument hkind (fun phrase h => (hread phrase h).of_imp fun _ => .inl) hs
  · rw [argument, bind_of_eq (current_run s)]
    rcases cases_of_startsGluedArgument hglued with h | h | h | h | h | h <;> rw [h]
    · intro hrun
      obtain ⟨_, _, hrun, -⟩ := of_bind hrun
      exact hmarked .splat hs hrun
    · intro hrun
      obtain ⟨_, _, hrun, -⟩ := of_bind hrun
      exact hmarked .blockPass hs hrun
    · intro hrun
      obtain ⟨_, _, hrun, -⟩ := of_bind hrun
      exact hsplat hs hrun
    · exact (hread .assignment rfl).bind (.inr ⟨hglued, hs⟩)
    · exact (hread .assignment rfl).bind (.inr ⟨hglued, hs⟩)
    · exact (hread .assignment rfl).bind (.inr ⟨hglued, hs⟩)

/-- Arguments without a closing mark have to start with an expression. -/
theorem stuck_arguments_none : Stuck (State.Ends kind) (arguments g none) := by
  refine Stuck.bind ?_
  rw [Rules.loop]
  cases g.limit with
  | zero => exact stuck_fail _
  | succ fewer =>
    refine Stuck.bind ?_
    intro s r hs hrun
    obtain ⟨_, _, ⟨⟩, hrun⟩ := of_bind hrun
    obtain ⟨_, _, ⟨⟩, hrun⟩ := of_bind hrun
    exact (stuck_argument_none hkind hread).bind hs hrun

end Stuck

/-- One round of an argument list. -/
theorem agrees_argumentRound (hg : g.Beside k l g') {closer : Option Kind}
    (hcloser : ClosesValues closer) {c d : Collected} (h : Alike c d) :
    Agrees k l (argumentRound g closer c) (argumentRound g' closer d) := by
  rw [argumentRound, argumentRound, seesCloser_eq]
  refine (agrees_skipNewlinesWithin closer).bind fun _ _ _ =>
    .branch _ (agrees_pure (.done h)) ?_ (stuck_argument (.inl rfl) hg.stuck).bind
      (stuck_argument (.inr rfl) hg.stuck').bind
  exact (agrees_argument hg hcloser h).bind fun more more' hmore =>
    (agrees_skipNewlinesWithin closer).bind fun _ _ _ => agrees_listRound hmore

/-- The arguments of a call. -/
theorem agrees_arguments (hg : g.Beside k l g') {closer : Option Kind}
    (hcloser : ClosesValues closer) :
    Agrees k l (arguments g closer) (arguments g' closer) := by
  refine (Agrees.rounds (fun _ _ => agrees_argumentRound hg hcloser) g.limit g'.limit
    (Likeness.refl Collected.empty)).bind fun c d h => ?_
  cases closer with
  | none => exact agrees_pure (alike_flush h)
  | some kind => exact (agrees_expectOr kind _ _).bind fun _ _ _ => agrees_pure (alike_flush h)

/-- Arguments between a mark of their own and its closer, neither of which is the closer here. -/
theorem agrees_delimitedArguments (hg : g.Beside k l g') {closer : Kind}
    (hcloser : closer.stopsLabelValue = true) :
    Agrees k l (delimitedArguments g closer) (delimitedArguments g' closer) := by
  have hcloses : ClosesValues (some closer) := by
    rintro _ ⟨rfl⟩
    exact hcloser
  exact agrees_advance.bind fun _ _ _ => (agrees_arguments hg hcloses).bracketed

/-- A list without a closing mark has none to be mistaken for the closer. -/
theorem closesValues_none : ClosesValues none := fun _ h => by cases h

/-- A further string leaves a state outside where it is. -/
theorem maintains_stringRound (found : List Node) :
    Maintains State.Outside (stringRound found) :=
  maintains_current.bind fun _ _ => maintains_previous.bind fun _ _ =>
    .ite ((maintains_single .str).bind fun _ _ => maintains_pure _) (maintains_pure _)

/-- Whether another string follows. -/
def State.seesString (found : List Node) (s : State) : Bool :=
  s.current.kind == .string && (found.isEmpty || s.current.line == s.previous.endLine)

/-- A further string is taken if the state sees one. -/
theorem stringRound_run (found : List Node) (s : State) :
    stringRound found s = (if s.seesString found then againWith found (single .str)
      else pure (.done found) : Parser (Round (List Node) (List Node))) s := rfl

/-- The token taken becomes the one before. -/
theorem previous_advance (s : State) : s.advance.previous = s.current := by
  rw [State.advance]
  cases s.ahead <;> rfl

/-- Strings follow each other on the same lines, for the one before is inside as well. -/
theorem alike_stringRounds {limit limit' : Nat} {found found' strings strings' : List Node}
    {s s' t t' : State} (hs : s.Beside k l s') (hfound : Alike found found')
    (hprevious : found = [] ∨ s.previous.Displaced k l s'.previous)
    (hrun : rounds limit stringRound found s = .ok (strings, t))
    (hrun' : rounds limit' stringRound found' s' = .ok (strings', t')) :
    t.Outside ∨ (Alike strings strings' ∧ t.Beside k l t') := by
  -- The rounds are counted down on both sides; that the last string is displaced carries over, as
  -- the lines of two strings are compared.
  induction limit generalizing limit' found found' s s' with
  | zero => cases hrun
  | succ fewer ih =>
    cases limit' with
    | zero => cases hrun'
    | succ fewer' =>
      have hempty : found.isEmpty = found'.isEmpty := isEmpty_eq_of_alike hfound
      have hsees : s.seesString found = s'.seesString found' := by
        rw [State.seesString, State.seesString, ← hempty]
        rcases hs.faces with hcurrent | ⟨hbrace, hparen⟩
        · rw [hcurrent.kind]
          rcases hprevious with rfl | hprevious
          · rfl
          · rw [hprevious.follows hcurrent]
        · rw [hbrace, hparen]
          rfl
      obtain ⟨r, u, hround, hrun⟩ := of_bind hrun
      obtain ⟨r', u', hround', hrun'⟩ := of_bind hrun'
      rw [stringRound_run] at hround hround'
      rw [← hsees] at hround'
      by_cases hmore : s.seesString found = true
      · rw [if_pos hmore] at hround hround'
        obtain ⟨n, hsingle, rfl⟩ := of_againWith hround
        obtain ⟨n', hsingle', rfl⟩ := of_againWith hround'
        have hstays : ∀ found, Maintains State.Outside (rounds fewer stringRound found) :=
          maintains_rounds fewer maintains_stringRound
        rcases (agrees_single .str).alike hs hsingle hsingle' with hout | ⟨hn, hu⟩
        · exact .inl (hstays _ hout hrun).1
        · rcases hs.advance with hout | ⟨hcurrent, -⟩
          · cases hsingle
            exact .inl (hstays _ hout hrun).1
          · refine ih hu (alike_concat hfound hn) (.inr ?_) hrun hrun'
            cases hsingle
            cases hsingle'
            rw [previous_advance, previous_advance]
            exact hcurrent
      · rw [if_neg hmore] at hround hround'
        cases hround
        cases hround'
        cases hrun
        cases hrun'
        exact .inr ⟨hfound, hs⟩

/-- String literals side by side, told by the lines they are on. -/
theorem agrees_strings (g g' : Rules) : Agrees k l (strings g) (strings g') := by
  have hloop : Agrees k l (g.loop stringRound []) (g'.loop stringRound []) :=
    ⟨maintains_rounds g.limit maintains_stringRound [],
      fun _ _ _ _ _ _ hs => alike_stringRounds hs alike_nil (.inl rfl)⟩
  refine hloop.bind fun nodes nodes' h => ?_
  have hlength := length_eq_of_alike h
  match nodes, nodes' with
  | [], [] => exact agrees_fail _ _
  | [only], [only'] => exact agrees_pure (List.singleton_inj.mp h)
  | first :: second :: others, first' :: second' :: others' => exact agrees_build .dstr _ _ h

/-- A pair of a hash literal, with its arrow. -/
theorem agrees_rocketPair (hg : g.Beside k l g') : Agrees k l (rocketPair g) (rocketPair g') :=
  (hg.phrase .assignment).bind fun _ _ hkey => agrees_skipNewlines.bind fun _ _ _ =>
    (agrees_expectOr .assoc _ _).bind fun _ _ _ => agrees_arrowPair hg hkey

/-- An element of a hash literal, by its first token. -/
theorem agrees_hashElement (hg : g.Beside k l g') :
    Agrees k l (hashElement g) (hashElement g') := by
  have hbrace : ClosesValues (some .rbrace) := by
    rintro _ ⟨rfl⟩
    rfl
  refine Agrees.current fun t t' ht => ?_
  rcases ht with ⟨hkind, -, -⟩ | ⟨hbrace, hparen⟩
  · rw [hkind]
    split
    · exact agrees_doubleSplat hg
    · exact agrees_labelPair hg hbrace hbrace
    · exact agrees_labelPair hg hbrace hbrace
    · exact agrees_rocketPair hg
  · rw [hbrace, hparen]
    exact agrees_rocketPair hg

/-- No element of a hash starts with a closer. -/
theorem stuck_hashElement {kind : Kind} (hkind : kind = .rbrace ∨ kind = .rpar)
    (hread : Stuck (State.Before kind) (g.read .assignment)) :
    Stuck (State.Before kind) (hashElement g) := by
  intro s r hs
  rw [hashElement, bind_of_eq (current_run s), show s.current.kind = kind from hs]
  rcases hkind with rfl | rfl
  · exact hread.bind hs
  · exact hread.bind hs

/-- One round of a hash literal. -/
theorem agrees_hashRound (hg : g.Beside k l g') {found found' : List Node}
    (h : Alike found found') : Agrees k l (hashRound g found) (hashRound g' found') := by
  refine agrees_skipNewlines.bind fun _ _ _ => .branch (· == .rbrace)
    (agrees_pure (.done h)) ?_ (stuck_hashElement (.inl rfl) (hg.stuck .assignment rfl)).bind
      (stuck_hashElement (.inr rfl) (hg.stuck' .assignment rfl)).bind
  exact (agrees_hashElement hg).bind fun next next' hnext => agrees_skipNewlines.bind fun _ _ _ =>
    agrees_commaRound (alike_concat h hnext)

/-- A hash literal up to its brace. -/
theorem agrees_closedHash (start start' : Token) {pairs pairs' : List Node}
    (h : Alike pairs pairs') : Agrees k l (closedHash start pairs) (closedHash start' pairs') :=
  agrees_skipNewlines.bind fun _ _ _ => (agrees_expectCloser .rbrace _ _).bind fun _ _ _ =>
    agrees_build .hash _ _ h

/-- A hash literal inside is closed by a brace of its own. -/
theorem agrees_hash (hg : g.Beside k l g') : Agrees k l (hash g) (hash g') := by
  refine Agrees.bracketed ((agrees_expect .lbrace).bind fun start start' _ => ?_)
  exact (Agrees.rounds (fun _ _ => agrees_hashRound hg) g.limit g'.limit alike_nil).bind
    fun pairs pairs' hpairs => agrees_closedHash start start' hpairs

/-- A name in an `alias`. -/
theorem agrees_aliasName : Agrees k l aliasName aliasName := by
  refine Agrees.current fun t t' ht => ?_
  rcases ht with ⟨hkind, -, -⟩ | ⟨hbrace, hparen⟩
  · rw [hkind]
    split
    · exact agrees_singleAs .sym _
    · exact agrees_singleAs .sym _
    · exact agrees_singleAs .sym _
    · exact agrees_single .gvar
    · exact .ite Iff.rfl (agrees_singleAs .sym _) (agrees_fail _ _)
  · rw [hbrace, hparen]
    exact agrees_fail _ _

end XhrKeywords.Grammar
