import XhrKeywords.Proofs.Grammar.Watch.Basic

/-!
# Watching arguments, lists, bodies and parameters

Pairs, arguments and parameters begin with a token whose kind has been seen, so that the leaves of
labels and names have the texts of such tokens. A bare call among targets becomes a variable.
-/

namespace XhrKeywords.Grammar

open Syntax hiding Kind
open Token (Kind)

variable {W : Watch} {g : Rules} {closer : Option Kind} {found : List Node} {n : Node}

/-- The kinds of labels, in front of which a pair begins. -/
def IsLabel (t : Token) : Prop := t.kind = .label ∨ t.kind = .stringLabel

/-- One sees a label. -/
theorem IsLabel.isVisible {t : Token} (h : IsLabel t) : t.kind.isVisible := by
  rcases h with h | h <;> rw [h] <;> rfl

/-- The name of a label is read as a variable or as a call. -/
theorem builds_nameReference {label : Token} (h : W.Sound label) (hkind : label.kind = .label) :
    W.Builds .value (nameReference label) := by
  have hname {place : Place} : W.Word ⟨.token .ident, label.text, place⟩ :=
    W.word h (by rw [hkind]; decide) rfl
  apply (tells_isLocal _).cond
  · exact tells_pure (W.rule (.literal rfl (W.labels h hkind .lvar) hname))
  · exact tells_pure (W.label h hkind)

/-- The key of a labelled pair is a value. -/
theorem builds_labelKey {label : Token} (h : W.Taken label) (hlabel : IsLabel label) :
    W.Builds .value (labelKey label) :=
  builds_rule h.starts fun _ hspan => .literal rfl hspan (h.leaf hlabel.isVisible rfl)

/-- The value behind a label, or the call that the label stands for. -/
theorem builds_labelValue (hg : g.Watched W) {label : Token} (h : W.Sound label) :
    W.Builds .value (labelValue g closer label) := by
  apply (tells_seesClass _).next
  intro stops
  apply (tells_seesCloser closer).next
  intro closes
  apply Watch.TellsAt.ite
  · by_cases hlabel : label.kind = .label
    · rw [if_pos (beq_iff_eq.mpr hlabel)]
      exact builds_nameReference h hlabel
    · rw [if_neg (mt beq_iff_eq.mp hlabel)]
      exact tells_failAt ..
  · exact hg.value .assignment rfl

/-- A label and its value are a pair. -/
theorem builds_labelPair (hg : g.Watched W) : W.BuildsAt IsLabel .value (labelPair g closer) := by
  apply tells_take_at fun _ hlabel => Watch.takes_visible hlabel.isVisible
  intro label hlabel h
  apply (builds_labelKey h hlabel).bind
  intro key hkey
  apply (builds_labelValue hg h.sound).bind
  intro value hvalue
  exact builds_rule h.starts fun _ hspan => .couple (.inl rfl) hspan hkey hvalue

/-- A pair `**value` is a value. -/
theorem builds_doubleSplat (hg : g.Watched W) : W.BuildsAt W.Takes .value (doubleSplat g) := by
  apply tells_take
  intro mark hmark
  apply (hg.value .assignment rfl).bind
  intro inner hinner
  exact builds_rule hmark.starts fun _ hspan => .single (.inl rfl) hspan hinner

/-- A key and the value behind its arrow are a pair. -/
theorem builds_arrowPair (hg : g.Watched W) {key : Node} (hkey : W.Knows .value key) :
    W.Builds .value (arrowPair g key) := by
  apply tells_skipNewlines.next
  intro _
  apply (hg.value .assignment rfl).bind
  intro value hvalue
  exact builds_rule (W.starts hkey) fun _ hspan => .couple (.inl rfl) hspan hkey hvalue

/-- An element of a list, with or without a star. -/
theorem builds_splatOr {element : Parser Node} (h : W.Builds .value element) :
    W.Builds .value (splatOr element) := by
  apply tells_if_sees
  · apply tells_take_kind .star nofun
    intro star _ hstar
    apply h.bind
    intro inner hinner
    exact builds_rule hstar.starts fun _ hspan =>
      .mark (.inl rfl) hspan le_rfl (Watch.KnowsAll.one hinner)
  · exact h

/-- What is known of the arguments read so far and of the waiting pairs. -/
structure Collected.Known (W : Watch) (c : Collected) : Prop where
  arguments : W.KnowsAll .value c.arguments
  pairs : W.KnowsAll .value c.pairs

namespace Collected.Known

variable {c : Collected}

/-- Nothing is to be known before anything is collected. -/
theorem empty : Collected.empty.Known W := ⟨.nil, .nil⟩

/-- The hash of the waiting pairs lies from the first of them to the last. -/
theorem flush (h : c.Known W) : W.KnowsAll .value c.flush := by
  obtain ⟨harguments, hpairs⟩ := h
  rw [Collected.flush]
  split
  · exact harguments
  · rename_i first others heq
    have hfirst : W.Knows .value first := hpairs first (by simp [heq])
    have hlast : W.Knows .value ((first :: others).getLastD first) := by
      apply hpairs
      rw [heq, List.getLastD_cons]
      exact List.getLastD_mem_cons
    exact harguments.concat
      (W.rule (.series rfl rfl (W.encloses .hash hfirst hlast) hpairs))

/-- A known argument is collected behind the pairs in front of it. -/
theorem add (h : c.Known W) (hn : W.Knows .value n) : (c.add n).Known W :=
  ⟨h.flush.concat hn, .nil⟩

/-- A known pair is collected behind the others. -/
theorem addPair (h : c.Known W) (hn : W.Knows .value n) : (c.addPair n).Known W :=
  ⟨h.arguments, h.pairs.concat hn⟩

end Collected.Known

/-- Behind a mark stands one value, or none. -/
theorem tells_markedValue (hg : g.Watched W) :
    W.Tells (fun nodes => W.KnowsAll .value nodes ∧ nodes.length ≤ 1) (markedValue g closer) := by
  apply (tells_sees .comma).next
  intro _
  apply (tells_seesCloser closer).next
  intro _
  apply Watch.TellsAt.ite
  · exact tells_pure ⟨.nil, Nat.zero_le 1⟩
  · apply (hg.value .assignment rfl).bind
    intro inner hinner
    exact tells_pure ⟨.one hinner, le_rfl⟩

/-- An argument `*value` or `&value` is a value. -/
theorem builds_markedArgument (hg : g.Watched W) {kind : Syntax.Kind}
    (hkind : kind = .splat ∨ kind = .blockPass) :
    W.BuildsAt W.Takes .value (markedArgument g closer kind) := by
  apply tells_take
  intro mark hmark
  apply (tells_markedValue hg).bind
  intro inner hinner
  exact builds_rule hmark.starts fun _ hspan => .mark hkind hspan hinner.2 hinner.1

/-- An argument that turns out to be a pair at its arrow. -/
theorem tells_valueOrPair (hg : g.Watched W) {c : Collected} (hc : c.Known W) :
    W.Tells (Collected.Known W) (valueOrPair g closer c) := by
  apply (hg.value _ (by split <;> rfl)).bind
  intro value hvalue
  apply (tells_accept .assoc nofun).cond
  · apply (builds_arrowPair hg hvalue).bind
    intro pair hpair
    exact tells_pure (hc.addPair hpair)
  · exact tells_pure (hc.add hvalue)

/-- An argument joins those read before, and a pair joins the waiting ones. -/
theorem tells_argument (hg : g.Watched W) {c : Collected} (hc : c.Known W) :
    W.Tells (Collected.Known W) (argument g closer c) := by
  have hadd {pre : Token → Prop} {p : Parser Node} (h : W.BuildsAt pre .value p) :
      W.TellsAt pre (Collected.Known W) (p >>= fun n => pure (c.add n)) :=
    h.bind fun _ hn => tells_pure (hc.add hn)
  have hpair {pre : Token → Prop} {p : Parser Node} (h : W.BuildsAt pre .value p) :
      W.TellsAt pre (Collected.Known W) (p >>= fun n => pure (c.addPair n)) :=
    h.bind fun _ hn => tells_pure (hc.addPair hn)
  have hlabel {t : Token} (h : IsLabel t) :
      W.BuildsAt (· = t) .value (labelPair g closer) :=
    (builds_labelPair hg).weaken fun _ ht => ht ▸ h
  apply tells_at_current
  intro t _ _
  split
  · exact hadd ((builds_markedArgument hg (.inl rfl)).at_taken ‹_› (by decide))
  · exact hadd ((builds_markedArgument hg (.inr rfl)).at_taken ‹_› (by decide))
  · exact hpair ((builds_doubleSplat hg).at_taken ‹_› (by decide))
  · exact hpair (hlabel (.inl ‹_›))
  · exact hpair (hlabel (.inr ‹_›))
  · exact (tells_valueOrPair hg hc).any

/-- One round of an argument list. -/
theorem tells_argumentRound (hg : g.Watched W) {c : Collected} (hc : c.Known W) :
    W.Tells (Round.All (Collected.Known W) (Collected.Known W)) (argumentRound g closer c) := by
  apply (tells_skipNewlinesWithin closer).next
  intro _
  apply (tells_seesCloser closer).cond
  · exact tells_pure hc
  · apply (tells_argument hg hc).bind
    intro more hmore
    apply (tells_skipNewlinesWithin closer).next
    intro _
    exact tells_listRound hmore

/-- The arguments of a call are values. -/
theorem builds_arguments (hg : g.Watched W) (hcloser : W.TakesAny closer.toList) :
    W.BuildsAll .value (arguments g closer) := by
  apply (tells_loop (fun _ => tells_argumentRound hg) .empty).bind
  intro c hc
  cases closer with
  | none => exact tells_pure hc.flush
  | some kind => exact (tells_expectOf hcloser _).next fun _ => tells_pure hc.flush

/-- The arguments of a call without parentheses have no closer. -/
theorem builds_openArguments (hg : g.Watched W) : W.BuildsAll .value (arguments g none) :=
  builds_arguments hg (W.takesAny _ (by decide))

/-- Arguments between parentheses or brackets are values. -/
theorem builds_delimitedArguments (hg : g.Watched W) {closer : Kind}
    (hcloser : W.TakesAny [closer]) :
    W.TellsAt W.Takes (W.KnowsAll .value) (delimitedArguments g closer) :=
  tells_take fun _ _ => tells_bracketed (builds_arguments hg hcloser)

/-- A string is no line break. -/
theorem tells_stringRound (hfound : W.KnowsAll .value found) :
    W.Gathers .value (stringRound found) := by
  refine tells_at_current fun t _ _ => tells_look previous_run fun last => ?_
  split
  · rename_i hstring
    obtain ⟨hkind, -⟩ := Bool.and_eq_true_iff.mp hstring
    exact (tells_againWith hfound (builds_single rfl)).at_visible (beq_iff_eq.mp hkind) rfl
  · exact tells_pure hfound

/-- Neighbouring strings are one text. -/
theorem builds_strings : W.Builds .value (strings g) := by
  apply (tells_loop (fun _ => tells_stringRound) Watch.KnowsAll.nil).bind
  intro found hfound
  match found, hfound with
  | [], _ => exact tells_fail _
  | [only], hfound => exact tells_pure (hfound only List.mem_cons_self)
  | first :: second :: others, hfound =>
    exact builds_rule (W.starts (hfound first List.mem_cons_self)) fun _ hspan =>
      .series rfl rfl hspan hfound

/-- A pair of a hash literal, with its arrow. -/
theorem builds_rocketPair (hg : g.Watched W) : W.Builds .value (rocketPair g) := by
  apply (hg.value .assignment rfl).bind
  intro key hkey
  apply tells_skipNewlines.next
  intro _
  apply (tells_expectOr .assoc nofun _).next
  intro _
  exact builds_arrowPair hg hkey

/-- An element of a hash literal, by its first token. -/
theorem builds_hashElement (hg : g.Watched W) : W.Builds .value (hashElement g) := by
  have hlabel {t : Token} (h : IsLabel t) :
      W.BuildsAt (· = t) .value (labelPair g (some .rbrace)) :=
    (builds_labelPair hg).weaken fun _ ht => ht ▸ h
  apply tells_at_current
  intro t _ _
  split
  · exact (builds_doubleSplat hg).at_taken ‹_› (by decide)
  · exact hlabel (.inl ‹_›)
  · exact hlabel (.inr ‹_›)
  · exact (builds_rocketPair hg).any

/-- One round of a hash literal. -/
theorem tells_hashRound (hg : g.Watched W) (hfound : W.KnowsAll .value found) :
    W.Gathers .value (hashRound g found) := by
  apply tells_skipNewlines.next
  intro _
  apply (tells_sees .rbrace).cond
  · exact tells_pure hfound
  · apply (builds_hashElement hg).bind
    intro next hnext
    apply tells_skipNewlines.next
    intro _
    exact tells_commaRound (hfound.concat hnext)

/-- A hash of known pairs is a value. -/
theorem builds_closedHash {start : Token} (hstart : W.Taken start)
    (hfound : W.KnowsAll .value found) : W.Builds .value (closedHash start found) := by
  apply tells_skipNewlines.next
  intro _
  apply (tells_expectCloser .rbrace nofun _ _).next
  intro _
  exact builds_rule hstart.starts fun _ hspan => .series rfl rfl hspan hfound

/-- A hash literal is a value. -/
theorem builds_hash (hg : g.Watched W) : W.Builds .value (hash g) := by
  apply tells_bracketed
  apply (tells_expect .lbrace nofun).bind
  intro start hstart
  apply (tells_loop (fun _ => tells_hashRound hg) Watch.KnowsAll.nil).bind
  intro pairs hpairs
  exact builds_closedHash hstart.1 hpairs

/-- One sees an operator that names a method. -/
theorem isVisible_of_isOperatorMethod {kind : Kind} (h : kind.isOperatorMethod) :
    kind.isVisible := by
  cases kind <;> first | rfl | cases h

/-- The name of a method in an alias is a symbol. -/
theorem builds_aliasSymbol :
    W.BuildsAt (·.kind.isVisible) .value (singleAs .sym (.token .ident)) :=
  (builds_singleAs rfl _).mono fun _ => Watch.Shapes.knows

/-- A name in an `alias` is a value. -/
theorem builds_aliasName : W.Builds .value aliasName := by
  apply tells_at_current
  intro t _ _
  split
  · exact builds_aliasSymbol.at_visible ‹_› rfl
  · exact builds_aliasSymbol.at_visible ‹_› rfl
  · exact builds_aliasSymbol.at_visible ‹_› rfl
  · exact (builds_single rfl).at_visible ‹_› rfl
  · split
    · exact builds_aliasSymbol.at_visible rfl (isVisible_of_isOperatorMethod ‹_›)
    · exact tells_fail _

/-- A value that may be assigned to is a target, and a bare call becomes a variable. -/
theorem builds_toTarget (hn : W.Knows .value n) : W.Builds .value (toTarget n) := by
  rw [toTarget.eq_def]
  split
  · exact (tells_declare _).next fun _ => tells_pure (W.target hn)
  · exact .ite (tells_pure hn) (tells_fail _)

/-- One statement and the separator behind it. -/
theorem tells_statementRound (hg : g.Watched W) (stops : List Kind)
    (hfound : W.KnowsAll .value found) : W.Gathers .value (statementRound g stops found) := by
  apply tells_skipSeparators.next
  intro _
  apply (tells_seesAny _).cond
  · exact tells_pure hfound
  · apply (hg.value .statement rfl).bind
    intro next hnext
    apply (tells_seesAny _).cond
    · exact tells_pure (hfound.concat hnext)
    · exact tells_fail _

/-- Statements are values. -/
theorem builds_statements (hg : g.Watched W) (stops : List Kind) :
    W.BuildsAll .value (statements g stops) :=
  tells_loop (fun _ => tells_statementRound hg stops) Watch.KnowsAll.nil

/-- The tree of a statement list may be empty. -/
theorem builds_body (hg : g.Watched W) (stops : List Kind) :
    W.Builds .statements (body g stops) := by
  apply tells_current.next
  intro start
  apply (builds_statements hg stops).bind
  intro found hfound
  cases found with
  | nil => exact tells_pure (W.rule (.body (W.hollow rfl _) hfound))
  | cons first others => exact tells_pure (W.rule (.body (W.hollow rfl _) hfound))

/-- One element of a list without a closing mark. -/
theorem tells_elementRound {element : Parser Node} (h : W.Builds .value element)
    (hfound : W.KnowsAll .value found) : W.Gathers .value (elementRound element found) := by
  apply h.bind
  intro next hnext
  exact tells_listRound (hfound.concat hnext)

/-- The elements of a list without a closing mark. -/
theorem builds_elements {element : Parser Node} (h : W.Builds .value element) :
    W.BuildsAll .value (elements g element) :=
  tells_loop (fun _ => tells_elementRound h) Watch.KnowsAll.nil

/-- The classes of a `rescue`. -/
theorem builds_rescueClasses (hg : g.Watched W) : W.BuildsAll .value (rescueClasses g) := by
  apply (tells_seesAny _).cond
  · exact tells_pure .nil
  · exact builds_elements (builds_splatOr (hg.value .choice rfl))

/-- The variable of a `rescue`, or nothing. -/
theorem builds_rescueVariable (hg : g.Watched W) : W.Builds .optional (rescueVariable g) := by
  apply (tells_accept .assoc nofun).cond
  · apply (hg.value .operand rfl).bind
    intro n hn
    exact (builds_toTarget hn).mono fun _ => W.present
  · exact tells_pure W.absent

/-- A `rescue` with its body is a clause. -/
theorem builds_rescueClause (hg : g.Watched W) :
    W.BuildsAt W.Takes .clause (rescueClause g) := by
  apply tells_take
  intro keyword hkeyword
  apply (builds_rescueClasses hg).bind
  intro classes hclasses
  apply (builds_rescueVariable hg).bind
  intro bound hbound
  apply tells_separator.next
  intro _
  apply (builds_body hg _).bind
  intro handler hhandler
  have hlist : W.Tells (fun n => ∃ listed, n = .tree .excList listed classes ∧
      W.Lies .excList listed) (build .excList classes (ofToken keyword)) :=
    builds_tree hkeyword.starts fun span hspan => ⟨some span, rfl, hspan⟩
  apply hlist.bind
  rintro _ ⟨listed, rfl, hlisted⟩
  exact builds_rule hkeyword.starts fun _ hspan =>
    .rescueClause hspan hlisted hclasses hbound (W.plain hhandler)

/-- One round of the `rescue` clauses. -/
theorem tells_rescueRound (hg : g.Watched W) (hfound : W.KnowsAll .clause found) :
    W.Gathers .clause (rescueRound g found) := by
  apply tells_if_sees
  · exact (tells_againWith hfound (builds_rescueClause hg)).at_kind _ nofun
  · exact tells_pure hfound

/-- A clause of one body, if its keyword is there. -/
theorem builds_bodyClause (hg : g.Watched W) (keyword : Kind) (hkeyword : keyword ≠ .eof)
    {kind : Syntax.Kind} (hkind : kind = .elseClause ∨ kind = .ensureClause)
    (stops : List Kind) : W.BuildsAll .clause (bodyClause g keyword kind stops) := by
  apply tells_if_sees
  · apply tells_take_kind keyword hkeyword
    intro start _ hstart
    apply (builds_body hg stops).bind
    intro inner hinner
    apply Watch.TellsAt.bind (builds_rule hstart.starts fun _ hspan =>
      .bodyClause hkind hspan (W.plain hinner))
    intro clause hclause
    exact tells_pure (.one hclause)
  · exact tells_pure .nil

/-- A body with its `rescue`, `else` and `ensure` clauses. -/
theorem builds_bodyStatement (hg : g.Watched W) : W.Builds .suite (bodyStatement g) := by
  apply tells_current.next
  intro _
  apply (builds_body hg _).bind
  intro main hmain
  apply (tells_seesAny _).cond
  · apply (tells_loop (fun _ => tells_rescueRound hg) Watch.KnowsAll.nil).bind
    intro rescues hrescues
    apply (builds_bodyClause hg .kwElse nofun (.inl rfl) _).bind
    intro otherwise hotherwise
    apply (builds_bodyClause hg .kwEnsure nofun (.inr rfl) _).bind
    intro last hlast
    exact builds_hollow rfl fun _ hspan => W.rule (.bodyStatement hspan (W.plain hmain)
      ((hrescues.append hotherwise).append hlast))
  · exact tells_pure (W.plain hmain)

/-- A body with its clauses up to its `end`. -/
theorem builds_closedBody (hg : g.Watched W) (construction : String) :
    W.Builds .suite (closedBody g construction) := by
  apply (builds_bodyStatement hg).bind
  intro inner hinner
  apply (tells_expectEnd _).next
  intro _
  exact tells_pure hinner

/-- The same where a `do` may be taken again. -/
theorem builds_bracketedBody (hg : g.Watched W) (construction : String) :
    W.Builds .suite (bracketedBody g construction) := by
  apply (tells_bracketed (builds_bodyStatement hg)).bind
  intro inner hinner
  apply (tells_expectEnd _).next
  intro _
  exact tells_pure hinner

/-- Behind a mark stands one name, or none. -/
theorem tells_markedName :
    W.Tells (fun nodes => nodes.length ≤ 1 ∧ ∀ n ∈ nodes, W.Names n) markedName := by
  apply tells_if_sees
  · apply (tells_takeName.weaken fun t ht => by rw [ht]; rfl).bind
    intro name hname
    exact tells_pure ⟨le_rfl, by simpa using hname⟩
  · exact tells_pure ⟨Nat.zero_le 1, by simp⟩

/-- A parameter `*name`, `**name` or `&name`. -/
theorem builds_markedParameter {kind : Syntax.Kind} (hkind : kind.isPlainParameter) :
    W.BuildsAt W.Takes .parameter (markedParameter kind) := by
  apply tells_take
  intro mark hmark
  apply tells_markedName.bind
  intro name hname
  exact builds_rule hmark.starts fun _ hspan => .plainParameter hkind hspan hname.1 hname.2

/-- A parameter that holds its name alone. -/
theorem builds_named {kind : Syntax.Kind} (hkind : kind.isPlainParameter) {t : Token}
    (ht : W.Taken t) {name : Leaf} (hname : W.Word name) :
    W.Builds .parameter (build kind [.leaf name] (ofToken t)) :=
  builds_rule ht.starts fun _ hspan => .plainParameter hkind hspan le_rfl (by simp [hname])

/-- A parameter `name:`, with or without a default. -/
theorem builds_keywordParameter (hg : g.Watched W) (closers : List Kind) (inBlock : Bool) :
    W.BuildsAt (·.kind = .label) .parameter (keywordParameter g closers inBlock) := by
  apply tells_take_kind .label nofun
  intro label hkind hlabel
  have hname : W.Word ⟨.token .ident, label.text, label.span.place⟩ :=
    hlabel.leafAs hkind rfl rfl
  apply (tells_seesAny _).cond
  · exact builds_named rfl hlabel hname
  · apply (hg.value _ (isValue_defaultPhrase inBlock)).bind
    intro value hvalue
    exact builds_rule hlabel.starts fun _ hspan =>
      .defaultParameter (.inr rfl) hspan hname hvalue

/-- A parameter, with or without a default. -/
theorem builds_positionalParameter (hg : g.Watched W) (inBlock : Bool) :
    W.BuildsAt (·.kind = .ident) .parameter (positionalParameter g inBlock) := by
  apply tells_take_kind .ident nofun
  intro name hkind h
  apply (tells_accept .assign nofun).cond
  · apply (hg.value _ (isValue_defaultPhrase inBlock)).bind
    intro value hvalue
    exact builds_rule h.starts fun _ hspan =>
      .defaultParameter (.inl rfl) hspan (h.leafAs hkind rfl rfl) hvalue
  · exact builds_named rfl h (h.leafAs hkind rfl rfl)

/-- One parameter, by its first token. -/
theorem builds_parameter (hg : g.Watched W) (closers : List Kind) (inBlock : Bool) :
    W.Builds .parameter (parameter g closers inBlock) := by
  apply tells_at_current
  intro t _ _
  split
  · exact (builds_markedParameter rfl).at_taken ‹_› (by decide)
  · exact (builds_markedParameter rfl).at_taken ‹_› (by decide)
  · exact (builds_markedParameter rfl).at_taken ‹_› (by decide)
  · exact (builds_keywordParameter hg closers inBlock).at_token ‹_›
  · have hgroup : W.BuildsAt W.Takes .parameter
        (advance >>= fun opener => g.read (.parameterGroup opener inBlock)) :=
      tells_take fun opener hopener => hg.parameters opener inBlock hopener.starts
    exact hgroup.at_taken ‹_› (by decide)
  · exact (builds_positionalParameter hg inBlock).at_token ‹_›
  · exact tells_fail _

/-- A name local to a block is a parameter. -/
theorem builds_shadowParameter : W.BuildsAt (·.kind = .ident) .parameter shadowParameter := by
  apply tells_take_kind .ident nofun
  intro name hkind h
  apply (tells_declare _).next
  intro _
  exact builds_named rfl h (h.leafAs hkind rfl rfl)

/-- One round of the names local to a block. -/
theorem tells_shadowRound (hfound : W.KnowsAll .parameter found) :
    W.Gathers .parameter (shadowRound found) := by
  apply tells_if_sees
  · apply builds_shadowParameter.bind
    intro next hnext
    exact tells_commaRound (hfound.concat hnext)
  · exact tells_pure hfound

/-- One round of a parameter list. -/
theorem tells_parameterRound (hg : g.Watched W) (closers : List Kind) (inBlock : Bool)
    (hfound : W.KnowsAll .parameter found) :
    W.Gathers .parameter (parameterRound g closers inBlock found) := by
  apply (tells_seesAny closers).cond
  · exact tells_pure hfound
  · apply (tells_accept .semi nofun).cond
    · exact tells_again (tells_loop (fun _ => tells_shadowRound) hfound)
    · apply (builds_parameter hg closers inBlock).bind
      intro next hnext
      apply (tells_declareParameter next).next
      intro _
      exact tells_listRound (hfound.concat hnext)

/-- A parameter list up to its closing mark. -/
theorem builds_parameters (hg : g.Watched W) (closers : List Kind) (inBlock : Bool) :
    W.BuildsAll .parameter (parameters g closers inBlock) :=
  tells_loop (fun _ => tells_parameterRound hg closers inBlock) Watch.KnowsAll.nil

/-- A parameter that is a list in parentheses. -/
theorem builds_parameterGroup (hg : g.Watched W) {opener : Token}
    (hopener : W.Starts (ofToken opener)) (inBlock : Bool) :
    W.Builds .parameter (parameterGroup g opener inBlock) := by
  apply (builds_parameters hg _ inBlock).bind
  intro inner hinner
  apply (tells_expect .rpar nofun).next
  intro _
  exact builds_rule hopener fun _ hspan => .parameterGroup hspan hinner

end XhrKeywords.Grammar
