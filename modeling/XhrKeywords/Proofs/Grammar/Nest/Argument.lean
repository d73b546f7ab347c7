import XhrKeywords.Proofs.Grammar.Nest.Basic

/-!
# Arguments nest

The arguments of a call lie one behind the other. Pairs wait for the hash that takes them up, but
nothing else is read in between.
-/

namespace XhrKeywords.Grammar

open Syntax hiding Kind
open Token (Kind)

variable {tokens : List Token} {first : Token} {s t : State} {g : Rules} {n : Node}

/-- The marks that close a list of arguments or pairs. -/
def closesList : Kind → Bool
  | .rpar | .rbrack | .rbrace => true
  | _ => false

/-- A mark that closes a list is no line break, and in front of it a label may go without a
value. -/
theorem solid_of_closesList {kind : Kind} (h : closesList kind) :
    kind ≠ .newline ∧ kind.isMark ∧ kind.stopsLabelValue := by
  revert h
  cases kind <;> decide

/-- A pair is a value, unless it starts with a label that leaves out its value. -/
theorem Consumes.pair {nodes : List Node} (h : Consumes tokens first t nodes)
    (hended : t.Ended tokens) {start : Mark} (hstart : start.start = first.start)
    (hnodes : nodes ≠ []) (hvalued : Valued tokens first.start) :
    Reads tokens first (Grammar.built t .pair nodes start) t := by
  refine reads_built h.along h.mem h.lt h.nested hended hstart (fun hnil => absurd hnil hnodes)
    (by nofun) ?_
  refine .pair ?_ ?_ ?_ h.kept (.nil (.refl tokens _)) <;> rw [start_upTo, hstart]
  · exact h.lt
  · exact hvalued

/-- The tokens behind a label leave out its value when the one behind it lets them. -/
theorem omitsValue_ahead (hlabel : s.current.kind = .label) :
    omitsValue s.ahead = s.advance.current.kind.stopsLabelValue := by
  rw [State.advance]
  cases s.ahead with
  | nil =>
    rw [hlabel]
    rfl
  | cons next others => rfl

/-- The next token leaves out no value when it is no label or has one behind it. -/
theorem State.Along.valued (hs : s.Along tokens)
    (h : s.current.kind = .label → s.advance.current.kind.stopsLabelValue = false) :
    Valued tokens s.current.start := by
  intro before t behind hsplit hlabel hstart
  obtain ⟨front, hfront⟩ := hs.ahead
  obtain ⟨rfl, rfl⟩ := hs.inOrder.split_unique hsplit hfront.symm (hlabel ▸ nofun) hstart
  rw [omitsValue_ahead hlabel]
  exact h hlabel

/-- The name in front of the colon of a label stands for a variable or a call. -/
theorem reference_of_nameReference {label : Token} (h : nameReference label s = .ok (n, t)) :
    t = s ∧ ∃ name : Leaf, Reference name n ∧ name.isAt label.start ∧ name.text = label.text := by
  rw [nameReference, isLocal_bind] at h
  split at h
  · cases h
    exact ⟨rfl, _, .lvar _, Leaf.isAt_iff.mpr rfl, rfl⟩
  · cases h
    exact ⟨rfl, _, .call _, Leaf.isAt_iff.mpr rfl, rfl⟩

/-- A bare name keeps its token. -/
theorem kept_reference {lo hi : Nat} {name : Leaf} (h : Kept tokens lo hi [.leaf name])
    (hname : Reference name n) : Kept tokens lo hi [n] := by
  cases hname with
  | lvar span => exact h.enclose rfl _
  | call span => exact (Kept.absent h).enclose rfl _

/-- The name in front of the colon of a label is a value that ends in front of that colon. -/
theorem reads_nameReference {label : Token} (hs : s.Along tokens) (hmem : label ∈ tokens)
    (hlast : s.previous = label) (hkind : label.kind = .label)
    (h : nameReference label s = .ok (n, t)) : Reads tokens label n t := by
  have hlong := hs.inOrder.named label hmem hkind
  have hended : s.Ended tokens := by
    refine ⟨hlast ▸ hmem, ?_, ?_⟩ <;> rw [hlast, hkind] <;> nofun
  have hsolid : label.start < s.previous.stop := by
    rw [hlast]
    omega
  obtain ⟨-, name, hreference, hstart, htext⟩ := reference_of_nameReference h
  have hkept : Kept tokens label.start s.previous.stop [n] := by
    rw [hlast]
    exact kept_reference (hs.inOrder.kept hmem (by rw [hkind]; nofun) hstart htext) hreference
  rw [nameReference, isLocal_bind] at h
  split at h
  · cases h
    exact ⟨⟨⟨hs, .tree nofun (.leaf _ (.nil (Nat.le_of_lt hsolid))) (.nil (Nat.le_refl _)), hkept⟩,
      hmem, hsolid⟩, hended, rfl, nofun⟩
  · cases h
    -- The call is its name alone, which ends in front of the colon.
    let name : Leaf := ⟨.token .ident, label.text, (shorten label.span).place⟩
    have hname : CallFit tokens (shorten label.span) [.absent, .leaf name] := by
      refine ⟨?_, ⟨label, hmem, rfl⟩, Or.inr ⟨label, hmem, hkind, rfl, ?_, name, rfl, rfl⟩, nofun⟩
        <;> simp only [shorten, Token.span] <;> omega
    refine ⟨⟨⟨hs, .call (Nat.le_refl _) hname (.absent (.leaf _ (.nil ?_))) (.nil ?_), hkept⟩, hmem,
      hsolid⟩, hended, rfl, nofun⟩ <;> simp only [shorten, Token.span, hlast] <;> omega

theorem seesCloser_bind {β : Type} (closer : Option Kind) (f : Bool → Parser β) (s : State) :
    (seesCloser closer >>= f) s = f (closer.any (s.current.kind == ·)) s := by
  cases closer <;> rfl

/-- A label and its value make a pair. Without a value, the name of the label is kept twice. -/
theorem reads_labelPair (hg : g.Nests tokens) {closer : Option Kind}
    (hcloser : closer.all closesList) (hs : s.Along tokens) (heof : s.current.kind ≠ .eof)
    (h : labelPair g closer s = .ok (n, t)) : Reads tokens s.current n t := by
  rw [labelPair, advance_bind, labelKey, build_bind] at h
  obtain ⟨value, u, hvalue, h⟩ := of_bind h
  cases h
  have halong := hs.step heof
  rw [labelValue, seesClass_bind, seesCloser_bind] at hvalue
  -- A label that stands for itself is the only node that keeps the text of a token twice.
  split at hvalue
  · rename_i hstops
    split at hvalue
    · rename_i hlabel
      have hkind : s.current.kind = .label := beq_iff_eq.mp hlabel
      have hname := reads_nameReference halong hs.mem s.previous_advance hkind hvalue
      obtain ⟨rfl, name, hreference, hstart, htext⟩ := reference_of_nameReference hvalue
      let key := built s.advance .sym [leafAs (.token .ident) s.current] (ofToken s.current)
      have hnested : Nested (CallFit tokens) s.current.start s.advance.previous.stop [key, value] :=
        .tree (by rintro ⟨⟩) (.leaf _ (.nil (Nat.le_refl _))) hname.nested
      have hkept : Kept tokens s.current.start s.advance.previous.stop
          [built s.advance .pair [key, value] (ofToken s.current)] := by
        have homits : omitsValue s.ahead := by
          rw [omitsValue_ahead hkind]
          rcases Bool.or_eq_true_iff.mp hstops with hstops | hcloses
          · exact hstops
          · obtain ⟨kind, rfl, hcloses⟩ := (Option.any_eq_true _ _).mp hcloses
            rw [beq_iff_eq.mp hcloses]
            exact (solid_of_closesList hcloser).2.2
        obtain ⟨before, hsplit⟩ := hs.ahead
        rw [State.previous_advance]
        exact .repeated (hs.inOrder.sole hs.mem (hkind ▸ rfl)) hsplit.symm hkind homits
          (start_upTo ..) ⟨Leaf.isAt_iff.mpr rfl, rfl⟩ ⟨hstart, htext⟩ hreference
          (.nil (.refl tokens _))
      rw [if_pos hlabel]
      exact reads_built hname.along hs.mem hname.lt hnested hname.ended rfl (by rintro ⟨⟩)
        (by rintro ⟨⟩) hkept
    · cases hvalue
  · rename_i hvalued
    have hread := hg.assignment halong hvalue
    refine Consumes.pair (((hs.takeAs heof _).tree (by rintro ⟨⟩) rfl).trans (hread.follows halong))
      hread.ended rfl (List.cons_ne_nil _ _) (hs.valued fun _ => ?_)
    exact (Bool.or_eq_false_iff.mp (Bool.eq_false_iff.mpr hvalued)).1

/-- A splat of pairs is a value. -/
theorem reads_doubleSplat (hg : g.Nests tokens) (hs : s.Along tokens)
    (hmark : s.current.kind.isMark) (h : doubleSplat g s = .ok (n, t)) :
    Reads tokens s.current n t := by
  rw [doubleSplat, advance_bind] at h
  obtain ⟨inner, u, hinner, h⟩ := of_bind h
  cases h
  have htake := hs.take hmark
  have hread := hg.assignment htake.along hinner
  exact (htake.trans (hread.follows htake.along)).built rfl hread.ended rfl nofun nofun

/-- A key and the value behind its arrow make a pair. -/
theorem Consumes.arrowPair (hg : g.Nests tokens) {key : Node}
    (hkey : Consumes tokens first s [key]) (hstart : (ofNode key).start = first.start)
    (hvalued : Valued tokens first.start) (h : arrowPair g key s = .ok (n, t)) :
    Reads tokens first n t := by
  rw [Grammar.arrowPair, skipNewlines_bind] at h
  obtain ⟨value, u, hvalue, h⟩ := of_bind h
  cases h
  have hfront := hkey.skipNewlines
  have hread := hg.assignment hfront.along hvalue
  exact (hfront.trans (hread.follows hfront.along)).pair hread.ended hstart nofun hvalued

/-- A tree that may be without children rewords nothing. -/
theorem rewords_of_mayBeEmpty {kind : Syntax.Kind} (h : kind.mayBeEmpty) :
    kind.rewords = false := by
  cases kind <;> first | rfl | cases h

/-- A splat of values or the value itself. -/
theorem readsValues_splatOr {element : Parser Node} (helement : ReadsValues tokens element) :
    ReadsValues tokens (splatOr element) := by
  intro s n t hs h
  rw [splatOr, sees_bind] at h
  split at h
  · rename_i hstar
    rw [advance_bind] at h
    obtain ⟨inner, u, hinner, h⟩ := of_bind h
    cases h
    have htake := hs.take (isMark_of_beq hstar rfl)
    have hread := helement htake.along hinner
    exact (htake.trans (hread.follows htake.along)).built rfl hread.ended rfl nofun nofun
  · exact helement hs h

/-- Behind a mark a value is read, or none. -/
theorem reads_markedValue (hg : g.Nests tokens) {closer : Option Kind} {found : List Node}
    (hs : s.Along tokens) (h : markedValue g closer s = .ok (found, t)) :
    found = [] ∧ t = s ∨ ∃ value, found = [value] ∧ Reads tokens s.current value t := by
  rw [markedValue, sees_bind, seesCloser_bind] at h
  split at h
  · cases h
    exact Or.inl ⟨rfl, rfl⟩
  · obtain ⟨value, u, hvalue, h⟩ := of_bind h
    cases h
    exact Or.inr ⟨value, rfl, hg.assignment hs hvalue⟩

/-- A splat or block argument, with or without a value. -/
theorem reads_markedArgument (hg : g.Nests tokens) {closer : Option Kind} {kind : Syntax.Kind}
    (hkind : kind.mayBeEmpty) (hs : s.Along tokens) (hnewline : s.current.kind ≠ .newline)
    (hmark : s.current.kind.isMark) (h : markedArgument g closer kind s = .ok (n, t)) :
    Reads tokens s.current n t := by
  have htake := hs.take hmark
  have hcall : kind ≠ .call := by
    rintro rfl
    cases hkind
  rw [markedArgument, advance_bind] at h
  obtain ⟨found, u, hfound, h⟩ := of_bind h
  cases h
  rcases reads_markedValue hg htake.along hfound with ⟨rfl, rfl⟩ | ⟨value, rfl, hread⟩
  · exact htake.built (rewords_of_mayBeEmpty hkind)
      (hs.ended hnewline (Kind.ne_eof_of_isMark hmark)) rfl (fun _ => hkind) fun h => absurd h hcall
  · exact (htake.trans (hread.follows htake.along)).built (rewords_of_mayBeEmpty hkind) hread.ended
      rfl nofun fun h => absurd h hcall

/-- What has been read of an argument list lies between an offset and a state. -/
structure Collected.Follows (tokens : List Token) (lo : Nat) (t : State) (c : Collected) :
    Prop where
  follows : Grammar.Follows tokens lo t (c.arguments ++ c.pairs)
  filled : ∀ n ∈ c.arguments, n.Filled

namespace Collected

variable {lo : Nat} {c : Collected}

/-- With the waiting pairs in a hash the arguments lie there as well. -/
theorem Follows.flush (h : c.Follows tokens lo t) :
    Grammar.Follows tokens lo t c.flush ∧ ∀ n ∈ c.flush, n.Filled := by
  obtain ⟨⟨halong, hnested, hkept⟩, hfilled⟩ := h
  obtain ⟨arguments, pairs⟩ := c
  cases pairs with
  | nil =>
    rw [List.append_nil] at hnested hkept
    exact ⟨⟨halong, hnested, hkept⟩, hfilled⟩
  | cons first others =>
    obtain ⟨_, hnestedFront, hnestedPairs⟩ := hnested.of_append
    obtain ⟨_, hkeptFront, hkeptPairs⟩ := hkept.of_append
    have hhash := hnestedPairs.enclose (by nofun : Syntax.Kind.hash ≠ .call)
    have hhash' := hkeptPairs.enclose (rfl : Syntax.Kind.hash.rewords = false)
    refine ⟨⟨halong, hnestedFront.append (hhash _), hkeptFront.append (hhash' _)⟩, ?_⟩
    intro n hn
    rcases List.mem_append.mp hn with hn | hn
    · exact hfilled n hn
    · cases List.mem_singleton.mp hn
      exact nofun

/-- One more argument lies behind the others. -/
theorem Follows.add (h : c.Follows tokens lo s) (hs : s.Along tokens)
    (hread : Reads tokens s.current n t) : (c.add n).Follows tokens lo t := by
  obtain ⟨hflush, hfilled⟩ := h.flush
  refine ⟨?_, ?_⟩
  · simpa [Collected.add] using hflush.trans (hread.follows hs)
  · intro m hm
    rcases List.mem_append.mp hm with hm | hm
    · exact hfilled m hm
    · cases List.mem_singleton.mp hm
      exact hread.filled

/-- One more pair lies behind the others. -/
theorem Follows.addPair (h : c.Follows tokens lo s) (hs : s.Along tokens)
    (hread : Reads tokens s.current n t) : (c.addPair n).Follows tokens lo t := by
  refine ⟨?_, h.filled⟩
  simpa [Collected.addPair] using h.follows.trans (hread.follows hs)

end Collected

/-- A value, or a pair if an arrow follows, lies behind what has been read. -/
theorem follows_valueOrPair (hg : g.Nests tokens) {closer : Option Kind} {lo : Nat}
    {c more : Collected} (hs : s.Along tokens) (hlabel : s.current.kind ≠ .label)
    (hc : c.Follows tokens lo s) (h : valueOrPair g closer c s = .ok (more, t)) :
    more.Follows tokens lo t ∧ t.Ended tokens := by
  obtain ⟨value, u, hvalue, h⟩ := of_bind h
  have hread : Reads tokens s.current value u := by
    split at hvalue
    · exact hg.negation hs hvalue
    · exact hg.assignment hs hvalue
  rw [accept_bind] at h
  split at h
  · rename_i harrow
    obtain ⟨pair, v, hpair, h⟩ := of_bind h
    cases h
    have hpair := (hread.advance (isMark_of_beq harrow rfl)).arrowPair hg hread.start
      (hs.valued fun h => absurd h hlabel) hpair
    exact ⟨hc.addPair hs hpair, hpair.ended⟩
  · cases h
    exact ⟨hc.add hs hread, hread.ended⟩

/-- One argument or pair lies behind the others, and a call may end with it. -/
theorem follows_argument (hg : g.Nests tokens) {closer : Option Kind} {lo : Nat}
    {c more : Collected} (hcloser : closer.all closesList) (hs : s.Along tokens)
    (hc : c.Follows tokens lo s) (h : argument g closer c s = .ok (more, t)) :
    more.Follows tokens lo t ∧ t.Ended tokens := by
  rw [argument, current_bind] at h
  generalize hkind : s.current.kind = kind at h
  split at h
  case h_1 | h_2 =>
    obtain ⟨n, u, hn, h⟩ := of_bind h
    cases h
    have hread := reads_markedArgument hg rfl hs (hkind ▸ nofun) (hkind ▸ rfl) hn
    exact ⟨hc.add hs hread, hread.ended⟩
  case h_3 =>
    obtain ⟨n, u, hn, h⟩ := of_bind h
    cases h
    have hpair := reads_doubleSplat hg hs (hkind ▸ rfl) hn
    exact ⟨hc.addPair hs hpair, hpair.ended⟩
  case h_4 | h_5 =>
    obtain ⟨n, u, hn, h⟩ := of_bind h
    cases h
    have hpair := reads_labelPair hg hcloser hs (hkind ▸ nofun) hn
    exact ⟨hc.addPair hs hpair, hpair.ended⟩
  case h_6 hlabel _ =>
    exact follows_valueOrPair hg hs (fun h => hlabel (hkind.symm.trans h)) hc h

/-- Line breaks between delimiters are passed over. -/
theorem along_skipNewlinesWithin {closer : Option Kind} {a : Unit} (hs : s.Along tokens)
    (h : skipNewlinesWithin closer s = .ok (a, t)) : Follows tokens s.previous.stop t [] := by
  rw [skipNewlinesWithin] at h
  split at h
  · cases h
    exact hs.stay.skipNewlines
  · cases h
    exact hs.stay

/-- Without delimiters no line breaks are passed over. -/
theorem eq_of_skipNewlinesWithin {a : Unit} (h : skipNewlinesWithin none s = .ok (a, t)) :
    t = s := by
  cases h
  rfl

/-- What one more round of an argument list keeps. -/
theorem Collected.Follows.pass {lo : Nat} {c : Collected} (h : c.Follows tokens lo s)
    (hmove : Grammar.Follows tokens s.previous.stop t []) : c.Follows tokens lo t :=
  ⟨h.follows.pass hmove, h.filled⟩

/-- Arguments without delimiters end with an argument, and what stands between delimiters lies
between them. -/
theorem follows_arguments (hg : g.Nests tokens) {closer : Option Kind} {found : List Node}
    (hs : s.Along tokens) (h : arguments g closer s = .ok (found, t))
    (hcloser : closer.all closesList) :
    Follows tokens s.previous.stop t found ∧ t.Ended tokens ∧ ∀ n ∈ found, n.Filled := by
  obtain ⟨c, u, hloop, h⟩ := of_bind h
  -- What holds around the loop: the arguments follow each other up to the state, and without a
  -- closing mark the last round leaves the state behind a token of an argument.
  have hround : ∀ {c : Collected} {v : State} {r w}, c.Follows tokens s.previous.stop v →
      argumentRound g closer c v = .ok (r, w) →
      r.All (fun c => c.Follows tokens s.previous.stop w)
        fun c => c.Follows tokens s.previous.stop w ∧ (closer = none → w.Ended tokens) := by
    intro c v r w hc h
    obtain ⟨_, v', hskip, h⟩ := of_bind h
    have hc := hc.pass (along_skipNewlinesWithin hc.follows.along hskip)
    rw [seesCloser_bind] at h
    split at h
    · rename_i hcloser
      cases h
      refine ⟨hc, ?_⟩
      rintro rfl
      cases hcloser
    · obtain ⟨more, x, hmore, h⟩ := of_bind h
      obtain ⟨hmore, hended⟩ := follows_argument hg hcloser hc.follows.along hc hmore
      obtain ⟨_, y, hskip, h⟩ := of_bind h
      have hpass := hmore.pass (along_skipNewlinesWithin hmore.follows.along hskip)
      rcases of_listRound h with ⟨hcomma, rfl, rfl⟩ | ⟨rfl, rfl⟩
      · exact hpass.pass ((hpass.follows.along.advance (isMark_of_beq hcomma rfl)).skipNewlines)
      · refine ⟨hpass, ?_⟩
        rintro rfl
        rw [eq_of_skipNewlinesWithin hskip]
        exact hended
  have hempty : Collected.empty.Follows tokens s.previous.stop s := ⟨hs.stay, nofun⟩
  obtain ⟨hc, hended⟩ := of_rounds hround hempty hloop
  obtain ⟨hflush, hfilled⟩ := hc.flush
  cases closer with
  | none =>
    cases h
    exact ⟨hflush, hended rfl, hfilled⟩
  | some kind =>
    obtain ⟨hkind, h⟩ := of_expectOr h
    cases h
    rw [← beq_iff_eq.mp hkind] at hcloser
    obtain ⟨hnewline, hmark, -⟩ := solid_of_closesList hcloser
    exact ⟨hflush.advance hmark, hflush.along.ended hnewline (Kind.ne_eof_of_isMark hmark), hfilled⟩

/-- Arguments between delimiters lie behind the opening one and end with the closing one. -/
theorem consumes_delimitedArguments (hg : g.Nests tokens) {closer : Kind} {found : List Node}
    (hs : s.Along tokens) (hopener : s.current.kind.isMark)
    (h : delimitedArguments g closer s = .ok (found, t)) (hcloser : closesList closer) :
    Consumes tokens s.current t found ∧ t.Ended tokens ∧ ∀ n ∈ found, n.Filled := by
  rw [delimitedArguments, advance_bind] at h
  obtain ⟨u, harguments, rfl⟩ := of_withBlocked h
  have htake := hs.take hopener
  obtain ⟨hfound, hended, hfilled⟩ := follows_arguments hg (htake.along.congr _ _ _) harguments
    hcloser
  exact ⟨htake.trans (hfound.congr _ _ _), ⟨hended.mem, hended.ne_newline, hended.ne_eof⟩, hfilled⟩

/-- Neighbouring strings are a value. -/
theorem readsValues_strings : ReadsValues tokens (strings g) := by
  intro s n t hs h
  obtain ⟨found, u, hloop, h⟩ := of_bind h
  have hround : ∀ {found : List Node} {v : State} {r w},
      (found = [] ∧ v = s) ∨ (Begins tokens s.current found v ∧ v.Ended tokens) →
      stringRound found v = .ok (r, w) →
      r.All (fun found => (found = [] ∧ w = s) ∨
        (Begins tokens s.current found w ∧ w.Ended tokens))
        fun found => (found = [] ∧ w = s) ∨ (Begins tokens s.current found w ∧ w.Ended tokens) := by
    intro found v r w hfound h
    simp only [stringRound, current_bind, previous_bind] at h
    split at h
    · rename_i hstring
      have hkind := (Bool.and_eq_true_iff.mp hstring).1
      obtain ⟨n, hsingle, rfl⟩ := of_againWith h
      rcases hfound with ⟨rfl, rfl⟩ | ⟨hbegins, -⟩
      · have hread := reads_single hs (ne_of_beq hkind nofun) (ne_of_beq hkind nofun) hsingle nofun
          rfl
        exact Or.inr ⟨.of_reads hread, hread.ended⟩
      · have hread := reads_single hbegins.along (ne_of_beq hkind nofun) (ne_of_beq hkind nofun)
          hsingle nofun rfl
        exact Or.inr ⟨hbegins.snoc (hread.follows hbegins.along), hread.ended⟩
    · cases h
      exact hfound
  rcases of_rounds hround (Or.inl ⟨rfl, rfl⟩) hloop with ⟨rfl, -⟩ | ⟨hbegins, hended⟩
  · cases h
  · cases found with
    | nil => cases h
    | cons first others =>
      cases others with
      | nil =>
        cases h
        exact hbegins.reads hended
      | cons second others =>
        cases h
        exact hbegins.built hended nofun rfl

/-- A key, an arrow and a value make a pair. -/
theorem reads_rocketPair (hg : g.Nests tokens) (hs : s.Along tokens)
    (hlabel : s.current.kind ≠ .label) (h : rocketPair g s = .ok (n, t)) :
    Reads tokens s.current n t := by
  obtain ⟨key, u, hkey, h⟩ := of_bind h
  rw [skipNewlines_bind] at h
  obtain ⟨harrow, h⟩ := of_expectOr h
  have hkey := hg.assignment hs hkey
  exact (hkey.skipNewlines.advance (isMark_of_beq harrow rfl)).arrowPair hg hkey.start
    (hs.valued fun h => absurd h hlabel) h

/-- A pair or a splat of a hash is read. -/
theorem readsValues_hashElement (hg : g.Nests tokens) : ReadsValues tokens (hashElement g) := by
  intro s n t hs h
  rw [hashElement, current_bind] at h
  generalize hkind : s.current.kind = kind at h
  split at h
  · exact reads_doubleSplat hg hs (hkind ▸ rfl) h
  · exact reads_labelPair hg rfl hs (hkind ▸ nofun) h
  · exact reads_labelPair hg rfl hs (hkind ▸ nofun) h
  · rename_i hlabel _
    exact reads_rocketPair hg hs (hkind.trans_ne hlabel) h

/-- A hash in braces is a value. -/
theorem readsValues_hash (hg : g.Nests tokens) : ReadsValues tokens (hash g) := by
  intro s n t hs h
  have hround : ∀ {lo : Nat} {found : List Node} {v : State} {r w},
      Follows tokens lo v found → hashRound g found v = .ok (r, w) →
      r.All (Follows tokens lo w) (Follows tokens lo w) := by
    intro lo found v r w hfound h
    rw [hashRound, skipNewlines_bind, sees_bind] at h
    have hfound := hfound.skipNewlines
    split at h
    · cases h
      exact hfound
    · obtain ⟨next, x, hnext, h⟩ := of_bind h
      have hmore := (hfound.trans ((readsValues_hashElement hg hfound.along hnext).follows
        hfound.along)).skipNewlines
      rw [skipNewlines_bind] at h
      exact hmore.commaRound h
  rw [hash] at h
  obtain ⟨u, hrun, rfl⟩ := of_withBlocked h
  obtain ⟨hopener, hrun⟩ := of_expectOr hrun
  obtain ⟨pairs, v, hloop, hrun⟩ := of_bind hrun
  rw [closedHash, skipNewlines_bind] at hrun
  obtain ⟨hcloser, hrun⟩ := of_expectOr hrun
  cases hrun
  have htake := (hs.congr _ _ _).take (isMark_of_beq hopener rfl)
  have hpairs := (htake.trans (follows_loop hround htake.along hloop)).skipNewlines
  have hended := hpairs.along.ended (ne_of_beq hcloser nofun) (ne_of_beq hcloser nofun)
  exact ((hpairs.advance (isMark_of_beq hcloser rfl)).built rfl hended rfl (fun _ => rfl)
    (by nofun)).congr _ _ _

/-- A method name that is an operator is a token of its own. -/
theorem solid_of_isOperatorMethod {kind : Kind} (h : kind.isOperatorMethod = true) :
    kind ≠ .newline ∧ kind.isMark := by
  revert h
  cases kind <;> decide

/-- A name of an alias is a value. -/
theorem readsValues_aliasName : ReadsValues tokens aliasName := by
  intro s n t hs h
  rw [aliasName, current_bind] at h
  generalize hkind : s.current.kind = kind at h
  split at h
  · exact reads_singleAs hs (hkind ▸ nofun) (hkind ▸ nofun) h nofun rfl
  · exact reads_singleAs hs (hkind ▸ nofun) (hkind ▸ nofun) h nofun rfl
  · exact reads_singleAs hs (hkind ▸ nofun) (hkind ▸ nofun) h nofun rfl
  · exact reads_single hs (hkind ▸ nofun) (hkind ▸ nofun) h nofun rfl
  · split at h
    · rename_i hoperator
      obtain ⟨hnewline, hmark⟩ := solid_of_isOperatorMethod hoperator
      exact reads_singleAs hs (hkind ▸ hnewline) (hkind ▸ Kind.ne_eof_of_isMark hmark) h nofun rfl
    · cases h

end XhrKeywords.Grammar
