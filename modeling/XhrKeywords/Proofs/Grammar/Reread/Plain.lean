import XhrKeywords.Proofs.Grammar.Reread.Argument

/-!
# Plain expressions read back

Every plain expression is read back from the words that it prints as. Each construction adds its
marks to the words of its parts, so the words of an expression follow it from the inside out.
-/

namespace XhrKeywords.Grammar

open Syntax hiding Kind
open Token (Kind)
open Unicode Word

/-- A tree of one leaf, wherever it comes from. -/
theorem erase_eq_leaf_iff {m : Node} {kind : Syntax.Kind} {role : Role} {text : String} :
    m.erase = .made kind [.word role text] ↔
      ∃ span place, m = .tree kind span [.leaf ⟨role, text, place⟩] := by
  constructor
  · intro h
    obtain ⟨span, children, rfl, hchildren⟩ := Node.erase_eq_made_iff.mp h
    obtain ⟨l, none, rfl, hl, hnone⟩ := List.map_eq_cons_iff.mp hchildren
    obtain ⟨place, rfl⟩ := Node.erase_eq_word_iff.mp hl
    rw [List.map_eq_nil_iff.mp hnone]
    exact ⟨span, place, rfl⟩
  · rintro ⟨span, place, rfl⟩
    simp

/-- A token that is a whole primary. -/
def ReadsToken (n : Node) (kind : Kind) (text : String) : Prop :=
  ∀ {depth : Nat} (s : State) (last : Token) {t follower : Token} (rest : List Token), 1 < depth →
    t.kind = kind → t.text = text → follows follower.kind = true →
    ∃ m, m.erase = n.erase ∧ primary (rulesAt depth) (s.at last (t :: follower :: rest)) =
      .ok (m, s.at t (follower :: rest))

/-- An expression of one word is read back when its token is a whole primary. -/
theorem rereads_token {n : Node} {kind : Kind} {text : String}
    (hstart : startsOperand kind = true) (hbrace : kind ≠ .lbrace)
    (hprints : PrintsAs n ⟨kind, text, []⟩)
    (hreadable : ∀ behind, Stops behind → Word.Readable ⟨kind, text, false⟩ behind)
    (hread : ReadsToken n kind text) : Rereads n ⟨kind, text, []⟩ where
  starts := hstart
  brace := fun _ => hbrace
  prints := hprints
  legible := by
    refine fun behind hbehind => ⟨hreadable _ hbehind, fun hbefore => ?_, trivial⟩
    revert hstart hbefore
    cases kind <;> exact nofun
  reads := by
    intro depth s last follower tokens rest spaced hdepth _ htokens hfollows
    obtain ⟨t, none, rfl, ht, hnone⟩ := List.map_eq_cons_iff.mp htokens
    rw [List.map_eq_nil_iff.mp hnone]
    obtain ⟨m, hm, hprimary⟩ := hread s last rest hdepth
      (congrArg Word.kind ht) (congrArg Word.text ht) hfollows
    exact ⟨m, 0, hm, Nat.succ_pos _, bind_of_eq hprimary⟩

/-- An expression of one leaf is read back when its token becomes that leaf. -/
theorem rereads_leaf {kind : Syntax.Kind} {k : Kind} {role : Role} {text : String}
    (hstart : startsOperand k = true) (hbrace : k ≠ .lbrace)
    (hprint : ∀ span place, ∃ printed,
      Printer.print 0 (.tree kind span [.leaf ⟨role, text, place⟩]) = .ok printed ∧
        printed.toList = (⟨k, text, false⟩ : Word).spelling)
    (hreadable : ∀ behind, Stops behind → Word.Readable ⟨k, text, false⟩ behind)
    (hread : ∀ {g : Rules} {s : State} {last t follower : Token} {rest : List Token},
      1 < g.limit → t.kind = k → follows follower.kind = true →
      primary g (s.at last (t :: follower :: rest)) =
        .ok (built (s.at t (follower :: rest)) kind [leafAs role t] (ofToken t),
          s.at t (follower :: rest))) :
    Rereads (.made kind [.word role text]) ⟨k, text, []⟩ := by
  refine rereads_token hstart hbrace ?_ hreadable ?_
  · intro m hm
    obtain ⟨span, place, rfl⟩ := erase_eq_leaf_iff.mp (hm.trans (Node.erase_made ..))
    obtain ⟨printed, hprinted, hspelling⟩ := hprint span place
    exact ⟨printed, hprinted, hspelling.trans (List.append_nil _).symm⟩
  · intro depth s last t follower rest hdepth hkind htext hfollows
    refine ⟨_, ?_, hread hdepth hkind hfollows⟩
    simp [htext]

theorem rereads_int {text : String} (h : isNumeral text = true) :
    Rereads (.made .int [.word (.token .int) text]) ⟨.int, text, []⟩ := by
  refine rereads_leaf rfl nofun (fun _ _ => ⟨text, rfl, rfl⟩)
    (fun behind hbehind => readable_int h hbehind) fun _ hkind _ => ?_
  rw [primary, bind_of_eq (current_run _), current_at, hkind]
  exact (single_at ..).trans (by rw [leafOf, hkind])

theorem rereads_ivar {name : String} (h : isLowerName name = true) :
    Rereads (.made .ivar [.word (.token .ivar) ("@" ++ name)]) ⟨.ivar, "@" ++ name, []⟩ := by
  refine rereads_leaf rfl nofun (fun _ _ => ⟨"@" ++ name, rfl, rfl⟩)
    (fun behind hbehind => readable_ivar h hbehind.endsWord) fun _ hkind _ => ?_
  rw [primary, bind_of_eq (current_run _), current_at, hkind]
  exact (single_at ..).trans (by rw [leafOf, hkind])

theorem rereads_sym {name : String} (h : isLowerName name = true) :
    Rereads (.symbol name) ⟨.symbol, name, []⟩ := by
  refine rereads_leaf rfl nofun (fun _ _ => ⟨":" ++ name, rfl, ?_⟩)
    (fun behind hbehind => readable_symbol h hbehind.endsWord) fun _ hkind _ => ?_
  · rw [String.toList_append]
    rfl
  · rw [primary, bind_of_eq (current_run _), current_at, hkind]
    rfl

/-- A string with no other one behind it stands alone. -/
theorem strings_run {g : Rules} {s : State} {last t follower : Token} {rest : List Token}
    (hlimit : 1 < g.limit) (hkind : t.kind = .string) (hfollows : follows follower.kind = true) :
    strings g (s.at last (t :: follower :: rest)) =
      .ok (built (s.at t (follower :: rest)) .str [leafAs (.token .string) t] (ofToken t),
        s.at t (follower :: rest)) := by
  obtain ⟨limit, hlimit⟩ : ∃ limit, g.limit = limit + 2 := ⟨g.limit - 2, by omega⟩
  have hother : (follower.kind == .string) = false := by
    revert hfollows
    generalize follower.kind = kind
    cases kind <;> decide
  let node := built (s.at t (follower :: rest)) .str [leafAs (.token .string) t] (ofToken t)
  have hfirst : stringRound [] (s.at last (t :: follower :: rest)) =
      .ok (.again [node], s.at t (follower :: rest)) := by
    rw [stringRound, bind_of_eq (current_run _), bind_of_eq (previous_run _), current_at, hkind]
    refine (bind_of_eq (single_at ..)).trans ?_
    rw [leafOf, hkind]
    rfl
  have hsecond : stringRound [node] (s.at t (follower :: rest)) =
      .ok (.done [node], s.at t (follower :: rest)) := by
    rw [stringRound, bind_of_eq (current_run _), bind_of_eq (previous_run _), current_at, hother]
    rfl
  have hloop : g.loop stringRound [] (s.at last (t :: follower :: rest)) =
      .ok ([node], s.at t (follower :: rest)) := by
    rw [Rules.loop, hlimit, rounds, bind_of_eq hfirst]
    exact bind_of_eq hsecond
  rw [strings, bind_of_eq hloop]
  rfl

theorem rereads_str {text : String} (h : IsQuoted text) :
    Rereads (.made .str [.word (.token .string) text]) ⟨.string, text, []⟩ := by
  refine rereads_leaf rfl nofun (fun _ _ => ⟨text, rfl, rfl⟩)
    (fun behind hbehind => readable_string h hbehind.endsWord) fun hlimit hkind hfollows => ?_
  rw [primary, bind_of_eq (current_run _), current_at, hkind]
  exact strings_run hlimit hkind hfollows

/-- A value without content is read back from its keyword. -/
theorem rereads_value {kind : Syntax.Kind} (h : kind ∈ wordKinds) :
    Rereads (.made kind []) ⟨wordOf kind, kind.name, []⟩ := by
  have hkinds : ∀ kind ∈ wordKinds, startsOperand (wordOf kind) = true ∧
      wordOf kind ≠ .lbrace ∧ wordOf kind ≠ .label ∧ wordOf kind ≠ .symbol := by
    decide
  obtain ⟨hstart, hbrace, hlabel, hsymbol⟩ := hkinds kind h
  refine rereads_token hstart hbrace ?_ (fun behind hbehind => readable_value h hbehind.endsWord) ?_
  · intro m hm
    obtain ⟨span, none, rfl, hnone⟩ := Node.erase_eq_made_iff.mp (hm.trans (Node.erase_made ..))
    rw [List.map_eq_nil_iff.mp hnone]
    refine ⟨kind.name, ?_, ?_⟩
    · simp only [wordKinds, List.mem_cons, List.not_mem_nil, or_false] at h
      rcases h with rfl | rfl | rfl | rfl <;> rfl
    · simp [Wording.words, written, spelling]
  · intro depth s last t follower rest _ hkind _ _
    refine ⟨built (s.at t (follower :: rest)) kind [] (ofToken t), by simp, ?_⟩
    rw [primary, bind_of_eq (current_run _), current_at, hkind]
    simp only [wordKinds, List.mem_cons, List.not_mem_nil, or_false] at h
    rcases h with rfl | rfl | rfl | rfl <;> exact bare_at ..

/-- A constant is read back from its name, behind which no parenthesis follows. -/
theorem rereads_const {name : String} (h : isConstantName name = true) :
    Rereads (.made .const [.absent, .word (.token .const) name]) ⟨.const, name, []⟩ := by
  refine rereads_token rfl nofun ?_ (fun behind hbehind => readable_const h hbehind.endsWord) ?_
  · intro m hm
    obtain ⟨span, children, rfl, hchildren⟩ :=
      Node.erase_eq_made_iff.mp (hm.trans (Node.erase_made ..))
    obtain ⟨a, leaves, rfl, ha, hleaves⟩ := List.map_eq_cons_iff.mp hchildren
    obtain ⟨l, none, rfl, hl, hnone⟩ := List.map_eq_cons_iff.mp hleaves
    obtain ⟨place, rfl⟩ := Node.erase_eq_word_iff.mp hl
    rw [List.map_eq_nil_iff.mp hnone, Node.erase_eq_absent_iff.mp ha]
    exact ⟨name, rfl, (List.append_nil _).symm⟩
  · intro depth s last t follower rest _ hkind htext hfollows
    have hparens : (follower.kind == .lpar && !follower.spaced) = false := by
      revert hfollows
      generalize follower.kind = kind
      cases kind <;> first | (intro; rfl) | exact nofun
    refine ⟨built (s.at t (follower :: rest)) .const [.absent, leafOf t] (ofToken t), ?_, ?_⟩
    · simp [leafOf, hkind, htext]
    · rw [primary, bind_of_eq (current_run _), current_at, hkind]
      change constant _ _ = _
      rw [constant, bind_of_eq (advance_run ..), advance_at, current_at,
        bind_of_eq (seesGlued_run ..), current_at, hparens]
      rfl

/-- Elements are read back from entries of their own. -/
theorem exists_values {n : Node} {elements : List Node}
    (h : ∀ a ∈ n :: elements, ∃ w, Rereads a w) :
    ∃ first others, Listing (n :: elements) first others ∧
      (n :: elements).map Node.erase = (first :: others).map (·.node.erase) := by
  induction elements generalizing n with
  | nil =>
    obtain ⟨w, hw⟩ := h n List.mem_cons_self
    exact ⟨.value n w, [], listing_value hw, rfl⟩
  | cons second elements ih =>
    obtain ⟨w, hw⟩ := h n List.mem_cons_self
    obtain ⟨first, others, hlisting, heq⟩ := ih fun a ha => h a (List.mem_cons_of_mem _ ha)
    refine ⟨.value n w, first :: others, hlisting.cons_value hw, ?_⟩
    rw [List.map_cons, heq]
    rfl

/-- The words of an array, given those of its elements. -/
def arrayWording (inner : List Word) : Wording :=
  ⟨.lbrack, .ofList ['['], inner ++ [mark .rbrack ']' false]⟩

/-- An array is read back when its elements are. -/
theorem Inner.rereads_array {elements : List Node} {inner : List Word} (h : Inner elements inner)
    (hprints : ∀ nodes : List Node, nodes.map Node.erase = elements.map Node.erase →
      ∃ texts, Printer.printAll 0 nodes = .ok texts ∧
        (Printer.joined ", " texts).toList = writtenAll inner) :
    Rereads (.made .array elements) (arrayWording inner) where
  starts := rfl
  brace := fun _ => nofun
  prints := by
    intro m hm
    obtain ⟨span, nodes, rfl, hnodes⟩ :=
      Node.erase_eq_made_iff.mp (hm.trans (Node.erase_made ..))
    obtain ⟨texts, hprint, htexts⟩ := hprints nodes hnodes
    refine ⟨"[" ++ Printer.joined ", " texts ++ "]", ?_, ?_⟩
    · rw [Printer.print, hprint]
      rfl
    · rw [arrayWording, Wording.words, writtenAll_cons, writtenAll_append, ← htexts,
        String.toList_append, String.toList_append, List.append_assoc]
      rfl
  legible := by
    intro behind hbehind
    refine ⟨readable_mark .lbrack '[' (by decide), by rintro ⟨⟩, Legible.append ?_ ?_⟩
    · exact h.legible (stops_cons (by decide))
    · exact ⟨readable_mark .rbrack ']' (by decide), by rintro ⟨⟩, trivial⟩
  reads := by
    intro depth s last follower tokens rest spaced hdepth hscope htokens hfollows
    obtain ⟨opener, behind, rfl, hopener, hbehind⟩ := List.map_eq_cons_iff.mp htokens
    obtain ⟨middle, closers, rfl, hmiddle, hclosers⟩ := List.map_eq_append_iff.mp hbehind
    obtain ⟨closer, none, rfl, hcloser, hnone⟩ := List.map_eq_cons_iff.mp hclosers
    rw [List.map_eq_nil_iff.mp hnone]
    have hkind : closer.kind = .rbrack := congrArg Word.kind hcloser
    obtain ⟨fewer, rfl⟩ : ∃ fewer, depth = fewer + 1 := ⟨depth - 1, by omega⟩
    have hfewer : inner.length < fewer := by
      rw [arrayWording, Wording.length, List.length_append, List.length_singleton] at hdepth
      omega
    obtain ⟨found, hfound, hrun⟩ := h.delimitedArguments_run (s := s) last rest opener follower
      hfewer hscope hmiddle (Or.inr hkind)
    refine ⟨built (s.at closer (follower :: rest)) .array found (ofToken opener), 0, ?_,
      Nat.succ_pos _, ?_⟩
    · rw [erase_built, hfound, Node.erase_made]
    · have harray : primary (rulesAt (fewer + 1))
          (s.at last (opener :: (middle ++ closer :: follower :: rest))) =
            .ok (built (s.at closer (follower :: rest)) .array found (ofToken opener),
              s.at closer (follower :: rest)) := by
        rw [hkind] at hrun
        rw [primary, bind_of_eq (current_run _), current_at,
          show opener.kind = .lbrack from congrArg Word.kind hopener]
        change array _ _ = _
        rw [array, bind_of_eq (current_run _), bind_of_eq hrun]
        rfl
      rw [getLastD_cons_concat, List.cons_append, List.append_assoc]
      exact bind_of_eq harray

/-- A hash in braces is read when its pairs are. -/
theorem hash_run {g : Rules} {s : State} (last : Token) {last' opener closer follower : Token}
    (tokens : List Token) {rest : List Token} {pairs : List Node} (hopener : opener.kind = .lbrace)
    (hcloser : closer.kind = .rbrace)
    (hloop : g.loop (hashRound g) []
      ({ s with blocked := 0 }.at opener (tokens ++ closer :: follower :: rest)) =
        .ok (pairs, { s with blocked := 0 }.at last' (closer :: follower :: rest))) :
    ∃ m : Node, m.erase = .made .hash (pairs.map Node.erase) ∧
      primary g (s.at last (opener :: (tokens ++ closer :: follower :: rest))) =
        .ok (m, s.at closer (follower :: rest)) := by
  refine ⟨built ({ s with blocked := 0 }.at closer (follower :: rest)) .hash pairs (ofToken opener),
    erase_built .., ?_⟩
  let after := { s with blocked := 0 }.at last' (closer :: follower :: rest)
  have hskip : after.skip (· == .newline) = after := skip_run _ (by rw [current_at, hcloser]; rfl)
  rw [primary, bind_of_eq (current_run _), current_at, hopener]
  change withBlocked (fun _ => 0) _ _ = _
  refine withBlocked_at ?_
  refine (bind_of_eq (expectOr_run _ hopener _)).trans ?_
  rw [advance_at_append]
  refine (bind_of_eq hloop).trans ?_
  refine (bind_of_eq (skipNewlines_run _)).trans ?_
  rw [hskip]
  exact (bind_of_eq (expectOr_run _ hcloser _)).trans rfl

/-- The hash without pairs is read back from its braces. -/
theorem rereads_emptyHash :
    Rereads (.made .hash []) ⟨.lbrace, .ofList ['\x7b'], [mark .rbrace '\x7d' false]⟩ where
  starts := rfl
  brace := nofun
  prints := by
    intro m hm
    obtain ⟨span, none, rfl, hnone⟩ := Node.erase_eq_made_iff.mp (hm.trans (Node.erase_made ..))
    rw [List.map_eq_nil_iff.mp hnone]
    exact ⟨"\x7b\x7d", rfl, rfl⟩
  legible := fun _ _ =>
    ⟨readable_mark .lbrace '\x7b' (by decide), nofun, readable_mark .rbrace '\x7d' (by decide),
      nofun, trivial⟩
  reads := by
    intro depth s last follower tokens rest spaced hdepth hscope htokens hfollows
    obtain ⟨opener, behind, rfl, hopener, hbehind⟩ := List.map_eq_cons_iff.mp htokens
    obtain ⟨closer, none, rfl, hcloser, hnone⟩ := List.map_eq_cons_iff.mp hbehind
    rw [List.map_eq_nil_iff.mp hnone]
    have hkind : closer.kind = .rbrace := congrArg Word.kind hcloser
    obtain ⟨fewer, rfl⟩ : ∃ fewer, depth = fewer + 1 := ⟨depth - 1, by omega⟩
    have hround : hashRound (rulesAt (fewer + 1)) []
        ({ s with blocked := 0 }.at opener (closer :: follower :: rest)) =
          .ok (.done [], { s with blocked := 0 }.at opener (closer :: follower :: rest)) := by
      rw [hashRound, bind_of_eq (skipNewlines_run _),
        skip_run _ (by rw [current_at, hkind]; rfl), bind_of_eq (sees_run ..), current_at, hkind]
      rfl
    obtain ⟨m, hm, hprimary⟩ := hash_run (g := rulesAt (fewer + 1)) last []
      (congrArg Word.kind hopener) hkind (bind_of_eq hround)
    exact ⟨m, 0, hm, Nat.succ_pos _, bind_of_eq hprimary⟩

/-- The words of a hash in braces, given those of its pairs. -/
def hashWording (first : Entry) (others : List Entry) : Wording :=
  ⟨.lbrace, .ofList ['\x7b'], (first.together others).words true ++ [mark .rbrace '\x7d' true]⟩

theorem pushAll_append {entries : List Entry} (found : List Node) {nodes : List Node}
    (hlength : nodes.length = entries.length) :
    pushAll (fun found _ m => found ++ [m]) found entries nodes = found ++ nodes := by
  induction entries generalizing found nodes with
  | nil =>
    rw [List.length_eq_zero_iff.mp hlength, List.append_nil]
    rfl
  | cons e entries ih =>
    obtain ⟨m, rest, rfl⟩ := List.exists_cons_of_length_eq_add_one hlength
    have hrest := ih (found ++ [m]) (Nat.succ.inj hlength)
    rw [List.append_assoc] at hrest
    exact hrest

/-- A hash is read back from its braces and its pairs. -/
theorem rereads_hash {first : Entry} {others : List Entry}
    (h : ∀ e ∈ first :: others, e.HasKey) :
    Rereads (.made .hash ((first :: others).map (·.node))) (hashWording first others) where
  starts := rfl
  brace := nofun
  prints := by
    intro m hm
    obtain ⟨span, nodes, rfl, hnodes⟩ :=
      Node.erase_eq_made_iff.mp (hm.trans (Node.erase_made ..))
    rw [List.map_map] at hnodes
    obtain ⟨texts, hprint, -, htexts⟩ := prints_listed (fun e he => (h e he).facts.2.1) hnodes
    obtain ⟨n, rest, rfl, -, -⟩ := List.map_eq_cons_iff.mp hnodes
    refine ⟨Printer.braced (Printer.joined ", " texts), ?_, ?_⟩
    · rw [Printer.print, hprint]
      rfl
    · have hopener : "\x7b ".toList = ['\x7b', ' '] := rfl
      have hcloser : writtenAll [mark .rbrace '\x7d' true] = " \x7d".toList := rfl
      have hmark : (⟨.lbrace, .ofList ['\x7b'], false⟩ : Word).written = ['\x7b'] := rfl
      rw [hashWording, Wording.words, writtenAll_cons, writtenAll_append,
        Wording.written_words_true, ← htexts, Printer.braced, String.toList_append,
        String.toList_append, hopener, hcloser, hmark]
      simp
  legible := by
    intro behind hbehind
    have hlegible := legible_listed fun e he => (h e he).facts.2.1
    refine ⟨readable_mark .lbrace '\x7b' (by decide), by rintro ⟨⟩, Legible.append ?_ ?_⟩
    · exact Wording.legible_words (hlegible _ (stops_cons (by decide))) true
    · exact ⟨readable_mark .rbrace '\x7d' (by decide), by rintro ⟨⟩, trivial⟩
  reads := by
    intro depth s last follower tokens rest spaced hdepth hscope htokens hfollows
    obtain ⟨opener, behind, rfl, hopener, hbehind⟩ := List.map_eq_cons_iff.mp htokens
    obtain ⟨middle, closers, rfl, hmiddle, hclosers⟩ := List.map_eq_append_iff.mp hbehind
    obtain ⟨closer, none, rfl, hcloser, hnone⟩ := List.map_eq_cons_iff.mp hclosers
    rw [List.map_eq_nil_iff.mp hnone]
    have hkind : closer.kind = .rbrace := congrArg Word.kind hcloser
    obtain ⟨fewer, rfl⟩ : ∃ fewer, depth = fewer + 1 := ⟨depth - 1, by omega⟩
    obtain ⟨hcount, hlengths⟩ := length_together first others
    have hfewer : (first.together others).length < fewer := by
      rw [hashWording, Wording.length, List.length_append, List.length_singleton,
        Wording.length_words] at hdepth
      omega
    -- Each entry is shorter than the whole wording, so the depth that is left suffices to read it.
    have hrounds : ∀ e ∈ first :: others,
        RoundReads (hashRound (rulesAt (fewer + 1))) (fun found _ m => found ++ [m])
          (· == .rbrace) e := by
      intro e he
      have hlength := hlengths e he
      obtain ⟨key, n, w, rfl, -, hn⟩ := h e he
      exact roundReads_hash hn (Nat.lt_of_succ_lt (Nat.lt_of_le_of_lt hlength hfewer))
    have hlimit : others.length < fewer + 1 := by omega
    obtain ⟨nodes, hnodes, hrun⟩ := rounds_listed hrounds
      (fun e he => (h e he).facts.2.1.starts) hlimit (s := { s with blocked := 0 }) hscope []
      opener (follower :: rest) hmiddle (beq_iff_eq.mpr hkind)
    have hlength := congrArg List.length hnodes
    rw [List.length_map, List.length_map] at hlength
    rw [pushAll_append [] hlength, List.nil_append] at hrun
    obtain ⟨m, hm, hprimary⟩ := hash_run (g := rulesAt (fewer + 1)) last middle
      (congrArg Word.kind hopener) hkind hrun
    refine ⟨m, 0, ?_, Nat.succ_pos _, ?_⟩
    · rw [hm, hnodes, Node.erase_made, List.map_map]
      rfl
    · rw [getLastD_cons_concat, List.cons_append, List.append_assoc]
      exact bind_of_eq hprimary

end XhrKeywords.Grammar
