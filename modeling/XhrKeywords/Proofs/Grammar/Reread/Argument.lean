import XhrKeywords.Proofs.Grammar.Reread.Listing

/-!
# Arguments

A hash in the last place of an argument list prints without braces. Whether or not there is one,
the printed arguments are the words of entries, from which the arguments are read back.
-/

namespace XhrKeywords.Grammar

open Syntax hiding Kind
open Token (Kind)
open Word

/-- Arguments print as the words of entries. -/
def PrintsArguments (arguments : List Node) (first : Entry) (others : List Entry) : Prop :=
  ∀ nodes : List Node, nodes.map Node.erase = arguments.map Node.erase →
    ∃ texts, Printer.printArguments 0 nodes = .ok texts ∧ texts ≠ [] ∧
      (Printer.joined ", " texts).toList = writtenAll ((first.together others).words false)

/-- Whether a node is a hash with pairs. -/
def hasPairs : Node → Bool
  | .tree .hash _ (_ :: _) => true
  | _ => false

@[simp] theorem hasPairs_erase (n : Node) : hasPairs n.erase = hasPairs n := by
  cases n with
  | absent => rfl
  | leaf content => rfl
  | tree kind span children => cases children <;> cases kind <;> rfl

theorem hasPairs_iff {n : Node} :
    hasPairs n = true ↔ ∃ span pair pairs, n = .tree .hash span (pair :: pairs) := by
  unfold hasPairs
  split
  · simp
  · rename_i hother
    simp only [Bool.false_eq_true, false_iff]
    rintro ⟨span, pair, pairs, rfl⟩
    exact hother _ _ _ rfl

/-- An argument prints like any node, except for a hash with pairs in the last place. -/
theorem printArguments_cons {n : Node} {others : List Node} {text : String} {texts : List String}
    (hprint : Printer.print 0 n = .ok text) (hothers : Printer.printArguments 0 others = .ok texts)
    (hhash : hasPairs n = true → others.all (·.isKind .blockPass) = false) :
    Printer.printArguments 0 (n :: others) = .ok (text :: texts) := by
  cases hn : hasPairs n with
  | false =>
    rw [Printer.printArguments]
    · rw [hprint, hothers]
      rfl
    · rintro span pair pairs rfl
      cases hn
  | true =>
    obtain ⟨span, pair, pairs, rfl⟩ := hasPairs_iff.mp hn
    rw [Printer.print, List.isEmpty_cons, if_neg Bool.false_ne_true, Printer.printAll] at hprint
    rw [Printer.printArguments, hhash hn, hothers]
    cases hpair : Printer.print 0 pair with
    | error e => simp [hpair, bind, Except.bind] at hprint
    | ok first =>
      cases hpairs : Printer.printAll 0 pairs with
      | error e => simp [hpair, hpairs, bind, Except.bind] at hprint
      | ok listed =>
        simp only [hpair, hpairs, bind, Except.bind, pure, Except.pure, Except.ok.injEq] at hprint
        subst hprint
        rfl

/-- A hash with pairs in the last place prints as its pairs. -/
theorem printArguments_pairs {span : Option Span} {pair : Node} {pairs : List Node}
    {texts : List String} (h : Printer.printAll 0 (pair :: pairs) = .ok texts) :
    Printer.printArguments 0 [.tree .hash span (pair :: pairs)] =
      .ok [Printer.joined ", " texts] := by
  rw [Printer.printAll] at h
  rw [Printer.printArguments]
  cases hpair : Printer.print 0 pair with
  | error e => simp [hpair, bind, Except.bind] at h
  | ok first =>
    cases hpairs : Printer.printAll 0 pairs with
    | error e => simp [hpair, hpairs, bind, Except.bind] at h
    | ok listed =>
      simp only [hpair, hpairs, bind, Except.bind, pure, Except.pure, Except.ok.injEq] at h
      subst h
      rfl

/-- A pair of a lower-case key and a value that is read back. -/
def Entry.HasKey (e : Entry) : Prop :=
  ∃ key n w, e = .pair key n w ∧ isLowerName key = true ∧ Rereads n w

theorem Entry.HasKey.facts {e : Entry} (h : e.HasKey) :
    e.isPair = true ∧ e.Printed ∧ e.IsRead ∧ e.wording.kind ≠ .lbrace := by
  obtain ⟨key, n, w, rfl, hkey, hn⟩ := h
  exact ⟨rfl, hn.printed_pair hkey, hn.isRead_pair, nofun⟩

/-- What is known of an argument: it is read back from its words, and the pairs of a hash are read
back one by one. -/
structure IsArgument (n : Node) : Prop where
  rereads : ∃ w, Rereads n w
  notBlock : n.isKind .blockPass = false
  pairs : ∀ {children : List Node}, n.erase = .made .hash children →
    ∃ entries : List Entry, entries.map (·.node.erase) = children ∧
      ∀ e ∈ entries, e.HasKey

/-- The pairs of a hash in the last place are entries of their own. -/
theorem IsArgument.exists_pairs {n : Node} (h : IsArgument n) (hn : hasPairs n = true) :
    ∃ first others, Listing [n] first others ∧ PrintsArguments [n] first others ∧
      first.wording.kind ≠ .lbrace := by
  obtain ⟨span, pair, pairs, rfl⟩ := hasPairs_iff.mp hn
  obtain ⟨entries, hentries, hall⟩ := h.pairs (Node.erase_tree ..)
  obtain ⟨first, others, rfl, -, -⟩ := List.map_eq_cons_iff.mp hentries
  have hprinted : ∀ e ∈ first :: others, e.Printed := fun e he => (hall e he).facts.2.1
  have hlisting := listing_pairs hprinted (fun e he => (hall e he).facts.2.2.1)
    fun e he => (hall e he).facts.1
  refine ⟨first, others, hlisting.congr ?_, ?_, (hall first List.mem_cons_self).facts.2.2.2⟩
  · rw [List.map_singleton, List.map_singleton, Node.erase_tree, Node.erase_made, List.map_map,
      ← hentries]
    rfl
  · intro nodes hnodes
    obtain ⟨m, none, rfl, hm, hnone⟩ := List.map_eq_cons_iff.mp hnodes
    rw [List.map_eq_nil_iff.mp hnone]
    obtain ⟨mspan, found, rfl, hfound⟩ :=
      Node.erase_eq_made_iff.mp (hm.trans (Node.erase_tree ..))
    obtain ⟨q, qs, rfl, -, -⟩ := List.map_eq_cons_iff.mp hfound
    obtain ⟨texts, hprints, hne, htexts⟩ := prints_listed hprinted (hfound.trans hentries.symm)
    exact ⟨_, printArguments_pairs hprints, List.cons_ne_nil _ _, htexts⟩

/-- A value in front of arguments prints in front of them. -/
theorem PrintsArguments.cons_value {n : Node} {w : Wording} {arguments : List Node} {first : Entry}
    {others : List Entry} (h : PrintsArguments arguments first others) (hn : Rereads n w)
    (hblock : ∃ a ∈ arguments, a.isKind .blockPass = false) :
    PrintsArguments (n :: arguments) (.value n w) (first :: others) := by
  intro nodes hnodes
  obtain ⟨m, rest, rfl, hm, hrest⟩ := List.map_eq_cons_iff.mp hnodes
  obtain ⟨text, hprint, htext⟩ := hn.prints m hm
  obtain ⟨texts, hprints, hne, htexts⟩ := h rest hrest
  refine ⟨text :: texts, printArguments_cons hprint hprints fun _ => ?_, List.cons_ne_nil _ _, ?_⟩
  · obtain ⟨a, ha, hnot⟩ := hblock
    obtain ⟨b, hb, heq⟩ := List.mem_map.mp (hrest ▸ List.mem_map_of_mem ha)
    rw [List.all_eq_false]
    exact ⟨b, hb, by rw [Node.isKind_of_erase_eq heq, hnot]; exact Bool.false_ne_true⟩
  · rw [toList_joined_cons hne, htext, htexts, Entry.words_together_cons, writtenAll_append,
      writtenAll_cons, Wording.written_words_true]
    rfl

/-- Arguments are read back from entries that they print as. -/
theorem exists_listing {n : Node} {arguments : List Node}
    (h : ∀ a ∈ n :: arguments, IsArgument a) :
    ∃ first others, Listing (n :: arguments) first others ∧
      PrintsArguments (n :: arguments) first others ∧
      (n.isKind .hash = false → first.wording.kind ≠ .lbrace) := by
  have hn := h n List.mem_cons_self
  obtain ⟨w, hw⟩ := hn.rereads
  cases arguments with
  | cons second rest =>
    have hrest : ∀ a ∈ second :: rest, IsArgument a := fun a ha => h a (List.mem_cons_of_mem _ ha)
    obtain ⟨first, others, hlisting, hprints, -⟩ := exists_listing hrest
    refine ⟨.value n w, first :: others, hlisting.cons_value hw, hprints.cons_value hw ?_, hw.brace⟩
    exact ⟨second, List.mem_cons_self, (hrest second List.mem_cons_self).notBlock⟩
  | nil =>
    cases hpairs : hasPairs n with
    | true =>
      obtain ⟨first, others, hlisting, hprints, hbrace⟩ := hn.exists_pairs hpairs
      exact ⟨first, others, hlisting, hprints, fun _ => hbrace⟩
    | false =>
      refine ⟨.value n w, [], listing_value hw, ?_, hw.brace⟩
      intro nodes hnodes
      obtain ⟨m, none, rfl, hm, hnone⟩ := List.map_eq_cons_iff.mp hnodes
      rw [List.map_eq_nil_iff.mp hnone]
      obtain ⟨text, hprint, htext⟩ := hw.prints m hm
      refine ⟨[text], printArguments_cons hprint rfl fun hm' => ?_, List.cons_ne_nil _ _, ?_⟩
      · rw [← hasPairs_erase, hm, hasPairs_erase, hpairs] at hm'
        cases hm'
      · rw [Printer.joined, String.intercalate_singleton, htext, Entry.together_nil]
        rfl

/-- The words between the delimiters of an argument list, which may be empty. -/
inductive Inner (arguments : List Node) : List Word → Prop
  | empty (h : arguments = []) : Inner arguments []
  | listed {first : Entry} {others : List Entry} (h : Listing arguments first others) :
    Inner arguments ((first.together others).words false)

variable {arguments : List Node} {inner : List Word}

theorem Inner.legible {behind : List Char} (h : Inner arguments inner) (hbehind : Stops behind) :
    Legible behind inner := by
  cases h with
  | empty h => trivial
  | listed h => exact legible_listed h.printed behind hbehind

/-- Arguments between delimiters are read back, also when there are none. -/
theorem Inner.delimitedArguments_run {depth : Nat} {s : State} (h : Inner arguments inner)
    (last : Token) {tokens : List Token} (rest : List Token) (opener : Token) {closer : Token}
    (follower : Token) (hdepth : inner.length < depth)
    (hscope : s.scope = []) (htokens : tokens.map Token.word = inner)
    (hcloser : closer.kind = .rpar ∨ closer.kind = .rbrack) :
    ∃ found : List Node, found.map Node.erase = arguments.map Node.erase ∧
      delimitedArguments (rulesAt (depth + 1)) closer.kind
        (s.at last (opener :: (tokens ++ closer :: follower :: rest))) =
          .ok (found, s.at closer (follower :: rest)) := by
  cases h with
  | listed h =>
    exact h.delimitedArguments_run last rest opener follower hdepth hscope htokens hcloser
  | empty h =>
    rw [List.map_eq_nil_iff.mp htokens, h]
    refine ⟨[], rfl, ?_⟩
    have hnewline : (closer.kind == .newline) = false := by
      rcases hcloser with h | h <;> rw [h] <;> rfl
    have hround : argumentRound (rulesAt (depth + 1)) (some closer.kind) .empty
        ({ s with blocked := 0 }.at opener (closer :: follower :: rest)) =
          .ok (.done .empty, { s with blocked := 0 }.at opener (closer :: follower :: rest)) := by
      rw [argumentRound, bind_of_eq (skipNewlinesWithin_run hnewline), seesCloser,
        bind_of_eq (sees_run ..), current_at, beq_self_eq_true]
      rfl
    rw [delimitedArguments, bind_of_eq (advance_run ..)]
    change bracketed _ (s.at opener (closer :: follower :: rest)) = _
    refine withBlocked_at ?_
    have hloop : (rulesAt (depth + 1)).loop (argumentRound (rulesAt (depth + 1))
        (some closer.kind)) .empty
        ({ s with blocked := 0 }.at opener (closer :: follower :: rest)) =
          .ok (.empty, { s with blocked := 0 }.at opener (closer :: follower :: rest)) := by
      change rounds (depth + 1) _ _ _ = _
      rw [rounds, bind_of_eq hround]
      rfl
    have hexpect := expectOr_run ({ s with blocked := 0 }.at opener
      (closer :: follower :: rest)) rfl (.unclosedArguments closer.kind)
    rw [Grammar.arguments, bind_of_eq hloop]
    exact (bind_of_eq hexpect).trans rfl

end XhrKeywords.Grammar
