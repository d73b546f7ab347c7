import XhrKeywords.Proofs.Grammar.Reread.Value

/-!
# Argument lists read back

The arguments of a call are written as values and, in the place of a hash at the end, as its pairs
without braces. Reading them back gathers these pairs into the hash again.
-/

namespace XhrKeywords.Grammar

open Syntax hiding Kind
open Token (Kind)
open Unicode Word

/-- A lower-case name can be written in front of a colon. -/
theorem isLabelSafe_of_isLowerName {name : String} (h : isLowerName name = true) :
    Printer.isLabelSafe name = true := by
  have hlast : ∀ c, isLowerPart c = false → name.toList.getLast? ≠ some c := by
    intro c hc heq
    rw [isLowerPart_of_mem h c (List.mem_of_getLast? heq)] at hc
    cases hc
  have hletter : ∀ {c}, isLowerStart c = true → (isAsciiLetter c || c == '_') = true := fun hc =>
    of_ascii (q := fun c => isAsciiLetter c || c == '_') ascii_of_isLowerStart (by decide) hc
  have hpart : ∀ {c}, isLowerPart c = true →
      (isAsciiLetter c || isAsciiDigit c || c == '_') = true := fun hc =>
    of_ascii (q := fun c => isAsciiLetter c || isAsciiDigit c || c == '_') ascii_of_isLowerPart
      (by decide) hc
  rw [Printer.isLabelSafe]
  simp only [hlast '\n' (by decide), hlast '?' (by decide), hlast '!' (by decide), if_false,
    decide_false, Bool.or_self, Bool.false_eq_true]
  rw [isLowerName] at h
  cases htext : name.toList with
  | nil => simp [htext] at h
  | cons first others =>
    rw [htext, Bool.and_eq_true, List.all_eq_true] at h
    change ((isAsciiLetter first || first == '_') && _) = true
    rw [hletter h.1, Bool.true_and, List.all_eq_true]
    exact fun c hc => hpart (h.2 c hc)

/-- A pair prints as its label and its value. -/
theorem Rereads.prints_pair {key : String} {n : Node} {w : Wording} (h : Rereads n w)
    (hkey : isLowerName key = true) :
    PrintsAs (Entry.pair key n w).node (Entry.pair key n w).wording := by
  intro m hm
  obtain ⟨span, children, rfl, hchildren⟩ := Node.erase_eq_made_iff.mp hm
  obtain ⟨k, values, rfl, hk, hvalues⟩ := List.map_eq_cons_iff.mp hchildren
  obtain ⟨v, none, rfl, hv, hnone⟩ := List.map_eq_cons_iff.mp hvalues
  rw [List.map_eq_nil_iff.mp hnone]
  obtain ⟨keySpan, leaves, rfl, hleaves⟩ := Node.erase_eq_made_iff.mp hk
  obtain ⟨l, none, rfl, hl, hnone⟩ := List.map_eq_cons_iff.mp hleaves
  obtain ⟨place, rfl⟩ := Node.erase_eq_word_iff.mp hl
  obtain ⟨text, hprint, htext⟩ := h.prints v hv
  refine ⟨key ++ ":" ++ " " ++ text, ?_, ?_⟩
  · rw [Printer.print, Printer.printPair, Printer.label?, isLabelSafe_of_isLowerName hkey,
      Bool.or_true, if_pos rfl, hprint]
    rfl
  · change _ = writtenAll (⟨.label, key, false⟩ :: w.words true)
    rw [writtenAll_cons, Wording.written_words_true, ← htext]
    simp only [written, spelling, Bool.false_eq_true, if_false, String.toList_append,
      List.append_assoc]
    rfl

/-- A pair is an entry whose words are legible. -/
theorem Rereads.printed_pair {key : String} {n : Node} {w : Wording} (h : Rereads n w)
    (hkey : isLowerName key = true) : (Entry.pair key n w).Printed where
  starts := rfl
  prints := h.prints_pair hkey
  legible := by
    intro behind hbehind
    refine ⟨?_, nofun, Wording.legible_words (h.legible behind hbehind) true⟩
    change Word.Readable _ (writtenAll (w.words true) ++ behind)
    rw [Wording.written_words_true, List.cons_append]
    exact readable_label hkey

/-- A value is an entry whose words are legible. -/
theorem Rereads.printed_value {n : Node} {w : Wording} (h : Rereads n w) :
    (Entry.value n w).Printed where
  starts := by
    change startsEntry w.kind = true
    rw [startsEntry, h.starts, Bool.true_or]
  prints := h.prints
  legible := h.legible

/-- An entry that is read as an argument at every depth that its words allow. -/
def Entry.IsRead (e : Entry) : Prop :=
  ∀ depth, e.wording.length < depth → ReadsArgument depth e

/-- Taking up an entry among collected arguments. -/
def pushArguments : Collected → List Entry → List Node → Collected :=
  pushAll fun c e m => e.push c m

/-- Entries that are read back as arguments: those among them that are pairs come last and make one
hash. -/
structure Listing (arguments : List Node) (first : Entry) (others : List Entry) : Prop where
  printed : ∀ e ∈ first :: others, e.Printed
  read : ∀ e ∈ first :: others, e.IsRead
  gathers : ∀ before nodes : List Node,
    nodes.map Node.erase = (first :: others).map (·.node.erase) →
      (pushArguments ⟨before, []⟩ (first :: others) nodes).flush.map Node.erase
        = before.map Node.erase ++ arguments.map Node.erase

theorem Rereads.isRead_value {n : Node} {w : Wording} (h : Rereads n w) :
    (Entry.value n w).IsRead := fun _ hdepth => h.readsArgument hdepth

theorem Rereads.isRead_pair {key : String} {n : Node} {w : Wording} (h : Rereads n w) :
    (Entry.pair key n w).IsRead := fun _ hdepth => h.readsArgument_pair (Nat.lt_of_succ_lt hdepth)

/-- One value is an argument. -/
theorem listing_value {n : Node} {w : Wording} (h : Rereads n w) :
    Listing [n] (.value n w) [] where
  printed := List.forall_mem_singleton.mpr h.printed_value
  read := List.forall_mem_singleton.mpr h.isRead_value
  gathers := by
    intro before nodes hnodes
    obtain ⟨m, none, rfl, hm, hnone⟩ := List.map_eq_cons_iff.mp hnodes
    rw [List.map_eq_nil_iff.mp hnone]
    have hm : m.erase = n.erase := hm
    simp [pushArguments, pushAll, Entry.push, Entry.value, Collected.add, Collected.flush, hm]

/-- A value in front of arguments is one more argument. -/
theorem Listing.cons_value {n : Node} {w : Wording} {arguments : List Node} {first : Entry}
    {others : List Entry} (h : Listing arguments first others) (hn : Rereads n w) :
    Listing (n :: arguments) (.value n w) (first :: others) where
  printed := List.forall_mem_cons.mpr ⟨hn.printed_value, h.printed⟩
  read := List.forall_mem_cons.mpr ⟨hn.isRead_value, h.read⟩
  gathers := by
    intro before nodes hnodes
    obtain ⟨m, rest, rfl, hm, hrest⟩ := List.map_eq_cons_iff.mp hnodes
    have hm : m.erase = n.erase := hm
    have hgathers := h.gathers (before ++ [m]) rest hrest
    rw [List.map_append, List.map_singleton, hm, List.append_assoc, List.singleton_append]
      at hgathers
    exact hgathers

theorem pushArguments_pairs {entries : List Entry} (h : ∀ e ∈ entries, e.isPair = true)
    {before : List Node} (pairs : List Node) {nodes : List Node}
    (hlength : nodes.length = entries.length) :
    pushArguments ⟨before, pairs⟩ entries nodes = ⟨before, pairs ++ nodes⟩ := by
  induction entries generalizing pairs nodes with
  | nil =>
    rw [List.length_eq_zero_iff.mp hlength, List.append_nil]
    rfl
  | cons e entries ih =>
    obtain ⟨m, rest, rfl⟩ := List.exists_cons_of_length_eq_add_one hlength
    have hrest := ih (fun f hf => h f (List.mem_cons_of_mem _ hf)) (pairs ++ [m])
      (Nat.succ.inj hlength)
    have hpush : e.push ⟨before, pairs⟩ m = ⟨before, pairs ++ [m]⟩ := by
      rw [Entry.push, h e List.mem_cons_self, if_pos rfl, Collected.addPair]
    rw [List.append_assoc] at hrest
    exact (congrArg (pushArguments · entries rest) hpush).trans hrest

/-- Pairs alone are one hash. -/
theorem listing_pairs {first : Entry} {others : List Entry}
    (hprinted : ∀ e ∈ first :: others, e.Printed) (hread : ∀ e ∈ first :: others, e.IsRead)
    (hpair : ∀ e ∈ first :: others, e.isPair = true) :
    Listing [.made .hash ((first :: others).map (·.node))] first others where
  printed := hprinted
  read := hread
  gathers := by
    intro before nodes hnodes
    have hlength := congrArg List.length hnodes
    rw [List.length_map, List.length_map] at hlength
    rw [pushArguments_pairs hpair [] hlength, List.nil_append]
    obtain ⟨m, rest, rfl, -, -⟩ := List.map_eq_cons_iff.mp hnodes
    simp only [Collected.flush, enclose, List.map_append, List.map_singleton, Node.erase_tree,
      hnodes, Node.erase_made, List.map_map]
    rfl

/-- Places make no difference to what arguments are read back. -/
theorem Listing.congr {arguments others' : List Node} {first : Entry} {others : List Entry}
    (h : Listing arguments first others)
    (heq : others'.map Node.erase = arguments.map Node.erase) : Listing others' first others where
  printed := h.printed
  read := h.read
  gathers := by
    rw [heq]
    exact h.gathers

/-- The number of words of entries, of each of them, and of the entries behind the first one. -/
theorem length_together (first : Entry) (others : List Entry) :
    others.length < (first.together others).length ∧
      ∀ e ∈ first :: others, e.wording.length ≤ (first.together others).length := by
  induction others generalizing first with
  | nil => simp [Wording.length]
  | cons second others ih =>
    obtain ⟨hcount, hlengths⟩ := ih second
    have hlength : (first.together (second :: others)).length =
        first.wording.length + ((second.together others).length + 1) := by
      have hwords := congrArg List.length (Entry.words_together_cons first second others false)
      rwa [List.length_append, List.length_cons, Wording.length_words, Wording.length_words,
        Wording.length_words] at hwords
    rw [hlength]
    refine ⟨by rw [List.length_cons]; omega, List.forall_mem_cons.mpr ⟨by omega, fun e he => ?_⟩⟩
    have := hlengths e he
    omega

section Reading

variable {arguments : List Node} {first : Entry} {others : List Entry} {depth : Nat} {s : State}
  (last : Token) {tokens : List Token} (rest : List Token) {spaced : Bool}

/-- Rounds gather the arguments of a listing up to its closer. -/
theorem Listing.rounds_run (h : Listing arguments first others)
    (hdepth : (first.together others).length < depth) (closer : Option Kind)
    (hcloser : Closes closer) (hscope : s.scope = [])
    (htokens : tokens.map Token.word = (first.together others).words spaced) {follower : Token}
    (hend : endsExpression follower.kind = true) (hcomma : follower.kind ≠ .comma) :
    ∃ c : Collected, c.flush.map Node.erase = arguments.map Node.erase ∧
      (rulesAt (depth + 1)).loop (argumentRound (rulesAt (depth + 1)) closer) .empty
        (s.at last (tokens ++ follower :: rest)) =
          .ok (c, s.at (tokens.getLastD last) (follower :: rest)) := by
  obtain ⟨hcount, hlengths⟩ := length_together first others
  have hstarts : ∀ e ∈ first :: others, startsEntry e.wording.kind = true :=
    fun e he => (h.printed e he).starts
  have hrounds : ∀ e ∈ first :: others,
      RoundReads (argumentRound (rulesAt (depth + 1)) closer) (fun c e m => e.push c m)
        (fun kind => endsExpression kind && kind != .comma) e := fun e he =>
    roundReads_argument (h.read e he depth (Nat.lt_of_le_of_lt (hlengths e he) hdepth)) hcloser
      (hstarts e he)
  have hlimit : others.length < depth + 1 := by omega
  have hcloses : (endsExpression follower.kind && follower.kind != .comma) = true := by
    rw [hend, bne_iff_ne.mpr hcomma]
    rfl
  obtain ⟨nodes, hnodes, hrun⟩ :=
    rounds_listed hrounds hstarts hlimit hscope .empty last rest htokens hcloses
  exact ⟨_, h.gathers [] nodes hnodes, hrun⟩

/-- The arguments of a call without parentheses are read back. -/
theorem Listing.arguments_run (h : Listing arguments first others)
    (hdepth : (first.together others).length < depth) (hscope : s.scope = [])
    (htokens : tokens.map Token.word = (first.together others).words spaced) {follower : Token}
    (hend : endsExpression follower.kind = true) (hcomma : follower.kind ≠ .comma) :
    ∃ found : List Node, found.map Node.erase = arguments.map Node.erase ∧
      Grammar.arguments (rulesAt (depth + 1)) none (s.at last (tokens ++ follower :: rest)) =
        .ok (found, s.at (tokens.getLastD last) (follower :: rest)) := by
  obtain ⟨c, hc, hrun⟩ := h.rounds_run last rest hdepth none nofun hscope htokens hend hcomma
  refine ⟨c.flush, hc, ?_⟩
  rw [Grammar.arguments, bind_of_eq hrun]
  rfl

/-- Arguments between delimiters are read back. -/
theorem Listing.delimitedArguments_run (h : Listing arguments first others) (opener : Token)
    {closer : Token} (follower : Token) (hdepth : (first.together others).length < depth)
    (hscope : s.scope = []) (htokens : tokens.map Token.word = (first.together others).words spaced)
    (hcloser : closer.kind = .rpar ∨ closer.kind = .rbrack) :
    ∃ found : List Node, found.map Node.erase = arguments.map Node.erase ∧
      delimitedArguments (rulesAt (depth + 1)) closer.kind
        (s.at last (opener :: (tokens ++ closer :: follower :: rest))) =
          .ok (found, s.at closer (follower :: rest)) := by
  obtain ⟨t, behind, rfl, -, -⟩ := List.map_eq_cons_iff.mp htokens
  have hend : endsExpression closer.kind = true := by rcases hcloser with h | h <;> rw [h] <;> rfl
  have hcomma : closer.kind ≠ .comma := by rcases hcloser with h | h <;> rw [h] <;> decide
  have hcloses : Closes (some closer.kind) := by
    rintro _ ⟨⟩
    exact hend
  obtain ⟨c, hc, hrun⟩ := h.rounds_run (s := { s with blocked := 0 }) opener (follower :: rest)
    hdepth _ hcloses hscope htokens hend hcomma
  refine ⟨c.flush, hc, ?_⟩
  rw [delimitedArguments, bind_of_eq (advance_run ..)]
  change bracketed _ (s.at opener (t :: (behind ++ closer :: follower :: rest))) = _
  refine withBlocked_at ?_
  rw [Grammar.arguments]
  refine (bind_of_eq hrun).trans ?_
  have hexpect := expectOr_run ({ s with blocked := 0 }.at ((t :: behind).getLastD opener)
    (closer :: follower :: rest)) rfl (.unclosedArguments closer.kind)
  exact (bind_of_eq hexpect).trans rfl

end Reading

end XhrKeywords.Grammar
