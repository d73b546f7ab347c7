import XhrKeywords.Proofs.Grammar.Reread.Plain

/-!
# Calls read back

A call is read back from its name, its receiver in front of a dot and its arguments in parentheses.
With the calls, all plain expressions are read back.
-/

namespace XhrKeywords.Grammar

open Syntax hiding Kind
open Token (Kind)
open Unicode Word

/-- The words behind the name of a call: none, or the arguments in parentheses. -/
inductive Parens (arguments : List Node) : List Word → Prop
  | bare (h : arguments = []) : Parens arguments []
  | listed {first : Entry} {others : List Entry} (h : Listing arguments first others)
    (hprints : PrintsArguments arguments first others) :
    Parens arguments
      (mark .lpar '(' false :: ((first.together others).words false ++ [mark .rpar ')' false]))

/-- Arguments that are read back can stand in parentheses. -/
theorem exists_parens {arguments : List Node} (h : ∀ a ∈ arguments, IsArgument a) :
    ∃ words, Parens arguments words := by
  cases arguments with
  | nil => exact ⟨[], .bare rfl⟩
  | cons n others =>
    obtain ⟨first, others, hlisting, hprints, -⟩ := exists_listing h
    exact ⟨_, .listed hlisting hprints⟩

variable {arguments : List Node} {words : List Word}

theorem Parens.legible {behind : List Char} (h : Parens arguments words) :
    Legible behind words := by
  cases h with
  | bare h => trivial
  | listed h _ =>
    refine ⟨readable_mark .lpar '(' (by decide), nofun, Legible.append ?_ ?_⟩
    · exact legible_listed h.printed _ (stops_cons (by decide))
    · exact ⟨readable_mark .rpar ')' (by decide), nofun, trivial⟩

/-- What stands behind the name of a call ends the name. -/
theorem Parens.stops {behind : List Char} (h : Parens arguments words) (hbehind : Stops behind) :
    Stops (writtenAll words ++ behind) := by
  cases h with
  | bare h => exact hbehind
  | listed h _ => exact stops_cons (by decide)

/-- A lower-case name names no setter. -/
theorem setterName?_eq_none {name : String} (h : isLowerName name = true) :
    Printer.setterName? name = none := by
  have hlast : name.toList.getLast? ≠ some '=' := by
    intro heq
    have hpart := isLowerPart_of_mem h _ (List.mem_of_getLast? heq)
    exact absurd hpart (by decide)
  simp [Printer.setterName?, hlast]

/-- A call that is no assignment prints as its head and its arguments in parentheses. -/
theorem Parens.printCall {nodes : List Node} (h : Parens arguments words)
    (hnodes : nodes.map Node.erase = arguments.map Node.erase) {receiver : Node} (name : Leaf)
    {object : String} (dot : String) (hname : isLowerName name.text = true)
    (hobject : Printer.print 0 receiver = .ok object) :
    ∃ text, Printer.printCall dot true 0 (receiver :: .leaf name :: nodes) = .ok text ∧
      text.toList = (if receiver.isAbsent then name.text else object ++ dot ++ name.text).toList
        ++ writtenAll words := by
  have hassigned : Printer.assignedName? receiver name.text nodes = none := by
    rw [Printer.assignedName?, setterName?_eq_none hname, ite_self]
  cases h with
  | bare h =>
    rw [h, List.map_nil, List.map_eq_nil_iff] at hnodes
    subst hnodes
    refine ⟨_, ?_, (List.append_nil _).symm⟩
    simp [Printer.printCall, hobject, hassigned, bind, Except.bind, pure, Except.pure]
  | listed h hprints =>
    obtain ⟨texts, hprint, hne, htexts⟩ := hprints nodes hnodes
    have hnonempty : nodes ≠ [] := by
      rintro rfl
      cases hprint
      exact hne rfl
    let head := if receiver.isAbsent then name.text else object ++ dot ++ name.text
    refine ⟨head ++ "(" ++ Printer.joined ", " texts ++ ")", ?_, ?_⟩
    · simp [Printer.printCall, hobject, hassigned, hprint, hnonempty, head, bind, Except.bind, pure,
        Except.pure]
    · rw [String.toList_append, String.toList_append, String.toList_append, htexts, writtenAll_cons,
        writtenAll_append, List.append_assoc, List.append_assoc]
      rfl

/-- No argument starts behind an operand. -/
theorem commandStart_run {s : State} (h : follows s.current.kind = true) :
    commandStart s = .ok (false, s) := by
  have hclass : ∀ kind, follows kind = true →
      kind.startsArgument = false ∧ kind.startsGluedArgument = false := by
    intro kind
    cases kind <;> decide
  obtain ⟨hargument, hglued⟩ := hclass _ h
  rw [commandStart, bind_of_eq (current_run s), bind_of_eq (second_run s), hargument, hglued,
    Bool.false_and, Bool.false_and, Bool.false_and, Bool.or_self, Bool.and_false, pure_run]

/-- The arguments of a call are read back behind its name. -/
theorem Parens.callArguments_run {depth : Nat} {s : State} (h : Parens arguments words)
    (last : Token) {follower : Token} {tokens : List Token} (rest : List Token)
    (hdepth : words.length ≤ depth) (hscope : s.scope = [])
    (htokens : tokens.map Token.word = words)
    (hfollows : follows follower.kind = true) (kind : Syntax.Kind) (head : List Node)
    (start : Mark) :
    ∃ found : List Node, found.map Node.erase = arguments.map Node.erase ∧
      callArguments (rulesAt (depth + 1)) kind head start (s.at last (tokens ++ follower :: rest)) =
        .ok (built (s.at (tokens.getLastD last) (follower :: rest)) kind (head ++ found) start,
          s.at (tokens.getLastD last) (follower :: rest)) := by
  -- Without words there is no parenthesis and no argument to start; with words they are between
  -- parentheses.
  cases h with
  | bare h =>
    rw [List.map_eq_nil_iff.mp htokens, h]
    refine ⟨[], rfl, ?_⟩
    have hparens : (follower.kind == .lpar && !follower.spaced) = false := by
      revert hfollows
      generalize follower.kind = kind
      cases kind <;> first | (intro; rfl) | exact nofun
    have hcommand : commandStart (s.at last (follower :: rest)) =
        .ok (false, s.at last (follower :: rest)) := commandStart_run hfollows
    rw [List.nil_append, callArguments, bind_of_eq (seesGlued_run ..), current_at, hparens,
      if_neg Bool.false_ne_true, bind_of_eq hcommand, if_neg Bool.false_ne_true, build_run,
      List.append_nil]
    rfl
  | @listed first others h _ =>
    obtain ⟨opener, behind, rfl, hopener, hbehind⟩ := List.map_eq_cons_iff.mp htokens
    obtain ⟨middle, closers, rfl, hmiddle, hclosers⟩ := List.map_eq_append_iff.mp hbehind
    obtain ⟨closer, none, rfl, hcloser, hnone⟩ := List.map_eq_cons_iff.mp hclosers
    rw [List.map_eq_nil_iff.mp hnone]
    have hkind : closer.kind = .rpar := congrArg Word.kind hcloser
    have hparens : (opener.kind == .lpar && !opener.spaced) = true := by
      rw [show opener.kind = .lpar from congrArg Word.kind hopener,
        show opener.spaced = false from congrArg Word.spaced hopener]
      rfl
    rw [List.length_cons, List.length_append, List.length_singleton, Wording.length_words]
      at hdepth
    have hinner : (first.together others).length < depth := by omega
    obtain ⟨found, hfound, hrun⟩ := h.delimitedArguments_run (s := s) last rest opener follower
      hinner hscope hmiddle (Or.inl hkind)
    rw [hkind] at hrun
    refine ⟨found, hfound, ?_⟩
    rw [getLastD_cons_concat, List.cons_append, List.append_assoc, List.singleton_append,
      callArguments, bind_of_eq (seesGlued_run ..), current_at, hparens, if_pos rfl,
      bind_of_eq hrun, build_run]

/-- A call without its places, wherever it comes from. -/
theorem exists_call_of_erase_eq {m head : Node} {name : String} {arguments : List Node}
    (h : m.erase = (Node.made .call (head :: .word (.token .ident) name :: arguments)).erase) :
    ∃ span receiver place nodes,
      m = .tree .call span (receiver :: .leaf ⟨.token .ident, name, place⟩ :: nodes) ∧
        receiver.erase = head.erase ∧ nodes.map Node.erase = arguments.map Node.erase := by
  obtain ⟨span, children, rfl, hchildren⟩ :=
    Node.erase_eq_made_iff.mp (h.trans (Node.erase_made ..))
  obtain ⟨receiver, leaves, rfl, hreceiver, hleaves⟩ := List.map_eq_cons_iff.mp hchildren
  obtain ⟨l, nodes, rfl, hl, hnodes⟩ := List.map_eq_cons_iff.mp hleaves
  obtain ⟨place, rfl⟩ := Node.erase_eq_word_iff.mp hl
  exact ⟨span, receiver, place, nodes, rfl, hreceiver, hnodes⟩

/-- A call without a receiver is read back from its name and its arguments. -/
theorem rereads_call {name : String} (hname : isMethodName name = true)
    (h : Parens arguments words) :
    Rereads (.made .call (.absent :: .word (.token .ident) name :: arguments))
      ⟨.ident, name, words⟩ where
  starts := rfl
  brace := fun _ => nofun
  prints := by
    intro m hm
    obtain ⟨span, receiver, place, nodes, rfl, hreceiver, hnodes⟩ := exists_call_of_erase_eq hm
    rw [Node.erase_eq_absent_iff.mp hreceiver]
    have hobject : Printer.print 0 .absent = .ok "" := rfl
    obtain ⟨text, hprint, htext⟩ := h.printCall hnodes ⟨.token .ident, name, place⟩ "."
      (isMethodName_facts hname).1 hobject
    exact ⟨text, hprint, htext⟩
  legible := by
    intro behind hbehind
    obtain ⟨hlower, hkeyword, -⟩ := isMethodName_facts hname
    exact ⟨readable_ident hlower hkeyword (h.stops hbehind).endsWord, nofun, h.legible⟩
  reads := by
    intro depth s last follower tokens rest spaced hdepth hscope htokens hfollows
    obtain ⟨t, others, rfl, ht, hothers⟩ := List.map_eq_cons_iff.mp htokens
    obtain ⟨fewer, rfl⟩ : ∃ fewer, depth = fewer + 1 := ⟨depth - 1, by omega⟩
    have hfewer : words.length ≤ fewer := Nat.le_of_lt (Nat.lt_of_succ_lt_succ hdepth)
    have hkind : t.kind = .ident := congrArg Word.kind ht
    have htext : t.text = name := congrArg Word.text ht
    obtain ⟨found, hfound, hrun⟩ := h.callArguments_run (s := s) t rest hfewer hscope hothers
      hfollows .call [.absent, leafOf t] (ofToken t)
    refine ⟨built (s.at (others.getLastD t) (follower :: rest)) .call ([.absent, leafOf t] ++ found)
      (ofToken t), 0, ?_, Nat.succ_pos _, ?_⟩
    · rw [erase_built, List.map_append, hfound, Node.erase_made, leafOf, hkind]
      simp [htext]
    · have hprimary : primary (rulesAt (fewer + 1))
          (s.at last (t :: (others ++ follower :: rest))) =
            callArguments (rulesAt (fewer + 1)) .call [.absent, leafOf t] (ofToken t)
              (s.at t (others ++ follower :: rest)) := by
        rw [primary, bind_of_eq (current_run _), current_at, hkind]
        change identifier _ _ = _
        rw [identifier, bind_of_eq (advance_run ..), advance_at_append, current_at,
          bind_of_eq (isLocal_run ..), scope_at, hscope]
        rfl
      rw [List.getLastD_cons, List.cons_append]
      exact bind_of_eq (hprimary.trans hrun)

/-- A call behind a dot is one more trailer of its receiver. -/
theorem trailerRound_dot {g : Rules} {s : State} (last : Token) {dot name next : Token}
    {tokens rest : List Token} {receiver : Node} (hdot : dot.kind = .dot)
    (hname : name.kind = .ident) {n : Node} {t : State}
    (h : callArguments g .call [receiver, nameLeaf name] (ofNode receiver)
      (s.at name (tokens ++ next :: rest)) = .ok (n, t)) :
    trailerRound g receiver (s.at last (dot :: name :: (tokens ++ next :: rest))) =
      .ok (.again n, t) := by
  let behind := s.at dot (name :: (tokens ++ next :: rest))
  have hskip : behind.skip (· == .newline) = behind := skip_run _ (by rw [current_at, hname]; rfl)
  have hmethod : methodName (s.at dot (name :: (tokens ++ next :: rest))) =
      .ok (nameLeaf name, s.at name (tokens ++ next :: rest)) := by
    rw [methodName, bind_of_eq (current_run _), current_at, hname]
    refine (bind_of_eq (advance_run ..)).trans ?_
    rw [advance_at_append]
    rfl
  have hcall : methodCall g receiver dot.kind (s.at dot (name :: (tokens ++ next :: rest))) =
      .ok (n, t) := by
    rw [hdot, methodCall]
    exact (bind_of_eq hmethod).trans h
  have htrailer : callTrailer g receiver (s.at last (dot :: name :: (tokens ++ next :: rest))) =
      .ok (n, t) := by
    rw [callTrailer, bind_of_eq (advance_run ..), advance_at, current_at,
      bind_of_eq (skipNewlines_run _), hskip]
    exact hcall
  rw [trailerRound, bind_of_eq (current_run _), current_at, hdot]
  exact again_of_eq _ htrailer

/-- The words of a call behind those of its receiver and a dot. -/
def methodWording (w : Wording) (name : String) (words : List Word) : Wording :=
  { w with tail := w.tail ++ mark .dot '.' false :: ⟨.ident, name, false⟩ :: words }

theorem words_methodWording (w : Wording) (name : String) (words : List Word) (spaced : Bool) :
    (methodWording w name words).words spaced =
      w.words spaced ++ mark .dot '.' false :: ⟨.ident, name, false⟩ :: words :=
  rfl

/-- A dot in front of a lower-case name ends what stands before it. -/
theorem stops_dot {name : String} (h : isLowerName name = true) (behind : List Char) :
    Stops ('.' :: (name.toList ++ behind)) ∧ peek (name.toList ++ behind) 0 ≠ '.' := by
  obtain ⟨first, others, hname, hfirst⟩ := isName_of_isLowerName h
  rw [hname.toList_eq]
  refine ⟨Or.inr ⟨rfl, isDigit_of_isLowerStart hfirst⟩, ?_⟩
  rintro rfl
  cases hfirst

/-- A call with a receiver is read back from the receiver, its name and its arguments. -/
theorem Rereads.rereads_methodCall {receiver : Node} {w : Wording} {name : String}
    (hreceiver : Rereads receiver w) (hhash : receiver.isKind .hash = false)
    (habsent : receiver.isAbsent = false) (hname : isMethodName name = true)
    (h : Parens arguments words) :
    Rereads (.made .call (receiver :: .word (.token .ident) name :: arguments))
      (methodWording w name words) where
  starts := hreceiver.starts
  brace := fun _ => hreceiver.brace hhash
  prints := by
    intro m hm
    obtain ⟨span, object, place, nodes, rfl, hobject, hnodes⟩ := exists_call_of_erase_eq hm
    obtain ⟨before, hbefore, hwritten⟩ := hreceiver.prints object hobject
    have hpresent : object.isAbsent = false := by
      rw [← Node.isAbsent_erase, hobject, Node.isAbsent_erase, habsent]
    obtain ⟨text, hprint, htext⟩ := h.printCall hnodes ⟨.token .ident, name, place⟩ "."
      (isMethodName_facts hname).1 hbefore
    refine ⟨text, hprint, ?_⟩
    rw [htext, hpresent, words_methodWording, writtenAll_append, ← hwritten]
    simp [written, spelling, mark]
  legible := by
    intro behind hbehind
    obtain ⟨hlower, hkeyword, -⟩ := isMethodName_facts hname
    obtain ⟨hstops, hpeek⟩ := stops_dot hlower (writtenAll words ++ behind)
    rw [words_methodWording]
    refine Legible.append (hreceiver.legible _ ?_)
      ⟨readable_dot ?_, fun _ => rfl, ?_, by rintro ⟨⟩, ?_⟩
    · simpa [written, spelling, mark] using hstops
    · simpa [written, spelling] using hpeek
    · exact readable_ident hlower hkeyword (h.stops hbehind).endsWord
    · exact h.legible
  reads := by
    intro depth s last follower tokens rest spaced hdepth hscope htokens hfollows
    rw [words_methodWording] at htokens
    obtain ⟨before, behind, rfl, hbefore, hbehind⟩ := List.map_eq_append_iff.mp htokens
    obtain ⟨dot, tail, rfl, hdot, htail⟩ := List.map_eq_cons_iff.mp hbehind
    obtain ⟨t, others, rfl, ht, hothers⟩ := List.map_eq_cons_iff.mp htail
    have hlength : (methodWording w name words).length = w.length + words.length + 2 := by
      simp only [methodWording, Wording.length, List.length_append, List.length_cons]
      omega
    rw [hlength] at hdepth ⊢
    obtain ⟨fewer, rfl⟩ : ∃ fewer, depth = fewer + 1 := ⟨depth - 1, by omega⟩
    have hkind : dot.kind = .dot := congrArg Word.kind hdot
    have hinner : w.length < fewer + 1 := by omega
    obtain ⟨object, k, hobject, hk, hread⟩ := hreceiver.reads last
      (t :: (others ++ follower :: rest)) hinner hscope hbefore (by rw [hkind]; rfl)
    obtain ⟨found, hfound, hrun⟩ := h.callArguments_run (s := s) t rest
      (show words.length ≤ fewer by omega) hscope hothers hfollows .call [object, nameLeaf t]
      (ofNode object)
    -- The receiver is read with the rounds that are left for what follows it, and the call is the
    -- next one.
    have hround := trailerRound_dot (before.getLastD last) hkind (congrArg Word.kind ht)
      hrun
    obtain ⟨left, hrounds⟩ : ∃ n, fewer + 1 - k = n + 1 := ⟨fewer - k, by omega⟩
    refine ⟨built (s.at (others.getLastD t) (follower :: rest)) .call
      ([object, nameLeaf t] ++ found) (ofNode object), k + 1, ?_, by omega, ?_⟩
    · rw [erase_built, List.map_append, hfound, Node.erase_made, nameLeaf]
      simp [hobject, show t.text = name from congrArg Word.text ht]
    · rw [getLastD_append_cons, List.getLastD_cons, List.append_assoc, List.cons_append,
        List.cons_append, hread, hrounds, rounds, bind_of_eq hround,
        show fewer + 1 - (k + 1) = left by omega]

/-- What is read back is an argument; a hash has more to show. -/
theorem Rereads.isArgument {n : Node} {w : Wording} (h : Rereads n w)
    (hhash : n.isKind .hash = false) (hblock : n.isKind .blockPass = false) : IsArgument n where
  rereads := ⟨w, h⟩
  notBlock := hblock
  pairs := by
    intro children heq
    have hkind : n.kind? = some .hash := by
      rw [← Node.kind?_erase, heq]
      rfl
    rw [Node.isKind, hkind] at hhash
    cases hhash

/-- Arrays of arguments are read back. -/
theorem exists_rereads_array {elements : List Node} (h : ∀ n ∈ elements, ∃ w, Rereads n w) :
    ∃ w, Rereads (.made .array elements) w := by
  cases elements with
  | nil =>
    refine ⟨_, (Inner.empty rfl).rereads_array fun nodes hnodes => ?_⟩
    rw [List.map_eq_nil_iff.mp hnodes]
    exact ⟨[], rfl, rfl⟩
  | cons n elements =>
    obtain ⟨first, others, hlisting, heq⟩ := exists_values h
    refine ⟨_, (Inner.listed hlisting).rereads_array fun nodes hnodes => ?_⟩
    obtain ⟨texts, hprint, -, htexts⟩ := prints_listed hlisting.printed (hnodes.trans heq)
    exact ⟨texts, hprint, htexts⟩

/-- Pairs of keys and values that are read back are entries. -/
theorem exists_entries {pairs : List (String × Node)}
    (hkeys : ∀ p ∈ pairs, isLowerName p.1 = true) (h : ∀ p ∈ pairs, ∃ w, Rereads p.2 w) :
    ∃ entries : List Entry, (∀ e ∈ entries, e.HasKey) ∧
      entries.map (·.node) = pairs.map fun p => Migration.keyword p.1 p.2 := by
  induction pairs with
  | nil => exact ⟨[], nofun, rfl⟩
  | cons p pairs ih =>
    obtain ⟨entries, hentries, heq⟩ := ih (fun q hq => hkeys q (List.mem_cons_of_mem _ hq))
      fun q hq => h q (List.mem_cons_of_mem _ hq)
    obtain ⟨w, hw⟩ := h p List.mem_cons_self
    have hp : (Entry.pair p.1 p.2 w).HasKey := ⟨_, _, _, rfl, hkeys p List.mem_cons_self, hw⟩
    refine ⟨.pair p.1 p.2 w :: entries, List.forall_mem_cons.mpr ⟨hp, hentries⟩, ?_⟩
    rw [List.map_cons, List.map_cons, heq]
    rfl

/-- A hash whose pairs are entries is an argument. -/
theorem isArgument_hash {entries : List Entry} (h : ∀ e ∈ entries, e.HasKey) :
    IsArgument (.made .hash (entries.map (·.node))) where
  rereads := by
    cases entries with
    | nil => exact ⟨_, rereads_emptyHash⟩
    | cons first others => exact ⟨_, rereads_hash h⟩
  notBlock := rfl
  pairs := by
    intro children heq
    rw [Node.erase_made] at heq
    injection heq with _ _ hchildren
    exact ⟨entries, by rw [← hchildren, List.map_map]; rfl, h⟩

/-- A plain expression is read back, alone and as an argument. -/
theorem isArgument_of_plain {n : Node} (h : Plain n) : IsArgument n := by
  induction h with
  | int h => exact (rereads_int h).isArgument rfl rfl
  | str h => exact (rereads_str h).isArgument rfl rfl
  | ivar h => exact (rereads_ivar h).isArgument rfl rfl
  | sym h => exact (rereads_sym h).isArgument rfl rfl
  | const h => exact (rereads_const h).isArgument rfl rfl
  | value h =>
    have hkinds : ∀ kind ∈ wordKinds, kind ≠ .hash ∧ kind ≠ .blockPass := by decide
    obtain ⟨hhash, hblock⟩ := hkinds _ h
    refine (rereads_value h).isArgument ?_ ?_
    · simpa [Node.isKind, Node.kind?, Node.made] using hhash
    · simpa [Node.isKind, Node.kind?, Node.made] using hblock
  | array _ ih =>
    obtain ⟨w, hw⟩ := exists_rereads_array fun n hn => (ih n hn).rereads
    exact hw.isArgument rfl rfl
  | hash hkeys _ ih =>
    obtain ⟨entries, hentries, heq⟩ := exists_entries hkeys fun p hp => (ih p hp).rereads
    rw [← heq]
    exact isArgument_hash hentries
  | call hname _ ih =>
    obtain ⟨words, hwords⟩ := exists_parens ih
    exact (rereads_call hname hwords).isArgument rfl rfl
  | methodCall hreceiver hhash hname _ hobject ih =>
    obtain ⟨words, hwords⟩ := exists_parens ih
    obtain ⟨w, hw⟩ := hobject.rereads
    exact (hw.rereads_methodCall hhash hreceiver.isAbsent hname hwords).isArgument rfl rfl

end XhrKeywords.Grammar
