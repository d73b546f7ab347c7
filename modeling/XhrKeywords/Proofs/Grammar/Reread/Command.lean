import XhrKeywords.Proofs.Grammar.Reread.Call

/-!
# Commands read back

A call without a receiver and without parentheses is a command. Standing alone, a command with
plain arguments prints as a text that is read as a program of this one statement, which covers the
whole text.
-/

namespace XhrKeywords.Grammar

open Syntax hiding Kind
open Token (Kind)
open Unicode Word

/-- The words of a command. -/
def commandWords (name : String) (first : Entry) (others : List Entry) : List Word :=
  ⟨.ident, name, false⟩ :: (first.together others).words true

/-- What is known of a command: a name, and arguments that can stand behind it. -/
structure IsCommand (name : String) (arguments : List Node) : Prop where
  lower : isLowerName name = true
  noKeyword : Kind.ofKeyword? name = none
  listed : ∀ a ∈ arguments, IsArgument a
  head : ∃ n others, arguments = n :: others ∧ n.isKind .hash = false

/-- The arguments of a command are entries behind its name. -/
structure Commanded (name : String) (arguments : List Node) (first : Entry)
    (others : List Entry) : Prop where
  command : IsCommand name arguments
  listing : Listing arguments first others
  prints : PrintsArguments arguments first others
  starts : first.wording.kind.startsArgument = true

theorem startsArgument_of_startsEntry {kind : Kind} (h : startsEntry kind = true)
    (hbrace : kind ≠ .lbrace) : kind.startsArgument = true := by
  revert h hbrace
  cases kind <;> decide

theorem IsCommand.exists_commanded {name : String} {arguments : List Node}
    (h : IsCommand name arguments) : ∃ first others, Commanded name arguments first others := by
  obtain ⟨n, rest, rfl, hhash⟩ := h.head
  obtain ⟨first, others, hlisting, hprints, hbrace⟩ := exists_listing h.listed
  have hstarts := (hlisting.printed first List.mem_cons_self).starts
  exact ⟨first, others, h, hlisting, hprints,
    startsArgument_of_startsEntry hstarts (hbrace hhash)⟩

namespace Commanded

variable {name : String} {arguments : List Node} {first : Entry} {others : List Entry}

/-- A command prints as its words. -/
theorem print_eq (h : Commanded name arguments first others) :
    ∃ source : String, source.toList = writtenAll (commandWords name first others) ∧
      ∀ m : Node, m.erase =
        (Node.made .call (.absent :: .word (.token .ident) name :: arguments)).erase →
          m.print true = .ok source := by
  refine ⟨.ofList (writtenAll (commandWords name first others)), String.toList_ofList, ?_⟩
  intro m hm
  obtain ⟨span, receiver, place, nodes, rfl, hreceiver, hnodes⟩ := exists_call_of_erase_eq hm
  rw [Node.erase_eq_absent_iff.mp hreceiver]
  obtain ⟨texts, hprint, hne, htexts⟩ := h.prints nodes hnodes
  have hnonempty : nodes ≠ [] := by
    rintro rfl
    cases hprint
    exact hne rfl
  have hassigned : Printer.assignedName? .absent name nodes = none := by
    rw [Printer.assignedName?, setterName?_eq_none h.command.lower, ite_self]
  have htext : name ++ " " ++ Printer.joined ", " texts =
      .ofList (writtenAll (commandWords name first others)) := by
    rw [← String.toList_inj, String.toList_ofList, String.toList_append, String.toList_append,
      htexts, commandWords, writtenAll_cons, Wording.written_words_true, List.append_assoc]
    rfl
  have hobject : Printer.print 0 .absent = .ok "" := by rw [Printer.print]
  change Printer.printCall "." false 0 _ = _
  rw [← htext]
  simp [Printer.printCall, hobject, hassigned, hprint, hnonempty, bind, Except.bind, pure,
    Except.pure, Node.isAbsent]

/-- The words of a command are legible. -/
theorem legible (h : Commanded name arguments first others) :
    Legible [] (commandWords name first others) := by
  have hwords := legible_listed h.listing.printed [] stops_nil
  refine ⟨readable_ident h.command.lower h.command.noKeyword ?_, nofun,
    Wording.legible_words hwords true⟩
  rw [Wording.written_words_true, List.cons_append]
  exact (stops_cons (by decide)).endsWord

end Commanded

/-- A lower-case name and a space start no passage. -/
theorem passage?_name {name : String} (h : isLowerName name = true) (behind : List Char) :
    Token.passage? (name.toList ++ ' ' :: behind) = .ok none := by
  have hparts := isLowerPart_of_mem h
  obtain ⟨first, rest, hname, hfirst⟩ := isName_of_isLowerName h
  rw [hname.toList_eq] at hparts ⊢
  refine Token.passage?_eq_none ?_ ?_
  · rintro ⟨text, htext⟩
    -- the third character would be a capital in the name or behind a shorter one
    have hcapital : isLowerPart 'E' = false := by decide
    match rest, hparts, htext with
    | [], _, htext => simp at htext
    | [_], _, htext => simp at htext
    | _ :: third :: _, hparts, htext =>
      have hthird : 'E' = third := by
        injection htext with _ htext
        injection htext with _ htext
        injection htext
      rw [hthird, hparts third (by simp)] at hcapital
      cases hcapital
  · rw [List.cons_append, peek_cons_zero]
    rintro rfl
    cases hfirst

section Reading

variable {name : String} {arguments : List Node} {first : Entry} {others : List Entry}

/-- The arguments of a call without parentheses are read back behind its name. -/
theorem Listing.command_run {depth : Nat} {s : State} (h : Listing arguments first others)
    (last : Token) {follower : Token} {tokens : List Token} (rest : List Token) {spaced : Bool}
    (hdepth : (first.together others).length < depth) (hscope : s.scope = [])
    (htokens : tokens.map Token.word = (first.together others).words spaced)
    (hfollower : follower.kind = .eof) (kind : Syntax.Kind) (head : List Node) (start : Mark) :
    ∃ found : List Node, found.map Node.erase = arguments.map Node.erase ∧
      command (rulesAt (depth + 1)) kind head start (s.at last (tokens ++ follower :: rest)) =
        .ok (built (s.at (tokens.getLastD last) (follower :: rest)) kind (head ++ found) start,
          s.at (tokens.getLastD last) (follower :: rest)) := by
  have hend : endsExpression follower.kind = true := by
    rw [hfollower]
    rfl
  have hcomma : follower.kind ≠ .comma := by
    rw [hfollower]
    decide
  obtain ⟨found, hfound, hrun⟩ := h.arguments_run (s := { s with blocked := s.blocked + 1 }) last
    rest hdepth hscope htokens hend hcomma
  have hkept : keepingDo (Grammar.arguments (rulesAt (depth + 1)) none)
      (s.at last (tokens ++ follower :: rest)) =
        .ok (found, s.at (tokens.getLastD last) (follower :: rest)) :=
    withBlocked_at hrun
  refine ⟨found, hfound, ?_⟩
  rw [command, bind_of_eq hkept, bind_of_eq (build_run ..), bind_of_eq (doBinds_run _),
    bind_of_eq (sees_run ..), current_at, hfollower, show (Kind.eof == .kwDo) = false from rfl,
    Bool.and_false, if_neg Bool.false_ne_true, pure_run]

/-- A name with a spaced argument behind it is read as a command. -/
theorem Commanded.identifier_run {depth : Nat} {s : State}
    (h : Commanded name arguments first others) (last : Token) {t follower : Token}
    {tokens : List Token} (rest : List Token)
    (hdepth : (first.together others).length < depth) (hscope : s.scope = [])
    (htokens : (t :: tokens).map Token.word = commandWords name first others)
    (hfollower : follower.kind = .eof) :
    ∃ found : List Node, found.map Node.erase = arguments.map Node.erase ∧
      identifier (rulesAt (depth + 1)) (s.at last (t :: (tokens ++ follower :: rest))) =
        .ok (built (s.at (tokens.getLastD t) (follower :: rest)) .call
          (.absent :: leafOf t :: found) (ofToken t),
          s.at (tokens.getLastD t) (follower :: rest)) := by
  obtain ⟨ht, htokens⟩ := List.cons.inj htokens
  obtain ⟨found, hfound, hrun⟩ := h.listing.command_run t rest hdepth hscope htokens
    hfollower .call [.absent, leafOf t] (ofToken t)
  obtain ⟨u, behind, rfl, hu, -⟩ := List.map_eq_cons_iff.mp htokens
  have hspaced : u.spaced = true := congrArg Word.spaced hu
  have hstarts : u.kind.startsArgument = true := by
    rw [show u.kind = first.wording.kind from congrArg Word.kind hu]
    exact h.starts
  have hcommand : ∀ ahead : List Token, commandStart (s.at t (u :: ahead)) =
      .ok (true, s.at t (u :: ahead)) := by
    intro ahead
    rw [commandStart, bind_of_eq (current_run _), bind_of_eq (second_run _), current_at, hspaced,
      hstarts, Bool.true_or, Bool.true_and, pure_run]
  refine ⟨found, hfound, ?_⟩
  rw [identifier, bind_of_eq (advance_run ..), advance_at_append, current_at,
    bind_of_eq (isLocal_run ..), scope_at, hscope]
  change callArguments _ _ _ _ _ = _
  rw [List.cons_append] at hrun ⊢
  rw [callArguments, bind_of_eq (seesGlued_run ..), current_at, hspaced, Bool.not_true,
    Bool.and_false, if_neg Bool.false_ne_true, bind_of_eq (hcommand _), if_pos rfl, hrun]
  rfl

/-- A name with a spaced argument behind it is no list of targets. -/
theorem seesTargets_run {s : State} (hkind : s.current.kind = .ident) (hscope : s.scope = [])
    (hspaced : s.second.spaced = true) (hstarts : s.second.kind.startsArgument = true) :
    seesTargets s = .ok (false, s) := by
  have hget : (get : Parser State) s = .ok (s, s) := rfl
  rw [seesTargets, bind_of_eq hget, bind_of_eq (isLocal_run ..), hkind, hscope, hspaced, hstarts]
  rfl

/-- A command is a whole statement at the end of the source. -/
theorem Commanded.statement_run {depth : Nat} {s : State}
    (h : Commanded name arguments first others) (last : Token) {t follower : Token}
    {tokens : List Token} (rest : List Token)
    (hdepth : (first.together others).length < depth) (hscope : s.scope = [])
    (htokens : (t :: tokens).map Token.word = commandWords name first others)
    (hfollower : follower.kind = .eof) :
    ∃ found : List Node, found.map Node.erase = arguments.map Node.erase ∧
      statement (rulesAt (depth + 1)) (s.at last (t :: (tokens ++ follower :: rest))) =
        .ok (built (s.at (tokens.getLastD t) (follower :: rest)) .call
          (.absent :: leafOf t :: found) (ofToken t),
          s.at (tokens.getLastD t) (follower :: rest)) := by
  obtain ⟨found, hfound, hrun⟩ := h.identifier_run last rest hdepth hscope htokens
    hfollower
  obtain ⟨ht, htokens⟩ := List.cons.inj htokens
  obtain ⟨u, behind, rfl, hu, -⟩ := List.map_eq_cons_iff.mp htokens
  have hkind : t.kind = .ident := congrArg Word.kind ht
  let call := built (s.at ((u :: behind).getLastD t) (follower :: rest)) .call
    (.absent :: leafOf t :: found) (ofToken t)
  let after := s.at ((u :: behind).getLastD t) (follower :: rest)
  have hend : endsExpression after.current.kind = true := by
    rw [show after.current = follower from rfl, hfollower]
    rfl
  have hprimary : primary (rulesAt (depth + 1))
      (s.at last (t :: (u :: behind ++ follower :: rest))) = .ok (call, after) := by
    rw [primary, bind_of_eq (current_run _), current_at, hkind]
    exact hrun
  have hoperand : operand (rulesAt (depth + 1))
      (s.at last (t :: (u :: behind ++ follower :: rest))) = .ok (call, after) :=
    operand_of_primary (Nat.succ_pos depth) (settlesExpression_of_endsExpression hend) hprimary
  have hsequence : sequence (rulesAt (depth + 1))
      (s.at last (t :: (u :: behind ++ follower :: rest))) = .ok (call, after) :=
    sequence_of_operand (Nat.succ_pos depth) (by rw [current_at, hkind]; rfl) hend hoperand
  -- A name with an argument behind it is not the first of several targets.
  have htargets : seesTargets (s.at last (t :: (u :: behind ++ follower :: rest))) =
      .ok (false, s.at last (t :: (u :: behind ++ follower :: rest))) := by
    refine seesTargets_run hkind (by rw [scope_at, hscope]) (congrArg Word.spaced hu) ?_
    rw [List.cons_append, second_at, show u.kind = first.wording.kind from congrArg Word.kind hu]
    exact h.starts
  have hmodifier : modifierRound (rulesAt (depth + 1)) call after = .ok (.done call, after) := by
    rw [modifierRound, bind_of_eq (current_run _), show after.current = follower from rfl,
      hfollower]
    rfl
  refine ⟨found, hfound, ?_⟩
  rw [statement, bind_of_eq ((statementHead_eq htargets).trans hsequence)]
  exact (bind_of_eq hmodifier).trans rfl

end Reading

/-- One statement up to the end of the source is a list of statements. -/
theorem statements_run {g : Rules} {n : Node} {s t : State} (hlimit : 1 < g.limit)
    (hstart : isSeparator s.current.kind = false) (hne : s.current.kind ≠ .eof)
    (hend : t.current.kind = .eof) (h : g.read .statement s = .ok (n, t)) :
    statements g [] s = .ok ([n], t) := by
  obtain ⟨limit, hlimit⟩ : ∃ limit, g.limit = limit + 2 := ⟨g.limit - 2, by omega⟩
  have hstops : [Kind.eof].contains s.current.kind = false := by
    rw [List.contains_cons, beq_eq_false_iff_ne.mpr hne]
    rfl
  have hfirst : statementRound g [] [] s = .ok (.again [n], t) := by
    rw [statementRound, bind_of_eq (skipSeparators_run s), skip_run s hstart,
      bind_of_eq (seesAny_run ..), hstops, if_neg Bool.false_ne_true, bind_of_eq h,
      bind_of_eq (seesAny_run ..), hend]
    rfl
  have hsecond : statementRound g [] [n] t = .ok (.done [n], t) := by
    rw [statementRound, bind_of_eq (skipSeparators_run t), skip_run t (by rw [hend]; rfl),
      bind_of_eq (seesAny_run ..), hend]
    rfl
  rw [statements, Rules.loop, hlimit, rounds, bind_of_eq hfirst]
  exact (bind_of_eq hsecond).trans rfl

/-- The tokens of a command and an end marker are a program of this command. -/
theorem Commanded.parseTokens_eq {name : String} {arguments : List Node} {first : Entry}
    {others : List Entry} (h : Commanded name arguments first others) {t follower : Token}
    {tokens : List Token}
    (htokens : (t :: tokens).map Token.word = commandWords name first others)
    (hfollower : follower.kind = .eof) :
    ∃ span s, ∃ found : List Node, found.map Node.erase = arguments.map Node.erase ∧
      s.previous = tokens.getLastD t ∧
      parseTokens (t :: tokens ++ [follower]) = .ok (.tree .program span
        [built s .call (.absent :: leafOf t :: found) (ofToken t)]) := by
  have hkind : t.kind = .ident := congrArg Word.kind (List.cons.inj htokens).1
  have hdepth : (first.together others).length < tokens.length + 1 := by
    rw [← List.length_map (f := Token.word), (List.cons.inj htokens).2, Wording.length_words]
    exact Nat.lt_succ_self _
  let s := State.start t (tokens ++ [follower])
  let after := s.at (tokens.getLastD t) [follower]
  obtain ⟨found, hfound, hstatement⟩ := h.statement_run (s := s) s.previous [] hdepth
    rfl htokens hfollower
  let call := built after .call (.absent :: leafOf t :: found) (ofToken t)
  have hcurrent : s.current.kind = .ident := hkind
  have hstatements : statements (rulesAt (tokens.length + 3)) [] s = .ok ([call], after) :=
    statements_run (Nat.lt_add_left _ (by decide)) (by rw [hcurrent]; rfl)
      (by rw [hcurrent]; decide) hfollower hstatement
  have hprogram : program (rulesAt (tokens.length + 3)) s =
      .ok (built after.advance .program [call] (ofToken t), after.advance) := by
    rw [program, bind_of_eq (current_run s), bind_of_eq hstatements,
      bind_of_eq (expectOr_run after hfollower _), build_run]
    rfl
  have hlength : (tokens ++ [follower]).length + 1 + 1 = tokens.length + 3 := by
    rw [List.length_append, List.length_singleton]
  have hparse : parseTokens (t :: tokens ++ [follower]) =
      .ok (built after.advance .program [call] (ofToken t)) := by
    rw [List.cons_append, parseTokens, rulesFor, hlength]
    change (program (rulesAt (tokens.length + 3)) s >>= _) = _
    rw [hprogram]
    rfl
  exact ⟨_, after, found, hfound, rfl, hparse⟩

/-- A tree from the first token of a source goes up to the last token taken. -/
theorem extent?_built {s : State} {kind : Syntax.Kind} {children : List Node} {t : Token}
    (h : t.start = 0) :
    (built s kind children (ofToken t)).extent? = some (0, s.previous.stop) := by
  simp [built, ofToken, Mark.upTo, Node.extent?, h]

/-- The text of a command is read as a program of this command, which covers the whole text. -/
theorem Commanded.parse_eq {name : String} {arguments : List Node} {first : Entry}
    {others : List Entry} (h : Commanded name arguments first others) {source : String}
    (hsource : source.toList = writtenAll (commandWords name first others)) :
    ∃ span call, parse source = .ok (.tree .program span [call]) ∧
      call.erase = (Node.made .call (.absent :: .word (.token .ident) name :: arguments)).erase ∧
      call.extent? = some (0, source.length) := by
  have hpassage : Token.passage? source.toList = .ok none := by
    rw [hsource, commandWords, writtenAll_cons, Wording.written_words_true]
    exact passage?_name h.command.lower _
  obtain ⟨all, follower, htokenize, hwords, hfollower, hfirst, hlast⟩ :=
    Token.tokenize_eq hsource h.legible hpassage
  obtain ⟨t, tokens, rfl, ht, -⟩ := List.map_eq_cons_iff.mp hwords
  obtain ⟨span, s, found, hfound, hprevious, hparse⟩ := h.parseTokens_eq hwords hfollower
  refine ⟨span, built s .call (.absent :: leafOf t :: found) (ofToken t), ?_, ?_, ?_⟩
  · rw [parse, htokenize]
    change (parseTokens (t :: tokens ++ [follower])).mapError _ = _
    rw [hparse]
    rfl
  · rw [erase_built, Node.erase_made, leafOf, show t.kind = .ident from congrArg Word.kind ht]
    simp [hfound, show t.text = name from congrArg Word.text ht]
  · have hlast := hlast (tokens.getLastD t)
      (by rw [List.getLast?_cons, List.getLastD_eq_getLast?]; rfl)
    rw [extent?_built (hfirst t rfl (congrArg Word.spaced ht)), hprevious, hlast]

/-- A command prints as a text that is read as a program of this command. -/
theorem IsCommand.exists_text {name : String} {arguments : List Node}
    (h : IsCommand name arguments) :
    ∃ source : String,
      (∀ m : Node, m.erase =
        (Node.made .call (.absent :: .word (.token .ident) name :: arguments)).erase →
          m.print true = .ok source) ∧
      ∃ span call, parse source = .ok (.tree .program span [call]) ∧
        call.erase = (Node.made .call (.absent :: .word (.token .ident) name :: arguments)).erase ∧
        call.extent? = some (0, source.length) := by
  obtain ⟨first, others, hcommand⟩ := h.exists_commanded
  obtain ⟨source, hsource, hprint⟩ := hcommand.print_eq
  exact ⟨source, hprint, hcommand.parse_eq hsource⟩

/-- Plain arguments of which the first one is no hash make a command. -/
theorem isCommand_of_plain (name : String) {n : Node} {others : List Node}
    (hlower : isLowerName name = true) (hkeyword : Kind.ofKeyword? name = none)
    (h : ∀ a ∈ n :: others, Plain a.erase) (hhash : n.isKind .hash = false) :
    IsCommand name ((n :: others).map Node.erase) where
  lower := hlower
  noKeyword := hkeyword
  listed := by
    intro a ha
    obtain ⟨b, hb, rfl⟩ := List.mem_map.mp ha
    exact isArgument_of_plain (h b hb)
  head := by
    refine ⟨n.erase, others.map Node.erase, rfl, ?_⟩
    rw [Node.isKind_of_erase_eq (Node.erase_erase n), hhash]

end XhrKeywords.Grammar
