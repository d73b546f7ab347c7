import XhrKeywords.Proofs.Grammar.Reread.Command
import XhrKeywords.Proofs.Grammar.Reread.Names

/-!
# Block-local variables

The block-local variables of a block are written behind its parameters and a semicolon. They are
read back when there are no parameters in front of them. Behind a parameter the list of parameters
ends as soon as no comma follows, so the semicolon is taken for a missing bar.
-/

namespace XhrKeywords.Grammar

open Token (Kind)
open Syntax hiding Kind
open Word

/-- A call with a block that has the parameters and the block-local variables and nothing else. -/
def headWords (plain locals : List String) : List Word :=
  ⟨.ident, "foo", false⟩ :: mark .lbrace '\x7b' true :: mark .pipe '|' true ::
    (nameWords false plain ++ mark .semi ';' false ::
      (nameWords true locals ++ [mark .pipe '|' false, mark .rbrace '\x7d' true]))

/-- The text of a call with a block that has the parameters and the block-local variables. -/
def headText (plain locals : List String) : String :=
  "foo \x7b |" ++ Printer.parameterText plain locals ++ "| \x7d"

theorem toList_headText {plain locals : List String} (hlocals : locals ≠ []) :
    (headText plain locals).toList = writtenAll (headWords plain locals) := by
  have hplain : (Printer.joined ", " plain).toList = writtenAll (nameWords false plain) := by
    cases plain with
    | nil => rfl
    | cons name others => exact (toList_joined_nameWords (List.cons_ne_nil _ _)).1
  obtain ⟨hjoined, htrue⟩ := toList_joined_nameWords hlocals
  have hempty : locals.isEmpty = false := by simpa using hlocals
  rw [headText, Printer.parameterText, hempty, if_neg Bool.false_ne_true, String.toList_append,
    String.toList_append, String.toList_append, String.toList_append, hplain, hjoined]
  simp [headWords, htrue, written, spelling, mark]

/-- A bar is one word where no second bar and no equals sign follow. -/
theorem readable_pipe {behind : List Char} {spaced : Bool} (hpipe : peek behind 0 ≠ '|')
    (hequals : peek behind 0 ≠ '=') : Readable (mark .pipe '|' spaced) behind := by
  refine readable_operator (by decide) (by decide) (by decide) ?_
  cases behind with
  | nil => rfl
  | cons c rest =>
    rw [peek_cons_zero] at hpipe hequals
    simp [Operator.read, Operator.table, List.isPrefixOf, Ne.symm hpipe, Ne.symm hequals]

theorem readable_semi {behind : List Char} {spaced : Bool} :
    Readable (mark .semi ';' spaced) behind :=
  readable_operator (by decide) (by decide) (by decide) rfl

theorem legible_headWords {plain locals : List String}
    (hplain : ∀ name ∈ plain, IsVariableName name)
    (hlocals : ∀ name ∈ locals, IsVariableName name) :
    Legible [] (headWords plain locals) := by
  have hclosed : Legible [] (nameWords true locals ++
      [mark .pipe '|' false, mark .rbrace '\x7d' true]) :=
    (legible_nameWords hlocals (by decide) true).append
      ⟨readable_pipe (by decide) (by decide), nofun, readable_mark .rbrace '\x7d' (by decide),
        nofun, trivial⟩
  have hfoo : IsVariableName "foo" := isVariableName_of_isLowerName (by decide) (by decide)
  have hspace : endsWord ' ' = true := by decide
  have hsemi : endsWord ';' = true := by decide
  refine ⟨hfoo.readable hspace, nofun, readable_mark .lbrace '\x7b' (by decide), nofun,
    ?_, nofun, (legible_nameWords hplain (by exact hsemi) false).append
      ⟨readable_semi, nofun, hclosed⟩⟩
  cases plain with
  | nil =>
    have hne : ';' ≠ '|' ∧ ';' ≠ '=' := by decide
    exact readable_pipe hne.1 hne.2
  | cons name others =>
    have hfirst := (hplain name List.mem_cons_self).peek_ne
    cases others <;>
    · simp only [nameWords, List.cons_append, List.nil_append, writtenAll_cons, List.append_assoc]
      exact readable_pipe (hfirst _).1 (hfirst _).2

/-- Behind no parameters, the block-local variables are read. -/
theorem parameters_locals {g : Rules} {locals : List String} {tokens : List Token} (s : State)
    (last : Token) {semi bar : Token} (rest : List Token) (hne : locals ≠ [])
    (htokens : tokens.map Token.word = nameWords true locals) (hsemi : semi.kind = .semi)
    (hbar : bar.kind = .pipe) (hlimit : locals.length < g.limit) :
    ∃ scope nodes, nodes.map Node.erase = locals.map (parameterOf .shadowArg) ∧
      parameters g [.pipe] true (s.at last (semi :: (tokens ++ bar :: rest))) =
        .ok (nodes, { s with scope }.at (tokens.getLastD semi) (bar :: rest)) := by
  obtain ⟨scope, nodes, hnodes, hrun⟩ := takesName_shadowRound.rounds_run hne htokens s semi rest
    hbar [] (Nat.le_of_lt hlimit)
  have hpos : 0 < locals.length := List.length_pos_iff.mpr hne
  obtain ⟨limit, hg⟩ : ∃ limit, g.limit = limit + 2 := ⟨g.limit - 2, by omega⟩
  have hfirst : parameterRound g [.pipe] true [] (s.at last (semi :: (tokens ++ bar :: rest))) =
      .ok (.again nodes, { s with scope }.at (tokens.getLastD semi) (bar :: rest)) := by
    rw [parameterRound, bind_of_eq (seesAny_run ..), current_at, hsemi,
      show [Kind.pipe].contains .semi = false from rfl, if_neg Bool.false_ne_true,
      bind_of_eq (accept_run ..), current_at, hsemi, beq_self_eq_true, if_pos rfl, if_pos rfl,
      advance_at_append]
    exact (bind_of_eq hrun).trans rfl
  have hsecond : parameterRound g [.pipe] true nodes
      ({ s with scope }.at (tokens.getLastD semi) (bar :: rest)) =
        .ok (.done nodes, { s with scope }.at (tokens.getLastD semi) (bar :: rest)) := by
    rw [parameterRound, bind_of_eq (seesAny_run ..), current_at, hbar,
      show [Kind.pipe].contains .pipe = true from rfl, if_pos rfl, pure_run]
  refine ⟨scope, nodes, hnodes, ?_⟩
  rw [parameters, Rules.loop, hg, rounds, bind_of_eq hfirst]
  exact (bind_of_eq hsecond).trans rfl

/-- Behind parameters, the list of parameters ends in front of the semicolon. -/
theorem parameters_plain {g : Rules} {plain : List String} {tokens : List Token} (s : State)
    (last : Token) {semi : Token} (rest : List Token) (hne : plain ≠ [])
    (htokens : tokens.map Token.word = nameWords false plain) (hsemi : semi.kind = .semi)
    (hlimit : plain.length ≤ g.limit) :
    ∃ scope nodes, parameters g [.pipe] true (s.at last (tokens ++ semi :: rest)) =
      .ok (nodes, { s with scope }.at (tokens.getLastD last) (semi :: rest)) := by
  obtain ⟨scope, nodes, -, hrun⟩ := (takesName_parameterRound g).rounds_run hne htokens s last rest
    hsemi [] hlimit
  exact ⟨scope, nodes, hrun⟩

section Head

variable {g : Rules} {s : State} (last : Token) {opener bar semi : Token}

/-- An empty body in braces. -/
theorem bracedBody_empty {closer follower : Token} {rest : List Token}
    (hcloser : closer.kind = .rbrace) (hlimit : 0 < g.limit) :
    bracedBody g "block" (s.at last (closer :: follower :: rest)) =
      .ok (hollow .body closer, s.at closer (follower :: rest)) := by
  obtain ⟨limit, hg⟩ := Nat.exists_eq_add_one.mpr hlimit
  have hround : statementRound g [.rbrace] [] (s.at last (closer :: follower :: rest)) =
      .ok (.done [], s.at last (closer :: follower :: rest)) := by
    rw [statementRound, bind_of_eq (skipSeparators_run _),
      skip_run _ (by rw [current_at, hcloser]; rfl), bind_of_eq (seesAny_run ..), current_at,
      hcloser]
    rfl
  have hstatements : statements g [.rbrace] (s.at last (closer :: follower :: rest)) =
      .ok ([], s.at last (closer :: follower :: rest)) := by
    rw [statements, Rules.loop, hg, rounds]
    exact (bind_of_eq hround).trans rfl
  have hbody : body g [.rbrace] (s.at last (closer :: follower :: rest)) =
      .ok (hollow .body closer, s.at last (closer :: follower :: rest)) := by
    rw [body, bind_of_eq (current_run _), bind_of_eq hstatements]
    rfl
  rw [bracedBody, bind_of_eq hbody]
  exact (bind_of_eq (expectOr_run _ hcloser _)).trans rfl

/-- The bars of a block around block-local variables alone. -/
theorem blockParameters_locals {locals : List String} {tokens : List Token} {bar' : Token}
    (follower : Token) (rest : List Token) (hne : locals ≠ [])
    (htokens : tokens.map Token.word = nameWords true locals) (hbar : bar.kind = .pipe)
    (hsemi : semi.kind = .semi) (hbar' : bar'.kind = .pipe) (hlimit : locals.length < g.limit) :
    ∃ (scope : List String) (bound : Node),
      bound.erase = .made .args (locals.map (parameterOf .shadowArg)) ∧
      blockParameters g (s.at last (bar :: semi :: (tokens ++ bar' :: follower :: rest))) =
        .ok (bound, { s with scope }.at bar' (follower :: rest)) := by
  obtain ⟨scope, nodes, hnodes, hrun⟩ :=
    parameters_locals s bar (follower :: rest) hne htokens hsemi hbar' hlimit
  refine ⟨scope, built ({ s with scope }.at bar' (follower :: rest)) .args nodes (ofToken bar),
    ?_, ?_⟩
  · rw [erase_built, hnodes]
  · rw [blockParameters, bind_of_eq (sees_run ..), current_at, hbar,
      show (Kind.pipe == .orOr) = false from rfl, if_neg Bool.false_ne_true,
      bind_of_eq (sees_run ..), current_at, hbar, beq_self_eq_true, if_pos rfl,
      bind_of_eq (advance_run ..), advance_at, current_at, bind_of_eq hrun]
    exact (bind_of_eq (expectOr_run _ hbar' _)).trans rfl

/-- The bars of a block around parameters and block-local variables: the second bar is missed at
the semicolon. -/
theorem blockParameters_plain {plain : List String} {tokens : List Token} (rest : List Token)
    (hne : plain ≠ []) (htokens : tokens.map Token.word = nameWords false plain)
    (hbar : bar.kind = .pipe) (hsemi : semi.kind = .semi) (hlimit : plain.length ≤ g.limit) :
    blockParameters g (s.at last (bar :: (tokens ++ semi :: rest))) =
      .error ⟨.unclosed "|" "block parameters", semi⟩ := by
  obtain ⟨scope, nodes, hrun⟩ := parameters_plain s bar rest hne htokens hsemi hlimit
  rw [blockParameters, bind_of_eq (sees_run ..), current_at, hbar,
    show (Kind.pipe == .orOr) = false from rfl, if_neg Bool.false_ne_true,
    bind_of_eq (sees_run ..), current_at, hbar, beq_self_eq_true, if_pos rfl,
    bind_of_eq (advance_run ..), advance_at_append, current_at, bind_of_eq hrun]
  refine bind_of_error ?_
  rw [expectCloser, expectOr, bind_of_eq (sees_run ..), current_at, hsemi]
  rfl

/-- A block with block-local variables alone and an empty body. -/
theorem block_locals {locals : List String} {tokens : List Token} {bar' closer : Token}
    (follower : Token) (rest : List Token) (call : Node) (hne : locals ≠ [])
    (htokens : tokens.map Token.word = nameWords true locals) (hopener : opener.kind = .lbrace)
    (hbar : bar.kind = .pipe) (hsemi : semi.kind = .semi) (hbar' : bar'.kind = .pipe)
    (hcloser : closer.kind = .rbrace) (hlimit : locals.length < g.limit) :
    ∃ node : Node, node.erase = .made .block [call.erase,
        .made .args (locals.map (parameterOf .shadowArg)), .made .body [], styleLeaf true] ∧
      block g call
          (s.at last (opener :: bar :: semi :: (tokens ++ bar' :: closer :: follower :: rest))) =
        .ok (node, s.at closer (follower :: rest)) := by
  let inner : State := { s with blocked := 0, outer := s.scope :: s.outer }
  obtain ⟨scope, bound, hbound, hparameters⟩ := blockParameters_locals (s := inner) opener
    closer (follower :: rest) hne htokens hbar hsemi hbar' hlimit
  refine ⟨built (s.at closer (follower :: rest)) .block
    [call, bound, hollow .body closer, styleLeaf true] (ofNode call), ?_, ?_⟩
  · rw [erase_built, List.map_cons, List.map_cons, hbound]
    rfl
  · have hinside :
        blockParts g true
            (inner.at opener (bar :: semi :: (tokens ++ bar' :: closer :: follower :: rest))) =
          .ok ((bound, hollow .body closer),
            { inner with scope }.at closer (follower :: rest)) := by
      refine (bind_of_eq hparameters).trans ?_
      exact (bind_of_eq (bracedBody_empty bar' hcloser (Nat.zero_lt_of_lt hlimit))).trans rfl
    have hscope : bracketed (inScope true (blockParts g true))
        (s.at opener (bar :: semi :: (tokens ++ bar' :: closer :: follower :: rest))) =
          .ok ((bound, hollow .body closer), s.at closer (follower :: rest)) :=
      withBlocked_at (inScope_at (s := { s with blocked := 0 }) hinside)
    rw [block, bind_of_eq (advance_run ..), current_at, hopener]
    exact (bind_of_eq hscope).trans rfl

/-- A block with parameters and block-local variables is not read. -/
theorem block_plain {plain : List String} {tokens : List Token} (rest : List Token) (call : Node)
    (hne : plain ≠ []) (htokens : tokens.map Token.word = nameWords false plain)
    (hopener : opener.kind = .lbrace) (hbar : bar.kind = .pipe) (hsemi : semi.kind = .semi)
    (hlimit : plain.length ≤ g.limit) :
    block g call (s.at last (opener :: bar :: (tokens ++ semi :: rest))) =
      .error ⟨.unclosed "|" "block parameters", semi⟩ := by
  have hparameters := blockParameters_plain (g := g)
    (s := { s with blocked := 0, outer := s.scope :: s.outer }) opener rest hne htokens hbar hsemi
    hlimit
  rw [block, bind_of_eq (advance_run ..), current_at, hopener, advance_at]
  refine bind_of_error (bracketed_of_error (inScope_of_error (bind_of_error ?_)))
  exact hparameters

end Head

/-- Brackets aside, nothing between braces belongs to the statement around them. -/
theorem hasTargets_inside {tokens : List Token}
    (h : ∀ t ∈ tokens, t.kind = .ident ∨ t.kind = .comma ∨ t.kind = .pipe ∨ t.kind = .semi)
    (depth : Nat) (comma : Bool) (rest : List Token) :
    hasTargets (depth + 1) comma (tokens ++ rest) = hasTargets (depth + 1) comma rest := by
  induction tokens with
  | nil => rfl
  | cons t others ih =>
    obtain ⟨ht, hothers⟩ := List.forall_mem_cons.mp h
    rw [List.cons_append, hasTargets]
    rcases ht with ht | ht | ht | ht <;> rw [ht] <;> exact ih hothers

section Statement

variable {g : Rules} {s : State} (last : Token) {name opener : Token}

/-- A name in front of an opening brace is a call without arguments. -/
theorem primary_name {rest : List Token} (hname : name.kind = .ident) (hscope : s.scope = [])
    (hopener : opener.kind = .lbrace) :
    primary g (s.at last (name :: opener :: rest)) =
      .ok (built (s.at name (opener :: rest)) .call [.absent, leafOf name] (ofToken name),
        s.at name (opener :: rest)) := by
  have hcommand : commandStart (s.at name (opener :: rest)) =
      .ok (false, s.at name (opener :: rest)) := by
    rw [commandStart, bind_of_eq (current_run _), bind_of_eq (second_run _), current_at, hopener]
    exact congrArg Except.ok (Prod.ext (Bool.and_false _) rfl)
  rw [primary, bind_of_eq (current_run _), current_at, hname]
  change identifier g _ = _
  rw [identifier, bind_of_eq (advance_run ..), current_at, advance_at,
    bind_of_eq (isLocal_run ..), scope_at, hscope]
  change callArguments g _ _ _ _ = _
  rw [callArguments, bind_of_eq (seesGlued_run ..), current_at, hopener,
    show (Kind.lbrace == .lpar) = false from rfl, Bool.false_and, if_neg Bool.false_ne_true,
    bind_of_eq hcommand, if_neg Bool.false_ne_true, build_run]

/-- The trailer of a call in front of an opening brace is its block. -/
theorem trailerRound_brace {call : Node} {rest : List Token} (hcall : takesBlock call = true)
    (hopener : opener.kind = .lbrace) :
    trailerRound g call (s.at last (opener :: rest)) =
      again (block g call) (s.at last (opener :: rest)) := by
  rw [trailerRound, bind_of_eq (current_run _), current_at, hopener]
  dsimp only
  rw [hcall, if_pos rfl]

/-- Only an equals sign behind a comma makes targets of a name in front of an opening brace. -/
theorem seesTargets_brace {rest : List Token} (hscope : s.scope = [])
    (hopener : opener.kind = .lbrace)
    (htargets : hasTargets 0 false (name :: opener :: rest) = false) :
    seesTargets (s.at last (name :: opener :: rest)) =
      .ok (false, s.at last (name :: opener :: rest)) := by
  have hget : (get : Parser State) (s.at last (name :: opener :: rest)) =
      .ok (s.at last (name :: opener :: rest), s.at last (name :: opener :: rest)) := rfl
  rw [seesTargets, bind_of_eq hget, bind_of_eq (isLocal_run ..), scope_at, hscope, current_at,
    second_at, hopener, show Kind.lbrace.startsArgument = false from rfl, Bool.and_false,
    if_neg Bool.false_ne_true]
  exact congrArg (fun several => Except.ok (several, _)) htargets

/-- A statement that is a call with a block up to the end of the source. -/
theorem statement_block {node : Node} {rest : List Token} {closer follower : Token}
    (hname : name.kind = .ident) (hscope : s.scope = []) (hopener : opener.kind = .lbrace)
    (htargets : hasTargets 0 false (name :: opener :: rest) = false)
    (hfollower : follower.kind = .eof) (hlimit : 1 < g.limit)
    (h : ∀ call : Node, call.erase = .made .call [.absent, .word (.token .ident) name.text] →
      ∃ node' : Node, node'.erase = node ∧ block g call (s.at name (opener :: rest)) =
        .ok (node', s.at closer [follower])) :
    ∃ node' : Node, node'.erase = node ∧
      statement g (s.at last (name :: opener :: rest)) = .ok (node', s.at closer [follower]) := by
  let call := built (s.at name (opener :: rest)) .call [.absent, leafOf name] (ofToken name)
  obtain ⟨node', hnode, hblock⟩ := h call (by
    rw [erase_built, leafOf, hname]
    rfl)
  let after := s.at closer [follower]
  have hend : endsExpression after.current.kind = true := by
    rw [current_at, hfollower]
    rfl
  obtain ⟨limit, hg⟩ : ∃ limit, g.limit = limit + 2 := ⟨g.limit - 2, by omega⟩
  have hoperand : operand g (s.at last (name :: opener :: rest)) = .ok (node', after) := by
    have hfirst : trailerRound g call (s.at name (opener :: rest)) = .ok (.again node', after) := by
      rw [trailerRound_brace name rfl hopener, again_of_eq _ hblock]
    have hsecond : trailerRound g node' after = .ok (.done node', after) :=
      trailerRound_run (settlesExpression_of_endsExpression hend)
    rw [operand, bind_of_eq (primary_name last hname hscope hopener), Rules.loop, hg, rounds,
      bind_of_eq hfirst]
    exact (bind_of_eq hsecond).trans rfl
  have hsequence : sequence g (s.at last (name :: opener :: rest)) = .ok (node', after) :=
    sequence_of_operand (Nat.zero_lt_of_lt hlimit) (by rw [current_at, hname]; rfl) hend hoperand
  have hmodifier : modifierRound g node' after = .ok (.done node', after) := by
    rw [modifierRound, bind_of_eq (current_run _), current_at, hfollower]
    rfl
  have hmodifiers : g.loop (modifierRound g) node' after = .ok (node', after) := by
    rw [Rules.loop, hg, rounds]
    exact (bind_of_eq hmodifier).trans rfl
  refine ⟨node', hnode, ?_⟩
  have hhead := statementHead_eq (g := g) (seesTargets_brace last hscope hopener htargets)
  rw [statement, bind_of_eq (hhead.trans hsequence)]
  exact hmodifiers

/-- A call whose block cannot be read is no statement. -/
theorem statement_error {rest : List Token} {e : SyntaxError} (hname : name.kind = .ident)
    (hscope : s.scope = []) (hopener : opener.kind = .lbrace)
    (htargets : hasTargets 0 false (name :: opener :: rest) = false) (hlimit : 0 < g.limit)
    (h : ∀ call, block g call (s.at name (opener :: rest)) = .error e) :
    statement g (s.at last (name :: opener :: rest)) = .error e := by
  have hoperand : operand g (s.at last (name :: opener :: rest)) = .error e := by
    rw [operand, bind_of_eq (primary_name last hname hscope hopener)]
    refine loop_of_error hlimit ?_
    rw [trailerRound_brace name rfl hopener]
    exact bind_of_error (h _)
  have hhead := statementHead_eq (g := g) (seesTargets_brace last hscope hopener htargets)
  refine bind_of_error (hhead.trans (sequence_of_error ?_ hoperand))
  rw [current_at, hname]
  rfl

end Statement

/-- Tokens that are read as one statement up to the end of the source. -/
theorem parseTokens_statement {first follower : Token} (closer : Token) {others : List Token}
    {node : Node} (hfirst : first.kind = .ident) (hfollower : follower.kind = .eof)
    (h : ∀ s : State, s.scope = [] → ∃ node' : Node, node'.erase = node ∧
      statement (rulesAt (others.length + 2))
        (s.at s.previous (first :: (others ++ [follower]))) = .ok (node', s.at closer [follower])) :
    ∃ program, parseTokens (first :: others ++ [follower]) = .ok program ∧
      program.erase = .made .program [node] := by
  let s := State.start first (others ++ [follower])
  let after := s.at closer [follower]
  obtain ⟨node', hnode, hstatement⟩ := h s rfl
  have hcurrent : s.current.kind = .ident := hfirst
  have hstatements : statements (rulesAt (others.length + 3)) [] s = .ok ([node'], after) :=
    statements_run (Nat.lt_add_left _ (by decide)) (by rw [hcurrent]; rfl)
      (by rw [hcurrent]; decide) hfollower hstatement
  have hprogram : program (rulesAt (others.length + 3)) s =
      .ok (built after.advance .program [node'] (ofToken first), after.advance) := by
    rw [program, bind_of_eq (current_run s), bind_of_eq hstatements,
      bind_of_eq (expectOr_run after hfollower _), build_run]
    rfl
  have hlength : (others ++ [follower]).length + 1 + 1 = others.length + 3 := by
    rw [List.length_append, List.length_singleton]
  refine ⟨built after.advance .program [node'] (ofToken first), ?_, ?_⟩
  · rw [List.cons_append, parseTokens, rulesFor, hlength]
    change (program (rulesAt (others.length + 3)) s >>= _) = _
    rw [hprogram]
    rfl
  · rw [erase_built, List.map_singleton, hnode]

/-- Tokens of which the first statement is not read. -/
theorem parseTokens_error {first follower : Token} {others : List Token} {e : SyntaxError}
    (hfirst : first.kind = .ident)
    (h : ∀ s : State, s.scope = [] → statement (rulesAt (others.length + 2))
      (s.at s.previous (first :: (others ++ [follower]))) = .error e) :
    parseTokens (first :: others ++ [follower]) = .error e := by
  let s := State.start first (others ++ [follower])
  have hcurrent : s.current.kind = .ident := hfirst
  have hround : statementRound (rulesAt (others.length + 3)) [] [] s = .error e := by
    rw [statementRound, bind_of_eq (skipSeparators_run s), skip_run s (by rw [hcurrent]; rfl),
      bind_of_eq (seesAny_run ..), hcurrent,
      show [Kind.eof].contains .ident = false from rfl, if_neg Bool.false_ne_true]
    exact bind_of_error (h s rfl)
  have hprogram : program (rulesAt (others.length + 3)) s = .error e := by
    rw [program, bind_of_eq (current_run s)]
    exact bind_of_error (loop_of_error (Nat.succ_pos _) hround)
  have hlength : (others ++ [follower]).length + 1 + 1 = others.length + 3 := by
    rw [List.length_append, List.length_singleton]
  rw [List.cons_append, parseTokens, rulesFor, hlength]
  change (program (rulesAt (others.length + 3)) s >>= _) = _
  rw [hprogram]
  rfl

/-- The call with a block that has the parameters, the block-local variables and nothing else. -/
def blockHead (plain locals : List String) : Node :=
  .made .block [.made .call [.absent, .word (.token .ident) "foo"],
    .made .args (plain.map (parameterOf .arg) ++ locals.map (parameterOf .shadowArg)),
    .made .body [], styleLeaf true]

@[simp] theorem erase_comp_parameterOf (kind : Syntax.Kind) :
    Node.erase ∘ parameterOf kind = parameterOf kind :=
  funext fun _ => Node.erase_made ..

theorem exists_of_erase_eq_parameterOf {n : Node} {kind : Syntax.Kind} {name : String}
    (h : n.erase = parameterOf kind name) :
    ∃ span place, n = .tree kind span [.leaf ⟨.token .ident, name, place⟩] := by
  obtain ⟨span, children, rfl, hchildren⟩ := Node.erase_eq_made_iff.mp h
  obtain ⟨child, others, rfl, hchild, hothers⟩ := List.map_eq_cons_iff.mp hchildren
  obtain ⟨place, rfl⟩ := Node.erase_eq_word_iff.mp hchild
  rw [List.map_eq_nil_iff.mp hothers]
  exact ⟨span, place, rfl⟩

/-- Block-local variables are printed in the order in which they stand. -/
theorem printParameters_locals {nodes : List Node} {locals : List String}
    (h : nodes.map Node.erase = locals.map (parameterOf .shadowArg)) (plain shadow : List String) :
    Printer.printParameters 0 plain shadow nodes =
      .ok (Printer.parameterText plain (shadow ++ locals)) := by
  induction locals generalizing nodes shadow with
  | nil =>
    rw [List.map_eq_nil_iff.mp h, List.append_nil, Printer.printParameters]
  | cons name others ih =>
    obtain ⟨n, behind, rfl, hn, hbehind⟩ := List.map_eq_cons_iff.mp h
    obtain ⟨span, place, rfl⟩ := exists_of_erase_eq_parameterOf hn
    rw [Printer.printParameters]
    dsimp only [Printer.parameterName]
    rw [ih hbehind, List.append_assoc]
    rfl

/-- Parameters are printed in front of the block-local variables. -/
theorem printParameters_names {nodes : List Node} {plain locals : List String}
    (h : nodes.map Node.erase = plain.map (parameterOf .arg) ++ locals.map (parameterOf .shadowArg))
    (before : List String) :
    Printer.printParameters 0 before [] nodes =
      .ok (Printer.parameterText (before ++ plain) locals) := by
  induction plain generalizing nodes before with
  | nil =>
    rw [printParameters_locals h, List.append_nil, List.nil_append]
  | cons name others ih =>
    obtain ⟨n, behind, rfl, hn, hbehind⟩ := List.map_eq_cons_iff.mp h
    obtain ⟨span, place, rfl⟩ := exists_of_erase_eq_parameterOf hn
    rw [Printer.printParameters]
    dsimp only [Printer.parameterName]
    rw [ih hbehind, List.append_assoc]
    rfl

/-- The head of a block is printed as its text, wherever it comes from. -/
theorem print_blockHead {node : Node} {plain locals : List String}
    (h : node.erase = blockHead plain locals) :
    Printer.print 0 node = .ok (headText plain locals) := by
  obtain ⟨span, children, rfl, hchildren⟩ := Node.erase_eq_made_iff.mp h
  obtain ⟨call, _, rfl, hcall, hmore⟩ := List.map_eq_cons_iff.mp hchildren
  obtain ⟨bound, _, rfl, hbound, hmore⟩ := List.map_eq_cons_iff.mp hmore
  obtain ⟨inner, _, rfl, hinner, hmore⟩ := List.map_eq_cons_iff.mp hmore
  obtain ⟨style, _, rfl, hstyle, hmore⟩ := List.map_eq_cons_iff.mp hmore
  obtain rfl := List.map_eq_nil_iff.mp hmore
  obtain ⟨span', found, rfl, hfound⟩ := Node.erase_eq_made_iff.mp hbound
  obtain ⟨span'', statements, rfl, hnone⟩ := Node.erase_eq_made_iff.mp hinner
  obtain ⟨place, rfl⟩ := Node.erase_eq_word_iff.mp hstyle
  obtain rfl := List.map_eq_nil_iff.mp hnone
  have hhead : Printer.print 0 call = .ok "foo" := by
    obtain ⟨span, parts, rfl, hparts⟩ := Node.erase_eq_made_iff.mp hcall
    obtain ⟨receiver, _, rfl, hreceiver, hmore⟩ := List.map_eq_cons_iff.mp hparts
    obtain ⟨name, _, rfl, hname, hmore⟩ := List.map_eq_cons_iff.mp hmore
    obtain rfl := List.map_eq_nil_iff.mp hmore
    obtain rfl := Node.erase_eq_absent_iff.mp hreceiver
    obtain ⟨place, rfl⟩ := Node.erase_eq_word_iff.mp hname
    rfl
  have hbars : Printer.printSignature " |" "|" 0 (.tree .args span' found) =
      .ok (" |" ++ Printer.parameterText plain locals ++ "|") := by
    rw [Printer.printSignature, printParameters_names hfound]
    rfl
  rw [Printer.print, Printer.printBlock, hhead]
  change (Printer.printSignature " |" "|" 0 (.tree .args span' found) >>= _) = _
  rw [hbars]
  refine congrArg Except.ok (String.toList_inj.mp ?_)
  simp [headText]

/-- The words of the head of a block as tokens. -/
theorem exists_of_headWords {plain locals : List String} {tokens : List Token}
    (h : tokens.map Token.word = headWords plain locals) :
    ∃ (name opener bar semi bar' closer : Token) (front middle : List Token),
      tokens = name :: opener :: bar :: (front ++ semi :: (middle ++ [bar', closer])) ∧
      name.kind = .ident ∧ name.text = "foo" ∧ opener.kind = .lbrace ∧ bar.kind = .pipe ∧
      front.map Token.word = nameWords false plain ∧ semi.kind = .semi ∧
      middle.map Token.word = nameWords true locals ∧ bar'.kind = .pipe ∧
      closer.kind = .rbrace := by
  obtain ⟨name, _, rfl, hname, hmore⟩ := List.map_eq_cons_iff.mp h
  obtain ⟨opener, _, rfl, hopener, hmore⟩ := List.map_eq_cons_iff.mp hmore
  obtain ⟨bar, _, rfl, hbar, hmore⟩ := List.map_eq_cons_iff.mp hmore
  obtain ⟨front, _, rfl, hfront, hmore⟩ := List.map_eq_append_iff.mp hmore
  obtain ⟨semi, _, rfl, hsemi, hmore⟩ := List.map_eq_cons_iff.mp hmore
  obtain ⟨middle, _, rfl, hmiddle, hmore⟩ := List.map_eq_append_iff.mp hmore
  obtain ⟨bar', _, rfl, hbar', hmore⟩ := List.map_eq_cons_iff.mp hmore
  obtain ⟨closer, _, rfl, hcloser, hmore⟩ := List.map_eq_cons_iff.mp hmore
  obtain rfl := List.map_eq_nil_iff.mp hmore
  exact ⟨name, opener, bar, semi, bar', closer, front, middle, rfl, congrArg Word.kind hname,
    congrArg Word.text hname, congrArg Word.kind hopener, congrArg Word.kind hbar, hfront,
    congrArg Word.kind hsemi, hmiddle, congrArg Word.kind hbar', congrArg Word.kind hcloser⟩

/-- In the words of the head of a block there is no target. -/
theorem hasTargets_headWords {tokens : List Token} {plain locals : List String}
    (h : tokens.map Token.word = headWords plain locals) {follower : Token}
    (hfollower : follower.kind = .eof) : hasTargets 0 false (tokens ++ [follower]) = false := by
  obtain ⟨name, opener, bar, semi, bar', closer, front, middle, rfl, hname, -, hopener, hbar,
    hfront, hsemi, hmiddle, hbar', hcloser⟩ := exists_of_headWords h
  have hnames {tokens : List Token} {spaced : Bool} {names : List String}
      (h : tokens.map Token.word = nameWords spaced names) :
      ∀ t ∈ tokens, t.kind = .ident ∨ t.kind = .comma := by
    intro t ht
    exact kind_of_mem_nameWords (w := t.word) (h ▸ List.mem_map_of_mem ht)
  have hinside : ∀ t ∈ bar :: (front ++ semi :: (middle ++ [bar'])),
      t.kind = .ident ∨ t.kind = .comma ∨ t.kind = .pipe ∨ t.kind = .semi := by
    intro t ht
    simp only [List.mem_cons, List.mem_append, List.not_mem_nil, or_false] at ht
    rcases ht with rfl | ht | rfl | ht | rfl
    · exact Or.inr (Or.inr (Or.inl hbar))
    · exact (hnames hfront t ht).imp_right Or.inl
    · exact Or.inr (Or.inr (Or.inr hsemi))
    · exact (hnames hmiddle t ht).imp_right Or.inl
    · exact Or.inr (Or.inr (Or.inl hbar'))
  have hsplit : name :: opener :: bar :: (front ++ semi :: (middle ++ [bar', closer])) ++
      [follower] =
        name :: opener ::
          ((bar :: (front ++ semi :: (middle ++ [bar']))) ++ [closer, follower]) := by
    simp
  rw [hsplit, hasTargets, hname]
  change hasTargets 0 false _ = _
  rw [hasTargets, hopener]
  refine (hasTargets_inside hinside 0 false _).trans ?_
  rw [hasTargets, hcloser]
  change hasTargets 0 false _ = _
  rw [hasTargets, hfollower]
  rfl

/-- The text of the head of a block is read back when no parameters stand in front of the
block-local variables. With parameters, the second bar is missed at the semicolon. -/
theorem parse_headText {plain locals : List String} (hplain : ∀ name ∈ plain, IsVariableName name)
    (hlocals : ∀ name ∈ locals, IsVariableName name) (hne : locals ≠ []) :
    Printer.print 0 (blockHead plain locals) = .ok (headText plain locals) ∧
    (plain = [] → ∃ program, parse (headText plain locals) = .ok program ∧
      program.erase = .made .program [blockHead plain locals] ∧
      Printer.print 0 program = .ok (headText plain locals)) ∧
    (plain ≠ [] → ∃ semi : Token, semi.kind = .semi ∧ parse (headText plain locals) =
      .error (.grammar ⟨.unclosed "|" "block parameters", semi⟩)) := by
  have hsource : (headText plain locals).toList = writtenAll (headWords plain locals) :=
    toList_headText hne
  -- The source is not about to be passed over, so its tokens are the words that were written.
  have hpassage : Token.passage? (headText plain locals).toList = .ok none := by
    rw [hsource]
    refine Token.passage?_eq_none ?_ ?_
    · rintro ⟨rest, hrest⟩
      exact absurd (List.cons.inj hrest).1 (by decide)
    · exact (by decide : 'f' ≠ '=')
  obtain ⟨tokens, follower, htokenize, hwords, hfollower, -, -⟩ :=
    Token.tokenize_eq hsource (legible_headWords hplain hlocals) hpassage
  have htargets := hasTargets_headWords hwords hfollower
  obtain ⟨name, opener, bar, semi, bar', closer, front, middle, rfl, hname, htext, hopener, hbar,
    hfront, hsemi, hmiddle, hbar', hcloser⟩ := exists_of_headWords hwords
  have hparse : parse (headText plain locals) = (parseTokens (name :: (opener :: bar ::
      (front ++ semi :: (middle ++ [bar', closer]))) ++ [follower])).mapError .grammar := by
    rw [parse, htokenize]
    rfl
  refine ⟨print_blockHead (by simp [blockHead, styleLeaf]), ?_, ?_⟩
  -- Without parameters the semicolon stands behind the bar, where the local names are looked for.
  · rintro rfl
    obtain rfl := List.map_eq_nil_iff.mp hfront
    have hlocalsLength := length_le_nameWords true locals
    rw [← hmiddle, List.length_map] at hlocalsLength
    obtain ⟨program, hprogram, herase⟩ : ∃ program, parseTokens (name :: (opener :: bar :: semi ::
        (middle ++ [bar', closer])) ++ [follower]) = .ok program ∧
          program.erase = .made .program [blockHead [] locals] :=
      parseTokens_statement closer hname hfollower fun s hscope => by
        refine statement_block _ hname hscope hopener htargets hfollower (Nat.succ_lt_succ
          (Nat.succ_pos _)) fun call hcall => ?_
        rw [blockHead, ← htext, ← hcall]
        have hlimit : locals.length < (rulesAt
            ((opener :: bar :: semi :: (middle ++ [bar', closer])).length + 2)).limit := by
          simp only [rulesAt, List.length_cons, List.length_append]
          omega
        have hblock := block_locals (s := s) name follower [] call hne hmiddle hopener
          hbar hsemi hbar' hcloser hlimit
        simpa using hblock
    refine ⟨program, ?_, herase, ?_⟩
    · rw [hparse]
      exact (congrArg (Except.mapError _) hprogram).trans rfl
    · obtain ⟨span, found, rfl, hfound⟩ := Node.erase_eq_made_iff.mp herase
      obtain ⟨node, others, rfl, hnode, hothers⟩ := List.map_eq_cons_iff.mp hfound
      obtain rfl := List.map_eq_nil_iff.mp hothers
      simp [Printer.print, Printer.printStatements, print_blockHead hnode, Printer.indent,
        Printer.joined, bind, Except.bind, pure, Except.pure]
  -- Behind a parameter only a comma goes on, so the semicolon is met where the bar is expected.
  · intro hplainNe
    have hplainLength := length_le_nameWords false plain
    rw [← hfront, List.length_map] at hplainLength
    refine ⟨semi, hsemi, ?_⟩
    rw [hparse, parseTokens_error (e := ⟨.unclosed "|" "block parameters", semi⟩) hname
      fun s hscope => ?_]
    · rfl
    · refine statement_error _ hname hscope hopener htargets (Nat.succ_pos _) fun call => ?_
      have hlimit : plain.length ≤ (rulesAt ((opener :: bar ::
          (front ++ semi :: (middle ++ [bar', closer]))).length + 2)).limit := by
        simp only [rulesAt, List.length_cons, List.length_append]
        omega
      have hblock := block_plain (s := s) name (middle ++ [bar', closer] ++ [follower]) call
        hplainNe hfront hopener hbar hsemi hlimit
      simpa using hblock

/-- Both bars are found around one block-local variable alone, and not behind a parameter. -/
theorem parse_headText_single :
    (∃ program, parse (headText [] ["b"]) = .ok program ∧
      program.erase = .made .program [blockHead [] ["b"]]) ∧
    ∃ semi : Token, semi.kind = .semi ∧ parse (headText ["a"] ["b"]) =
      .error (.grammar ⟨.unclosed "|" "block parameters", semi⟩) := by
  have ha : IsVariableName "a" := isVariableName_of_isLowerName (by decide) (by decide)
  have hb : IsVariableName "b" := isVariableName_of_isLowerName (by decide) (by decide)
  have halone := @parse_headText [] ["b"] nofun (by simpa using hb) (by decide)
  have hboth := @parse_headText ["a"] ["b"] (by simpa using ha) (by simpa using hb)
    (by decide)
  obtain ⟨program, hprogram, herase, -⟩ := halone.2.1 rfl
  exact ⟨⟨program, hprogram, herase⟩, hboth.2.2 (List.cons_ne_nil _ _)⟩

/-- The printed head of a block with a parameter and a block-local variable is not read. -/
theorem not_parse_printed_head :
    Printer.print 0 (blockHead ["a"] ["b"]) = .ok "foo \x7b |a; b| \x7d" ∧
      ∀ program, parse "foo \x7b |a; b| \x7d" ≠ .ok program := by
  refine ⟨eq_ok_of_toOption (by decide +kernel), fun program h => ?_⟩
  have hread : (parse "foo \x7b |a; b| \x7d").toOption = none := by decide +kernel
  rw [h] at hread
  cases hread

end XhrKeywords.Grammar
