import XhrKeywords.Proofs.Grammar.Progress.Program
import XhrKeywords.Proofs.Token.Order
import XhrKeywords.Proofs.Token.Progress

/-!
# Reading a source ends

Every step of the lexer takes a character, every phrase takes a token, and so does every round of a
repetition but the last one. So the characters bound the steps, and the tokens bound both nesting
and repetition: no source is refused for want of them.
-/

namespace XhrKeywords

open Token (Lexer)

namespace Grammar

variable {α : Type}

/-- A production takes a token at least, or it fails for a reason in the source. -/
def TakesToken (p : Parser α) (s : State) : Prop :=
  match p s with
  | .ok (_, t) => t.ahead.length < s.ahead.length
  | .error e => e.IsGenuine

/-- A round takes a token at least, or it fails for a reason in the source, or it is the last one
and answers with what has been collected before. -/
def Advances (round : α → Parser (Round α α)) (s : State) : Prop :=
  ∀ x, match round x s with
    | .ok (r, t) =>
      t.ahead.length < s.ahead.length ∨ (r = .done x ∧ t.ahead.length ≤ s.ahead.length)
    | .error e => e.IsGenuine

/-- Every phrase of the grammar takes a token, and every round of its repetitions advances. -/
structure Advancing (g : Rules) (s : State) : Prop where
  phrase (phrase : Phrase) : TakesToken (g.read phrase) s
  statements (stops : List Token.Kind) : Advances (statementRound g stops) s
  modifiers : Advances (modifierRound g) s
  targets (closer : Token.Kind) : Advances (targetRound g closer) s
  values : Advances (elementRound (splatOr (g.read .assignment))) s
  classes : Advances (elementRound (splatOr (g.read .choice))) s
  rescues : Advances (rescueRound g) s
  whens : Advances (whenRound g) s
  loopVariables : Advances loopVariableRound s
  arguments (closer : Option Token.Kind) : Advances (argumentRound g closer) s
  pairs : Advances (hashRound g) s
  parameters (closers : List Token.Kind) (inBlock : Bool) :
    Advances (parameterRound g closers inBlock) s
  shadows : Advances shadowRound s
  connectives (operators : List Token.Kind) : Advances (binaryRound operators (negation g)) s
  operators (operators : List Token.Kind) (tighter : List (List Token.Kind)) :
    Advances (binaryRound operators (operation g tighter)) s
  trailers : Advances (trailerRound g) s
  strings : Advances stringRound s
  path (start : Token) : Advances (pathRound start) s

variable {s : State} {n : Nat}

/-- The number of tokens ahead of a state bounds them. -/
theorem State.below_succ (hclosed : (s.ahead.getLastD s.current).kind = .eof) :
    s.Below AnyToken (s.ahead.length + 1) :=
  ⟨hclosed, Nat.lt_succ_self _, fun _ _ => trivial⟩

theorem takes_of_lowers {p : Parser α} (hclosed : (s.ahead.getLastD s.current).kind = .eof)
    (h : Lowers AnyToken s.ahead.length p) : TakesToken p s := by
  have hholds := h (State.below_succ hclosed) trivial
  revert hholds
  rw [TakesToken]
  cases p s with
  | error e => exact And.left
  | ok answer => exact State.Below.lt

theorem advances_of_turns {round : α → Parser (Round α α)}
    (hclosed : (s.ahead.getLastD s.current).kind = .eof) (h : Turns AnyToken s.ahead.length round) :
    Advances round s := by
  intro x
  have hholds := h x (State.below_succ hclosed) trivial
  revert hholds
  cases round x s with
  | error e => exact And.left
  | ok answer => exact Or.imp State.Below.lt (And.imp_right fun hs => Nat.le_of_lt_succ hs.lt)

/-- With rules for more tokens than lie ahead, everything in the grammar advances. -/
theorem advancing_rulesFor (hclosed : (s.ahead.getLastD s.current).kind = .eof)
    (hlt : s.ahead.length < n) : Advancing (rulesFor n) s := by
  have hg := bounded_rulesFor AnyToken n
  have hle := Nat.le_of_lt hlt
  have helements {phrase : Phrase} :
      Advances (elementRound (splatOr ((rulesFor n).read phrase))) s :=
    advances_of_turns hclosed (turns_of_lowers (lowers_elementRound
      (lowers_splatOr (hg.read phrase hlt))))
  exact
    { phrase := fun phrase => takes_of_lowers hclosed (hg.read phrase hlt)
      statements := fun stops => advances_of_turns hclosed (turns_statementRound hg hlt stops)
      modifiers := advances_of_turns hclosed (turns_modifierRound hg hle)
      targets := fun closer =>
        advances_of_turns hclosed (turns_of_lowers (lowers_targetRound hg hle closer))
      values := helements
      classes := helements
      rescues := advances_of_turns hclosed (turns_rescueRound hg hle)
      whens := advances_of_turns hclosed (turns_whenRound hg hle)
      loopVariables :=
        advances_of_turns hclosed (turns_of_lowers lowers_loopVariableRound)
      arguments := fun closer => advances_of_turns hclosed (turns_argumentRound hg hlt closer)
      pairs := advances_of_turns hclosed (turns_hashRound hg hlt)
      parameters := fun closers inBlock =>
        advances_of_turns hclosed (turns_parameterRound hg hle closers inBlock)
      shadows := advances_of_turns hclosed turns_shadowRound
      connectives := fun operators =>
        advances_of_turns hclosed (turns_binaryRound operators (lowers_negation hg _ hle))
      operators := fun operators tighter =>
        advances_of_turns hclosed (turns_binaryRound operators (lowers_operation hg tighter _ hle))
      trailers := advances_of_turns hclosed (turns_trailerRound hg hle)
      strings := advances_of_turns hclosed turns_stringRound
      path := fun start => advances_of_turns hclosed (turns_pathRound start) }

/-- Rules for as many tokens as there are suffice for a program, and it fails at one of them. -/
theorem genuineAt_of_program {T : Token → Prop} {e : SyntaxError}
    (hs : s.Below T (s.ahead.length + 1)) (hlt : s.ahead.length < n)
    (h : program (rulesFor n) s = .error e) : e.IsGenuineAt T := by
  have hholds := keeps_program (bounded_rulesFor T n) hlt hs trivial
  rw [h] at hholds
  exact hholds

/-- The tokens of a source end, and each is one of them. -/
theorem below_start {source : String} {first : Token} {others : List Token}
    (htokens : Token.tokenize source = .ok (first :: others)) :
    (State.start first others).Below (· ∈ first :: others) (others.length + 1) :=
  ⟨Token.kind_last htokens, Nat.lt_succ_self _, fun _ ht => ht⟩

/-- Rules for as many tokens as a source has suffice for its program, which fails at a token of the
source. -/
theorem genuineAt_of_tokens {source : String} {first : Token} {others : List Token} {n : Nat}
    {e : SyntaxError} (htokens : Token.tokenize source = .ok (first :: others))
    (hn : others.length < n) (h : program (rulesFor n) (.start first others) = .error e) :
    e.IsGenuineAt (· ∈ first :: others) :=
  genuineAt_of_program (s := .start first others) (below_start htokens) hn h

/-- The error of a parse is one of the source and not of a limit, at one of its tokens. -/
theorem genuineAt_of_parseTokens {source : String} {tokens : List Token} {e : SyntaxError}
    (htokens : Token.tokenize source = .ok tokens) (h : parseTokens tokens = .error e) :
    e.IsGenuineAt (· ∈ tokens) := by
  cases tokens with
  | nil => cases h
  | cons first others =>
    rw [parseTokens] at h
    cases hrun : (program (rulesFor (others.length + 1))).run (.start first others) with
    | ok answer =>
      rw [hrun] at h
      cases h
    | error e' =>
      rw [hrun] at h
      cases h
      exact genuineAt_of_tokens htokens (Nat.lt_succ_self others.length) hrun

end Grammar

/-- Reading a source ends, with an answer or with an error of the source. -/
structure Ends (source : String) : Prop where
  /-- A step in front of a character takes one. -/
  step (s t : Lexer) (hrest : s.cursor.rest ≠ []) (h : s.step = .ok t) :
    s.cursor.offset < t.cursor.offset ∧ t.cursor.rest.length < s.cursor.rest.length
  /-- A turn of the scan over a delimited literal ends it or takes a character. -/
  scan (inner : Delimited.Opened) (outer : List Delimited.Opened) (taken : Nat) (c : Char)
    (rest : List Char) :
    (∃ opened, Delimited.scan inner outer taken (c :: rest) = .error opened) ∨
      Delimited.scan inner outer taken (c :: rest) = .ok (taken + 1) ∨
      ∃ inner' outer' n, 0 < n ∧ n ≤ (c :: rest).length ∧
        Delimited.scan inner outer taken (c :: rest) =
          Delimited.scan inner' outer' (taken + n) ((c :: rest).drop n)
  /-- The body of a heredoc takes a character. -/
  heredoc (h : Heredoc) (text : List Char) (length : Nat) (htext : text ≠ [])
    (hlength : h.bodyLength? text = some length) : 0 < length
  /-- A passage takes a character. -/
  passage (text : List Char) (length : Nat) (htext : text ≠ [])
    (h : Token.passage? text = .ok (some length)) : 0 < length
  /-- As many steps as there are characters lead to the end. -/
  run (s : Lexer) (h : Lexer.run source.toList.length (.start source.toList) = .ok s) :
    s.cursor.rest = []
  /-- Every phrase takes a token and every round of a repetition advances, in front of any tokens
  up to the end of a source and with rules for more of them than there are. -/
  grammar (s : Grammar.State) (n : Nat) (hclosed : (s.ahead.getLastD s.current).kind = .eof)
    (hlt : s.ahead.length < n) : Grammar.Advancing (Grammar.rulesFor n) s
  /-- Nesting and repetition up to the number of tokens suffice for the program. -/
  program (first : Token) (others : List Token) (n : Nat) (e : SyntaxError)
    (htokens : Token.tokenize source = .ok (first :: others)) (hn : others.length < n)
    (h : Grammar.program (Grammar.rulesFor n) (.start first others) = .error e) : e.IsGenuine
  /-- No source is refused for reaching a limit. -/
  parse (e : SyntaxError) (h : parse source = .error (.grammar e)) : e.IsGenuine

/-- Reading a source ends, for every source. -/
theorem ends_reading (source : String) : Ends source where
  step _ _ := Lexer.step_lt
  scan := Token.scan_turn
  heredoc _ _ _ htext hlength := Token.pos_of_bodyEnd? hlength htext
  passage _ _ := Token.pos_of_passage?
  run _ := Lexer.rest_of_run (Nat.le_refl _)
  grammar _ _ := Grammar.advancing_rulesFor
  program _ _ _ _ htokens hn h := (Grammar.genuineAt_of_tokens htokens hn h).1
  parse e h := by
    rw [parse] at h
    cases htokens : Token.tokenize source with
    | error e' =>
      rw [htokens] at h
      cases h
    | ok tokens =>
      rw [htokens] at h
      obtain ⟨e', hparse, he⟩ := mapError_eq_error_iff.mp h
      cases he
      exact (Grammar.genuineAt_of_parseTokens htokens hparse).1

end XhrKeywords
