import XhrKeywords.Grammar.Error

/-!
# The state of the grammar

A production reads tokens from a state. Next to the tokens the state keeps the local variables in
scope, because a bare name is a variable or a call depending on them, and the number of calls
without parentheses whose arguments are being read, because a `do` behind such arguments belongs
to the outermost of them.
-/

namespace XhrKeywords.Grammar

open Token (Kind)

/-- The tokens around the place that has been reached, and what is known there. -/
structure State where
  /-- The next token. -/
  current : Token
  /-- The tokens behind the next one. -/
  ahead : List Token
  /-- The last token that was taken. -/
  previous : Token
  /-- How many calls keep a `do` for themselves. -/
  blocked : Nat
  /-- The local variables of the innermost scope. -/
  scope : List String
  /-- The local variables of the scopes around it, innermost first. -/
  outer : List (List String)
  deriving DecidableEq, Repr

/-- A production: it reads tokens and answers, or fails. -/
abbrev Parser := StateT State (Except SyntaxError)

variable {α β σ : Type}

/-- The next token. -/
def current : Parser Token := do return (← get).current

/-- The last token that was taken. -/
def previous : Parser Token := do return (← get).previous

/-- The token behind the next one; behind the last token it is that token again. -/
def State.second (s : State) : Token := s.ahead.headD s.current

/-- The token behind the next one. -/
def second : Parser Token := do return (← get).second

/-- Moves to the next token; the last one stays. -/
def State.advance (s : State) : State :=
  match s.ahead with
  | [] => { s with previous := s.current }
  | t :: others => { s with current := t, ahead := others, previous := s.current }

/-- Takes the next token. -/
def advance : Parser Token := do
  let s ← get
  set s.advance
  return s.current

/-- Fails at a token. -/
def failAt (t : Token) (cause : SyntaxError.Cause) : Parser α :=
  throw ⟨cause, t⟩

/-- Fails at the next token. -/
def fail (cause : Kind → SyntaxError.Cause) : Parser α := do
  let t ← current
  failAt t (cause t.kind)

/-- Whether the next token is of the given kind. -/
def sees (kind : Kind) : Parser Bool := do return (← current).kind == kind

/-- Whether the next token is of one of the given kinds. -/
def seesAny (kinds : List Kind) : Parser Bool := do return kinds.contains (← current).kind

/-- Whether the next token is of a class of kinds. -/
def seesClass (holds : Kind → Bool) : Parser Bool := do return holds (← current).kind

/-- Whether the next token is of the given kind and touches the one before. -/
def seesGlued (kind : Kind) : Parser Bool := do
  let t ← current
  return t.kind == kind && !t.spaced

/-- Takes the next token if it is of the given kind. -/
def accept (kind : Kind) : Parser Bool := do
  if ← sees kind then
    let _ ← advance
    return true
  return false

/-- Takes the next token, which has to be of the given kind. -/
def expectOr (kind : Kind) (cause : Kind → SyntaxError.Cause) : Parser Token := do
  if ← sees kind then advance else fail cause

/-- Takes the next token, which has to be of the given kind. -/
def expect (kind : Kind) : Parser Token := expectOr kind (.expected kind)

/-- Takes the mark that closes a construction. -/
def expectCloser (kind : Kind) (mark construction : String) : Parser Token :=
  expectOr kind fun _ => .unclosed mark construction

/-- Takes the `end` that closes a construction. -/
def expectEnd (construction : String) : Parser Token :=
  expectCloser .kwEnd "end" construction

/-- Passes over the tokens of a class at the head of the tokens. -/
def State.skip (holds : Kind → Bool) (s : State) : State :=
  go s.current s.previous s.ahead
where
  /-- Goes on with the tokens `ahead` of `current`. -/
  go (current previous : Token) : List Token → State
    | [] => { s with current, previous, ahead := [] }
    | t :: others =>
      if holds current.kind then go t current others
      else { s with current, previous, ahead := t :: others }

/-- Passes over line breaks. -/
def skipNewlines : Parser Unit := modify (·.skip (· == .newline))

/-- A line break or a semicolon. -/
def isSeparator (kind : Kind) : Bool := kind == .newline || kind == .semi

/-- Passes over line breaks and semicolons. -/
def skipSeparators : Parser Unit := modify (·.skip isSeparator)

/-- Adds a local variable to the innermost scope. -/
def declare (name : String) : Parser Unit :=
  modify fun s => { s with scope := s.scope.insert name }

/-- Whether a name is a local variable. -/
def isLocal (name : String) : Parser Bool := do return (← get).scope.contains name

/-- Opens a scope, which starts with the variables around it if it inherits them. -/
def State.enter (inherits : Bool) (s : State) : State :=
  { s with scope := if inherits then s.scope else [], outer := s.scope :: s.outer }

/-- Closes the innermost scope. -/
def State.leave (s : State) : State :=
  { s with scope := s.outer.headD [], outer := s.outer.tail }

/-- Runs a production and changes the state behind it. -/
def andThen (body : Parser α) (change : State → State) : Parser α := do
  let result ← body
  modify change
  return result

/-- Runs a production in a scope of its own. -/
def inScope (inherits : Bool) (body : Parser α) : Parser α := do
  modify (·.enter inherits)
  andThen body (·.leave)

/-- Runs a production with another count of calls that keep a `do` for themselves. -/
def withBlocked (count : Nat → Nat) (body : Parser α) : Parser α := do
  let before := (← get).blocked
  modify fun s => { s with blocked := count before }
  andThen body fun s => { s with blocked := before }

/-- Inside brackets a `do` belongs to the nearest call again. -/
def bracketed (body : Parser α) : Parser α := withBlocked (fun _ => 0) body

/-- Behind these tokens a `do` belongs to the construction that is being read. -/
def keepingDo (body : Parser α) : Parser α := withBlocked (· + 1) body

/-- Whether a `do` belongs to the nearest call. -/
def doBinds : Parser Bool := do return (← get).blocked == 0

/-- One round of a repetition: another follows, or the answer is there. -/
inductive Round (σ β : Type)
  | again (state : σ)
  | done (result : β)

/-- The round that goes on with what a production answers. -/
def again (p : Parser σ) : Parser (Round σ β) := do return .again (← p)

/-- The round that goes on with what a production answers behind all that was found. -/
def againWith (found : List α) (p : Parser α) : Parser (Round (List α) β) := do
  return .again (found ++ [← p])

/-- Goes on behind a comma. -/
def commaRound (found : σ) : Parser (Round σ σ) := do
  if ← accept .comma then return .again found
  return .done found

/-- Goes on behind a comma, which line breaks may follow. -/
def listRound (found : σ) : Parser (Round σ σ) := do
  if ← accept .comma then
    skipNewlines
    return .again found
  return .done found

/-- Repeats rounds up to the answer, `limit` times at most. -/
def rounds (limit : Nat) (round : σ → Parser (Round σ β)) (state : σ) : Parser β :=
  match limit with
  | 0 => fail fun _ => .beyondLimit
  | fewer + 1 => do
    match ← round state with
    | .again next => rounds fewer round next
    | .done result => return result

end XhrKeywords.Grammar
