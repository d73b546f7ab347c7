import XhrKeywords.Token.Item

/-!
# From source to tokens

The lexer takes one item after the other. Blank space marks the next token as spaced, heredoc
bodies are skipped at the line break behind their openers, and a line break becomes a token unless
one came just before or the next line goes on with a method call.
-/

namespace XhrKeywords.Token

/-- The lexer between two items. -/
structure Lexer where
  cursor : Cursor
  /-- The tokens so far, last one first. -/
  emitted : List Token
  /-- Whether blank space came after the last token. -/
  spaced : Bool
  /-- Whether a line starts here. -/
  lineStart : Bool
  /-- The heredocs whose bodies are still to come, first one first. -/
  heredocs : List Heredoc
  deriving DecidableEq, Repr

namespace Lexer

/-- The lexer in front of a source. -/
def start (source : List Char) : Lexer := ⟨.start source, [], false, true, []⟩

/-- What is known in front of the next token. -/
def context (s : Lexer) : Context :=
  ⟨s.emitted.head?.map (·.kind), s.spaced⟩

/-- The token for a lexeme at the cursor. -/
def place (s : Lexer) (found : Lexeme) : Token :=
  let behind := s.cursor.advance found.length
  { kind := found.kind, text := found.text
    line := s.cursor.position.line, column := s.cursor.position.column
    start := s.cursor.offset, spaced := s.spaced
    endLine := behind.position.line, endColumn := behind.position.column
    stop := behind.offset }

/-- A line break ends one character behind its start on the same line, however long it is. -/
def placeNewline (s : Lexer) : Token :=
  { kind := .newline, text := "\n"
    line := s.cursor.position.line, column := s.cursor.position.column
    start := s.cursor.offset, spaced := s.spaced
    endLine := s.cursor.position.line, endColumn := s.cursor.position.column + 1
    stop := s.cursor.offset + 1 }

/-- Whether the text goes on with a method call after blank lines and comments: a dot that starts
no range, or a safe navigation operator. -/
def continuesChain (inComment : Bool) : List Char → Bool
  | [] => false
  | c :: rest =>
    if inComment then continuesChain (c != '\n') rest
    else if c == ' ' || c == '\t' || isLineBreak c then continuesChain false rest
    else if c == '#' then continuesChain true rest
    else (c == '&' && peek rest 0 == '.') || (c == '.' && peek rest 0 != '.')

/-- Passes a line break and the heredoc bodies behind it. -/
def breakLine (s : Lexer) (length : Nat) : Except Fault Lexer := do
  let bodies ←
    match Heredoc.bodiesLength s.heredocs (s.cursor.rest.drop length) with
    | .ok bodies => pure bodies
    | .error fault => .error ⟨fault.cause, length + fault.ahead⟩
  let behind := s.cursor.advance (length + bodies)
  let passed : Lexer := { s with cursor := behind, lineStart := true, heredocs := [] }
  if s.context.last.all (· == .newline) then return passed
  else if continuesChain false behind.rest then return { passed with spaced := true }
  else return { passed with emitted := s.placeNewline :: s.emitted, spaced := false }

/-- Takes one item. -/
def take (s : Lexer) : Item → Except Fault Lexer
  | .passage length => .ok { s with cursor := s.cursor.advance length, lineStart := false }
  | .blank length =>
    .ok { s with cursor := s.cursor.advance length, lineStart := false, spaced := true }
  | .comment length => .ok { s with cursor := s.cursor.advance length, lineStart := false }
  | .lineBreak length => s.breakLine length
  | .lexeme found =>
    .ok
      { cursor := s.cursor.advance found.length
        emitted := s.place found :: s.emitted
        spaced := false, lineStart := false
        heredocs := s.heredocs ++ found.heredoc.toList }

/-- Reads and takes the next item. -/
def step (s : Lexer) : Except LexError Lexer :=
  let result := do s.take (← readItem s.lineStart s.context s.cursor.rest)
  result.mapError (·.located s.cursor)

/-- Takes items up to the end of the source. Every item takes a character, so as many steps as
there are characters are enough. -/
def run : Nat → Lexer → Except LexError Lexer
  | 0, s => .ok s
  | steps + 1, s => if s.cursor.rest.isEmpty then .ok s else do run steps (← s.step)

/-- The token that marks the end of the source. -/
def endToken (s : Lexer) : Token :=
  s.place { kind := .eof, text := "", length := 0 }

/-- The tokens of a finished source; a heredoc without a body is an error. -/
def finish (s : Lexer) : Except LexError (List Token) :=
  match s.heredocs with
  | [] => .ok (s.endToken :: s.emitted).reverse
  | h :: _ => .error ⟨.unterminatedHeredoc h.tag, s.cursor.position⟩

end Lexer

/-- The tokens of a source, the end marker last. -/
def tokenize (source : String) : Except LexError (List Token) := do
  let text := source.toList
  (← Lexer.run text.length (.start text)).finish

end XhrKeywords.Token
