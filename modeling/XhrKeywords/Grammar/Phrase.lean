import XhrKeywords.Grammar.State
import XhrKeywords.Syntax.Node

/-!
# Phrases

The grammar is recursive: an argument is an expression and holds arguments. Productions are
therefore written over a table of phrases, and only the end of the grammar closes the circle. A
production reads a phrase only behind a token that it has taken itself, so the nesting is bounded
by the number of tokens.
-/

namespace XhrKeywords.Grammar

/-- What a production may read behind a token of its own, from loose to tight binding. -/
inductive Phrase
  /-- An expression with its modifiers, or a multiple assignment. -/
  | statement
  /-- Expressions joined by `and` and `or`. -/
  | sequence
  /-- An expression behind any number of `not`. -/
  | negation
  /-- An assignment or what may stand on its right. -/
  | assignment
  /-- A choice by question mark and colon, or a range. -/
  | choice
  /-- Operands joined by binary operators. -/
  | operation
  /-- An operand behind minus signs, with its power. -/
  | signed
  /-- An operand behind unary operators. -/
  | unary
  /-- A primary with its method calls, indexes and blocks. -/
  | operand
  /-- The parameters behind an opening parenthesis in a parameter list. -/
  | parameterGroup (opener : Token) (inBlock : Bool)
  /-- The targets behind an opening parenthesis in a multiple assignment. -/
  | targetGroup (opener : Token)
  /-- The condition and branches behind `elsif`. -/
  | conditional (keyword : Token)
  deriving DecidableEq, Repr

/-- What productions are written over. -/
structure Rules where
  /-- A bound on the rounds of a repetition. -/
  limit : Nat
  /-- The reading of a phrase. -/
  read : Phrase → Parser Syntax.Node

/-- Repeats rounds as often as the rules allow. -/
def Rules.loop {σ β : Type} (g : Rules) (round : σ → Parser (Round σ β)) (state : σ) :
    Parser β :=
  rounds g.limit round state

end XhrKeywords.Grammar
