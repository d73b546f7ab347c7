/-!
# Kinds of tokens

The kinds of Ruby tokens, the name under which each is reported, and the classes of kinds that
decide how a neighbouring character or token is read.
-/

namespace XhrKeywords.Token

/-- What a token is. -/
inductive Kind
  -- literals
  | int | float | string | xstring | symbol | dsym | regex | words | label | stringLabel
  -- names
  | ident | const | ivar | gvar | cvar
  -- keywords
  | kwAlias | kwAnd | kwBegin | kwBreak | kwCase | kwClass | kwDef | kwDefined | kwDo | kwElse
  | kwElsif | kwEnd | kwEnsure | kwFor | kwIf | kwIn | kwModule | kwNext | kwNot | kwOr | kwRedo
  | kwRescue | kwRetry | kwReturn | kwSuper | kwThen | kwUnless | kwUntil | kwWhen | kwWhile
  | kwYield
  -- keywords that are values
  | kwTrue | kwFalse | kwNil | kwSelf
  -- arithmetic
  | plus | minus | star | pow | slash | percent
  -- comparison
  | eq | eqq | neq | eqTilde | bangTilde | cmp | lt | lte | gt | gte
  -- logic and bits
  | andAnd | orOr | bang | tilde | amp | pipe | caret | lshift | rshift
  -- assignment
  | assign | opAssign | assoc
  -- punctuation
  | arrow | dot | andDot | colon2 | colon | qmark | dot2 | dot3 | comma | semi
  | lpar | rpar | lbrack | rbrack | lbrace | rbrace
  -- structure
  | newline | eof
  deriving DecidableEq, Repr, Inhabited

namespace Kind

/-- The name of a kind in reports. -/
def name : Kind → String
  | int => "INT" | float => "FLOAT" | string => "STRING" | xstring => "XSTRING"
  | symbol => "SYMBOL" | dsym => "DSYM" | regex => "REGEX" | words => "WORDS"
  | label => "LABEL" | stringLabel => "STRING_LABEL"
  | ident => "IDENT" | const => "CONST" | ivar => "IVAR" | gvar => "GVAR" | cvar => "CVAR"
  | kwAlias => "ALIAS" | kwAnd => "AND" | kwBegin => "BEGIN" | kwBreak => "BREAK"
  | kwCase => "CASE" | kwClass => "CLASS" | kwDef => "DEF" | kwDefined => "DEFINED"
  | kwDo => "DO" | kwElse => "ELSE" | kwElsif => "ELSIF" | kwEnd => "END"
  | kwEnsure => "ENSURE" | kwFor => "FOR" | kwIf => "IF" | kwIn => "IN"
  | kwModule => "MODULE" | kwNext => "NEXT" | kwNot => "NOT" | kwOr => "OR"
  | kwRedo => "REDO" | kwRescue => "RESCUE" | kwRetry => "RETRY" | kwReturn => "RETURN"
  | kwSuper => "SUPER" | kwThen => "THEN" | kwUnless => "UNLESS" | kwUntil => "UNTIL"
  | kwWhen => "WHEN" | kwWhile => "WHILE" | kwYield => "YIELD"
  | kwTrue => "TRUE" | kwFalse => "FALSE" | kwNil => "NIL" | kwSelf => "SELF"
  | plus => "PLUS" | minus => "MINUS" | star => "STAR" | pow => "POW" | slash => "SLASH"
  | percent => "PERCENT"
  | eq => "EQ" | eqq => "EQQ" | neq => "NEQ" | eqTilde => "MATCH" | bangTilde => "NMATCH"
  | cmp => "CMP" | lt => "LT" | lte => "LTE" | gt => "GT" | gte => "GTE"
  | andAnd => "ANDAND" | orOr => "OROR" | bang => "BANG" | tilde => "TILDE" | amp => "AMP"
  | pipe => "PIPE" | caret => "CARET" | lshift => "LSHIFT" | rshift => "RSHIFT"
  | assign => "ASSIGN" | opAssign => "OP_ASGN" | assoc => "ASSOC"
  | arrow => "ARROW" | dot => "DOT" | andDot => "ANDDOT" | colon2 => "COLON2"
  | colon => "COLON" | qmark => "QMARK" | dot2 => "DOT2" | dot3 => "DOT3" | comma => "COMMA"
  | semi => "SEMI" | lpar => "LPAR" | rpar => "RPAR" | lbrack => "LBRACK" | rbrack => "RBRACK"
  | lbrace => "LBRACE" | rbrace => "RBRACE"
  | newline => "NEWLINE" | eof => "EOF"

/-- Every kind, in the order of their declaration. -/
def all : List Kind :=
  [int, float, string, xstring, symbol, dsym, regex, words, label, stringLabel,
    ident, const, ivar, gvar, cvar,
    kwAlias, kwAnd, kwBegin, kwBreak, kwCase, kwClass, kwDef, kwDefined, kwDo, kwElse,
    kwElsif, kwEnd, kwEnsure, kwFor, kwIf, kwIn, kwModule, kwNext, kwNot, kwOr, kwRedo,
    kwRescue, kwRetry, kwReturn, kwSuper, kwThen, kwUnless, kwUntil, kwWhen, kwWhile,
    kwYield, kwTrue, kwFalse, kwNil, kwSelf,
    plus, minus, star, pow, slash, percent,
    eq, eqq, neq, eqTilde, bangTilde, cmp, lt, lte, gt, gte,
    andAnd, orOr, bang, tilde, amp, pipe, caret, lshift, rshift,
    assign, opAssign, assoc,
    arrow, dot, andDot, colon2, colon, qmark, dot2, dot3, comma, semi,
    lpar, rpar, lbrack, rbrack, lbrace, rbrace,
    newline, eof]

/-- The kind with the given name in reports. -/
def ofName? (text : String) : Option Kind :=
  all.find? fun k => k.name == text

/-- The keywords with their kinds. -/
def keywords : List (String × Kind) :=
  [("alias", kwAlias), ("and", kwAnd), ("begin", kwBegin), ("break", kwBreak),
    ("case", kwCase), ("class", kwClass), ("def", kwDef), ("defined?", kwDefined),
    ("do", kwDo), ("else", kwElse), ("elsif", kwElsif), ("end", kwEnd), ("ensure", kwEnsure),
    ("false", kwFalse), ("for", kwFor), ("if", kwIf), ("in", kwIn), ("module", kwModule),
    ("next", kwNext), ("nil", kwNil), ("not", kwNot), ("or", kwOr), ("redo", kwRedo),
    ("rescue", kwRescue), ("retry", kwRetry), ("return", kwReturn), ("self", kwSelf),
    ("super", kwSuper), ("then", kwThen), ("true", kwTrue), ("unless", kwUnless),
    ("until", kwUntil), ("when", kwWhen), ("while", kwWhile), ("yield", kwYield)]

/-- The kind of a keyword; a text that is no keyword has none. -/
def ofKeyword? (text : String) : Option Kind :=
  keywords.lookup text

/-- Tokens after which an operator character is a binary operator. -/
def endsValue : Kind → Bool
  | int | float | string | xstring | symbol | dsym | regex | words | ident | const | ivar | gvar
  | cvar | rpar | rbrack | rbrace | kwEnd | kwSelf | kwTrue | kwFalse | kwNil => true
  | _ => false

/-- Tokens after which any word is a method name. -/
def beforeName : Kind → Bool
  | dot | andDot | kwDef => true
  | _ => false

/-- Tokens that begin an argument of a call without parentheses. -/
def startsArgument : Kind → Bool
  | int | float | string | xstring | symbol | dsym | regex | words | label | stringLabel | ident
  | const | ivar | gvar | cvar | kwNil | kwTrue | kwFalse | kwSelf | arrow | kwDefined | bang
  | tilde | lbrack | lpar | kwDef | kwSuper | kwYield => true
  | _ => false

/-- Operators that begin an argument when they touch the token after them. -/
def startsGluedArgument : Kind → Bool
  | minus | plus | star | pow | amp | colon2 => true
  | _ => false

/-- Tokens before which a value may be left out. -/
def stopsValue : Kind → Bool
  | newline | semi | eof | kwEnd | rbrace | rpar | rbrack | kwIf | kwUnless | kwWhile | kwUntil
  | kwRescue | kwThen | kwDo | kwAnd | kwOr | comma | colon | kwElse | kwElsif | kwWhen
  | kwEnsure => true
  | _ => false

/-- Keywords that trail a statement as a modifier or open a loop or condition of their own. -/
def opensCondition : Kind → Bool
  | kwIf | kwUnless | kwWhile | kwUntil => true
  | _ => false

/-- Tokens before which the value of a label may be left out. -/
def stopsLabelValue (k : Kind) : Bool :=
  k.stopsValue && !k.opensCondition

/-- Operators that are method names after `def`, `alias` or a dot. -/
def isOperatorMethod : Kind → Bool
  | plus | minus | star | pow | slash | percent | eq | eqq | neq | eqTilde | bangTilde | cmp
  | lt | lte | gt | gte | bang | tilde | amp | pipe | caret | lshift | rshift => true
  | _ => false

end Kind

end XhrKeywords.Token
