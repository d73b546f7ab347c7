import XhrKeywords.Unicode.Numeric

/-!
# Arguments

An argument that starts with a dash stands for flags. Flags with a letter may share one dash, and a
long name may be shortened to a beginning that no other one has. A negative number and an unknown
argument with a blank in it are names of files all the same.
-/

namespace XhrKeywords.CommandLine

open Unicode

/-- What can be asked of a run. -/
inductive Flag
  | help
  | write
  | diff
  | verbose
  deriving DecidableEq, Repr

namespace Flag

/-- All flags. -/
def all : List Flag := [help, write, diff, verbose]

/-- The name behind two dashes. -/
def longName : Flag → String
  | help => "help"
  | write => "write"
  | diff => "diff"
  | verbose => "verbose"

/-- The letter behind one dash. -/
def letter? : Flag → Option Char
  | help => some 'h'
  | write => some 'w'
  | diff => none
  | verbose => some 'v'

/-- The flag of a letter. -/
def ofLetter? (c : Char) : Option Flag :=
  all.find? (·.letter? == some c)

/-- The flags whose long names start with the given characters. -/
def starting (name : List Char) : List Flag :=
  all.filter fun flag => name.isPrefixOf flag.longName.toList

end Flag

/-- What an argument stands for. -/
inductive Argument
  | file (name : String)
  /-- Flags, and whether nothing unknown stands behind them. -/
  | flags (known : List Flag) (isComplete : Bool)
  /-- A flag with a value. No flag has one. -/
  | withValue
  /-- The beginning of several long names. -/
  | ambiguous
  deriving DecidableEq, Repr

namespace Argument

/-- The characters of a text but a line end behind them. -/
def withoutLineEnd (text : List Char) : List Char :=
  if text.getLast? = some '\n' then text.dropLast else text

/-- Whether a text is a decimal number: digits, or a point with digits behind it. -/
def isNumber (text : List Char) : Bool :=
  match text.span isDecimal with
  | (digits, []) => !digits.isEmpty
  | (_, '.' :: fraction) => !fraction.isEmpty && fraction.all isDecimal
  | _ => false

/-- The meaning of an argument that starts with a dash and no known flag. -/
def ofUnknown (behindDash : List Char) : Argument :=
  if isNumber (withoutLineEnd behindDash) || behindDash.contains ' ' then
    .file (.ofList ('-' :: behindDash))
  else .flags [] false

/-- The flags behind one dash; a value or a second dash spoils them all. -/
def ofLetters : List Char → Argument
  | [] => .flags [] true
  | c :: rest =>
    match Flag.ofLetter? c with
    | none => .flags [] false
    | some flag =>
      if rest.head? = some '=' || rest.head? = some '-' then .withValue
      else
        match ofLetters rest with
        | .flags others isComplete => .flags (flag :: others) isComplete
        | spoiled => spoiled

/-- The meaning of a long name. -/
def ofLongName (name : List Char) : Argument :=
  match Flag.starting (name.takeWhile (· ≠ '=')) with
  | [] => ofUnknown ('-' :: name)
  | [flag] => if name.contains '=' then .withValue else .flags [flag] true
  | _ => .ambiguous

/-- Reads an argument. -/
def ofString (text : String) : Argument :=
  match text.toList with
  | '-' :: '-' :: name => ofLongName name
  | '-' :: c :: rest =>
    if (Flag.ofLetter? c).isSome then ofLetters (c :: rest) else ofUnknown (c :: rest)
  | _ => .file text

end Argument

end XhrKeywords.CommandLine
