import XhrKeywords.Text.Quoted

/-!
# UTF-8

Reading is strict: overlong forms, surrogates and codes beyond the last one are refused at their
first octet or at the first octet that rules them out. An error tells which octets were read in
vain.
-/

namespace XhrKeywords.Utf8

/-- Why octets are no text. -/
inductive Reason
  /-- No character starts with the octet. -/
  | invalidStart
  /-- The octets do not go on as their first one demands. -/
  | invalidContinuation
  /-- The octets end within a character. -/
  | unexpectedEnd
  deriving DecidableEq, Repr

/-- The wording of a reason. -/
def Reason.message : Reason → String
  | invalidStart => "invalid start byte"
  | invalidContinuation => "invalid continuation byte"
  | unexpectedEnd => "unexpected end of data"

/-- A reason and the octets that it is about. -/
structure Error where
  reason : Reason
  /-- The first octet. -/
  first : UInt8
  /-- Its position. -/
  start : Nat
  /-- The number of octets. -/
  length : Nat
  deriving DecidableEq, Repr

/-- The report of an error. -/
def Error.message (e : Error) : String :=
  let octets :=
    if e.length = 1 then
      "byte 0x" ++ String.ofList (Text.hex 2 e.first.toNat) ++ s!" in position {e.start}"
    else s!"bytes in position {e.start}-{e.start + e.length - 1}"
  "'utf-8' codec can't decode " ++ octets ++ ": " ++ e.reason.message

/-- The octets from one to another. -/
structure Range where
  low : UInt8
  high : UInt8
  deriving DecidableEq, Repr

/-- Whether an octet is in a range. -/
def Range.contains (r : Range) (octet : UInt8) : Bool :=
  r.low ≤ octet && octet ≤ r.high

/-- The octets that continue a character. -/
def tail : Range := ⟨0x80, 0xBF⟩

/-- A character of which some octets have been read. -/
structure Partial where
  /-- The bits so far. -/
  code : Nat
  /-- The ranges of the octets to come. -/
  owed : List Range
  first : UInt8
  /-- How many octets have been read. -/
  length : Nat
  deriving DecidableEq, Repr

/-- What the first octet of a character demands of those behind it. -/
def lead? (octet : UInt8) : Option Partial :=
  let code := octet.toNat
  if code < 0x80 then some ⟨code, [], octet, 1⟩
  else if code < 0xC2 then none
  else if code < 0xE0 then some ⟨code - 0xC0, [tail], octet, 1⟩
  else if code = 0xE0 then some ⟨code - 0xE0, [⟨0xA0, 0xBF⟩, tail], octet, 1⟩
  else if code = 0xED then some ⟨code - 0xE0, [⟨0x80, 0x9F⟩, tail], octet, 1⟩
  else if code < 0xF0 then some ⟨code - 0xE0, [tail, tail], octet, 1⟩
  else if code = 0xF0 then some ⟨code - 0xF0, [⟨0x90, 0xBF⟩, tail, tail], octet, 1⟩
  else if code < 0xF4 then some ⟨code - 0xF0, [tail, tail, tail], octet, 1⟩
  else if code = 0xF4 then some ⟨code - 0xF0, [⟨0x80, 0x8F⟩, tail, tail], octet, 1⟩
  else none

/-- The character so far with one more octet. -/
def Partial.push (p : Partial) (octet : UInt8) (owed : List Range) : Partial :=
  ⟨p.code * 64 + (octet.toNat - 0x80), owed, p.first, p.length + 1⟩

/-- The error that a character breaks off for a reason; `behind` octets have been read with it. -/
def Partial.error (p : Partial) (reason : Reason) (behind : Nat) : Error :=
  ⟨reason, p.first, behind - p.length, p.length⟩

/-- Reads on behind `behind` octets, with the characters so far, last one first, and the character
that has been begun. -/
def read (behind : Nat) (decoded : List Char) : Option Partial → List UInt8 →
    Except Error (List Char)
  | none, [] => .ok decoded.reverse
  | some p, [] => .error (p.error .unexpectedEnd behind)
  | none, octet :: rest =>
    match lead? octet with
    | none => .error ⟨.invalidStart, octet, behind, 1⟩
    | some p =>
      if p.owed.isEmpty then read (behind + 1) (.ofNat p.code :: decoded) none rest
      else read (behind + 1) decoded (some p) rest
  | some p, octet :: rest =>
    match p.owed with
    | [] => .error (p.error .invalidContinuation behind)
    | range :: owed =>
      if range.contains octet then
        let next := p.push octet owed
        if owed.isEmpty then read (behind + 1) (.ofNat next.code :: decoded) none rest
        else read (behind + 1) decoded (some next) rest
      else .error (p.error .invalidContinuation behind)

/-- The text of octets. -/
def decode (octets : List UInt8) : Except Error String :=
  return .ofList (← read 0 [] none octets)

/-- The octets of a text. -/
def encode (text : String) : List UInt8 :=
  text.toUTF8.toList

end XhrKeywords.Utf8
