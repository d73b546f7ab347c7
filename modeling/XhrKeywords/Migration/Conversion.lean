import XhrKeywords.Grammar.Program
import XhrKeywords.Migration.Replacement

/-!
# Converting a source

Every legacy call of a tree becomes one patch. Only the text of the calls changes; all else is
copied. The first call that cannot be converted decides the failure of the whole source.
-/

namespace XhrKeywords

open Syntax

namespace Migration

/-- A converted call. -/
structure Conversion where
  line : Option Nat
  /-- The text of the call in the source. -/
  old : String
  patch : Patch
  deriving DecidableEq, Repr

/-- Whether the source has a parenthesis right behind the name of a call. -/
def hasParens (source : List Char) (call : Node) : Bool :=
  match call.children with
  | _ :: .leaf name :: _ => name.place.stop.any fun stop => (source.drop stop).head? == some '('
  | _ => false

/-- A call is replaced in command style when it is a statement or had no parentheses. -/
def isCommand (source : List Char) (found : Occurrence) : Bool :=
  found.isStatement || !hasParens source found.call

/-- Converts a legacy call. -/
def convert (source : List Char) (found : Occurrence) : Except Failure Conversion := do
  let call := found.call
  let listed ← arguments call
  let text ← ((replacement call listed).print (isCommand source found)).mapError .print
  match call.extent? with
  | none => .error (.refused ⟨.unplaced, text, none⟩)
  | some (start, stop) =>
    let patch ← (Patch.ofSpan start stop text).mapError .patch
    return ⟨call.line?, .ofList (Patch.slice source start stop), patch⟩

/-- Converts calls up to the first one that fails. -/
def convertAll (source : List Char) : List Occurrence → List Conversion × Option Failure
  | [] => ([], none)
  | found :: others =>
    match convert source found with
    | .error failure => ([], some failure)
    | .ok conversion =>
      let (conversions, failure) := convertAll source others
      (conversion :: conversions, failure)

/-- The conversions of a tree, and the new text or why there is none. -/
structure Outcome where
  conversions : List Conversion
  result : Except Failure String

/-- The patches of an outcome, in the order of their calls. -/
def Outcome.patches (o : Outcome) : List Patch := o.conversions.map (·.patch)

/-- Converts the legacy calls of a tree in the source it was read from. -/
def convertTree (source : String) (tree : Node) : Outcome :=
  let (conversions, failure) := convertAll source.toList (occurrences tree)
  match failure with
  | some failure => ⟨conversions, .error failure⟩
  | none =>
    ⟨conversions, (Patch.apply source (conversions.map (·.patch))).mapError .patch⟩

end Migration

/-- Why a source is not converted. -/
inductive MigrationError
  | read (error : ReadError)
  | failed (failure : Migration.Failure)
  deriving DecidableEq, Repr

/-- The report of an error. -/
def MigrationError.message : MigrationError → String
  | read error => error.message
  | failed failure => failure.message

/-- A source with all legacy calls in keyword style. -/
def migrate (source : String) : Except MigrationError String := do
  let tree ← (parse source).mapError .read
  (Migration.convertTree source tree).result.mapError .failed

end XhrKeywords
