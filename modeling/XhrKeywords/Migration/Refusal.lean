import XhrKeywords.Patch
import XhrKeywords.Syntax.Printer

/-!
# Why a conversion fails

A call is refused for a cause of its own; the report shows its line and its text. A conversion
fails as well when a node cannot be printed or when converted calls overlap.
-/

namespace XhrKeywords.Migration

open Syntax

/-- Why a call is not converted. -/
inductive Cause
  /-- The call has keywords already. -/
  | alreadyMigrated
  /-- More arguments than parameters and headers. -/
  | tooManyArguments (count : Nat)
  /-- The verb is no plain symbol or the path is missing. -/
  | noVerbOrPath
  /-- A splat may hold both parameters and headers. -/
  | splattedArgument
  /-- The body of a heredoc lies between the start and the end of the call. -/
  | heredocInside
  /-- The call comes from no source. -/
  | unplaced
  deriving DecidableEq, Repr

/-- The wording of a cause. -/
def Cause.message : Cause → String
  | alreadyMigrated => "Call already uses keyword arguments"
  | tooManyArguments count =>
    s!"Expected at most params and headers, got {count} trailing arguments"
  | noVerbOrPath => "Expected a literal HTTP verb symbol and a path"
  | splattedArgument => "Splatted params or headers cannot be split into keywords"
  | heredocInside => "Heredoc body inside the call would be lost"
  | unplaced => "Matched call has no position in the source"

/-- A refused call. -/
structure Refusal where
  cause : Cause
  /-- The text that the report shows. -/
  text : String
  line : Option Nat
  deriving DecidableEq, Repr

/-- A report with the line and, in a paragraph of its own, the text that it is about. -/
def annotated (report : String) (line : Option Nat) (text : String) : String :=
  let place :=
    match line with
    | some n => s!" (line {n})"
    | none => ""
  report ++ place ++ (if text.isEmpty then "" else ":\n\n    " ++ text)

/-- The report of a refusal. -/
def Refusal.message (r : Refusal) : String :=
  annotated r.cause.message r.line r.text

/-- Why a tree is not converted. -/
inductive Failure
  | refused (refusal : Refusal)
  | print (error : PrintError)
  | patch (error : Patch.Error)
  deriving DecidableEq, Repr

/-- Whether a failure is none that a run reports and goes on from. -/
def Failure.isDefect : Failure → Bool
  | refused _ => false
  | print _ => true
  | patch (.overlap ..) => false
  | patch _ => true

/-- The report of a patch error; an overlap shows the text that would be replaced. -/
def patchReport (e : Patch.Error) : String :=
  match e with
  | .overlap _ _ _ replaced => annotated e.message none replaced
  | _ => e.message

/-- The report of a failure. -/
def Failure.message : Failure → String
  | refused refusal => refusal.message
  | print error => error.message
  | patch error => patchReport error

end XhrKeywords.Migration
