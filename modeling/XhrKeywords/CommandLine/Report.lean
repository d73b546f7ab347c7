import XhrKeywords.CommandLine.Directory
import XhrKeywords.CommandLine.Log
import XhrKeywords.CommandLine.Request
import XhrKeywords.Diff.Unified
import XhrKeywords.Migration.Conversion
import XhrKeywords.Text.Utf8

/-!
# The report of a file

What a run prints and logs for one file, and the octets that it is to write. All of it is decided
by the path, the octets of the file and the options. A file that cannot be converted prints and
writes nothing. A write that is refused comes too late for that: the diff has been printed.
-/

namespace XhrKeywords.CommandLine

/-- Why a file fails. -/
inductive FileError
  | access (error : AccessError)
  | encoding (error : Utf8.Error)
  | migration (error : MigrationError)
  deriving DecidableEq, Repr

namespace FileError

/-- The report of an error at a path. -/
def message (e : FileError) (path : Path) : String :=
  match e with
  | access error => error.message path
  | encoding error => error.message
  | migration error => error.message

/-- The failure that stops the whole run, if it is one. -/
def defect? : FileError → Option Migration.Failure
  | migration (.failed failure) => if failure.isDefect then some failure else none
  | _ => none

end FileError

/-- How a file ends. -/
inductive Ending
  | converted
  | failed
  /-- The whole run stops. -/
  | stopped (failure : Migration.Failure)
  deriving DecidableEq, Repr

/-- What is to be done for a file. -/
structure Report where
  output : String
  log : List Entry
  /-- The octets to write, if any. -/
  update : Option (List UInt8)
  ending : Ending
  deriving DecidableEq, Repr

/-- The entry for a converted call. -/
def conversionEntry (c : Migration.Conversion) : Entry :=
  let place :=
    match c.line with
    | some n => s!"line {n}"
    | none => "no line"
  ⟨.debug, place ++ ": " ++ Text.quoted c.old ++ " -> " ++ Text.quoted c.patch.text⟩

/-- Converts a source, with the entries that this logs. -/
def trace (path : Path) (source : String) : List Entry × Except MigrationError String :=
  match Token.tokenize source with
  | .error error => ([], .error (.read (.lex error)))
  | .ok tokens =>
    let counted : Entry := ⟨.debug, path.text ++ s!": {tokens.length} tokens"⟩
    match Grammar.parseTokens tokens with
    | .error error => ([counted], .error (.read (.grammar error)))
    | .ok tree =>
      let outcome := Migration.convertTree source tree
      (counted :: outcome.conversions.map conversionEntry, outcome.result.mapError .failed)

namespace Report

/-- The report of a file that fails after some entries. -/
def ofError (path : Path) (log : List Entry) (e : FileError) : Report :=
  match e.defect? with
  | some failure => ⟨"", log, none, .stopped failure⟩
  | none => ⟨"", log ++ [⟨.error, path.text ++ ": " ++ e.message path⟩], none, .failed⟩

/-- What is printed for a converted source. -/
def printed (o : Options) (path : Path) (old new : String) : String :=
  if o.diff then Diff.unified ("a/" ++ path.text) ("b/" ++ path.text) old new
  else if o.write then ""
  else new

/-- The report of a converted source. -/
def ofConverted (o : Options) (path : Path) (log : List Entry) (old new : String) : Report :=
  let output := printed o path old new
  if !o.write then ⟨output, log, none, .converted⟩
  else if new = old then
    ⟨output, log ++ [⟨.debug, path.text ++ ": unchanged"⟩], none, .converted⟩
  else ⟨output, log, some (Utf8.encode new), .converted⟩

/-- The report of a source. -/
def ofSource (o : Options) (path : Path) (source : String) : Report :=
  match trace path source with
  | (log, .error error) => ofError path log (.migration error)
  | (log, .ok new) => ofConverted o path log source new

/-- The report of the octets that reading a file gives. -/
def ofContents (o : Options) (path : Path) : Except AccessError (List UInt8) → Report
  | .error error => ofError path [] (.access error)
  | .ok octets =>
    match Utf8.decode octets with
    | .error error => ofError path [] (.encoding error)
    | .ok source => ofSource o path source

/-- The report after its octets have been written or have not been. -/
def settle (r : Report) (path : Path) (written : Except AccessError Unit) : Report :=
  match r.update, written with
  | none, _ => r
  | some _, .ok () => { r with log := r.log ++ [⟨.info, path.text ++ ": updated"⟩] }
  | some _, .error error =>
    { r with
      log := r.log ++ [⟨.error, path.text ++ ": " ++ error.message path⟩], ending := .failed }

end Report

end XhrKeywords.CommandLine
