import XhrKeywords.CommandLine.Report

/-!
# Runs

A run converts files one after the other. A file that fails does not keep those behind it from
being converted; the status tells whether one has failed.
-/

namespace XhrKeywords.CommandLine

/-- A run so far. -/
structure Run where
  directory : Directory
  output : String
  log : List Entry
  /-- The number of files that have failed. -/
  failed : Nat
  /-- The failure that has stopped the run. -/
  defect : Option Migration.Failure
  deriving DecidableEq, Repr

/-- The last entry of a run: how many of its files have failed, if any. -/
def summary (failed total : Nat) : List Entry :=
  if failed = 0 then [] else [⟨.error, s!"{failed} of {total} file(s) failed"⟩]

/-- The exit status of a run. -/
def status (failed : Nat) : UInt32 :=
  if failed = 0 then 0 else 1

namespace Run

/-- The run before its first file. -/
def start (directory : Directory) : Run := ⟨directory, "", [], 0, none⟩

/-- The run with the report of one more file. -/
def add (r : Run) (directory : Directory) (report : Report) : Run :=
  { directory
    output := r.output ++ report.output
    log := r.log ++ report.log
    failed := if report.ending = .failed then r.failed + 1 else r.failed
    defect :=
      match report.ending with
      | .stopped failure => some failure
      | _ => none }

/-- Carries out a report: the directory with the octets written, and the settled report. -/
def carryOut (directory : Directory) (path : Path) (report : Report) : Directory × Report :=
  match report.update with
  | none => (directory, report)
  | some octets =>
    match directory.write path octets with
    | .ok written => (written, report.settle path (.ok ()))
    | .error error => (directory, report.settle path (.error error))

/-- Converts one more file, unless the run has been stopped. -/
def visit (o : Options) (r : Run) (path : Path) : Run :=
  if r.defect.isSome then r
  else
    let (directory, report) :=
      carryOut r.directory path (.ofContents o path (r.directory.read path))
    r.add directory report

/-- Converts files. -/
def convert (o : Options) (directory : Directory) (paths : List Path) : Run :=
  let run := paths.foldl (visit o) (start directory)
  { run with log := run.log ++ summary run.failed paths.length }

end Run

end XhrKeywords.CommandLine
