import XhrKeywords.CommandLine.Run

/-!
# The program

The command line on the files of the system: what is asked for, what a file is converted to and
what is logged is decided by the definitions of runs; here files are read and written and texts are
printed.
-/

namespace XhrKeywords.CommandLine

/-- What the program is for and how it is called. -/
def usage : String :=
  "usage: xhr-keywords [-h] [-w] [--diff] [-v] FILE [FILE ...]\n\n"
    ++ "Convert legacy xhr test calls to keyword style.\n\n"
    ++ "  -h, --help     show this text\n"
    ++ "  -w, --write    write changes back to the files\n"
    ++ "  --diff         print a unified diff instead of the converted source\n"
    ++ "  -v, --verbose  log every converted call\n"

/-- The number and the wording of an error of the system. -/
def describe : IO.Error → UInt32 × String
  | .alreadyExists _ code text => (code, text)
  | .otherError code text => (code, text)
  | .resourceBusy code text => (code, text)
  | .resourceVanished code text => (code, text)
  | .unsupportedOperation code text => (code, text)
  | .hardwareFault code text => (code, text)
  | .unsatisfiedConstraints code text => (code, text)
  | .illegalOperation code text => (code, text)
  | .protocolError code text => (code, text)
  | .timeExpired code text => (code, text)
  | .interrupted _ code text => (code, text)
  | .noFileOrDirectory _ code text => (code, text)
  | .invalidArgument _ code text => (code, text)
  | .permissionDenied _ code text => (code, text)
  | .resourceExhausted _ code text => (code, text)
  | .inappropriateType _ code text => (code, text)
  | .noSuchThing _ code text => (code, text)
  | .unexpectedEof => (0, "unexpected end of file")
  | .userError text => (0, text)

/-- The access error for an error of the system. -/
def accessError (error : IO.Error) : AccessError :=
  let (code, text) := describe error
  if code.toNat = AccessError.noSuchFile.code then .noSuchFile
  else if code.toNat = AccessError.permissionDenied.code then .permissionDenied
  else if code.toNat = AccessError.notADirectory.code then .notADirectory
  else if code.toNat = AccessError.isADirectory.code then .isADirectory
  else .other code.toNat text

/-- Carries out an access to a file. -/
def attempt {α : Type} (access : IO α) : IO (Except AccessError α) := do
  try
    return .ok (← access)
  catch error =>
    return .error (accessError error)

/-- The octets of a file. -/
def octetsOf (path : Path) : IO (List UInt8) := do
  let handle ← IO.FS.Handle.mk path.text .read
  return (← handle.readBinToEnd).toList

/-- Converts one file. -/
def convertFile (o : Options) (path : Path) : IO Ending := do
  let report := Report.ofContents o path (← attempt (octetsOf path))
  (← IO.getStdout).putStr report.output
  let settled ←
    match report.update with
    | none => pure report
    | some octets =>
      pure (report.settle path (← attempt (IO.FS.writeBinFile path.text ⟨octets.toArray⟩)))
  (← IO.getStderr).putStr (logText o.verbose settled.log)
  return settled.ending

/-- Converts files and gives the status to exit with. -/
def convertFiles (o : Options) (paths : List Path) : IO UInt32 := do
  let mut failed := 0
  for path in paths do
    match ← convertFile o path with
    | .converted => pure ()
    | .failed => failed := failed + 1
    | .stopped failure =>
      (← IO.getStderr).putStr (failure.message ++ "\n")
      return 1
  (← IO.getStderr).putStr (logText o.verbose (summary failed paths.length))
  return status failed

end XhrKeywords.CommandLine

open XhrKeywords CommandLine in
/-- The program. -/
def main (args : List String) : IO UInt32 := do
  match Request.ofArguments args with
  | .help =>
    (← IO.getStdout).putStr usage
    return 0
  | .misuse =>
    (← IO.getStderr).putStr usage
    return 2
  | .convert options files => convertFiles options (files.map Path.ofString)
