import XhrKeywords.CommandLine.Argument

/-!
# Requests

The arguments of a command line ask for help or for a conversion, or they are misused. The files
stand together: flags may stand in front of them or behind them and not between them. Behind two
dashes everything is a file.
-/

namespace XhrKeywords.CommandLine

/-- How files are converted. -/
structure Options where
  /-- Converted files are written. -/
  write : Bool
  /-- The changes are printed and not the converted text. -/
  diff : Bool
  /-- Every converted call is logged. -/
  verbose : Bool
  deriving DecidableEq, Repr

namespace Options

/-- No flag is set. -/
def plain : Options := ⟨false, false, false⟩

/-- The options with a flag set. -/
def set (o : Options) : Flag → Options
  | .help => o
  | .write => { o with write := true }
  | .diff => { o with diff := true }
  | .verbose => { o with verbose := true }

end Options

/-- What a command line asks for. -/
inductive Request
  | help
  | misuse
  | convert (options : Options) (files : List String)
  deriving DecidableEq, Repr

/-- The arguments read so far. -/
structure Reading where
  options : Options
  files : List String
  /-- A flag stands behind the files, so that no file may follow. -/
  isClosed : Bool
  /-- Something unknown, or files in two places, have been met. -/
  hasExcess : Bool
  deriving DecidableEq, Repr

namespace Reading

/-- No argument has been read. -/
def start : Reading := ⟨.plain, [], false, false⟩

/-- Files at the next place; even none of them are too many when the files are closed. -/
def addFiles (r : Reading) (names : List String) : Reading :=
  if r.isClosed then { r with hasExcess := true } else { r with files := r.files ++ names }

/-- Flags; those behind a file close the files. -/
def addFlags (r : Reading) (flags : List Flag) (isComplete : Bool) : Reading :=
  { options := flags.foldl Options.set r.options
    files := r.files
    isClosed := !r.files.isEmpty
    hasExcess := r.hasExcess || !isComplete }

/-- The request when all arguments have been read. -/
def finish (r : Reading) : Request :=
  if r.hasExcess || r.files.isEmpty then .misuse else .convert r.options r.files

end Reading

namespace Request

/-- Reads on through arguments; `behind` are the files behind two dashes. Help is given and a value
is refused where they are met. -/
def read (behind : Option (List String)) (r : Reading) : List Argument → Request
  | [] => (behind.elim r r.addFiles).finish
  | .file name :: others => read behind (r.addFiles [name]) others
  | .flags known isComplete :: others =>
    if known.contains .help then .help else read behind (r.addFlags known isComplete) others
  | .withValue :: _ => .misuse
  | .ambiguous :: _ => .misuse

/-- The request of a command line. An ambiguous name is refused before anything else. -/
def ofArguments (texts : List String) : Request :=
  let arguments := (texts.takeWhile (· ≠ "--")).map Argument.ofString
  if arguments.contains .ambiguous then .misuse
  else read (texts.dropWhile (· ≠ "--")).tail? .start arguments

end Request

end XhrKeywords.CommandLine
