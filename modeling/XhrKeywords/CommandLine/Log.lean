/-!
# Log

A run logs what it does and what fails, one entry after the other. The finest entries are shown
on request only.
-/

namespace XhrKeywords.CommandLine

/-- How important an entry is. -/
inductive Level
  | debug
  | info
  | error
  deriving DecidableEq, Repr

/-- The name of a level. -/
def Level.name : Level → String
  | debug => "DEBUG"
  | info => "INFO"
  | error => "ERROR"

/-- An entry of the log. -/
structure Entry where
  level : Level
  message : String
  deriving DecidableEq, Repr

namespace Entry

/-- Whether an entry is shown. -/
def isShown (verbose : Bool) (e : Entry) : Bool :=
  verbose || e.level != .debug

/-- The line of an entry. -/
def line (e : Entry) : String :=
  e.level.name ++ ": " ++ e.message ++ "\n"

end Entry

/-- The text of a log. -/
def logText (verbose : Bool) (entries : List Entry) : String :=
  String.join ((entries.filter (·.isShown verbose)).map (·.line))

end XhrKeywords.CommandLine
