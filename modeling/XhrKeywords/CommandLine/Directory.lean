import XhrKeywords.CommandLine.Path
import XhrKeywords.Text.Quoted

/-!
# Directories

The files and folders of a system, and the accesses to them that it refuses. A path is walked name
by name, from the top or from the working directory; two dots lead to the folder above, and from
the top to the top. A refused access leaves everything as it is: a file is opened for writing
before its octets go.
-/

namespace XhrKeywords

/-- Why a file cannot be read or written. -/
inductive AccessError
  | noSuchFile
  | permissionDenied
  | notADirectory
  | isADirectory
  /-- Another error of the system. -/
  | other (code : Nat) (description : String)
  deriving DecidableEq, Repr

namespace AccessError

/-- The number of an error. -/
def code : AccessError → Nat
  | noSuchFile => 2
  | permissionDenied => 13
  | notADirectory => 20
  | isADirectory => 21
  | other code _ => code

/-- The wording of an error. -/
def description : AccessError → String
  | noSuchFile => "No such file or directory"
  | permissionDenied => "Permission denied"
  | notADirectory => "Not a directory"
  | isADirectory => "Is a directory"
  | other _ description => description

/-- The report of an error at a path. -/
def message (e : AccessError) (path : Path) : String :=
  s!"[Errno {e.code}] " ++ e.description ++ ": " ++ Text.quoted path.text

end AccessError

/-- What is asked of the system at a file or a folder. -/
inductive Access
  | read
  | write
  /-- Going through a folder, to a file in it or to the folder above. -/
  | search
  deriving DecidableEq, Repr

/-- Files and folders by the names that lead to them from the top. -/
structure Directory where
  /-- The names that lead to the working directory. -/
  here : List String
  folders : List (List String)
  files : List (List String × List UInt8)
  /-- What the system refuses; it grants all else. -/
  refusals : List ((List String × Access) × AccessError)
  deriving DecidableEq, Repr

namespace Directory

/-- A working directory without files and folders. -/
def empty : Directory := ⟨["home"], [[], ["home"]], [], []⟩

/-- Fails if the system refuses an access. -/
def permit (d : Directory) (access : Access) (names : List String) : Except AccessError Unit :=
  match d.refusals.lookup (names, access) with
  | some error => .error error
  | none => .ok ()

/-- A place that a walk can reach. -/
inductive Place
  | folder (names : List String)
  | file (names : List String)
  deriving DecidableEq, Repr

/-- The place that a name leads to. -/
def step (d : Directory) (place : Place) (name : String) : Except AccessError Place :=
  match place with
  | .file _ => .error .notADirectory
  | .folder names => do
    d.permit .search names
    if name = ".." then return .folder names.dropLast
    else if (d.files.lookup (names ++ [name])).isSome then return .file (names ++ [name])
    else if d.folders.contains (names ++ [name]) then return .folder (names ++ [name])
    else throw .noSuchFile

/-- The place of a path. -/
def locate (d : Directory) (path : Path) : Except AccessError Place :=
  path.names.foldlM d.step (.folder (if path.root = .here then d.here else []))

/-- The names that lead to the file of a path. -/
def fileAt (d : Directory) (path : Path) : Except AccessError (List String) := do
  match ← d.locate path with
  | .file names => return names
  | .folder names =>
    d.permit .read names
    throw .isADirectory

/-- The names that lead to the file of a path to which an access is granted. -/
def grant (d : Directory) (access : Access) (path : Path) : Except AccessError (List String) := do
  let names ← d.fileAt path
  d.permit access names
  return names

/-- The octets of the file of a path. -/
def read (d : Directory) (path : Path) : Except AccessError (List UInt8) := do
  return (d.files.lookup (← d.grant .read path)).getD []

/-- The directory with new octets for a file. -/
def replace (d : Directory) (names : List String) (octets : List UInt8) : Directory :=
  { d with files := d.files.map fun file => if file.1 = names then (names, octets) else file }

/-- The directory with new octets for the file of a path. -/
def write (d : Directory) (path : Path) (octets : List UInt8) : Except AccessError Directory := do
  return d.replace (← d.grant .write path) octets

/-- The directory with a folder of the working directory and those that it is in. -/
def addFolder (d : Directory) (names : List String) : Directory :=
  let names := d.here ++ names
  { d with folders := (List.range (names.length + 1)).map names.take ++ d.folders }

/-- The directory with one more file of the working directory and the folders that it is in. -/
def addFile (d : Directory) (names : List String) (octets : List UInt8) : Directory :=
  let folded := d.addFolder names.dropLast
  { folded with files := (d.here ++ names, octets) :: folded.files }

end Directory

end XhrKeywords
