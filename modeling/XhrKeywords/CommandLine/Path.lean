/-!
# Paths

A path is kept as its root and the names behind it. Empty names and single dots name nothing and
are dropped; two dots name the folder above and are kept.
-/

namespace XhrKeywords

/-- Where a path starts. -/
inductive Root
  /-- In the working directory. -/
  | here
  /-- At the top of the file system. -/
  | top
  /-- At a place that two slashes stand for. -/
  | doubled
  deriving DecidableEq, Repr

/-- The slashes of a root. -/
def Root.text : Root → String
  | here => ""
  | top => "/"
  | doubled => "//"

/-- The root that a number of slashes stands for. -/
def Root.ofSlashes : Nat → Root
  | 0 => here
  | 2 => doubled
  | _ => top

/-- A root and names. -/
structure Path where
  root : Root
  names : List String
  deriving DecidableEq, Repr

namespace Path

/-- Whether a name counts. -/
def isName (name : String) : Bool :=
  name != "" && name != "."

/-- The stretches of a text between slashes, the first one starting with the given characters, last
one first. -/
def stretches (first : List Char) : List Char → List String
  | [] => [.ofList first.reverse]
  | c :: rest =>
    if c = '/' then .ofList first.reverse :: stretches [] rest else stretches (c :: first) rest

/-- Reads a path. -/
def ofString (text : String) : Path :=
  ⟨.ofSlashes (text.toList.takeWhile (· = '/')).length, (stretches [] text.toList).filter isName⟩

/-- The text of a path; the working directory itself is a dot. -/
def text (path : Path) : String :=
  let shown := path.root.text ++ "/".intercalate path.names
  if shown.isEmpty then "." else shown

end Path

end XhrKeywords
