/-!
# Paths as text

A path is a text whose names are separated by slashes. Empty names and single
dots inside a path do not count, except that a dot at the start counts as a name
of its own kind. The functions here only look at the text; what a path leads to
is a question to the tree of files. Where it leads nowhere, the operating system
has words for the cause.
-/

namespace ExperimentSuite

namespace Path

/-- The pieces between slashes; a path that starts at the root starts with an empty piece. -/
def pieces (path : String) : List String :=
  (path.toList.splitOn '/').map String.ofList

/-- Drops the trailing pieces that do not count; the first piece always stays. -/
def dropIdle (pieces : List String) : List String :=
  match pieces with
  | [] => []
  | first :: rest =>
      first :: (rest.reverse.dropWhile fun p => p.isEmpty || p == ".").reverse

/-- The text of pieces; the empty piece alone is the root when it stands for one. -/
def ofPieces (atRoot : Bool) : List String → String
  | [""] => if atRoot then "/" else ""
  | ps => "/".intercalate ps

/-- Whether a path starts at the root. -/
def isAbsolute (path : String) : Bool :=
  path.toList.head? = some '/'

/-- The name at the end of a path, unless the path ends in dots or at the root. -/
def fileName? (path : String) : Option String :=
  match dropIdle (pieces path) with
  | [p] => if ["", ".", ".."].contains p then none else some p
  | ps =>
      match ps.getLast? with
      | some p => if p == ".." then none else some p
      | none => none

/-- The path without its last name; the root and the empty path have none. -/
def parent? (path : String) : Option String :=
  match dropIdle (pieces path) with
  | [] => none
  | [p] => if p.isEmpty then none else some ""
  | ps => some (ofPieces (isAbsolute path) (dropIdle ps.dropLast))

/-- A path extended by another one; a path from the root replaces it. -/
def join (base path : String) : String :=
  if isAbsolute path || base.isEmpty then path
  else if base.toList.getLast? = some '/' then base ++ path
  else base ++ "/" ++ path

/-- A path with another name at its end. -/
def withFileName (path name : String) : String :=
  match fileName? path with
  | some _ => join ((parent? path).getD "") name
  | none => join path name

/-- A name split at its last dot; a leading dot does not split. -/
def splitName (name : String) : String × Option String :=
  let chars := name.toList
  let after := (chars.reverse.takeWhile (· != '.')).reverse
  let before := chars.take (chars.length - after.length - 1)
  if after.length = chars.length ∨ before.isEmpty ∨ name = ".." then (name, none)
  else (String.ofList before, some (String.ofList after))

/-- The name at the end of a path up to its last dot. -/
def stem? (path : String) : Option String :=
  (fileName? path).map fun name => (splitName name).1

/-- What follows the last dot of the name at the end of a path. -/
def extension? (path : String) : Option String :=
  (fileName? path).bind fun name => (splitName name).2

/-- The path of a suite's own output next to a path that several suites share. -/
def forSuite (base suite : String) : String :=
  let stem := (stem? base).getD "runs"
  withFileName base <|
    match extension? base with
    | some extension => stem ++ "_" ++ suite ++ "." ++ extension
    | none => stem ++ "_" ++ suite

end Path

/-- Why a file operation fails. -/
inductive FileProblem where
  | notFound
  | notDirectory
  | isDirectory
  | exists
  | busy
  | nameTooLong
  | nulInName
  | notText
  /-- The directory of the host types is missing. -/
  | noHostTypes
  /-- The directory of the designs is missing. -/
  | noDesigns
deriving DecidableEq

/-- The wording of a problem. -/
def FileProblem.message : FileProblem → String
  | .notFound => "No such file or directory (os error 2)"
  | .notDirectory => "Not a directory (os error 20)"
  | .isDirectory => "Is a directory (os error 21)"
  | .exists => "File exists (os error 17)"
  | .busy => "Device or resource busy (os error 16)"
  | .nameTooLong => "File name too long (os error 36)"
  | .nulInName => "file name contained an unexpected NUL byte"
  | .notText => "stream did not contain valid UTF-8"
  | .noHostTypes => "group vars directory not found"
  | .noDesigns => "designs directory not found"

end ExperimentSuite
