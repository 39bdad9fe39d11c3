import ExperimentSuite.Files.Tree

/-!
# Reading and writing files

A program sees a tree of files from its root. It has a working directory, in
which relative paths start, and a number of its own, which keeps the names of
its unfinished files apart from those of other programs. A write makes the
missing directories, fills an unfinished file beside the path and moves it into
place; one that fails leaves behind what it has done up to then.
-/

namespace ExperimentSuite

/-- The files that a program sees, and what tells it apart from other programs. -/
structure Session where
  root : FileTree
  /-- The names of the working directory from the root. -/
  here : List String
  process : Nat

namespace Session

/-- The directory that a path starts in. -/
def start (s : Session) (path : String) : List String :=
  if Path.isAbsolute path then [] else s.here

/-- Follows pieces of a path, unless the path is refused as a whole. -/
def follow (s : Session) (path : String) (pieces : List String) :
    Except FileProblem (List String) :=
  if path.toList.contains '\x00' then .error .nulInName
  else if FileTree.maxPath < path.utf8ByteSize then .error .nameTooLong
  else s.root.follow (s.start path) pieces

/-- The names of the entry that a path leads to. -/
def locate (s : Session) (path : String) : Except FileProblem (List String) :=
  if path.isEmpty then .error .notFound else s.follow path (Path.pieces path)

/-- The entry that a path leads to. -/
def at? (s : Session) (path : String) : Option FileTree :=
  match s.locate path with
  | .ok names => s.root.node? names
  | .error _ => none

/-- Whether a path leads to a directory. -/
def hasDirectory (s : Session) (path : String) : Bool :=
  (s.at? path).any FileTree.isDirectory

/-- Whether a path leads to a file. -/
def hasFile (s : Session) (path : String) : Bool :=
  (s.at? path).any fun e => !e.isDirectory

/-- The text of the file at a path. -/
def read (s : Session) (path : String) : Except FileProblem String := do
  match s.root.node? (← s.locate path) with
  | some (.file (some text)) => return text
  | some (.file none) => throw .notText
  | some (.directory _) => throw .isDirectory
  | none => throw .notFound

/-- The names in a directory that satisfy a test, in order. -/
def namesIn (s : Session) (path : String) (test : FileTree → Bool) : List String :=
  match s.at? path with
  | some (.directory entries) => (entries.filter fun e => test e.2).map (·.1)
  | _ => []

/-- A path as the directory part and the last name. -/
structure Target where
  directory : List String
  name : String
  /-- Whether a slash follows the name. -/
  slashed : Bool

/-- Splits a path before its last name. -/
def target? (path : String) : Option Target :=
  let kept := ((Path.pieces path).reverse.dropWhile (·.isEmpty)).reverse
  match kept.getLast? with
  | some name => some ⟨kept.dropLast, name, decide (kept.length < (Path.pieces path).length)⟩
  | none => none

/-- The names of the directory in which the target of a path stands. -/
def directoryOf (s : Session) (path : String) (target : Target) :
    Except FileProblem (List String) := do
  let names ← s.follow path target.directory
  match s.root.node? names with
  | some (.directory _) => return names
  | _ => throw .notDirectory

/-- Makes one directory. -/
def makeDirectory (s : Session) (path : String) : Except FileProblem Session := do
  match target? path with
  | none => throw (if path.isEmpty then .notFound else .exists)
  | some target =>
      let names ← s.directoryOf path target
      if [".", ".."].contains target.name then throw .exists
      if FileTree.maxName < target.name.utf8ByteSize then throw .nameTooLong
      if (s.root.node? (names ++ [target.name])).isSome then throw .exists
      return { s with root := s.root.place (names ++ [target.name]) .empty }

/-- Makes a directory and those that are missing above it, at most `fuel` levels. Returns the
session in any case: a directory that was made stays, whether or not the next one can be made. -/
def makeDirectories (fuel : Nat) (path : String) (s : Session) :
    Session × Except FileProblem Unit :=
  match fuel with
  | 0 => (s, .ok ())
  | fuel + 1 =>
      if path.isEmpty || (Path.parent? path).isNone then (s, .ok ())
      else
        match s.makeDirectory path with
        | .ok made => (made, .ok ())
        | .error .notFound =>
            match makeDirectories fuel ((Path.parent? path).getD "") s with
            | (above, .error problem) => (above, .error problem)
            | (above, .ok ()) =>
                match above.makeDirectory path with
                | .ok made => (made, .ok ())
                | .error problem =>
                    (above, if above.hasDirectory path then .ok () else .error problem)
        | .error problem => (s, if s.hasDirectory path then .ok () else .error problem)

/-- The path of the unfinished file beside a path. -/
def unfinished (s : Session) (path : String) : String :=
  Path.withFileName path
    ("." ++ (Path.fileName? path).getD "document" ++ ".tmp." ++ toString s.process)

/-- Creates a file with a text, or fills an earlier one with it instead of what it held. Returns the
names of the file as well. -/
def create (s : Session) (path text : String) : Except FileProblem (List String × Session) := do
  match target? path with
  | none => throw (if path.isEmpty then .notFound else .isDirectory)
  | some target =>
      let names ← s.directoryOf path target
      if [".", ".."].contains target.name || target.slashed then throw .isDirectory
      if FileTree.maxName < target.name.utf8ByteSize then throw .nameTooLong
      match s.root.node? (names ++ [target.name]) with
      | some (.directory _) => throw .isDirectory
      | _ =>
          let names := names ++ [target.name]
          return (names, { s with root := s.root.place names (.file (some text)) })

/-- Moves a file with a text, given by its names, to a path in place of an earlier file. -/
def move (s : Session) (source : List String) (path text : String) :
    Except FileProblem Session := do
  match target? path with
  | none => throw (if path.isEmpty then .notFound else .busy)
  | some target =>
      let names ← s.directoryOf path target
      if [".", ".."].contains target.name then throw .busy
      if FileTree.maxName < target.name.utf8ByteSize then throw .nameTooLong
      if target.slashed then throw .notDirectory
      match s.root.node? (names ++ [target.name]) with
      | some (.directory _) => throw .isDirectory
      | _ =>
          let without := s.root.remove source
          return { s with root := without.place (names ++ [target.name]) (.file (some text)) }

/-- Writes a text to a path: the missing directories are made first, and the text only takes its
place once it is complete. Returns the session in any case, and the problem if there is one. -/
def write (s : Session) (path text : String) : Session × Except FileProblem Unit :=
  let parent := (Path.parent? path).getD ""
  match makeDirectories (Path.pieces parent).length parent s with
  | (made, .error problem) => (made, .error problem)
  | (made, .ok ()) =>
      match made.create (made.unfinished path) text with
      | .error problem => (made, .error problem)
      | .ok (names, created) =>
          match created.move names path text with
          | .error problem => (created, .error problem)
          | .ok moved => (moved, .ok ())

end Session

end ExperimentSuite
