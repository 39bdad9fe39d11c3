import ExperimentSuite.Files.Path
import ExperimentSuite.Keyed

/-!
# Trees of files

A tree of directories and files stands for a file system, so what an operation
leaves behind is a value like any other. There are no links in a tree and nobody
is denied access to a part of it.
-/

namespace ExperimentSuite

/-- A file or a directory. The content of a file is nothing when it is no text. -/
inductive FileTree where
  | file (content : Option String)
  | directory (entries : List (String × FileTree))

namespace FileTree

/-- The tree without any file. -/
def empty : FileTree := .directory []

/-- Whether a tree is a directory. -/
def isDirectory : FileTree → Bool
  | .directory _ => true
  | .file _ => false

/-- The entry at the end of a row of names. -/
def node? : FileTree → List String → Option FileTree
  | t, [] => some t
  | .directory entries, name :: rest => (Keyed.find? name entries).bind (node? · rest)
  | .file _, _ :: _ => none

/-- The tree with an entry at the end of a row of names whose directories exist. -/
def place (t : FileTree) : List String → FileTree → FileTree
  | [], new => new
  | name :: rest, new =>
      match t with
      | .directory entries =>
          let child := (Keyed.find? name entries).getD empty
          .directory (Keyed.insert name (place child rest new) entries)
      | .file content => .file content

/-- The tree without the entry at the end of a row of names. -/
def remove (t : FileTree) : List String → FileTree
  | [] => t
  | name :: rest =>
      match t with
      | .directory entries =>
          if rest.isEmpty then .directory (entries.filter fun e => e.1 != name)
          else
            match Keyed.find? name entries with
            | some child => .directory (Keyed.insert name (remove child rest) entries)
            | none => .directory entries
      | .file content => .file content

/-- The longest name in bytes. -/
def maxName : Nat := 255

/-- The longest path in bytes. -/
def maxPath : Nat := 4095

/-- Follows pieces of a path from a directory, given by its names from the root. -/
def follow (t : FileTree) : List String → List String → Except FileProblem (List String)
  | here, [] => .ok here
  | here, piece :: rest =>
      match t.node? here with
      | some (.directory _) =>
          if piece.isEmpty || piece == "." then follow t here rest
          else if piece == ".." then follow t here.dropLast rest
          else if maxName < piece.utf8ByteSize then .error .nameTooLong
          else if (t.node? (here ++ [piece])).isNone then .error .notFound
          else follow t (here ++ [piece]) rest
      | some (.file _) => .error .notDirectory
      | none => .error .notFound

mutual

/-- The entries at or below a place, by their path: the content of a file, nothing for a
directory. -/
def entriesAt (path : String) : FileTree → List (String × Option (Option String))
  | .file content => [(path, some content)]
  | .directory entries => (path, none) :: entriesBelow path entries

/-- The entries in entries of a directory. -/
def entriesBelow (path : String) :
    List (String × FileTree) → List (String × Option (Option String))
  | [] => []
  | (name, t) :: rest => entriesAt (Path.join path name) t ++ entriesBelow path rest

end

/-- The directories, and the files with a text, that a tree holds below a path and an earlier tree
does not hold in the same way. -/
def newSince (path : String) (before after : FileTree) : List (String × Option String) :=
  let known := before.entriesAt path
  (after.entriesAt path).filterMap fun e =>
    if known.contains e then none
    else
      match e.2 with
      | none => some (e.1, none)
      | some content => content.map fun text => (e.1, some text)

/-- The paths that a tree does not hold any more. -/
def goneSince (path : String) (before after : FileTree) : List String :=
  let kept := (after.entriesAt path).map (·.1)
  ((before.entriesAt path).map (·.1)).filter fun name => !kept.contains name

end FileTree

end ExperimentSuite
