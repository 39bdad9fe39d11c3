import ExperimentSuite.CommandLine.Run
import ExperimentSuite.Text.Utf8

/-!
# The program

Reads the files below the working directory and those that an argument leads to,
runs what the arguments ask for and writes what has changed. Everything else is
decided by pure functions.
-/

namespace ExperimentSuite

namespace CommandLine

/-- The deepest level of directories that is read. -/
def depthLimit : Nat := 64

/-- The file or directory of an entry. -/
def readEntry (depth : Nat) (e : IO.FS.DirEntry) : IO (String × FileTree) := do
  if ← e.path.isDir then
    match depth with
    | 0 => return (e.fileName, .empty)
    | depth + 1 =>
        let entries ← (← e.path.readDir).toList.mapM (readEntry depth)
        return (e.fileName, .directory (Keyed.ofList entries))
  else
    let bytes ← IO.FS.readBinFile e.path
    return (e.fileName, .file ((Text.decodeUtf8? bytes.toList).map String.ofList))

/-- The path from the root of a row of names. -/
def pathOf (names : List String) : String := "/" ++ "/".intercalate names

/-- What stands at the end of a row of names; of a directory only that it is one unless it is to be
read as a whole. -/
def readNode? (whole : Bool) (names : List String) : IO (Option FileTree) := do
  let path ← IO.FS.realPath (pathOf names)
  if ← path.isDir then
    if !whole then return some .empty
    let entries ← (← path.readDir).toList.mapM (readEntry depthLimit)
    return some (.directory (Keyed.ofList entries))
  else if ← path.pathExists then
    let bytes ← IO.FS.readBinFile path
    return some (.file ((Text.decodeUtf8? bytes.toList).map String.ofList))
  else return none

/-- A tree with what stands at the end of a row of names, and on the way there. -/
def readAlong (root : FileTree) (names : List String) : IO FileTree :=
  (List.range (names.length + 1)).foldlM (fun root n => do
    let front := names.take n
    if (root.node? front).isSome then return root
    match ← readNode? (n == names.length) front with
    | some node => return root.place front node
    | none => return root) root

/-- The names that a path leads to from a directory. -/
def namesOf (here : List String) (path : String) : List String :=
  (Path.pieces path).foldl (fun names piece =>
    if piece.isEmpty || piece == "." then names
    else if piece == ".." then names.dropLast
    else names ++ [piece]) (if Path.isAbsolute path then [] else here)

/-- The number of the process. -/
def readProcess : IO Nat := do
  let status ← IO.FS.readFile "/proc/self/stat"
  return (String.ofList (status.toList.takeWhile Char.isDigit)).toNat!

/-- The files below the working directory, and those that texts lead to as paths. -/
def readSession (texts : List String) : IO Session := do
  let here := namesOf [] (toString (← IO.currentDir))
  let root ← readAlong .empty here
  let paths := texts.map (namesOf here) |>.filter fun names => !here.isPrefixOf names
  return ⟨← paths.foldlM readAlong root, here, ← readProcess⟩

/-- Makes the changes between two trees. -/
def writeChanges (before after : FileTree) : IO Unit := do
  for path in before.goneSince "/" after do
    IO.FS.removeFile path
  for (path, content) in before.newSince "/" after do
    match content with
    | some text => IO.FS.writeFile path text
    | none => IO.FS.createDirAll path

end CommandLine

end ExperimentSuite

open ExperimentSuite CommandLine in
/-- Runs the program. -/
def main (arguments : List String) : IO UInt32 := do
  let environment : Environment :=
    ⟨← IO.getEnv "DOES_CONFIG_DIR", ← IO.getEnv "DOES_PROJECT_ID"⟩
  let values := arguments.map fun a => String.ofList ((a.toList.dropWhile (· != '=')).drop 1)
  let session ← readSession (environment.configDir.toList ++ arguments ++ values)
  let outcome := run environment session arguments
  writeChanges session.root outcome.session.root
  (← IO.getStdout).putStr outcome.out
  (← IO.getStderr).putStr outcome.err
  return UInt32.ofNat outcome.exitCode
