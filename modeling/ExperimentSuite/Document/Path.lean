import ExperimentSuite.Document.Basic

/-!
# Key paths

A key path names a place in a document by the keys on the way to it. Paths only
descend through mappings: lists, scalars and empty mappings are leaves. The
operations read, write, replace and remove at a path; a write creates the
mappings that are missing on the way and fails, leaving nothing behind, where
a value that is no mapping stands in the way.
-/

namespace ExperimentSuite

/-- The keys from the root of a document to a place in it. -/
abbrev KeyPath := List String

namespace KeyPath

/-- The text of a path: its keys joined by dots, the root in angle brackets. -/
def format : KeyPath → String
  | [] => "<root>"
  | path => ".".intercalate path

/-- The path of a dotted text; an empty text is the path of one empty key. -/
def ofDotted (text : String) : KeyPath :=
  text.splitOn "."

end KeyPath

namespace Document

mutual

/-- The paths from a node to the leaves at or below it. -/
def leafPathsBelow : Document → List KeyPath
  | .map (field :: rest) => leafPathsIn (field :: rest)
  | _ => [[]]

/-- The leaf paths through a list of fields, in key order. -/
def leafPathsIn : List (String × Document) → List KeyPath
  | [] => []
  | (key, value) :: rest => (leafPathsBelow value).map (key :: ·) ++ leafPathsIn rest

end

/-- All leaf paths of a mapping; any other document has none. -/
def leafPaths : Document → List KeyPath
  | .map fields => leafPathsIn fields
  | _ => []

/-- Where a walk over a document stands, and the leaf paths that it has found. -/
structure LeafWalk where
  path : KeyPath
  found : List KeyPath

mutual

/-- Walks over the leaves at or below where the walk stands. -/
def LeafWalk.visit (walk : LeafWalk) : Document → LeafWalk
  | .map (field :: rest) => walk.visitFields (field :: rest)
  | _ => { walk with found := walk.found ++ [walk.path] }

/-- Enters one field after the other and leaves it again. -/
def LeafWalk.visitFields (walk : LeafWalk) : List (String × Document) → LeafWalk
  | [] => walk
  | (key, value) :: rest =>
      let below := LeafWalk.visit { walk with path := walk.path ++ [key] } value
      LeafWalk.visitFields { below with path := below.path.dropLast } rest

end

/-- The value at a path. -/
def get? : Document → KeyPath → Option Document
  | d, [] => some d
  | .map fields, key :: rest => (Keyed.find? key fields).bind (get? · rest)
  | _, _ :: _ => none

/-- Whether a path exists, or a value that is no mapping stands on the way to it and would have to
be replaced to create it. -/
def isOccupied : Document → KeyPath → Bool
  | _, [] => true
  | .map fields, key :: rest =>
      match Keyed.find? key fields with
      | some child => isOccupied child rest
      | none => false
  | _, _ :: _ => true

/-- Where a value that is no mapping blocks a write. -/
inductive Blocked where
  /-- On the way, at the place where this key should be entered. -/
  | passing (key : String)
  /-- At the parent of the target. -/
  | target
deriving DecidableEq

namespace Blocked

/-- The wording of a blocked write to a path. -/
def message (path : KeyPath) : Blocked → String
  | .passing key => "path traversal hit non-mapping at '" ++ key ++ "' in " ++ KeyPath.format path
  | .target => "path target parent is not a mapping for " ++ KeyPath.format path

end Blocked

/-- Writes a value at a path, creating missing mappings on the way. -/
def set : Document → KeyPath → Document → Except Blocked Document
  | _, [], value => .ok value
  | .map fields, key :: rest, value => do
      let child ← set ((Keyed.find? key fields).getD .empty) rest value
      return .map (Keyed.insert key child fields)
  | _, [_], _ => .error .target
  | _, key :: _ :: _, _ => .error (.passing key)

/-- The write as a walk over a document that is changed in place: the document afterwards, and where
the walk was blocked. A mapping entered on the way stays in its parent, however the walk ends. -/
def setInPlace : Document → KeyPath → Document → Document × Option Blocked
  | _, [], value => (value, none)
  | .map fields, key :: rest, value =>
      let entered := (Keyed.find? key fields).getD .empty
      let (child, blocked) := setInPlace entered rest value
      (.map (Keyed.insert key child fields), blocked)
  | d, [_], _ => (d, some .target)
  | d, key :: _ :: _, _ => (d, some (.passing key))

/-- Writes a value at a path that exists. -/
def replace? : Document → KeyPath → Document → Option Document
  | _, [], value => some value
  | .map fields, key :: rest, value => do
      let child ← Keyed.find? key fields
      let child ← replace? child rest value
      return .map (Keyed.insert key child fields)
  | _, _ :: _, _ => none

/-- Takes the field at a path out of its mapping and returns it with what is left. -/
def remove? : Document → KeyPath → Option (Document × Document)
  | _, [] => none
  | .map fields, [key] => do
      let taken ← Keyed.find? key fields
      return (taken, .map (Keyed.erase key fields))
  | .map fields, key :: rest => do
      let child ← Keyed.find? key fields
      let (taken, child) ← remove? child rest
      return (taken, .map (Keyed.insert key child fields))
  | _, _ :: _ => none

end Document

end ExperimentSuite
