import ExperimentSuite.Failure
import ExperimentSuite.Inclusion.Absorb

/-!
# Inclusion markers

A marker names one or more variable files; the mapping that holds the marker
absorbs their contents in order and loses the marker. A file may bring in new
markers, so each round looks at the document afresh and replaces one marker,
the first in leaf order, until none is left or too many rounds have passed.
-/

namespace ExperimentSuite

namespace Inclusion

mutual

/-- The first marker key inside a list; a list counts the positions of its items as keys. -/
def markerInList? (inList : Bool) (path : KeyPath) : Document → Option KeyPath
  | .map fields => markerInFields? inList path fields
  | .list items => markerInItems? path 0 items
  | _ => none

/-- The first marker key inside a list, at or below the given fields. -/
def markerInFields? (inList : Bool) (path : KeyPath) : List (String × Document) → Option KeyPath
  | [] => none
  | (key, d) :: rest =>
      if inList && key == Vocabulary.inclusion then some (path ++ [key])
      else
        match markerInList? inList (path ++ [key]) d with
        | some found => some found
        | none => markerInFields? inList path rest

/-- The first marker key at or below the given items. -/
def markerInItems? (path : KeyPath) (index : Nat) : List Document → Option KeyPath
  | [] => none
  | d :: rest =>
      match markerInList? true (path ++ [toString index]) d with
      | some found => some found
      | none => markerInItems? path (index + 1) rest

end

/-- The first marker among leaf paths: a path that ends in one. -/
def marker? (paths : List KeyPath) : Option KeyPath :=
  paths.find? fun path => path.getLast? = some Vocabulary.inclusion

/-- The first leaf path that passes through a marker. -/
def throughMarker? (paths : List KeyPath) : Option KeyPath :=
  paths.find? fun path => path.dropLast.contains Vocabulary.inclusion

/-- The next marker to replace, if the markers of a document are where they may be. -/
def nextMarker (target : Document) : Except InclusionProblem (Option KeyPath) :=
  match markerInList? false [] target with
  | some path => .error (.insideList path)
  | none =>
      let paths := target.leafPaths
      match throughMarker? paths with
      | some path => .error (.holdsMapping path)
      | none => .ok (marker? paths)

/-- The files that a marker names. -/
def fileNames (marker : KeyPath) : Document → Except InclusionProblem (List String)
  | .str file => .ok [file]
  | .list items =>
      items.mapM fun item =>
        match item with
        | .str file => .ok file
        | _ => .error (.listContent marker)
  | _ => .error (.content marker)

/-- Lets the mapping at a path absorb the contents of files in order. -/
def absorbFiles (load : String → Except Failure Document) (parent : KeyPath) :
    List String → Document → Except Failure (Document × InclusionReport)
  | [], target => .ok (target, .empty)
  | file :: rest, target => do
      let content ← load file
      match target.get? parent with
      | none => throw (.inclusion (.placeMissing parent))
      | some place => do
          let (place, report) ← (place.absorb content).mapError Failure.inclusion
          match target.replace? parent place with
          | none => throw (.inclusion (.placeMissing parent))
          | some target => do
              let (target, others) ← absorbFiles load parent rest target
              return (target, report.append others)

/-- Replaces one marker by the contents of the files it names. -/
def replaceMarker (load : String → Except Failure Document) (marker : KeyPath)
    (target : Document) : Except Failure (Document × InclusionReport) := do
  let (raw, target) := (target.remove? marker).getD (.null, target)
  let files ← (fileNames marker raw).mapError Failure.inclusion
  absorbFiles load marker.dropLast files target

/-- Replaces markers until none is left; at most `rounds` of them. -/
def resolveRounds (load : String → Except Failure Document) (rounds : Nat) (target : Document) :
    Except Failure (Document × InclusionReport) := do
  match ← (nextMarker target).mapError Failure.inclusion with
  | none => return (target, .empty)
  | some marker =>
      match rounds with
      | 0 => throw (.inclusion (.tooManyRounds marker))
      | rounds + 1 => do
          let (target, report) ← replaceMarker load marker target
          let (target, others) ← resolveRounds load rounds target
          return (target, report.append others)

/-- Replaces every marker of a document by the contents of the files it names. -/
def resolve (load : String → Except Failure Document) (target : Document) :
    Except Failure (Document × InclusionReport) :=
  resolveRounds load Vocabulary.maxInclusionRounds target

end Inclusion

end ExperimentSuite
