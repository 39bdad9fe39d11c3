import ExperimentSuite.Document.Path
import ExperimentSuite.Vocabulary

/-!
# Absorbing variables

A document absorbs another one leaf by leaf: a leaf is copied unless its path
is occupied already, so the absorbing document always wins. The report lists
which leaves came in and which did not. Before it stand the problems of inclusion
as a whole: every way in which a marker or a file it names can be wrong.
-/

namespace ExperimentSuite

/-- Why the inclusion markers of a document cannot be replaced. -/
inductive InclusionProblem where
  /-- A leaf cannot be written at its path. -/
  | blocked (path : KeyPath) (place : Document.Blocked)
  | insideList (path : KeyPath)
  | holdsMapping (path : KeyPath)
  | tooManyRounds (marker : KeyPath)
  | listContent (marker : KeyPath)
  | content (marker : KeyPath)
  | placeMissing (parent : KeyPath)
  | fileMissing (file : String)
  | fileNotMap (file : String)
deriving DecidableEq

/-- The wording of a problem. -/
def InclusionProblem.message : InclusionProblem → String
  | .blocked path place => place.message path
  | .insideList path =>
      Vocabulary.inclusion ++ " cannot appear inside a list, found at " ++ path.format
  | .holdsMapping path =>
      Vocabulary.inclusion
        ++ " must hold a file name or a list of file names, found a mapping at " ++ path.format
  | .tooManyRounds marker =>
      "more than " ++ toString Vocabulary.maxInclusionRounds
        ++ " inclusion rounds, likely an inclusion cycle (last marker at " ++ marker.format ++ ")"
  | .listContent marker => marker.format ++ " list must only contain file names"
  | .content marker => marker.format ++ " must be a file name or a list of file names"
  | .placeMissing parent => "inclusion point " ++ parent.format ++ " disappeared"
  | .fileMissing file => "vars file not found: " ++ file
  | .fileNotMap file => "vars file must contain a mapping: " ++ file

/-- The leaves that came in and those that found their place occupied. -/
structure InclusionReport where
  included : List KeyPath
  skipped : List KeyPath

namespace InclusionReport

/-- The report of nothing. -/
def empty : InclusionReport := ⟨[], []⟩

/-- One report after the other. -/
def append (r s : InclusionReport) : InclusionReport :=
  ⟨r.included ++ s.included, r.skipped ++ s.skipped⟩

end InclusionReport

namespace Document

/-- Absorbs the leaves of a source at the given paths, one after the other. -/
def absorbLeaves (source : Document) : List KeyPath → Document →
    Except InclusionProblem (Document × InclusionReport)
  | [], target => .ok (target, .empty)
  | path :: rest, target =>
      if target.isOccupied path then do
        let (target, report) ← absorbLeaves source rest target
        return (target, ⟨report.included, path :: report.skipped⟩)
      else
        match target.set path ((source.get? path).getD .null) with
        | .error place => .error (.blocked path place)
        | .ok target => do
            let (target, report) ← absorbLeaves source rest target
            return (target, ⟨path :: report.included, report.skipped⟩)

/-- Absorbs every leaf of a source whose path is free. -/
def absorb (target source : Document) : Except InclusionProblem (Document × InclusionReport) :=
  absorbLeaves source source.leafPaths target

end Document

end ExperimentSuite
