import ExperimentSuite.Document.Basic

/-!
# Merging and containment

Merging lays one document over another: mappings merge key by key and every
other value replaces what it meets. Containment asks that a document already
holds everything a filter holds, again key by key through mappings and by
agreement elsewhere.
-/

namespace ExperimentSuite

namespace Document

mutual

/-- The document that results from laying another one over it. -/
def merge : (base overlay : Document) → Document
  | .map fields, .map overFields => .map (mergeFields fields overFields)
  | _, overlay => overlay

/-- Lays fields over fields, one key after the other. -/
def mergeFields : (fields overlay : List (String × Document)) → List (String × Document)
  | fields, [] => fields
  | fields, (key, value) :: rest =>
      let merged := match Keyed.find? key fields with
        | some old => merge old value
        | none => value
      mergeFields (Keyed.insert key merged fields) rest

end

mutual

/-- Whether a document holds everything that a filter holds. -/
def contains : (doc filter : Document) → Bool
  | .map fields, .map expected => containsFields fields expected
  | doc, filter => doc.agrees filter

/-- Whether every expected field is present with a value that contains the expected one. -/
def containsFields : (fields expected : List (String × Document)) → Bool
  | _, [] => true
  | fields, (key, filter) :: rest =>
      (match Keyed.find? key fields with
        | some actual => contains actual filter
        | none => false) && containsFields fields rest

end

end Document

end ExperimentSuite
