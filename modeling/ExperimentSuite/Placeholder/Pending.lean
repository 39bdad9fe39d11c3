import ExperimentSuite.Document.Path
import ExperimentSuite.Placeholder.Delimiters

/-!
# Pending sources

The texts and keys of a document that still hold a placeholder, each with its
place. Places pass through lists as well as mappings. A place of a key ends with
the key itself.
-/

namespace ExperimentSuite

/-- One step into a document. -/
inductive Step where
  | key (name : String)
  | index (n : Nat)
deriving DecidableEq

/-- The steps from the root of a document to a place in it. -/
abbrev Place := List Step

/-- The text of a step. -/
def Step.text : Step → String
  | .key name => name
  | .index n => toString n

/-- The text of a place: its steps joined by dots. -/
def Place.text (place : Place) : String :=
  ".".intercalate (place.map Step.text)

/-- A text or key that holds a placeholder. -/
structure Pending where
  place : Place
  source : String
  isKey : Bool

/-- The text of the places of several sources. -/
def Pending.places (items : List Pending) : String :=
  ", ".intercalate (items.map fun i => Place.text i.place)

namespace Document

mutual

/-- The pending sources at or below a place, a key before what it holds. -/
def pendingAt (place : Place) : Document → List Pending
  | .str s => if Placeholder.occursIn s then [⟨place, s, false⟩] else []
  | .list items => pendingItems place 0 items
  | .map fields => pendingFields place fields
  | _ => []

/-- The pending sources in items from an index on. -/
def pendingItems (place : Place) (index : Nat) : List Document → List Pending
  | [] => []
  | d :: rest => pendingAt (place ++ [.index index]) d ++ pendingItems place (index + 1) rest

/-- The pending sources in fields. -/
def pendingFields (place : Place) : List (String × Document) → List Pending
  | [] => []
  | (key, d) :: rest =>
      let here := place ++ [.key key]
      (if Placeholder.occursIn key then [(⟨here, key, true⟩ : Pending)] else [])
        ++ pendingAt here d ++ pendingFields place rest

end

mutual

/-- Whether a source other than one's own is pending at or below a place. -/
def hasPending (own place : Place) : Document → Bool
  | .str s => Placeholder.occursIn s && decide (place ≠ own)
  | .list items => hasPendingItems own place 0 items
  | .map fields => hasPendingFields own place fields
  | _ => false

/-- The same for items from an index on. -/
def hasPendingItems (own place : Place) (index : Nat) : List Document → Bool
  | [] => false
  | d :: rest =>
      hasPending own (place ++ [.index index]) d || hasPendingItems own place (index + 1) rest

/-- The same for fields. -/
def hasPendingFields (own place : Place) : List (String × Document) → Bool
  | [] => false
  | (key, d) :: rest =>
      let here := place ++ [.key key]
      (Placeholder.occursIn key && decide (here ≠ own)) || hasPending own here d
        || hasPendingFields own place rest

end

/-- The value at a place. -/
def at? : Document → Place → Option Document
  | d, [] => some d
  | .map fields, .key name :: rest => (Keyed.find? name fields).bind (at? · rest)
  | .list items, .index n :: rest => items[n]?.bind (at? · rest)
  | _, _ :: _ => none

/-- Changes the value at a place that exists. -/
def modifyAt? (f : Document → Option Document) : Document → Place → Option Document
  | d, [] => f d
  | .map fields, .key name :: rest => do
      let child ← Keyed.find? name fields
      let child ← modifyAt? f child rest
      return .map (Keyed.insert name child fields)
  | .list items, .index n :: rest => do
      let child ← items[n]?
      let child ← modifyAt? f child rest
      return .list (items.set n child)
  | _, _ :: _ => none

/-- Writes a value at a place that exists. -/
def putAt? (d : Document) (place : Place) (value : Document) : Option Document :=
  modifyAt? (fun _ => some value) d place

end Document

end ExperimentSuite
