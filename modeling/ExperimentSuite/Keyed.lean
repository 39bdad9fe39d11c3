/-!
# Ordered collections

A keyed list is an association list whose keys are strings in strictly
increasing code point order; it serves every mapping of the library, from the
fields of a document to the experiments of a suite. An ascending list is a
strictly increasing list and serves as a finite set. Both are plain lists, so
that nested types can hold them; the order is a separate predicate that every
operation keeps.
-/

namespace ExperimentSuite

namespace Keyed

variable {α β : Type}

/-- Keys increase strictly from front to back. -/
def Sorted (entries : List (String × α)) : Prop :=
  entries.Pairwise fun a b => a.1 < b.1

/-- The value stored under a key. -/
def find? (key : String) : List (String × α) → Option α
  | [] => none
  | (k, a) :: rest => if k = key then some a else find? key rest

/-- Whether a key is present. -/
def hasKey (key : String) (entries : List (String × α)) : Bool :=
  (find? key entries).isSome

/-- Stores a value under a key, in order, in place of an earlier value. -/
def insert (key : String) (value : α) : List (String × α) → List (String × α)
  | [] => [(key, value)]
  | (k, a) :: rest =>
      if key < k then (key, value) :: (k, a) :: rest
      else if key = k then (key, value) :: rest
      else (k, a) :: insert key value rest

/-- Drops a key. -/
def erase (key : String) : List (String × α) → List (String × α)
  | [] => []
  | (k, a) :: rest => if k = key then rest else (k, a) :: erase key rest

/-- A keyed list from entries in any order; of equal keys the last one wins. -/
def ofList (entries : List (String × α)) : List (String × α) :=
  entries.foldl (fun acc e => insert e.1 e.2 acc) []

/-- The keys in order. -/
def keys (entries : List (String × α)) : List String :=
  entries.map (·.1)

/-- The values in the order of their keys. -/
def values (entries : List (String × α)) : List α :=
  entries.map (·.2)

/-- Applies a function to every value. -/
def mapValues (f : α → β) (entries : List (String × α)) : List (String × β) :=
  entries.map fun e => (e.1, f e.2)

@[simp] theorem find?_nil (key : String) : find? key ([] : List (String × α)) = none := rfl

@[simp] theorem find?_insert_self (key : String) (value : α) (entries : List (String × α)) :
    find? key (insert key value entries) = some value := by
  induction entries with
  | nil => simp [insert, find?]
  | cons e rest ih =>
      obtain ⟨k, a⟩ := e
      rw [insert]
      split
      · simp [find?]
      · split
        · simp [find?]
        · next hne => simp [find?, Ne.symm hne, ih]

end Keyed

namespace Ascending

variable {α : Type} [LT α] [DecidableEq α] [DecidableLT α]

/-- Adds an element in order unless it is present. -/
def insert (a : α) : List α → List α
  | [] => [a]
  | b :: rest =>
      if a < b then a :: b :: rest
      else if a = b then b :: rest
      else b :: insert a rest

/-- The distinct elements of a list in increasing order. -/
def ofList (items : List α) : List α :=
  items.foldl (fun acc a => insert a acc) []

/-- The elements of the first list that the second lacks. -/
def difference (items others : List α) : List α :=
  items.filter fun a => !others.contains a

end Ascending

end ExperimentSuite
