import ExperimentSuite.Keyed
import ExperimentSuite.Number

/-!
# Documents

A document is the one dynamic value of the library: designs, variables, runs and
filters are all documents. A mapping is a keyed list of fields in strictly
increasing key order, so "first", "in order" and every list of messages follow
that order. Two documents agree when they have the same shape and their leaves
agree; agreement is weaker than equality only in that the two float zeros agree.
-/

namespace ExperimentSuite

/-- A value built from scalars, lists and mappings. -/
inductive Document where
  | null
  | bool (value : Bool)
  | num (value : Number)
  | str (value : String)
  | list (items : List Document)
  | map (fields : List (String × Document))
deriving Inhabited

namespace Document

/-- The empty mapping. -/
def empty : Document := .map []

/-- An integer as a document. -/
def int (n : Int) : Document := .num (.int n)

/-- A natural as a document. -/
def nat (n : Nat) : Document := .int n

/-- A mapping from fields in any order; of equal keys the last one wins. -/
def ofFields (fields : List (String × Document)) : Document :=
  .map (Keyed.ofList fields)

/-- Whether a document is a mapping. -/
def isMap : Document → Bool
  | .map _ => true
  | _ => false

/-- The fields of a mapping. -/
def fields? : Document → Option (List (String × Document))
  | .map fields => some fields
  | _ => none

/-- The text of a string. -/
def str? : Document → Option String
  | .str s => some s
  | _ => none

/-- The value of a field of a mapping. -/
def field? (key : String) : Document → Option Document
  | .map fields => Keyed.find? key fields
  | _ => none

mutual

/-- Equality of documents up to the sign of a float zero. -/
def agrees : Document → Document → Bool
  | .null, .null => true
  | .bool a, .bool b => a == b
  | .num a, .num b => a.agrees b
  | .str a, .str b => a == b
  | .list as, .list bs => agreesItems as bs
  | .map as, .map bs => agreesFields as bs
  | _, _ => false

/-- Itemwise agreement of lists of one length. -/
def agreesItems : List Document → List Document → Bool
  | [], [] => true
  | a :: as, b :: bs => agrees a b && agreesItems as bs
  | _, _ => false

/-- Fieldwise agreement under equal keys. -/
def agreesFields : List (String × Document) → List (String × Document) → Bool
  | [], [] => true
  | (k, a) :: as, (l, b) :: bs => k == l && agrees a b && agreesFields as bs
  | _, _ => false

end

mutual

/-- Every mapping in a document has its keys in strictly increasing order. -/
def Ordered : Document → Prop
  | .list items => OrderedItems items
  | .map fields => Keyed.Sorted fields ∧ OrderedFields fields
  | _ => True

/-- Every item is ordered. -/
def OrderedItems : List Document → Prop
  | [] => True
  | d :: rest => Ordered d ∧ OrderedItems rest

/-- Every field value is ordered. -/
def OrderedFields : List (String × Document) → Prop
  | [] => True
  | (_, d) :: rest => Ordered d ∧ OrderedFields rest

end

end Document

end ExperimentSuite
