/-!
# Nodes of YAML

The tree of a YAML document before scalars get their types and aliases their
targets. An anchored node carries the number of its anchor; the target of an
alias is the last node with that number.
-/

namespace ExperimentSuite

namespace Yaml

/-- What precedes the content of a node. -/
structure Properties where
  anchor : Option Nat
  tag : Option String
deriving DecidableEq

/-- A node of a document. -/
inductive Node where
  | alias (anchor : Nat)
  | scalar (props : Properties) (plain : Bool) (text : String)
  | sequence (props : Properties) (items : List Node)
  | mapping (props : Properties) (entries : List (Node × Node))

namespace Node

/-- A scalar that is not written at all. -/
def absent : Node := .scalar ⟨none, none⟩ true ""

/-- A node under its anchor, if it has one. -/
def named (props : Properties) (n : Node) : List (Nat × Node) :=
  match props.anchor with
  | some id => [(id, n)]
  | none => []

mutual

/-- The anchored nodes in the order in which they start. -/
def anchored : Node → List (Nat × Node)
  | .alias _ => []
  | .scalar props plain text => named props (.scalar props plain text)
  | .sequence props items => named props (.sequence props items) ++ anchoredItems items
  | .mapping props entries => named props (.mapping props entries) ++ anchoredEntries entries

/-- The anchored nodes of a list. -/
def anchoredItems : List Node → List (Nat × Node)
  | [] => []
  | n :: rest => anchored n ++ anchoredItems rest

/-- The anchored nodes of entries. -/
def anchoredEntries : List (Node × Node) → List (Nat × Node)
  | [] => []
  | (k, v) :: rest => anchored k ++ anchored v ++ anchoredEntries rest

end

mutual

/-- How many events spell a node: one for a leaf, a start and an end for a collection. -/
def events : Node → Nat
  | .alias _ => 1
  | .scalar .. => 1
  | .sequence _ items => 2 + eventsItems items
  | .mapping _ entries => 2 + eventsEntries entries

/-- The events of a list of nodes. -/
def eventsItems : List Node → Nat
  | [] => 0
  | n :: rest => events n + eventsItems rest

/-- The events of entries. -/
def eventsEntries : List (Node × Node) → Nat
  | [] => 0
  | (k, v) :: rest => events k + events v + eventsEntries rest

end

end Node

end Yaml

end ExperimentSuite
