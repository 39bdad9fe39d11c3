import ExperimentSuite.Yaml.Node.Parser
import ExperimentSuite.Yaml.Token.Scan
import ExperimentSuite.Yaml.Value.Scalar

/-!
# Reading YAML texts

A text is read in four steps: tokens, the nodes they spell, the values of the
nodes, and the document those values stand for. Composing a value gives scalars
their types and replaces aliases by what they stand for. A value nests at most
128 collections, aliases are followed at most a hundred times as often as the
text has events, and no key occurs twice. A text without a document reads as
null.
-/

namespace ExperimentSuite

namespace Yaml

namespace Compose

/-- What an alias stands for: the last node with its number. -/
def target? (table : List (Nat × Node)) (id : Nat) : Option Node :=
  (table.reverse.find? fun e => e.1 == id).map (·.2)

/-- The name of a local tag, without its mark unless that is all of it. -/
def localTag? (tag : Option String) : Option String :=
  match tag.map String.toList with
  | some ('!' :: rest) => some (if rest.isEmpty then "!" else String.ofList rest)
  | _ => none

/-- A value under a local tag, if there is one. -/
def tag (props : Properties) (v : Value) : Value :=
  match localTag? props.tag with
  | some name => .tagged name v
  | none => v

/-- The value of a scalar before its local tag is put on. -/
def scalar (props : Properties) (plain : Bool) (text : String) : Option Value :=
  match localTag? props.tag, props.tag with
  | none, some t => Scalar.typed t text
  | _, _ => if plain then Scalar.plain text else some (.str text)

mutual

/-- The value of a node; `depth` counts the collections that may still be entered and `jumps` the
aliases that may still be followed. -/
def node (table : List (Nat × Node)) (fuel depth jumps : Nat) (n : Node) : Option (Value × Nat) :=
  match fuel with
  | 0 => none
  | fuel + 1 =>
      match n with
      | .alias id =>
          if jumps = 0 then none
          else do
            let found ← target? table id
            node table fuel depth (jumps - 1) found
      | .scalar props plain text => do return (tag props (← scalar props plain text), jumps)
      | .sequence props ns =>
          if depth = 0 then none
          else do
            let (vs, jumps) ← items table fuel (depth - 1) jumps ns
            return (tag props (.sequence vs), jumps)
      | .mapping props es =>
          if depth = 0 then none
          else do
            let (vs, jumps) ← entries table fuel (depth - 1) jumps [] es
            return (tag props (.mapping vs), jumps)

/-- The values of items. -/
def items (table : List (Nat × Node)) (fuel depth jumps : Nat) :
    List Node → Option (List Value × Nat)
  | [] => some ([], jumps)
  | n :: rest =>
      match fuel with
      | 0 => none
      | fuel + 1 => do
          let (v, jumps) ← node table fuel depth jumps n
          let (vs, jumps) ← items table fuel depth jumps rest
          return (v :: vs, jumps)

/-- The values of entries; `read` holds those so far, last first. -/
def entries (table : List (Nat × Node)) (fuel depth jumps : Nat) (read : List (Value × Value)) :
    List (Node × Node) → Option (List (Value × Value) × Nat)
  | [] => some (read.reverse, jumps)
  | (k, n) :: rest =>
      match fuel with
      | 0 => none
      | fuel + 1 => do
          let (key, jumps) ← node table fuel depth jumps k
          if read.any fun e => e.1.same key then none
          let (v, jumps) ← node table fuel depth jumps n
          entries table fuel depth jumps ((key, v) :: read) rest

end

end Compose

/-- The deepest nesting of collections. -/
def depthLimit : Nat := 128

/-- How often each event may be repeated through aliases. -/
def repetitionLimit : Nat := 100

/-- The value of a document's node. -/
def Value.ofNode? (n : Node) : Option Value :=
  let events := n.events
  (Compose.node n.anchored ((depthLimit + 1) * (events + 2)) depthLimit (repetitionLimit * events)
    n).map (·.1)

/-- The value of a text, unless the text is malformed. -/
def value? (text : String) : Option Value := do
  let tokens ← tokens? text
  match ← Node.ofTokens? tokens with
  | some n => Value.ofNode? n
  | none => return .null

/-- Why a text is no document. -/
inductive ReadProblem where
  | malformed
  | key (problem : Value.KeyProblem)
deriving DecidableEq

/-- The document of a text. -/
def read (text : String) : Except ReadProblem Document :=
  match value? text with
  | none => .error .malformed
  | some v => v.document.mapError .key

end Yaml

end ExperimentSuite
