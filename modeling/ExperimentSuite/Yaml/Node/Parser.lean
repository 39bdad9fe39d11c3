import ExperimentSuite.Yaml.Node
import ExperimentSuite.Yaml.Token

/-!
# From tokens to nodes

The grammar of YAML over tokens. A text holds at most one document here: a
second one is an error, and a text without any is told apart from a document
that is empty. Each parser returns what it has read with the state after it.
-/

namespace ExperimentSuite

namespace Yaml

/-- The state between two nodes. -/
structure Parse where
  tokens : List Token
  /-- The numbers of the anchors seen so far. -/
  names : List (String × Nat)
  /-- What the handles of tags stand for. -/
  handles : List (String × String)

namespace Parse

/-- The next token. -/
def next? (s : Parse) : Option Token := s.tokens.head?

/-- Passes a token. -/
def skip (s : Parse) : Parse := { s with tokens := s.tokens.drop 1 }

/-- Whether the next token is one of the given ones. -/
def nextIn (s : Parse) (ts : List Token) : Bool :=
  match s.next? with
  | some t => ts.contains t
  | none => false

/-- The full tag of a handle and a suffix; the handle has to be known. -/
def fullTag (s : Parse) (t : TagText) : Option String :=
  if t.handle.isEmpty then some t.suffix else (s.handles.lookup t.handle).map (· ++ t.suffix)

/-- Numbers an anchor: a new name takes the number of names so far, and so does a name that is
used again. -/
def nameAnchor (name : String) (s : Parse) : Nat × Parse :=
  let id := s.names.length
  (id, { s with names := (name, id) :: s.names.filter fun n => n.1 ≠ name })

/-- The anchor and the tag in front of a node, in either order and each at most once. -/
def properties (s : Parse) : Option (Option String × Option String × Parse) :=
  match s.tokens with
  | .anchor a :: .tag t :: _ => do return (some a, some (← s.fullTag t), s.skip.skip)
  | .tag t :: .anchor a :: _ => do return (some a, some (← s.fullTag t), s.skip.skip)
  | .anchor a :: _ => some (some a, none, s.skip)
  | .tag t :: _ => do return (none, some (← s.fullTag t), s.skip)
  | _ => some (none, none, s)

/-- The properties of a node that is sure to follow, its anchor numbered. -/
def register (anchor tag : Option String) (s : Parse) : Properties × Parse :=
  match anchor with
  | some name =>
      let (id, s) := s.nameAnchor name
      (⟨some id, tag⟩, s)
  | none => (⟨none, tag⟩, s)

/-- A scalar; the tag that stands for no tag makes it plain. -/
def scalarNode (props : Properties) (plain : Bool) (text : String) : Node :=
  if props.tag = some "!" then .scalar { props with tag := none } plain text
  else .scalar props plain text

/-- Whether the next token starts or ends a document or precedes one. -/
def betweenDocuments (s : Parse) : Bool :=
  match s.next? with
  | none => true
  | some (.version ..) => true
  | some (.tagPrefix ..) => true
  | some .documentStart => true
  | some .documentEnd => true
  | _ => false

mutual

/-- A node. Block collections only stand in block style, and a block sequence without indentation
only as the value or the key of a block mapping. -/
def node (fuel : Nat) (inBlock indentless : Bool) (s : Parse) : Option (Node × Parse) :=
  match fuel with
  | 0 => none
  | fuel + 1 =>
      match s.next? with
      | some (.alias name) => do return (.alias (← s.names.lookup name), s.skip)
      | _ => do
          let (anchor, tag, s) ← s.properties
          let (props, s') := s.register anchor tag
          if indentless && s.next? == some .blockEntry then
            let (items, s) ← indentlessItems fuel s'
            return (.sequence props items, s)
          match s.next? with
          | some (.scalar plain text) => return (scalarNode props plain text, s'.skip)
          | some .flowSequenceStart => do
              let (items, s) ← flowItems fuel true s'.skip
              return (.sequence props items, s)
          | some .flowMappingStart => do
              let (entries, s) ← flowEntries fuel true s'.skip
              return (.mapping props entries, s)
          | some .blockSequenceStart => do
              if !inBlock then none
              let (items, s) ← blockItems fuel s'.skip
              return (.sequence props items, s)
          | some .blockMappingStart => do
              if !inBlock then none
              let (entries, s) ← blockEntries fuel s'.skip
              return (.mapping props entries, s)
          | _ => if anchor.isSome || tag.isSome then return (.scalar props true "", s') else none

/-- A node unless one of the given tokens shows that it is absent. -/
def nodeUnless (fuel : Nat) (inBlock indentless : Bool) (ends : List Token) (s : Parse) :
    Option (Node × Parse) :=
  match fuel with
  | 0 => none
  | fuel + 1 => if s.nextIn ends then some (.absent, s) else node fuel inBlock indentless s

/-- The items of a block sequence. -/
def blockItems (fuel : Nat) (s : Parse) : Option (List Node × Parse) :=
  match fuel with
  | 0 => none
  | fuel + 1 =>
      match s.next? with
      | some .blockEntry => do
          let (first, s) ← nodeUnless fuel true false [.blockEntry, .blockEnd] s.skip
          let (others, s) ← blockItems fuel s
          return (first :: others, s)
      | some .blockEnd => some ([], s.skip)
      | _ => none

/-- The items of a block sequence at the column of the mapping around it. -/
def indentlessItems (fuel : Nat) (s : Parse) : Option (List Node × Parse) :=
  match fuel with
  | 0 => none
  | fuel + 1 =>
      match s.next? with
      | some .blockEntry => do
          let (first, s) ←
            nodeUnless fuel true false [.blockEntry, .key, .value, .blockEnd] s.skip
          let (others, s) ← indentlessItems fuel s
          return (first :: others, s)
      | _ => some ([], s)

/-- The entries of a block mapping. -/
def blockEntries (fuel : Nat) (s : Parse) : Option (List (Node × Node) × Parse) :=
  match fuel with
  | 0 => none
  | fuel + 1 =>
      let ends : List Token := [.key, .value, .blockEnd]
      match s.next? with
      | some .key => do
          let (key, s) ← nodeUnless fuel true true ends s.skip
          let (value, s) ←
            if s.nextIn [.value] then nodeUnless fuel true true ends s.skip
            else some (.absent, s)
          let (others, s) ← blockEntries fuel s
          return ((key, value) :: others, s)
      | some .blockEnd => some ([], s.skip)
      | _ => none

/-- The items of a flow sequence. -/
def flowItems (fuel : Nat) (first : Bool) (s : Parse) : Option (List Node × Parse) :=
  match fuel with
  | 0 => none
  | fuel + 1 =>
      if s.nextIn [.flowSequenceEnd] then some ([], s.skip)
      else do
        let s ← if first then some s else if s.nextIn [.flowEntry] then some s.skip else none
        if s.nextIn [.flowSequenceEnd] then return ([], s.skip)
        let (item, s) ←
          if s.nextIn [.key] then flowPair fuel s.skip else node fuel false false s
        let (others, s) ← flowItems fuel false s
        return (item :: others, s)

/-- A single entry as an item of a flow sequence; a key that is absent takes the token at its place
with it. -/
def flowPair (fuel : Nat) (s : Parse) : Option (Node × Parse) :=
  match fuel with
  | 0 => none
  | fuel + 1 => do
      let (key, s) ←
        if s.nextIn [.value, .flowEntry, .flowSequenceEnd] then some (.absent, s.skip)
        else node fuel false false s
      let (value, s) ←
        if s.nextIn [.value] then
          nodeUnless fuel false false [.flowEntry, .flowSequenceEnd] s.skip
        else some (.absent, s)
      return (.mapping ⟨none, none⟩ [(key, value)], s)

/-- The entries of a flow mapping. -/
def flowEntries (fuel : Nat) (first : Bool) (s : Parse) : Option (List (Node × Node) × Parse) :=
  match fuel with
  | 0 => none
  | fuel + 1 =>
      if s.nextIn [.flowMappingEnd] then some ([], s.skip)
      else do
        let s ← if first then some s else if s.nextIn [.flowEntry] then some s.skip else none
        if s.nextIn [.flowMappingEnd] then return ([], s.skip)
        let (entry, s) ←
          if s.nextIn [.key] then do
            let (key, s) ←
              nodeUnless fuel false false [.value, .flowEntry, .flowMappingEnd] s.skip
            let (value, s) ←
              if s.nextIn [.value] then
                nodeUnless fuel false false [.flowEntry, .flowMappingEnd] s.skip
              else some (.absent, s)
            pure ((key, value), s)
          else do
            let (key, s) ← node fuel false false s
            pure ((key, Node.absent), s)
        let (others, s) ← flowEntries fuel false s
        return (entry :: others, s)

end

/-- The directives in front of a document. -/
def directives : Bool → List (String × String) → List Token →
    Option (List (String × String) × List Token)
  | versioned, handles, .version major minor :: rest =>
      if versioned || major ≠ 1 || (minor ≠ 1 && minor ≠ 2) then none
      else directives true handles rest
  | versioned, handles, .tagPrefix handle text :: rest =>
      if (handles.lookup handle).isSome then none
      else directives versioned ((handle, text) :: handles) rest
  | _, handles, rest => some (handles, rest)

/-- The handles that need no directive. -/
def defaultHandles : List (String × String) :=
  [("!", "!"), ("!!", "tag:yaml.org,2002:")]

/-- The state after the directives of a document. -/
def afterDirectives (s : Parse) : Option Parse := do
  let (handles, tokens) ← directives false [] s.tokens
  return { s with tokens, handles := handles ++ defaultHandles }

/-- A document that starts with its marker. -/
def markedDocument (s : Parse) : Option (Node × Parse) := do
  let s ← s.afterDirectives
  if !s.nextIn [.documentStart] then none
  let s := s.skip
  if s.betweenDocuments then return (.absent, s) else node (4 * s.tokens.length + 4) true false s

/-- The first document of a text; nothing if the text has none. -/
def firstDocument (s : Parse) : Option (Option Node × Parse) :=
  match s.next? with
  | none => some (none, s)
  | some .documentEnd => none
  | some _ => do
      let (n, s) ←
        if s.betweenDocuments then s.markedDocument
        else do node (4 * s.tokens.length + 4) true false (← s.afterDirectives)
      return (some n, s)

end Parse

/-- The document of a token list, with nothing but end markers after it; nothing if there is no
document. -/
def Node.ofTokens? (tokens : List Token) : Option (Option Node) := do
  let (n, s) ← Parse.firstDocument ⟨tokens, [], []⟩
  if s.tokens.all (· == .documentEnd) then return n else none

end Yaml

end ExperimentSuite
