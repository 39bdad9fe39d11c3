/-!
# Tokens of YAML

The tokens between a YAML text and its nodes. Indentation shows up as tokens
that open and close block collections, and a token for a key stands in front of
every key, written or not.
-/

namespace ExperimentSuite

namespace Yaml

/-- The handle and the rest of a tag. -/
structure TagText where
  handle : String
  suffix : String
deriving DecidableEq

/-- A token of a YAML text. -/
inductive Token where
  | version (major minor : Nat)
  | tagPrefix (handle text : String)
  | documentStart
  | documentEnd
  | blockSequenceStart
  | blockMappingStart
  | blockEnd
  | flowSequenceStart
  | flowSequenceEnd
  | flowMappingStart
  | flowMappingEnd
  | blockEntry
  | flowEntry
  | key
  | value
  | alias (name : String)
  | anchor (name : String)
  | tag (text : TagText)
  /-- A scalar, plain when it is written without quotes and without an indicator. -/
  | scalar (plain : Bool) (text : String)
deriving DecidableEq

end Yaml

end ExperimentSuite
