import ExperimentSuite.CommandLine.Arguments
import ExperimentSuite.CommandLine.Run
import ExperimentSuite.Decimal.Binary
import ExperimentSuite.Decimal.Literal
import ExperimentSuite.Decimal.Shortest
import ExperimentSuite.Digest.Sha256
import ExperimentSuite.Document.Basic
import ExperimentSuite.Document.Merge
import ExperimentSuite.Document.Path
import ExperimentSuite.Experiment.Command
import ExperimentSuite.Experiment.Identifiers
import ExperimentSuite.Experiment.Problem
import ExperimentSuite.Experiment.Record
import ExperimentSuite.Experiment.ReservedKeys
import ExperimentSuite.Experiment.Shape
import ExperimentSuite.Experiment.Spec
import ExperimentSuite.Experiment.Violation
import ExperimentSuite.Factor.Expansion
import ExperimentSuite.Factor.Levels
import ExperimentSuite.Factor.Plan
import ExperimentSuite.Factor.Problem
import ExperimentSuite.Factor.Range
import ExperimentSuite.Failure
import ExperimentSuite.Files.Path
import ExperimentSuite.Files.Session
import ExperimentSuite.Files.Storage
import ExperimentSuite.Files.Tree
import ExperimentSuite.Inclusion.Absorb
import ExperimentSuite.Inclusion.Marker
import ExperimentSuite.Json.Printer
import ExperimentSuite.Json.Reader
import ExperimentSuite.Keyed
import ExperimentSuite.Main
import ExperimentSuite.Number
import ExperimentSuite.Pattern.Basic
import ExperimentSuite.Pattern.Parser
import ExperimentSuite.Placeholder.Delimiters
import ExperimentSuite.Placeholder.Engine
import ExperimentSuite.Placeholder.Pending
import ExperimentSuite.Placeholder.Resolution
import ExperimentSuite.Suite.Compilation
import ExperimentSuite.Suite.Preparation
import ExperimentSuite.Suite.Project
import ExperimentSuite.Suite.Summary
import ExperimentSuite.Template.Engine
import ExperimentSuite.Template.Evaluation
import ExperimentSuite.Template.Expression
import ExperimentSuite.Template.Expression.Parser
import ExperimentSuite.Template.Filter
import ExperimentSuite.Template.Operation
import ExperimentSuite.Template.Statement
import ExperimentSuite.Template.Statement.Parser
import ExperimentSuite.Template.Token
import ExperimentSuite.Template.Token.Lexer
import ExperimentSuite.Template.Value
import ExperimentSuite.Template.Value.Order
import ExperimentSuite.Template.Value.Text
import ExperimentSuite.Text.Blank
import ExperimentSuite.Text.Case
import ExperimentSuite.Text.Digit
import ExperimentSuite.Text.Mark
import ExperimentSuite.Text.Quoted
import ExperimentSuite.Text.Utf8
import ExperimentSuite.Vocabulary
import ExperimentSuite.Yaml.Cursor
import ExperimentSuite.Yaml.Node
import ExperimentSuite.Yaml.Node.Parser
import ExperimentSuite.Yaml.Reader
import ExperimentSuite.Yaml.Style
import ExperimentSuite.Yaml.Token
import ExperimentSuite.Yaml.Token.Scalar
import ExperimentSuite.Yaml.Token.Scan
import ExperimentSuite.Yaml.Token.Tag
import ExperimentSuite.Yaml.Value
import ExperimentSuite.Yaml.Value.Scalar
import ExperimentSuite.Yaml.Writer
import ExperimentSuite.Proofs.CommandLine.Design
import ExperimentSuite.Proofs.Document.Agreement
import ExperimentSuite.Proofs.Document.Ordered
import ExperimentSuite.Proofs.Outcome
import ExperimentSuite.Proofs.Document.Assignment
import ExperimentSuite.Proofs.Document.Decomposition
import ExperimentSuite.Proofs.Document.Leaves
import ExperimentSuite.Proofs.Document.Merge
import ExperimentSuite.Proofs.Document.Order
import ExperimentSuite.Proofs.Factor.Assignment
import ExperimentSuite.Proofs.Factor.Count
import ExperimentSuite.Proofs.Factor.Enumeration
import ExperimentSuite.Proofs.Factor.Grid
import ExperimentSuite.Proofs.Factor.Levels
import ExperimentSuite.Proofs.Factor.Occurrence
import ExperimentSuite.Proofs.Factor.Plan
import ExperimentSuite.Proofs.Factor.Skeleton
import ExperimentSuite.Proofs.Factor.Substitution
import ExperimentSuite.Proofs.Files.Reading
import ExperimentSuite.Proofs.Inclusion.Absorb
import ExperimentSuite.Proofs.Inclusion.Completeness
import ExperimentSuite.Proofs.Inclusion.Conservation
import ExperimentSuite.Proofs.Inclusion.Merging
import ExperimentSuite.Proofs.Placeholder.Stripping
import ExperimentSuite.Proofs.Placeholder.Entries
import ExperimentSuite.Proofs.Placeholder.SelfReference
import ExperimentSuite.Proofs.Placeholder.Tolerance
import ExperimentSuite.Proofs.Placeholder.Waiting
import ExperimentSuite.Proofs.Placeholder.Landing
import ExperimentSuite.Proofs.Suite.FixedPoint
import ExperimentSuite.Proofs.Suite.Precedence
import ExperimentSuite.Proofs.Suite.ReservedKeys
import ExperimentSuite.Proofs.Suite.Selection
import ExperimentSuite.Proofs.Suite.Tolerance
import ExperimentSuite.Proofs.Suite.Distinct
import ExperimentSuite.Proofs.Factor.Range.Progression
import ExperimentSuite.Proofs.Factor.Range.Grammar
import ExperimentSuite.Proofs.Factor.Range.Reading
import ExperimentSuite.Proofs.Text.Pieces
import ExperimentSuite.Proofs.Template.Lexing
import ExperimentSuite.Proofs.Template.Reader
import ExperimentSuite.Proofs.Template.Reading
import ExperimentSuite.Proofs.Template.Tags
import ExperimentSuite.Proofs.Template.Output
import ExperimentSuite.Proofs.Template.Standalone
import ExperimentSuite.Proofs.Placeholder.TypedText
import ExperimentSuite.Proofs.Experiment.Record
import ExperimentSuite.Proofs.Experiment.Counts
import ExperimentSuite.Proofs.Experiment.Normalization
import ExperimentSuite.Proofs.Factor.Inheritance
import ExperimentSuite.Proofs.Suite.Summary
import ExperimentSuite.Proofs.Document.Containment
import ExperimentSuite.Proofs.Document.Writing
import ExperimentSuite.Proofs.Text.Utf8
import ExperimentSuite.Proofs.Experiment.Uniqueness
import ExperimentSuite.Proofs.Json.Compact
import ExperimentSuite.Proofs.Digest.Canonical
import ExperimentSuite.Proofs.Factor.Limit
