import ArchSpec.Artifact.Basic
import ArchSpec.Artifact.Plan
import ArchSpec.Artifact.Write
import ArchSpec.Binding
import ArchSpec.Cache.Basic
import ArchSpec.Cache.Fingerprint
import ArchSpec.Cache.Stored
import ArchSpec.Command.Compile
import ArchSpec.Command.Grammar
import ArchSpec.Command.Graph
import ArchSpec.Command.Init
import ArchSpec.Command.Line
import ArchSpec.Command.Output
import ArchSpec.Command.Run
import ArchSpec.Command.Validate
import ArchSpec.Component
import ArchSpec.Configuration
import ArchSpec.Contract
import ArchSpec.Decimal.Binary64
import ArchSpec.Decimal.Shortest
import ArchSpec.Diagnostic
import ArchSpec.Digest.Sha256
import ArchSpec.Failure
import ArchSpec.FileStore.Basic
import ArchSpec.FileStore.Replace
import ArchSpec.FileTree
import ArchSpec.Generator.Basic
import ArchSpec.Generator.Builtin
import ArchSpec.Generator.UsecasePage
import ArchSpec.Json.Reader
import ArchSpec.Json.Writer
import ArchSpec.Kind
import ArchSpec.Limits
import ArchSpec.Main
import ArchSpec.Method
import ArchSpec.Model.Basic
import ArchSpec.Model.Build
import ArchSpec.Model.Cycle
import ArchSpec.Model.Order
import ArchSpec.Model.Rules
import ArchSpec.Model.Tree
import ArchSpec.OpenApi.Contract
import ArchSpec.OpenApi.Document
import ArchSpec.Path
import ArchSpec.Pipeline.Basic
import ArchSpec.Pipeline.Stages
import ArchSpec.Position
import ArchSpec.SortedMap
import ArchSpec.Specification.Basic
import ArchSpec.Specification.Locate
import ArchSpec.Specification.Schema
import ArchSpec.Specification.Semantic
import ArchSpec.Specification.Stored
import ArchSpec.Symbol
import ArchSpec.Text.Basic
import ArchSpec.Text.Hidden
import ArchSpec.Text.Quoted
import ArchSpec.Toml.Reader
import ArchSpec.Value
import ArchSpec.Version
import ArchSpec.Yaml.Decode
import ArchSpec.Yaml.Fault
import ArchSpec.Yaml.Lexer
import ArchSpec.Yaml.Node
import ArchSpec.Yaml.Scalar
import ArchSpec.Yaml.Token
import ArchSpec.Proofs.Model.Dependency
import ArchSpec.Proofs.Binding
import ArchSpec.Proofs.Contract
import ArchSpec.Proofs.Model.Cycle
import ArchSpec.Proofs.Model.Order
import ArchSpec.Proofs.Model.Reordering
import ArchSpec.Proofs.Model.Rules
import ArchSpec.Proofs.Model.Resolved
import ArchSpec.Proofs.Pipeline.Validation
import ArchSpec.Proofs.Model.Accounting
import ArchSpec.Proofs.Specification.Schema
import ArchSpec.Proofs.Specification.Typing
import ArchSpec.Proofs.Specification.Guarantees
import ArchSpec.Proofs.Artifact.Provenance
import ArchSpec.Proofs.Artifact.Collision
import ArchSpec.Proofs.Command.Containment
import ArchSpec.Proofs.Command.Effect
import ArchSpec.Proofs.Pipeline.Failure
import ArchSpec.Proofs.Generator.Planned
import ArchSpec.Proofs.Generator.Snapshot
import ArchSpec.Proofs.Command.Init
import ArchSpec.Proofs.Command.Started
import ArchSpec.Proofs.Artifact.Preserved
import ArchSpec.Proofs.Cache.Essence
import ArchSpec.Proofs.Cache.History
import ArchSpec.Proofs.Cache.Layout
import ArchSpec.Proofs.Artifact.Ownership
import ArchSpec.Proofs.Binding.Grammar
import ArchSpec.Proofs.Specification.Pattern
import ArchSpec.Proofs.OpenApi.Lookup
import ArchSpec.Proofs.OpenApi.Parameters
import ArchSpec.Proofs.Model.Reachable
import ArchSpec.Proofs.Model.Walk
import ArchSpec.Proofs.Model.Tree
import ArchSpec.Proofs.Generator.Route
import ArchSpec.Proofs.Path.Safety
import ArchSpec.Proofs.Artifact.Paths
import ArchSpec.Proofs.Specification.Additional
import ArchSpec.Proofs.Diagnostic.Canonical
import ArchSpec.Proofs.Specification.Repetition
import ArchSpec.Proofs.Artifact.Calls
import ArchSpec.Proofs.Generator.Reordering
import ArchSpec.Proofs.Specification.Locate
import ArchSpec.Proofs.OpenApi.Schema
import ArchSpec.Proofs.FileStore.Faulty
import ArchSpec.Proofs.FileStore.Making
import ArchSpec.Proofs.FileStore.Success
import ArchSpec.Proofs.FileStore.Atomic
