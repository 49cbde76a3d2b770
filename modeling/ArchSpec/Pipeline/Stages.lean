import ArchSpec.Generator.Builtin
import ArchSpec.Model.Build
import ArchSpec.Model.Rules
import ArchSpec.Pipeline.Basic
import ArchSpec.Specification.Schema
import ArchSpec.Specification.Semantic
import ArchSpec.Specification.Stored

/-!
# The stages of a run

A specification is read, checked against the schema and as a whole, understood as a model and
checked as such; then files are generated from the model and written. A stage that finds problems
fails with all of them.

* `Pipeline.validation` — the stages up to the last check.
* `Pipeline.compile` — all stages.
-/

namespace ArchSpec

namespace Stage

/-- Fail with the problems that a stage has found, if there are any. -/
def refuse (stage what : String) (errors : List Diagnostic) : Except Fault Unit :=
  if errors.isEmpty then .ok ()
  else .error (.stageFailed stage
    (what ++ " failed with " ++ toString errors.length ++ " error(s)") errors)

variable {m : Type → Type} [Monad m]

/-- Check the document against the schema. Its problems are reported in document order. -/
def schema : Stage m where
  name := "validate-schema"
  run p := Action.ofFault do
    let s ← p.requireSpecification
    refuse "validate-schema" "schema validation" (Schema.check s.raw)
    return p

/-- Check the specification as a whole. -/
def semantics : Stage m where
  name := "validate-semantic"
  run p := Action.ofFault do
    let s ← p.requireSpecification
    refuse "validate-semantic" "semantic validation" (Diagnostic.sort s.checkSemantics)
    return p

/-- Build the model from a specification and the contracts that it names. -/
def buildFrom (read : Path → Except Failure Contract) (s : Specification) (p : Progress) :
    Except Fault Progress := do
  let (model, errors) := Model.build s s.baseDirectory read
  refuse "build-ir" "IR build" (Diagnostic.sort errors)
  return { p with model := some model }

/-- Build the model, with contracts that a function gives. -/
def buildWith (read : Path → Except Failure Contract) : Stage m where
  name := "build-ir"
  run p := Action.ofFault do buildFrom read (← p.requireSpecification) p

/-- Check the model. -/
def rules : Stage m where
  name := "validate-ir"
  run p := Action.ofFault do
    let model ← p.requireModel
    refuse "validate-ir" "IR validation" (Diagnostic.sort model.check)
    return p

/-- Generate files from the model. -/
def generate (r : Registry) : Stage m where
  name := "generate"
  run p := ExceptT.mk <| pure do
    let model ← p.requireModel.mapError Failure.ofFault
    let plan ← r.plan model
    return { p with artifacts := plan.toList }

variable [FileStore m]

/-- Read the specification. -/
def parse : Stage m where
  name := "parse"
  run p := do return { p with specification := some (← Specification.load p.source) }

/-- The contract found for a path in a list of them. -/
def contractFor (found : List (Path × Except Failure Contract)) (path : Path) :
    Except Failure Contract :=
  (found.lookup path).getD (.error (.plain ("no contract at " ++ path)))

/-- Build the model, with the contracts in the files that the specification names. -/
def build : Stage m where
  name := "build-ir"
  run p := do
    let s ← Action.ofFault p.requireSpecification
    let found ← ExceptT.lift (Contract.loadAll (Model.contractPaths s s.baseDirectory))
    Action.ofFault (buildFrom (contractFor found) s p)

/-- Write the generated files. -/
def write : Stage m where
  name := "write"
  run p := do
    let model ← Action.ofFault p.requireModel
    let task : WriteTask := ⟨p.configuration.outputDirectory, p.configuration.cachePath?, p.force⟩
    return { p with stats := ← task.run model p.artifacts }

end Stage

namespace Pipeline

variable {m : Type → Type} [Monad m] [FileStore m]

/-- Reading and all checks. -/
def validation : Pipeline m :=
  [.parse, .schema, .semantics, .build, .rules]

/-- The whole run, with the generators of a registry. -/
def compile (r : Registry) : Pipeline m := validation ++ [.generate r, .write]

/-- What can be shown of a graph: no check of the model, so that cycles can be looked at. -/
def inspection : Pipeline m := [.parse, .schema, .semantics, .build]

end Pipeline

end ArchSpec
