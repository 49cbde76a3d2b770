import ArchSpec.Artifact.Write
import ArchSpec.Configuration
import ArchSpec.Specification.Basic

/-!
# Pipelines

A pipeline is a list of stages, each of which adds to what the earlier ones have achieved. The
first stage that fails ends the run; what was achieved by then stays.

* `Progress` — what has been achieved.
* `Pipeline.run` — all stages, up to the first that fails.
-/

namespace ArchSpec

/-- What a run works on and what it has achieved so far. -/
structure Progress where
  /-- The path of the specification. -/
  source : Path
  configuration : Configuration
  /-- Whether files of unchanged components are written too. -/
  force : Bool
  specification : Option Specification
  model : Option Model
  artifacts : List Artifact
  stats : WriteStats
  deriving Inhabited

namespace Progress

def start (source : Path) (configuration : Configuration) (force : Bool) : Progress :=
  ⟨source, configuration, force, none, none, [], ⟨[], []⟩⟩

/-- The specification, which an earlier stage has to have read. -/
def requireSpecification (p : Progress) : Except Fault Specification :=
  match p.specification with
  | none => .error (.other "no specification has been parsed")
  | some s => .ok s

/-- The model, which an earlier stage has to have built. -/
def requireModel (p : Progress) : Except Fault Model :=
  match p.model with
  | none => .error (.other "no IR has been built")
  | some m => .ok m

end Progress

/-- A step of a run. -/
structure Stage (m : Type → Type) where
  name : String
  run : Progress → Action m Progress

abbrev Pipeline (m : Type → Type) : Type := List (Stage m)

namespace Pipeline

variable {m : Type → Type} [Monad m]

/-- Run all stages, up to the first that fails. -/
def run : Pipeline m → Progress → m (Progress × Except Failure Unit)
  | [], p => return (p, .ok ())
  | s :: rest, p => do
    match ← (s.run p).run with
    | .error e => return (p, .error e)
    | .ok p => run rest p

end Pipeline

end ArchSpec
