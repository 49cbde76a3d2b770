import ArchSpec.Artifact.Plan
import ArchSpec.Model.Basic
import ArchSpec.Text.Quoted

/-!
# Generators

A generator makes files from a model. It runs if the model has a component of a kind that it is
made for. A registry holds generators under different names, in the order in which they run.

A generator has one name here, under which it is registered, owns its files and is reported. There
could be two, the one of a registered plugin and the one of the generator that it makes; but every
generator is registered under its own. A file has a text as its content. It could have any bytes,
which no generator makes.

* `Registry.register` — one more generator.
* `Registry.plan` — the artifacts of a model.
-/

namespace ArchSpec

/-- Something that makes files from models. -/
structure Generator where
  name : String
  /-- The kinds that it is made for; without any it always runs. -/
  supports : List Kind
  generate : Model → Except Failure GeneratedFiles

namespace Generator

/-- Whether a generator runs for a model. -/
def runsFor (g : Generator) (m : Model) : Bool :=
  g.supports.isEmpty || m.components.values.any fun c => g.supports.contains c.kind

/-- What a generator makes, or that it failed. -/
def run (g : Generator) (m : Model) : Except Failure GeneratedFiles :=
  (g.generate m).mapError (Failure.within ("Generator " ++ g.name ++ " failed"))

end Generator

/-- Generators with different names. -/
structure Registry where
  generators : List Generator
  distinct : (generators.map (·.name)).Nodup

namespace Registry

def empty : Registry := ⟨[], List.nodup_nil⟩

def names (r : Registry) : List String := r.generators.map (·.name)

/-- Put a generator behind the others. -/
def register (r : Registry) (g : Generator) : Except Failure Registry :=
  if g.name.isEmpty then .error (.plain "plugin name cannot be empty")
  else if h : g.name ∈ r.names then
    .error (.plain ("plugin " ++ Text.quoted g.name ++ " already registered"))
  else .ok ⟨r.generators ++ [g], by
    rw [List.map_append]
    refine List.nodup_append.2 ⟨r.distinct, by simp, ?_⟩
    intro a ha b hb hab
    have : b = g.name := by simpa using hb
    exact h (this ▸ hab ▸ ha)⟩

/-- The generators that run for a model. -/
def runningFor (r : Registry) (m : Model) : List Generator := r.generators.filter (·.runsFor m)

/-- Add what generators make to a plan. -/
def planWith (m : Model) : Plan → List Generator → Except Failure Plan
  | p, [] => .ok p
  | p, g :: rest =>
    match g.run m with
    | .error e => .error e
    | .ok files =>
      match p.addAll g.name files with
      | (_, .error f) => .error (.ofFault f)
      | (p, .ok ()) => planWith m p rest

/-- What all generators that run for a model make of it. -/
def plan (r : Registry) (m : Model) : Except Failure Plan :=
  planWith m .empty (r.runningFor m)

end Registry

end ArchSpec
