import ArchSpec.Command.Line
import ArchSpec.Command.Output
import ArchSpec.Model.Tree

/-!
# Showing the graph

The components of a specification in dependency order, or what one of them needs as a tree or as a
list. The model is not checked, so that a graph with cycles can be looked at.
-/

namespace ArchSpec.Command

/-- A number with blanks before it up to a width. -/
def padded (width n : Nat) : String :=
  let digits := toString n
  Text.times (width - digits.length) " " ++ digits

/-- Numbered lines, the first with the number `n`. -/
def numbered (width n : Nat) : List String → String
  | [] => ""
  | s :: rest => Output.line (padded width n ++ ". " ++ s) ++ numbered width (n + 1) rest

/-- A component with its kind. -/
def labelled (m : Model) (id : String) : String :=
  match m.get? id with
  | none => id
  | some c => c.id ++ " (" ++ c.kind.text ++ ")"

/-- All components in dependency order. -/
def orderText (m : Model) : Except Failure String :=
  match m.topologicalOrder with
  | .error cycles => .error ⟨[], .cyclic cycles⟩
  | .ok ids => .ok (numbered (toString ids.length).length 1 (ids.map (labelled m)))

/-- A view of a graph. -/
def viewText (m : Model) : GraphView → Except Failure String
  | .order => orderText m
  | .tree id => (m.dependencyTree id).mapError Failure.ofFault
  | .transitive id =>
    ((m.transitiveDependencies id).map fun ids => String.join (ids.map Output.line)).mapError
      Failure.ofFault

variable {m : Type → Type} [Monad m] [FileStore m]

/-- Show a view of the graph of a specification. -/
def graphRun (source : Path) (view : GraphView) : m Output := do
  match ← (Configuration.forSpecification (m := m) source).run with
  | .error e => return .failed e
  | .ok c =>
    match ← Pipeline.inspection.run (Progress.start source c false) with
    | (_, .error e) => return .failed e
    | (p, .ok ()) =>
      match p.requireModel with
      | .error f => return .failed (.ofFault f)
      | .ok model =>
        match viewText model view with
        | .error e => return .failed e
        | .ok text => return .printed text

end ArchSpec.Command
