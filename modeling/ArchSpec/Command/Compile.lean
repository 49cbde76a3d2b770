import ArchSpec.Command.Output

/-!
# Compiling

A specification is checked, and files are generated from it and written.
-/

namespace ArchSpec.Command

/-- The lines about single files. -/
def fileLines (s : WriteStats) : String :=
  String.join (s.written.map fun p => Output.line ("  → " ++ p)) ++
    String.join (s.skipped.map fun p => Output.line ("  = " ++ p ++ " (preserved)"))

/-- What is printed after a run. -/
def compileText (verbose : Bool) (p : Progress) : String :=
  Output.line (Output.success ++ "Generated " ++ toString p.stats.total ++ " files (" ++
    toString p.stats.written.length ++ " written, " ++ toString p.stats.skipped.length ++
    " preserved) in " ++ p.configuration.outputDirectory) ++
    if verbose then fileLines p.stats else ""

variable {m : Type → Type} [Monad m] [FileStore m]

def compileRun (source : Path) (output : Option Path) (noCache force verbose : Bool) :
    m Output := do
  match ← (Configuration.forSpecification (m := m) source).run with
  | .error e => return .failed e
  | .ok c =>
    let start := Progress.start source (c.override output noCache) force
    match ← (Pipeline.compile .builtin).run start with
    | (_, .error e) => return .failed e
    | (p, .ok ()) => return .printed (compileText verbose p)

end ArchSpec.Command
