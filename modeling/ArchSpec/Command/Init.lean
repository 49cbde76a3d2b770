import ArchSpec.Command.Output

/-!
# Starting a project

A new project has a specification of one server and one use-case, and the contract that the
use-case is bound to, so that it can be compiled at once.
-/

namespace ArchSpec.Command

def starterSpecification (name : String) : String :=
  Output.block [
    "version: 1.0.0",
    "name: " ++ name,
    "description: Starter specification",
    "components:",
    "  - id: server.api",
    "    kind: http.server",
    "    spec:",
    "      framework: hono",
    "      port: 3000",
    "      openapi: ./api/openapi.yaml",
    "  - id: usecase.health",
    "    kind: usecase",
    "    spec:",
    "      binds_to: server.api:GET:/health",
    "      goal: Report that the service is up",
    "      actor: operator",
    "      acceptance_criteria:",
    "        - responds with 200 while the service is running"]

def starterContract (name : String) : String :=
  Output.block [
    "openapi: \"3.0.3\"",
    "info:",
    "  title: " ++ name,
    "  version: 1.0.0",
    "paths:",
    "  /health:",
    "    get:",
    "      operationId: getHealth",
    "      summary: Health check",
    "      responses:",
    "        \"200\":",
    "          description: OK"]

def starterFiles (name : String) : List (Path × String) :=
  [("spec.yaml", starterSpecification name), ("api/openapi.yaml", starterContract name)]

/-- Whether a name is that of one directory. -/
def isProjectName (name : String) : Bool :=
  !name.isEmpty && !Text.contains ".." name && !name.toList.any (fun c => c = '/' || c = '\\')

/-- What is printed after the files. -/
def nextSteps (name : String) (project : Path) : String :=
  Output.line ("\n" ++ Output.success ++ "Initialized " ++ name ++ " at " ++ project) ++
    Output.line "\nNext steps:" ++
    Output.line "  Check the specification with bound validate:" ++
    Output.line ("    bound validate " ++ Path.join project "spec.yaml") ++
    Output.line "\n  Then run bound compile to generate artifacts"

variable {m : Type → Type} [Monad m] [FileStore m]

/-- Write files below a directory, up to the first that fails. -/
def writeFiles (project : Path) : List (Path × String) → m Output
  | [] => return .printed ""
  | (path, text) :: rest => do
    match ← (FileStore.replaceText (m := m) (Path.join project path) text).run with
    | .error e => return .failed e
    | .ok () =>
      let others ← writeFiles project rest
      return ⟨Output.line ("  → " ++ path) ++ others.text, others.outcome⟩

def initRun (name : String) (directory : Option Path) (force : Bool) : m Output := do
  if !isProjectName name then
    return .failed (.plain ("invalid project name " ++ Text.quoted name ++
      ": must be a simple directory name"))
  let project := Path.join (directory.getD ".") name
  let spec := Path.join project "spec.yaml"
  if (← FileStore.existsAt (m := m) spec) && !force then
    return .failed (.plain ("Specification already exists at " ++ spec ++
      ". Use --force to overwrite"))
  let files ← writeFiles project (starterFiles name)
  match files.outcome with
  | .error _ => return files
  | .ok () => return { files with text := files.text ++ nextSteps name project }

end ArchSpec.Command
