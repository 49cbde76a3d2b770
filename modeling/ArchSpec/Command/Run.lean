import ArchSpec.Command.Compile
import ArchSpec.Command.Graph
import ArchSpec.Command.Init
import ArchSpec.Command.Line
import ArchSpec.Command.Validate

/-!
# Running the program

A command line is read and its command is run. What is printed and the exit code are the answer, be
it of a command or of a command line that asks for none.

* `Invocation.run` — the run of a command.
* `Answer` — what the program prints, and its exit code.
* `runProgram` — the answer to the arguments of the program.
-/

namespace ArchSpec

/-- Do what the program is asked to do. -/
def Invocation.run {m : Type → Type} [Monad m] [FileStore m] (i : Invocation) : m Output :=
  match i.command with
  | .compile source output noCache force =>
    Command.compileRun source output noCache force (i.verbosity = .verbose)
  | .validate source json => Command.validateRun source json
  | .graph source view => Command.graphRun source view
  | .init name directory force => Command.initRun name directory force

/-! ## Answers -/

/-- What the program prints for its user and of its problems, and its exit code. -/
structure Answer where
  text : String
  problem : String
  code : Nat

namespace Answer

def programVersion : String := "bound 0.1.0"

def usage : String :=
  Output.block [
    "Compile architecture specifications into an IR and generated artifacts",
    "",
    "Usage: bound [OPTIONS] <COMMAND>",
    "",
    "Commands:",
    "  compile <SPEC> [--output DIR] [--no-cache] [--force]",
    "  validate <SPEC> [--format text|json]",
    "  graph <SPEC> [--tree ID | --transitive ID]",
    "  init <NAME> [--dir DIR] [--force]",
    "",
    "Options:",
    "  -v, --verbose",
    "  -q, --quiet",
    "  -h, --help",
    "  -V, --version"]

/-- The answer to a command line that runs no command. -/
def ofUsage : Command.UsageFault → Answer
  | .displayHelp => ⟨usage, "", 0⟩
  | .displayVersion => ⟨Output.line programVersion, "", 0⟩
  | .displayHelpOnMissing => ⟨"", usage, 2⟩
  | f => ⟨"", "error: " ++ f.text ++ "\n\n" ++ usage, 2⟩

/-- The answer of a command that has been run. -/
def ofOutput (o : Output) : Answer :=
  match o.outcome with
  | .ok () => ⟨o.text, "", 0⟩
  | .error e => ⟨o.text, (Report.ofFailure e).printed, 1⟩

end Answer

/-- Run the program with its arguments. -/
def runProgram {m : Type → Type} [Monad m] [FileStore m] (args : List String) : m Answer :=
  match Invocation.ofArguments args with
  | .error f => pure (.ofUsage f)
  | .ok i => return .ofOutput (← i.run)

end ArchSpec
