import ArchSpec.Command.Grammar
import ArchSpec.Path

/-!
# The commands of the program

* `Invocation.ofArguments` — what the arguments of the program ask for.
-/

namespace ArchSpec

/-- What is shown of a graph. -/
inductive GraphView where
  /-- All components in dependency order. -/
  | order
  /-- What a component needs, as a tree. -/
  | tree (id : String)
  /-- All that a component needs, as a list. -/
  | transitive (id : String)
  deriving DecidableEq, Repr

/-- What the program is to do. -/
inductive Command where
  | compile (source : Path) (output : Option Path) (noCache force : Bool)
  | validate (source : Path) (json : Bool)
  | graph (source : Path) (view : GraphView)
  | init (name : String) (directory : Option Path) (force : Bool)
  deriving DecidableEq, Repr

/-- How much is said about a run. -/
inductive Verbosity where
  | quiet
  | normal
  | verbose
  deriving DecidableEq, Repr

/-- The least level of messages that are logged. -/
def Verbosity.logLevel : Verbosity → String
  | .quiet => "error"
  | .normal => "warn"
  | .verbose => "debug"

/-- A command and how much is said about it. -/
structure Invocation where
  command : Command
  verbosity : Verbosity
  deriving DecidableEq, Repr

namespace Command

/-! ## Options -/

/-- A value that is a path is not empty. -/
def acceptsPath (s : String) : Bool := !s.isEmpty

def acceptsAny (_ : String) : Bool := true

def acceptsFormat (s : String) : Bool := s = "text" || s = "json"

/-- The options that every command has. -/
def sharedOptions : List OptionRule :=
  [⟨"verbose", some 'v', .flag⟩, ⟨"quiet", some 'q', .flag⟩, ⟨"help", some 'h', .help⟩]

/-- The shared options that exclude each other. -/
def sharedConflicts : List (String × String) := [("quiet", "verbose")]

/-- A command with options of its own. -/
def grammar (options : List OptionRule) (conflicts : List (String × String))
    (operand : String → Bool) : Grammar :=
  ⟨options ++ sharedOptions, conflicts ++ sharedConflicts, some operand, []⟩

def compileGrammar : Grammar :=
  grammar [⟨"output", some 'o', .value acceptsPath⟩, ⟨"no-cache", none, .flag⟩,
    ⟨"force", none, .flag⟩] [] acceptsPath

def validateGrammar : Grammar :=
  grammar [⟨"format", none, .value acceptsFormat⟩] [] acceptsPath

def graphGrammar : Grammar :=
  grammar [⟨"tree", none, .value acceptsAny⟩, ⟨"transitive", none, .value acceptsAny⟩]
    [("transitive", "tree")] acceptsPath

def initGrammar : Grammar :=
  grammar [⟨"dir", some 'd', .value acceptsPath⟩, ⟨"force", some 'f', .flag⟩] [] acceptsAny

/-- The commands, and the one that explains them. -/
def names : List String := ["compile", "validate", "graph", "init", "help"]

def programGrammar : Grammar :=
  ⟨sharedOptions ++ [⟨"version", some 'V', .version⟩], sharedConflicts, none, names⟩

/-! ## Commands -/

/-- The view that the options of a graph ask for. -/
def viewOf (g : Given) : GraphView :=
  match g.value? "tree", g.value? "transitive" with
  | some id, _ => .tree id
  | none, some id => .transitive id
  | none, none => .order

/-- The answer to a request for help: only the commands of the program can be explained. -/
def helpFor : List String → UsageFault
  | [] => .displayHelp
  | [name] => if names.contains name then .displayHelp else .invalidSubcommand
  | _ => .invalidSubcommand

/-- The command of a name and its arguments, with the options that were given. -/
def ofName (name : String) (args : List String) : Except UsageFault (Command × Given) :=
  match name with
  | "compile" => do
    let g ← compileGrammar.read args
    return (.compile (g.operand.getD "") (g.value? "output") (g.has "no-cache") (g.has "force"), g)
  | "validate" => do
    let g ← validateGrammar.read args
    return (.validate (g.operand.getD "") (g.value? "format" = some "json"), g)
  | "graph" => do
    let g ← graphGrammar.read args
    return (.graph (g.operand.getD "") (viewOf g), g)
  | "init" => do
    let g ← initGrammar.read args
    return (.init (g.operand.getD "") (g.value? "dir") (g.has "force"), g)
  | _ => .error (helpFor args)

end Command

/-- The verbosity that options ask for, given before the command and after it. -/
def Verbosity.ofOptions (before after : Command.Given) : Verbosity :=
  if before.has "verbose" || after.has "verbose" then .verbose
  else if before.has "quiet" || after.has "quiet" then .quiet
  else .normal

/-- What the arguments of the program ask for. Faults after the name of the command come first. -/
def Invocation.ofArguments (args : List String) : Except Command.UsageFault Invocation := do
  match ← Command.programGrammar.scan .none args with
  | (before, none) =>
    if before.options.isEmpty then throw .displayHelpOnMissing else throw .missingSubcommand
  | (before, some (name, rest)) =>
    let (command, after) ← Command.ofName name rest
    if Command.programGrammar.hasConflict before then throw .argumentConflict
    return ⟨command, .ofOptions before after⟩

end ArchSpec
