import ArchSpec.Text.Basic

/-!
# Command lines

A command takes options and at most one operand. An option is a flag or has a value; its value is
the rest of its argument or the next argument. Two dashes end the options.

Arguments are read one by one, and a value is looked at only when what follows it has turned out to
be an argument of its own: of two faults on one command line, this decides which is reported.

* `Grammar.read` — the options and the operand of arguments, or why they are refused.
-/

namespace ArchSpec.Command

/-- Why a command line is refused, or what it asks for instead of running a command. -/
inductive UsageFault where
  | unknownArgument
  | invalidSubcommand
  | missingSubcommand
  | missingRequiredArgument
  | invalidValue
  | tooManyValues
  | argumentConflict
  | displayHelp
  | displayVersion
  /-- There are no arguments at all, so that help is shown. -/
  | displayHelpOnMissing
  deriving DecidableEq, Repr

namespace UsageFault

def text : UsageFault → String
  | unknownArgument => "UnknownArgument"
  | invalidSubcommand => "InvalidSubcommand"
  | missingSubcommand => "MissingSubcommand"
  | missingRequiredArgument => "MissingRequiredArgument"
  | invalidValue => "InvalidValue"
  | tooManyValues => "TooManyValues"
  | argumentConflict => "ArgumentConflict"
  | displayHelp => "DisplayHelp"
  | displayVersion => "DisplayVersion"
  | displayHelpOnMissing => "DisplayHelpOnMissingArgumentOrSubcommand"

end UsageFault

/-- What an option does. -/
inductive OptionForm where
  | flag
  /-- It has a value, which has to pass a test. -/
  | value (accepts : String → Bool)
  | help
  | version

/-- An option of a command. -/
structure OptionRule where
  long : String
  short : Option Char
  form : OptionForm

/-- What the arguments of a command may be. -/
structure Grammar where
  options : List OptionRule
  /-- Options that exclude each other. -/
  conflicts : List (String × String)
  /-- The test of the operand, if the command has one; then it is required. -/
  operand : Option (String → Bool)
  /-- The commands below this one. -/
  commands : List String

/-- What is still to be looked at. -/
inductive Pending where
  | nothing
  /-- An option that has a value, or waits for it. -/
  | option (rule : OptionRule) (accepts : String → Bool) (value : Option String)
  | operand (text : String)

/-- What has been read. -/
structure Given where
  pending : Pending
  /-- The options by their long names; flags have no text as their value. -/
  options : List (String × String)
  operand : Option String

namespace Given

/-- Before the first argument. -/
def none : Given := ⟨.nothing, [], .none⟩

def has (g : Given) (long : String) : Bool := (g.options.lookup long).isSome

def value? (g : Given) (long : String) : Option String := g.options.lookup long

/-- Add an option, which must not have been given before. -/
def addOption (g : Given) (long value : String) : Except UsageFault Given :=
  if g.has long then .error .argumentConflict
  else .ok { g with options := (long, value) :: g.options }

end Given

namespace Grammar

/-- Look at what is pending. -/
def settle (grammar : Grammar) (g : Given) : Except UsageFault Given :=
  let cleared := { g with pending := .nothing }
  match g.pending with
  | .nothing => .ok cleared
  | .option _ _ none => .error .invalidValue
  | .option rule accepts (some v) => do
    let g ← cleared.addOption rule.long v
    if accepts v then return g else throw .invalidValue
  | .operand text =>
    match grammar.operand with
    | none => .ok cleared
    | some accepts =>
      if accepts text then .ok { cleared with operand := some text } else .error .invalidValue

/-- Take an option, with what stands behind it in its argument, if anything does. -/
def takeOption (grammar : Grammar) (g : Given) (rule : OptionRule) (attached : Option String) :
    Except UsageFault Given :=
  match rule.form with
  | .value accepts => do
    let g ← grammar.settle g
    let waiting := { g with pending := .option rule accepts attached }
    if attached.isSome then grammar.settle waiting else return waiting
  | form =>
    if attached.isSome then .error .tooManyValues
    else do
      let g ← grammar.settle g
      match form with
      | .help => throw .displayHelp
      | .version => throw .displayVersion
      | _ => g.addOption rule.long ""

/-- Take an argument that begins with two dashes, given without them. -/
def takeLong (grammar : Grammar) (g : Given) (cs : List Char) : Except UsageFault Given :=
  let (name, value) := Text.cut '=' cs
  match grammar.options.find? (·.long = String.ofList name) with
  | none => .error .unknownArgument
  | some rule => grammar.takeOption g rule (value.map String.ofList)

/-- Take an argument that begins with one dash, given without it: flags, one a letter, and perhaps
an option with its value behind them. -/
def takeShort (grammar : Grammar) (g : Given) : List Char → Except UsageFault Given
  | [] => .ok g
  | c :: rest =>
    match grammar.options.find? (·.short = some c) with
    | none => .error .unknownArgument
    | some rule =>
      match rule.form with
      | .value _ =>
        match rest with
        | [] => grammar.takeOption g rule none
        | '=' :: value => grammar.takeOption g rule (some (String.ofList value))
        | value => grammar.takeOption g rule (some (String.ofList value))
      | _ => do takeShort grammar (← grammar.takeOption g rule none) rest

/-- Take an argument that is no option. -/
def takeOperand (grammar : Grammar) (g : Given) (afterDashes : Bool) (arg : String) :
    Except UsageFault Given :=
  let taken := g.operand.isSome || match g.pending with
    | .operand _ => true
    | _ => false
  match grammar.operand, taken with
  | some _, false => do return { (← grammar.settle g) with pending := .operand arg }
  | some _, true => .error .unknownArgument
  | none, _ =>
    if afterDashes && grammar.commands.contains arg then .error .unknownArgument
    else .error .invalidSubcommand

/-- Whether the next argument is the value of an option. -/
def isWaiting (g : Given) : Bool :=
  match g.pending with
  | .option _ _ none => true
  | _ => false

/-- The value that an option was waiting for. -/
def fill (g : Given) (value : String) : Given :=
  match g.pending with
  | .option rule accepts _ => { g with pending := .option rule accepts (some value) }
  | _ => g

/-- Take an argument before two dashes. -/
def take (grammar : Grammar) (g : Given) (arg : String) : Except UsageFault Given :=
  match arg.toList with
  | '-' :: '-' :: cs => grammar.takeLong g cs
  | '-' :: c :: cs => grammar.takeShort g (c :: cs)
  | _ => if isWaiting g then .ok (fill g arg) else grammar.takeOperand g false arg

/-- Take arguments after two dashes. -/
def takeOperands (grammar : Grammar) : Given → List String → Except UsageFault Given
  | g, [] => .ok g
  | g, arg :: rest => do grammar.takeOperands (← grammar.takeOperand g true arg) rest

/-- Read arguments up to the name of a command, which is returned with the arguments after it. -/
def scan (grammar : Grammar) : Given → List String →
    Except UsageFault (Given × Option (String × List String))
  | g, [] => .ok (g, none)
  | g, arg :: rest =>
    if grammar.commands.contains arg && !isWaiting g then .ok (g, some (arg, rest))
    else if arg = "--" then do return (← grammar.takeOperands g rest, none)
    else do grammar.scan (← grammar.take g arg) rest

/-- Whether two options are given that exclude each other. -/
def hasConflict (grammar : Grammar) (g : Given) : Bool :=
  grammar.conflicts.any fun c => g.has c.1 && g.has c.2

/-- Read all arguments of a command without commands below it. -/
def read (grammar : Grammar) (args : List String) : Except UsageFault Given := do
  let (g, _) ← grammar.scan .none args
  let g ← grammar.settle g
  if grammar.hasConflict g then throw .argumentConflict
  if grammar.operand.isSome && g.operand.isNone then throw .missingRequiredArgument
  return g

end Grammar

end ArchSpec.Command
