import ArchSpec.Diagnostic

/-!
# Failures

A run stops at a `Failure`: what went wrong, and what was being done when it did, outermost first.
`Report.ofFailure` says how a failure is shown: the message with details and a suggestion.
-/

namespace ArchSpec

/-- The kinds of file system errors that reports tell apart. -/
inductive IoKind where
  | notFound
  | permissionDenied
  | other
  deriving DecidableEq, Repr

/-- An error of the file system, with the text the system gives it. -/
structure IoError where
  kind : IoKind
  message : String
  deriving DecidableEq, Repr

namespace IoError

def notFound : IoError := ⟨.notFound, "No such file or directory (os error 2)"⟩
def busy : IoError := ⟨.other, "Device or resource busy (os error 16)"⟩
def alreadyExists : IoError := ⟨.other, "File exists (os error 17)"⟩
def notADirectory : IoError := ⟨.other, "Not a directory (os error 20)"⟩
def isADirectory : IoError := ⟨.other, "Is a directory (os error 21)"⟩
def nameTooLong : IoError := ⟨.other, "File name too long (os error 36)"⟩
def nulInName : IoError := ⟨.other, "file name contained an unexpected NUL byte"⟩

end IoError

/-- The failures that the compiler itself declares. -/
inductive Fault where
  | specNotFound (path : String)
  | specParse (file reason : String)
  /-- A stage reported diagnostics. -/
  | stageFailed (stage message : String) (errors : List Diagnostic)
  | componentNotFound (id : String)
  /-- Two generators planned one path. -/
  | artifactConflict (path existing attempted : String)
  /-- A path leads out of the output directory. -/
  | pathTraversal (path : String)
  | cache (message : String)
  | config (message : String)
  | other (message : String)
  deriving DecidableEq, Repr, Inhabited

def Fault.message : Fault → String
  | .specNotFound path => "Specification file not found: " ++ path
  | .specParse file reason => "Failed to parse specification " ++ file ++ ": " ++ reason
  | .stageFailed stage m _ => "Stage '" ++ stage ++ "' failed: " ++ m
  | .componentNotFound id => "Component '" ++ id ++ "' not found"
  | .artifactConflict path existing attempted =>
    "artifact path conflict for \"" ++ path ++ "\": already planned by \"" ++ existing ++
      "\", attempted by \"" ++ attempted ++ "\""
  | .pathTraversal path => "Artifact path '" ++ path ++ "' escapes output directory"
  | .cache m => "Cache error: " ++ m
  | .config m => "Configuration error: " ++ m
  | .other m => m

/-- The diagnostics that a declared failure carries. -/
def Fault.diagnostics : Fault → List Diagnostic
  | .stageFailed _ _ errors => errors
  | _ => []

/-- What went wrong. -/
inductive Cause where
  | fault (f : Fault)
  /-- The components cannot be put in order because of these cycles. -/
  | cyclic (cycles : List (List String))
  /-- A configuration file is malformed. -/
  | toml (reason : String)
  | io (e : IoError)
  | plain (message : String)
  deriving DecidableEq, Repr, Inhabited

def Cause.message : Cause → String
  | .fault f => f.message
  | .cyclic cycles => "dependency cycle detected: " ++ ((cycles.head?.map cycleText).getD "")
  | .toml reason => reason
  | .io e => e.message
  | .plain m => m

/-- A cause and what was being done, outermost first. -/
structure Failure where
  context : List String
  cause : Cause
  deriving DecidableEq, Repr, Inhabited

namespace Failure

def ofFault (f : Fault) : Failure := ⟨[], .fault f⟩

/-- A failure with nothing but a text. -/
def plain (message : String) : Failure := ⟨[], .plain message⟩

/-- A failure of the file system while doing `what`. -/
def ofIo (e : IoError) (what : String) : Failure := ⟨[what], .io e⟩

/-- Say what was being done. -/
def within (what : String) (f : Failure) : Failure := { f with context := what :: f.context }

/-- All texts, outermost first. -/
def chain (f : Failure) : List String := f.context ++ [f.cause.message]

/-- The outermost text. -/
def message (f : Failure) : String := f.context.headD f.cause.message

/-- All texts on one line. -/
def fullMessage (f : Failure) : String := String.intercalate ": " f.chain

end Failure

/-- How a failure is shown: as a declared failure with details and a suggestion. -/
structure Report where
  fault : Fault
  details : Option String
  suggestion : Option String
  deriving DecidableEq, Repr

namespace Report

def ofFault (f : Fault) : Report :=
  match f with
  | .specNotFound _ =>
    ⟨f, none,
      some "Check the path, or run 'bound init <name>' to create a starter specification"⟩
  | .specParse .. =>
    ⟨f, some "A specification must be a mapping with version, name and components",
      some "Check the YAML/JSON syntax: indentation, quoting and list markers"⟩
  | .stageFailed _ _ errors =>
    let details := String.intercalate "\n" (errors.map fun e => "  - " ++ e.message)
    ⟨f, if details.isEmpty then none else some ("\n" ++ details),
      some "Fix the reported problems and run 'bound validate' again"⟩
  | .artifactConflict .. =>
    ⟨f, some "Every output path may be produced by exactly one generator", none⟩
  | .pathTraversal _ => ⟨f, some "Generated files must stay inside the output directory", none⟩
  | .cache _ => ⟨f, none, some "Delete the cache file or run with --no-cache"⟩
  | .config _ => ⟨f, none, some "Check the values in bound.toml"⟩
  | .componentNotFound _ => ⟨f, none, none⟩
  | .other _ => ⟨f, none, none⟩

/-- The causes below the outermost text, numbered from one. -/
def causes (start : Nat) : List String → String
  | [] => ""
  | c :: rest => "\n  " ++ toString start ++ ": " ++ c ++ causes (start + 1) rest

/-- A failure that is shown by all its texts. -/
def ofChain (f : Failure) : Report :=
  let rest := f.chain.drop 1
  let below := if rest.isEmpty then "" else "\n\nCaused by:" ++ causes 1 rest
  ⟨.other (f.message ++ below), none, none⟩

/-- The report of a failure: a declared failure by itself, without its context; file system and
configuration errors with general guidance; anything else by all its texts. -/
def ofFailure (f : Failure) : Report :=
  match f.cause with
  | .fault b => ofFault b
  | .io e =>
    match e.kind with
    | .permissionDenied =>
      ⟨.other f.message, none,
        some "Check file ownership and permissions of the output directory"⟩
    | .notFound =>
      ⟨.other f.message, none,
        some "Check that the file or directory exists and the path is correct"⟩
    | .other => ofChain f
  | .toml reason => ⟨.config reason, none, some "Check the TOML syntax in bound.toml"⟩
  | .cyclic _ => ofChain f
  | .plain _ => ofChain f

/-- A labelled part of a report, if it is there. -/
def part (start label : String) (finish : String) : Option String → String
  | none => ""
  | some s => start ++ label ++ ": " ++ s ++ finish

def text (r : Report) : String :=
  r.fault.message ++ part "\n" "Details" "" r.details ++ part "\n" "Suggestion" "" r.suggestion

/-- The report as it is printed for the user. -/
def printed (r : Report) : String :=
  "error: " ++ r.fault.message ++ "\n" ++ part "" "details" "\n" r.details ++
    part "" "suggestion" "\n" r.suggestion

end Report

end ArchSpec
