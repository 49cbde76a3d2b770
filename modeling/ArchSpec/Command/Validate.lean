import ArchSpec.Command.Output

/-!
# Validating

A specification is checked and nothing is generated. The report is for people or, as one JSON
object, for programs; either is printed whether or not there are problems.
-/

namespace ArchSpec.Command

/-- A problem in a report. -/
structure ReportEntry where
  category : Option String
  component : Option String
  message : String
  position : Option Position
  deriving DecidableEq, Repr

/-- The result of a validation. -/
structure ValidationReport where
  valid : Bool
  source : Path
  /-- The stage that failed. -/
  stage : Option String
  /-- The numbers of components and edges. -/
  components : Nat
  edges : Nat
  errors : List ReportEntry
  deriving DecidableEq, Repr

namespace ReportEntry

def ofDiagnostic (d : Diagnostic) : ReportEntry :=
  ⟨some d.category.text, d.component?, d.message, d.position?⟩

def ofFailure (e : Failure) : ReportEntry := ⟨none, none, e.message, none⟩

end ReportEntry

namespace ValidationReport

def ofFailure (source : Path) (e : Failure) : ValidationReport :=
  match e.cause with
  | .fault (.stageFailed stage _ errors) =>
    ⟨false, source, some stage, 0, 0, errors.map .ofDiagnostic⟩
  | _ => ⟨false, source, none, 0, 0, [.ofFailure e]⟩

/-- The report of a model without problems. -/
def ofModel (source : Path) (m : Model) : ValidationReport :=
  ⟨true, source, none, m.components.size, m.edges.length, []⟩

def positionValue : Option Position → Value
  | none => .null
  | some p => .object [("file", .text p.file), ("line", .ofNat p.line), ("column", .ofNat p.column)]

def entryValue (e : ReportEntry) : Value :=
  .object [("category", .ofText? e.category), ("component", .ofText? e.component),
    ("message", .text e.message), ("position", positionValue e.position)]

def toValue (r : ValidationReport) : Value :=
  .object [("valid", .bool r.valid), ("spec", .text r.source), ("stage", .ofText? r.stage),
    ("components", .ofNat r.components), ("edges", .ofNat r.edges),
    ("errors", .list (r.errors.map entryValue))]

/-- A report for people. -/
def lines (r : ValidationReport) : String :=
  if r.valid then
    Output.line (Output.success ++ r.source ++ " is valid (" ++ toString r.components ++
      " components, " ++ toString r.edges ++ " edges)")
  else
    Output.line ("✗ " ++ r.source ++ " failed at stage " ++ r.stage.getD "load" ++ ":") ++
      String.join (r.errors.map fun e => Output.line ("  • " ++ e.message))

/-- A report in one of the two formats. -/
def text (r : ValidationReport) (json : Bool) : String :=
  if json then Output.line (Json.pretty r.toValue) else r.lines

end ValidationReport

variable {m : Type → Type} [Monad m] [FileStore m]

def validateRun (source : Path) (json : Bool) : m Output := do
  match ← (Configuration.forSpecification (m := m) source).run with
  | .error e => return .failed e
  | .ok c =>
    match ← Pipeline.validation.run (Progress.start source c false) with
    | (_, .error e) => return ⟨(ValidationReport.ofFailure source e).text json, .error e⟩
    | (p, .ok ()) =>
      match p.requireModel with
      | .error f => return .failed (.ofFault f)
      | .ok model => return .printed ((ValidationReport.ofModel source model).text json)

end ArchSpec.Command
