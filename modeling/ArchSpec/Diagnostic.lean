import ArchSpec.Kind
import ArchSpec.Position

/-!
# Diagnostics

Everything that is wrong with a specification is a `Diagnostic`: plain data that checkers collect,
so that one run reports every problem it can see.

* `Diagnostic.message` — the text that is shown.
* `Diagnostic.sort` — the order in which diagnostics are shown: by component, then place, then
  message.
-/

namespace ArchSpec

/-- A problem with a specification. -/
inductive Diagnostic where
  /-- The document cannot be read as a specification at all. -/
  | structural (message : String)
  /-- The document breaks a rule of the schema at `path`. -/
  | schemaViolation (path message : String)
  | unknownKind (component kind : String) (position : Option Position)
  | unresolvedReference (component reference : String) (position : Option Position)
  | duplicateSymbol (name existingKind : String) (position : Option Position)
  /-- A text of a component does not have the form that its field asks for. -/
  | format (component message : String) (position : Option Position)
  /-- A reference names a component of another kind than its field asks for. -/
  | typeMismatch (component field reference : String) (expected actual : Kind)
      (position : Option Position)
  /-- A required field is empty; `requiredBy` says what requires it if not every component does. -/
  | missingField (component field : String) (requiredBy : Option String)
      (position : Option Position)
  /-- The document has no version or no name. -/
  | missingMetadata (field : String)
  | range (component field : String) (value min max : Int) (position : Option Position)
  /-- A component needs another component that is not there. -/
  | crossComponent (component message : String)
  | cycle (components : List String)
  | contractParse (component path reason : String) (position : Option Position)
  | operationNotFound (component server method path : String) (position : Option Position)
  deriving DecidableEq, Repr, Inhabited

/-- The classes of diagnostics. -/
inductive Category where
  | structural
  | schemaViolation
  | unknownKind
  | unresolvedReference
  | duplicateSymbol
  | format
  | typeMismatch
  | missingField
  | range
  | crossComponentRequirement
  | cycle
  | contract
  deriving DecidableEq, Repr

/-- The name of a class in reports. -/
def Category.text : Category → String
  | .structural => "structural"
  | .schemaViolation => "schema_violation"
  | .unknownKind => "unknown_kind"
  | .unresolvedReference => "unresolved_reference"
  | .duplicateSymbol => "duplicate_symbol"
  | .format => "format"
  | .typeMismatch => "type_mismatch"
  | .missingField => "missing_field"
  | .range => "range"
  | .crossComponentRequirement => "cross_component_requirement"
  | .cycle => "cycle"
  | .contract => "contract"

/-- A cycle as the walk around it, back to where it starts. -/
def cycleText : List String → String
  | [] => ""
  | first :: rest => String.intercalate " -> " (first :: rest) ++ " -> " ++ first

namespace Diagnostic

def category : Diagnostic → Category
  | structural .. => .structural
  | schemaViolation .. => .schemaViolation
  | unknownKind .. => .unknownKind
  | unresolvedReference .. => .unresolvedReference
  | duplicateSymbol .. => .duplicateSymbol
  | format .. => .format
  | typeMismatch .. => .typeMismatch
  | missingField .. => .missingField
  | missingMetadata .. => .missingField
  | range .. => .range
  | crossComponent .. => .crossComponentRequirement
  | cycle .. => .cycle
  | contractParse .. => .contract
  | operationNotFound .. => .contract

/-- The component that a diagnostic is about; for a cycle, the first component on it. -/
def component? : Diagnostic → Option String
  | structural .. => none
  | schemaViolation .. => none
  | missingMetadata .. => none
  | unknownKind c .. => some c
  | unresolvedReference c .. => some c
  | duplicateSymbol n .. => some n
  | format c .. => some c
  | typeMismatch c .. => some c
  | missingField c .. => some c
  | range c .. => some c
  | crossComponent c .. => some c
  | cycle cs => cs.head?
  | contractParse c .. => some c
  | operationNotFound c .. => some c

/-- The place of a diagnostic, if it is known. -/
def position? : Diagnostic → Option Position
  | unknownKind _ _ p => p
  | unresolvedReference _ _ p => p
  | duplicateSymbol _ _ p => p
  | format _ _ p => p
  | typeMismatch _ _ _ _ _ p => p
  | missingField _ _ _ p => p
  | range _ _ _ _ _ p => p
  | contractParse _ _ _ p => p
  | operationNotFound _ _ _ _ p => p
  | _ => none

/-- The place at the end of a message. -/
def atPosition : Option Position → String
  | none => ""
  | some p => " (at " ++ p.text ++ ")"

/-- What requires a field, at the end of a message. -/
def requiredBySuffix : Option String → String
  | none => ""
  | some s => " (required by " ++ s ++ ")"

def message : Diagnostic → String
  | structural m => "malformed specification: " ++ m
  | schemaViolation path m => m ++ " (at " ++ path ++ ")"
  | unknownKind c k p => "component \"" ++ c ++ "\": unknown kind: " ++ k ++ atPosition p
  | unresolvedReference c r p =>
    "unresolved reference \"" ++ r ++ "\" in component \"" ++ c ++ "\"" ++ atPosition p
  | duplicateSymbol n k p => "symbol \"" ++ n ++ "\" already defined as " ++ k ++ atPosition p
  | format c m p => c ++ ": " ++ m ++ atPosition p
  | typeMismatch c f r expected actual p =>
    c ++ ": " ++ f ++ " reference \"" ++ r ++ "\" points to " ++ actual.text ++ ", expected " ++
      expected.text ++ atPosition p
  | missingField c f source p =>
    c ++ ": missing required field: " ++ f ++ requiredBySuffix source ++ atPosition p
  | missingMetadata f => "specification " ++ f ++ " is required"
  | range c f v lo hi p =>
    c ++ ": " ++ f ++ " must be between " ++ toString lo ++ " and " ++ toString hi ++ ", got " ++
      toString v ++ atPosition p
  | crossComponent c m => c ++ ": " ++ m
  | cycle cs => "dependency cycle: " ++ cycleText cs
  | contractParse c path reason p =>
    "component \"" ++ c ++ "\": failed to parse API contract \"" ++ path ++ "\": " ++ reason ++
      atPosition p
  | operationNotFound c server method path p =>
    "component \"" ++ c ++ "\": operation " ++ method ++ ":" ++ path ++ " not found in \"" ++
      server ++ "\"'s API contract" ++ atPosition p

/-- Texts in order, and a missing one before all of them. -/
def orderFirst : Option String → Option String → Ordering
  | none, none => .eq
  | none, some _ => .lt
  | some _, none => .gt
  | some a, some b => compare a b

/-- Diagnostics by component, then place, then message. Those without a component come first, and
within a component those without a place come last. -/
def order (a b : Diagnostic) : Ordering :=
  (orderFirst a.component? b.component?).then
    ((Position.orderLast a.position? b.position?).then (compare a.message b.message))

/-- Diagnostics in the order in which they are shown. -/
def sort (ds : List Diagnostic) : List Diagnostic := ds.mergeSort fun a b => (order a b).isLE

end Diagnostic

end ArchSpec
