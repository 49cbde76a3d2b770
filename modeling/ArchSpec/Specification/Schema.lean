import ArchSpec.Diagnostic
import ArchSpec.Limits
import ArchSpec.Method
import ArchSpec.Value
import ArchSpec.Version

/-!
# The schema of specifications

The shape that every document must have before anything in it is given a meaning. Each violation
is reported with a JSON pointer to where it is.

* `Kind.rules` — the fields of each kind of component, with their forms.
* `Schema.check` — the violations of a document, in document order.
-/

namespace ArchSpec

/-- What the value of a field has to be. -/
inductive FieldForm where
  | text
  | texts
  | port
  | binding
  deriving DecidableEq, Repr

/-- A field of a kind of component. -/
structure FieldRule where
  name : String
  form : FieldForm
  required : Bool
  deriving DecidableEq, Repr

/-- The fields of a kind of component. -/
def Kind.rules : Kind → List FieldRule
  | .server =>
    [⟨"framework", .text, true⟩, ⟨"port", .port, true⟩, ⟨"openapi", .text, false⟩,
      ⟨"middleware", .texts, false⟩, ⟨"depends_on", .texts, false⟩]
  | .middleware =>
    [⟨"provider", .text, true⟩, ⟨"config", .text, false⟩, ⟨"model", .text, false⟩,
      ⟨"policy", .text, false⟩, ⟨"depends_on", .texts, false⟩]
  | .database => [⟨"provider", .text, true⟩, ⟨"schema", .text, true⟩]
  | .usecase =>
    [⟨"binds_to", .binding, true⟩, ⟨"goal", .text, true⟩, ⟨"actor", .text, false⟩,
      ⟨"middleware", .texts, false⟩, ⟨"preconditions", .texts, false⟩,
      ⟨"acceptance_criteria", .texts, false⟩, ⟨"postconditions", .texts, false⟩]

namespace Schema

/-! ## Forms of texts -/

/-- Whether `c` may stand in a part of an ID. -/
def isIdChar (c : Char) : Bool :=
  ('a' ≤ c && c ≤ 'z') || ('0' ≤ c && c ≤ '9') || c = '_' || c = '-'

/-- The form of IDs as messages name it. -/
def idForm : String := "^[a-z][a-z0-9_-]*(\\.[a-z0-9_-]+)+$"

/-- Whether a text has the form of an ID: parts of the allowed characters between dots, at least
two, of which the first begins with a letter. -/
def isId (s : String) : Bool :=
  match Text.splitOn '.' s.toList with
  | (c :: first) :: part :: parts =>
    ('a' ≤ c && c ≤ 'z') && first.all isIdChar &&
      (part :: parts).all (fun p => !p.isEmpty && p.all isIdChar)
  | _ => false

/-- The form of bindings as messages name it. -/
def bindingForm : String := "^[^:]+:(GET|POST|PUT|PATCH|DELETE|HEAD|OPTIONS):/.*$"

/-- Whether a text has the form of a binding: a server, a method and a path between the first two
colons, the path beginning with a slash and all on one line. -/
def isBinding (s : String) : Bool :=
  match Text.cut ':' s.toList with
  | (_, none) => false
  | (server, some rest) =>
    !server.isEmpty && Method.all.any fun m =>
      match Text.cut ':' rest with
      | (_, none) => false
      | (method, some path) =>
        method = m.text.toList && path.head? = some '/' && !path.contains '\n'

/-! ## Violations -/

/-- The name of a type of value. -/
def typeName : Value → String
  | .null => "null"
  | .bool _ => "boolean"
  | .int _ => "integer"
  | .float _ => "number"
  | .text _ => "string"
  | .list _ => "array"
  | .object _ => "object"

/-- One character of a key inside a pointer. -/
def escapeChar (c : Char) : List Char :=
  if c = '~' then ['~', '0'] else if c = '/' then ['~', '1'] else [c]

/-- A key inside a pointer. -/
def escape (key : String) : String := String.ofList (key.toList.flatMap escapeChar)

/-- The pointer to a field. -/
def child (path key : String) : String := path ++ "/" ++ escape key

/-- The pointer to an item of a list. -/
def item (path : String) (index : Nat) : String := path ++ "/" ++ toString index

/-- A value of another type than expected. -/
def mismatch (path expected : String) (v : Value) : Diagnostic :=
  .schemaViolation path ("expected " ++ expected ++ ", but got " ++ typeName v)

/-- A required field that is not there. -/
def missing (path key : String) : Diagnostic :=
  .schemaViolation path ("missing property '" ++ key ++ "'")

/-- The fields of an object that are none of the allowed ones; `context` ends the message. -/
def additional (path : String) (allowed : List String) (context : String)
    (fields : List (String × Value)) : List Diagnostic :=
  (fields.filter fun f => !allowed.contains f.1).map fun f =>
    .schemaViolation (child path f.1) ("additional property '" ++ f.1 ++ "' not allowed" ++ context)

/-- Violations of a list of texts, at its items. -/
def checkTextItems (path : String) (index : Nat) : List Value → List Diagnostic
  | [] => []
  | .text _ :: rest => checkTextItems path (index + 1) rest
  | v :: rest => mismatch (item path index) "string" v :: checkTextItems path (index + 1) rest

/-- Violations of the form of a field. -/
def checkForm (path : String) : FieldForm → Value → List Diagnostic
  | .text, .text _ => []
  | .text, v => [mismatch path "string" v]
  | .texts, .list items => checkTextItems path 0 items
  | .texts, v => [mismatch path "array" v]
  | .port, .int i =>
    if !Value.fitsSigned i then [mismatch path "integer" (.int i)]
    else if minPort ≤ i ∧ i ≤ maxPort then []
    else [.schemaViolation path ("port must be between " ++ toString minPort ++ " and " ++
      toString maxPort ++ ", got " ++ toString i)]
  | .port, v => [mismatch path "integer" v]
  | .binding, .text s =>
    if isBinding s then []
    else [.schemaViolation path ("'" ++ s ++ "' does not match pattern '" ++ bindingForm ++ "'")]
  | .binding, v => [mismatch path "string" v]

/-- Violations of a rule by the fields of a component. -/
def checkRule (path : String) (fields : List (String × Value)) (r : FieldRule) :
    List Diagnostic :=
  match findEntry r.name fields with
  | none => if r.required then [missing path r.name] else []
  | some v => checkForm (child path r.name) r.form v

/-- Violations of the rules of a kind by the fields of a component. -/
def checkFields (path : String) (k : Kind) (fields : List (String × Value)) : List Diagnostic :=
  additional path (k.rules.map (·.name)) (" for " ++ k.text) fields ++
    k.rules.flatMap (checkRule path fields)

/-- Violations by the ID of a component. -/
def checkId (path : String) (v : Option Value) : List Diagnostic :=
  match v with
  | none => [missing path "id"]
  | some (.text s) =>
    if isId s then []
    else [.schemaViolation (child path "id")
      ("'" ++ s ++ "' does not match pattern '" ++ idForm ++ "'")]
  | some v => [mismatch (child path "id") "string" v]

/-- Violations by the kind of a component. -/
def checkKind (path : String) (v : Option Value) : List Diagnostic :=
  match v with
  | none => [missing path "kind"]
  | some (.text s) =>
    match Kind.ofText? s with
    | some _ => []
    | none => [.schemaViolation (child path "kind") ("value must be one of " ++
        String.intercalate ", " Kind.spellings ++ ", got '" ++ s ++ "'")]
  | some v => [mismatch (child path "kind") "string" v]

/-- The kind of a component, if it has one. -/
def kindOf? (v : Option Value) : Option Kind := (v.bind Value.text?).bind Kind.ofText?

/-- Violations by the fields of a component, which are looked at only if its kind is known. -/
def checkSpec (path : String) (k : Option Kind) (v : Option Value) : List Diagnostic :=
  match v with
  | none => [missing path "spec"]
  | some (.object fields) =>
    match k with
    | none => []
    | some k => checkFields (child path "spec") k fields
  | some v => [mismatch (child path "spec") "object" v]

def checkComponent (path : String) : Value → List Diagnostic
  | .object fields =>
    let kind := findEntry "kind" fields
    additional path ["id", "kind", "spec"] "" fields ++ checkId path (findEntry "id" fields) ++
      checkKind path kind ++ checkSpec path (kindOf? kind) (findEntry "spec" fields)
  | v => [mismatch path "object" v]

/-- Violations by the components of a list, the first of which has the number `index`. -/
def checkComponents (path : String) (index : Nat) : List Value → List Diagnostic
  | [] => []
  | v :: rest => checkComponent (item path index) v ++ checkComponents path (index + 1) rest

def checkVersion : Option Value → List Diagnostic
  | none => [missing "" "version"]
  | some (.text s) =>
    if Version.isValid s then []
    else [.schemaViolation "/version" ("'" ++ s ++ "' is not a valid semantic version")]
  | some v => [mismatch "/version" "string" v]

def checkName : Option Value → List Diagnostic
  | none => [missing "" "name"]
  | some (.text s) => if s.isEmpty then [.schemaViolation "/name" "name must not be empty"] else []
  | some v => [mismatch "/name" "string" v]

def checkDescription : Option Value → List Diagnostic
  | none => []
  | some (.text _) => []
  | some v => [mismatch "/description" "string" v]

def checkComponentList : Option Value → List Diagnostic
  | none => [missing "" "components"]
  | some (.list items) => checkComponents "/components" 0 items
  | some v => [mismatch "/components" "array" v]

/-- The violations of a document, in document order. -/
def check : Value → List Diagnostic
  | .object fields =>
    additional "" ["version", "name", "description", "components"] "" fields ++
      checkVersion (findEntry "version" fields) ++ checkName (findEntry "name" fields) ++
      checkDescription (findEntry "description" fields) ++
      checkComponentList (findEntry "components" fields)
  | v => [.structural ("expected a mapping at the root, got " ++ typeName v)]

end Schema

end ArchSpec
