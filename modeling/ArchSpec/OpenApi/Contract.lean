import ArchSpec.Contract
import ArchSpec.OpenApi.Document
import ArchSpec.Failure

/-!
# The contract of an OpenAPI document

* `OpenApi.Document.contract` — one operation for each path and method that the document gives
  one; its parameters are its own, then those of the path that it does not replace.
* `OpenApi.contract` — the contract of a text, or why there is none.
-/

namespace ArchSpec.OpenApi

/-- The type of a schema and whether null is among the alternatives: of a list of types, the first
one that is not null. -/
def TypeName.resolve : Option TypeName → Option String × Bool
  | none => (none, false)
  | some (.single t) => (some t, false)
  | some (.several ts) => (ts.find? (· ≠ "null"), ts.any (· = "null"))

/-- What the values of a schema are. -/
def SchemaHead.shape (h : SchemaHead) : Shape :=
  let (type, nullable) := TypeName.resolve h.type
  ⟨type, h.format, none, h.required, h.choices, h.nullable || nullable⟩

/-- The schema that is nothing but a reference. -/
def referenceSchema (r : String) : Schema := .mk ⟨none, none, some r, [], [], false⟩ [] none

mutual

/-- The schema of a written one; a reference replaces all that stands beside it. -/
def SchemaNode.schema : SchemaNode → Schema
  | .mk head properties items =>
    match head.reference with
    | some r => referenceSchema r
    | none => .mk head.shape (SchemaNode.propertySchemas properties) (match items with
        | none => none
        | some i => some i.schema)

def SchemaNode.propertySchemas : List (String × SchemaNode) → List (String × Schema)
  | [] => []
  | (k, s) :: rest => (k, s.schema) :: SchemaNode.propertySchemas rest

end

def ParameterNode.parameter (p : ParameterNode) : Parameter :=
  ⟨p.name, p.location, p.required, p.schema.map SchemaNode.schema⟩

/-- Add a parameter unless it has no name or one of its name and place is there. -/
def addParameter (ps : List Parameter) (p : ParameterNode) : List Parameter :=
  if p.name.isEmpty || ps.any (fun q => q.name = p.name && q.location = p.location) then ps
  else ps ++ [p.parameter]

/-- The parameters of an operation: its own, then those of its path that it does not replace. -/
def mergeParameters (own shared : List ParameterNode) : List Parameter :=
  (own ++ shared).foldl addParameter []

/-- The schemas of a body. -/
def contentOf (m : MediaTypes) : Content := m.mapValues fun _ s => s.map SchemaNode.schema

/-- An operation of a path, which passes on its parameters. -/
def OperationNode.operation (o : OperationNode) (method : Method) (path : String)
    (shared : List ParameterNode) : Operation where
  id := o.id
  method := method
  path := path
  summary := o.summary
  description := o.description
  parameters := mergeParameters o.parameters shared
  requestBody := o.requestBody.map fun b => ⟨b.required, contentOf b.content⟩
  responses := o.responses.mapValues fun _ r => ⟨r.description, contentOf r.content⟩
  tags := o.tags

/-- What is written for a method. -/
def PathItem.at? (i : PathItem) : Method → Option OperationNode
  | .get => i.get
  | .post => i.post
  | .put => i.put
  | .patch => i.patch
  | .delete => i.delete
  | .head => i.head
  | .options => i.options

def PathItem.operations (i : PathItem) (path : String) : List Operation :=
  Method.all.filterMap fun m => (i.at? m).map fun o => o.operation m path i.parameters

def Document.contract (d : Document) : Contract :=
  let empty : Contract := match d.info with
    | none => .empty
    | some info => ⟨info.title, info.version, .empty⟩
  (d.paths.entries.flatMap fun e => e.2.operations e.1).foldl Contract.insert empty

/-- Whether a document is of a version that can be read. -/
def Document.isSupported (d : Document) : Bool := Text.beginsWith "3." d.openapi

def contract (s : String) : Except Failure Contract :=
  match Document.read s with
  | .error e => .error ⟨["failed to parse OpenAPI document"], .plain e.message⟩
  | .ok d =>
    if d.isSupported then .ok d.contract
    else .error (.plain ("unsupported OpenAPI version " ++ Text.quoted d.openapi ++
      ", expected 3.x"))

end ArchSpec.OpenApi
