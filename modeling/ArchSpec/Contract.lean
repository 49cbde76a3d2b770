import ArchSpec.Method
import ArchSpec.Text.Basic
import ArchSpec.Value

/-!
# API contracts

A contract is a table of the operations that a server offers, kept under method and path. Bindings
of use-cases are looked up in it; path templates are compared as they are written.

* `Contract.find?` — the operation of a method and a path.
* `toValue` — contracts, operations and schemas as document values: what is empty is left out.
-/

namespace ArchSpec

/-- What a request or response body may be. -/
structure Shape where
  /-- The basic type. -/
  type : Option String
  format : Option String
  /-- A name for a schema kept elsewhere; then all else is empty. -/
  reference : Option String
  required : List String
  choices : List Value
  nullable : Bool
  deriving Inhabited

/-- A schema: what its values are, and what their properties and items are. -/
inductive Schema where
  | mk (shape : Shape) (properties : List (String × Schema)) (items : Option Schema)
  deriving Inhabited

namespace Schema

def shape : Schema → Shape
  | .mk s _ _ => s

def properties : Schema → List (String × Schema)
  | .mk _ ps _ => ps

def items : Schema → Option Schema
  | .mk _ _ i => i

/-- The last part of a reference. -/
def referenceName (r : String) : String :=
  String.ofList ((Text.splitOn '/' r.toList).getLastD [])

end Schema

/-- A parameter of an operation. -/
structure Parameter where
  name : String
  /-- Where it is passed: in the path, the query, a header or a cookie. -/
  location : String
  required : Bool
  schema : Option Schema
  deriving Inhabited

/-- The schemas of a body by media type. -/
abbrev Content := SortedMap (Option Schema)

/-- The body of a request. -/
structure RequestBody where
  required : Bool
  content : Content
  deriving Inhabited

/-- A response of an operation. -/
structure Response where
  description : String
  content : Content
  deriving Inhabited

/-- One operation of a contract. -/
structure Operation where
  id : Option String
  method : Method
  path : String
  summary : String
  description : String
  parameters : List Parameter
  requestBody : Option RequestBody
  /-- By status code. -/
  responses : SortedMap Response
  tags : List String
  deriving Inhabited

def Operation.key (o : Operation) : String := o.method.key o.path

/-- A contract. -/
structure Contract where
  title : String
  version : String
  operations : SortedMap Operation
  deriving Inhabited

namespace Contract

def empty : Contract := ⟨"", "", .empty⟩

/-- The operation of a method and a path. -/
def find? (c : Contract) (m : Method) (path : String) : Option Operation :=
  c.operations.get? (m.key path)

/-- Add an operation, over an earlier one of its method and path. -/
def insert (c : Contract) (o : Operation) : Contract :=
  { c with operations := c.operations.insert o.key o }

end Contract

/-! ## As document values -/

/-- A field that is left out when it is absent. -/
def optionalField (name : String) (v : Option Value) : List (String × Value) :=
  match v with
  | none => []
  | some v => [(name, v)]

/-- A field that is left out when its text is empty. -/
def textUnlessEmpty (name s : String) : List (String × Value) :=
  if s.isEmpty then [] else [(name, .text s)]

/-- A field that is left out when its list is empty. -/
def listUnlessEmpty (name : String) (vs : List Value) : List (String × Value) :=
  if vs.isEmpty then [] else [(name, .list vs)]

/-- The fields of the type of a schema. -/
def Shape.fields (s : Shape) : List (String × Value) :=
  optionalField "type" (s.type.map .text) ++ optionalField "format" (s.format.map .text) ++
    optionalField "$ref" (s.reference.map .text) ++
    listUnlessEmpty "required" (s.required.map .text) ++ listUnlessEmpty "enum" s.choices ++
    (if s.nullable then [("nullable", .bool true)] else [])

mutual

def Schema.toValue : Schema → Value
  | .mk shape properties items =>
    .ofFields (shape.fields ++
      (if properties.isEmpty then []
        else [("properties", .object (Schema.propertyValues properties))]) ++
      (match items with
        | none => []
        | some i => [("items", i.toValue)]))

/-- The properties of a schema as document values. -/
def Schema.propertyValues : List (String × Schema) → List (String × Value)
  | [] => []
  | (k, s) :: rest => (k, s.toValue) :: Schema.propertyValues rest

end

def SortedMap.toValue {α : Type} (f : α → Value) (m : SortedMap α) : Value :=
  .object (m.entries.map fun e => (e.1, f e.2))

def schemaValue : Option Schema → Value
  | none => .null
  | some s => s.toValue

def Parameter.toValue (p : Parameter) : Value :=
  .ofFields ([("name", .text p.name), ("location", .text p.location),
    ("required", .bool p.required)] ++ optionalField "schema" (p.schema.map Schema.toValue))

/-- A request body as a document value. -/
def RequestBody.toValue (b : RequestBody) : Value :=
  .ofFields [("required", .bool b.required), ("content", b.content.toValue schemaValue)]

def Response.toValue (r : Response) : Value :=
  .ofFields [("description", .text r.description), ("content", r.content.toValue schemaValue)]

def Operation.toValue (o : Operation) : Value :=
  .ofFields (optionalField "operation_id" (o.id.map .text) ++
    [("method", .text o.method.text), ("path", .text o.path)] ++
    textUnlessEmpty "summary" o.summary ++ textUnlessEmpty "description" o.description ++
    listUnlessEmpty "parameters" (o.parameters.map Parameter.toValue) ++
    optionalField "request_body" (o.requestBody.map RequestBody.toValue) ++
    [("responses", o.responses.toValue Response.toValue)] ++
    listUnlessEmpty "tags" (o.tags.map .text))

def Contract.toValue (c : Contract) : Value :=
  .ofFields [("title", .text c.title), ("version", .text c.version),
    ("operations", c.operations.toValue Operation.toValue)]

end ArchSpec
