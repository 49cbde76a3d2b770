import ArchSpec.Yaml.Decode

/-!
# OpenAPI documents

The parts of an OpenAPI document that a contract is made of, as they are written. JSON is read as
YAML. Parts that no contract needs are passed over.

* `OpenApi.Document.read` — the document of a text.
-/

namespace ArchSpec.OpenApi

open Yaml (Decoder Tree fieldOr)

/-- The type of a schema: one, or a list of alternatives. -/
inductive TypeName where
  | single (name : String)
  | several (names : List String)
  deriving DecidableEq, Repr

/-- What a schema says about its values themselves. -/
structure SchemaHead where
  type : Option TypeName
  format : Option String
  reference : Option String
  required : List String
  choices : List Value
  nullable : Bool

/-- A schema as it is written; of its properties each key occurs once, in key order. -/
inductive SchemaNode where
  | mk (head : SchemaHead) (properties : List (String × SchemaNode)) (items : Option SchemaNode)

/-- A parameter as it is written; references are not followed, so it may lack a name. -/
structure ParameterNode where
  name : String
  location : String
  required : Bool
  schema : Option SchemaNode

/-- The schemas of a body by media type. -/
abbrev MediaTypes := SortedMap (Option SchemaNode)

/-- A request body as it is written. -/
structure BodyNode where
  required : Bool
  content : MediaTypes

/-- A response as it is written. -/
structure ResponseNode where
  description : String
  content : MediaTypes

/-- An operation as it is written. -/
structure OperationNode where
  id : Option String
  summary : String
  description : String
  tags : List String
  parameters : List ParameterNode
  requestBody : Option BodyNode
  responses : SortedMap ResponseNode

/-- What is written for a path: an operation for some methods, and parameters for all of them. -/
structure PathItem where
  get : Option OperationNode
  post : Option OperationNode
  put : Option OperationNode
  patch : Option OperationNode
  delete : Option OperationNode
  head : Option OperationNode
  options : Option OperationNode
  parameters : List ParameterNode

/-- Title and version of a document. -/
structure Info where
  title : String
  version : String

/-- An OpenAPI document. -/
structure Document where
  openapi : String
  info : Option Info
  paths : SortedMap PathItem

/-! ## Reading -/

section

variable (d : Yaml.Document)

/-- A type: a text or a list of texts. -/
def readType (depth : Nat) (t : Tree) : Decoder TypeName := do
  match ← d.value depth t with
  | .text s => return .single s
  | .list items =>
    match items.mapM Value.text? with
    | some names => return .several names
    | none => throw .wrongType
  | _ => throw .wrongType

def readTexts (depth : Nat) (t : Tree) : Decoder (List String) :=
  d.list (fun _ => d.text) depth t

def readText? (t : Tree) : Decoder (Option String) := d.optional d.text t

/-- What a schema says about its values themselves. -/
def readHead (depth : Nat) (fields : List (String × Tree)) : Decoder SchemaHead := do
  return {
    type := ← fieldOr fields "type" none (d.optional (readType d depth))
    format := ← fieldOr fields "format" none (readText? d)
    reference := ← fieldOr fields "$ref" none (readText? d)
    required := ← fieldOr fields "required" [] (readTexts d depth)
    choices := ← fieldOr fields "enum" [] (d.list d.value depth)
    nullable := ← fieldOr fields "nullable" false d.flag }

/-- A schema. Every schema inside another lies at a deeper level, so the levels bound `fuel`. -/
def readSchema : (fuel depth : Nat) → Tree → Decoder SchemaNode
  | 0, _, _ => throw .tooDeep
  | fuel + 1, depth, t => do
    let (depth, fields) ← d.record
      ["type", "format", "$ref", "properties", "items", "required", "enum", "nullable"] depth t
    let head ← readHead d depth fields
    let properties ← fieldOr fields "properties" .empty (d.table (readSchema fuel) depth)
    let items ← fieldOr fields "items" none (d.optional (readSchema fuel depth))
    return .mk head properties.entries items

def readSchema? (depth : Nat) (t : Tree) : Decoder (Option SchemaNode) :=
  d.optional (readSchema d (depth + 1) depth) t

def readParameter (depth : Nat) (t : Tree) : Decoder ParameterNode := do
  let (depth, fields) ← d.record ["name", "in", "required", "schema"] depth t
  return {
    name := ← fieldOr fields "name" "" d.text
    location := ← fieldOr fields "in" "" d.text
    required := ← fieldOr fields "required" false d.flag
    schema := ← fieldOr fields "schema" none (readSchema? d depth) }

def readMediaType (depth : Nat) (t : Tree) : Decoder (Option SchemaNode) := do
  let (depth, fields) ← d.record ["schema"] depth t
  fieldOr fields "schema" none (readSchema? d depth)

def readContent (depth : Nat) (fields : List (String × Tree)) : Decoder MediaTypes :=
  fieldOr fields "content" .empty (d.table (readMediaType d) depth)

def readBody (depth : Nat) (t : Tree) : Decoder BodyNode := do
  let (depth, fields) ← d.record ["required", "content"] depth t
  return {
    required := ← fieldOr fields "required" false d.flag
    content := ← readContent d depth fields }

def readResponse (depth : Nat) (t : Tree) : Decoder ResponseNode := do
  let (depth, fields) ← d.record ["description", "content"] depth t
  return {
    description := ← fieldOr fields "description" "" d.text
    content := ← readContent d depth fields }

/-- The parameters of an operation or a path. -/
def readParameters (depth : Nat) (fields : List (String × Tree)) : Decoder (List ParameterNode) :=
  fieldOr fields "parameters" [] (d.list (readParameter d) depth)

def readOperation (depth : Nat) (t : Tree) : Decoder OperationNode := do
  let (depth, fields) ← d.record
    ["operationId", "summary", "description", "tags", "parameters", "requestBody", "responses"]
    depth t
  return {
    id := ← fieldOr fields "operationId" none (readText? d)
    summary := ← fieldOr fields "summary" "" d.text
    description := ← fieldOr fields "description" "" d.text
    tags := ← fieldOr fields "tags" [] (readTexts d depth)
    parameters := ← readParameters d depth fields
    requestBody := ← fieldOr fields "requestBody" none (d.optional (readBody d depth))
    responses := ← fieldOr fields "responses" .empty (d.table (readResponse d) depth) }

def readPathItem (depth : Nat) (t : Tree) : Decoder PathItem := do
  let (depth, fields) ← d.record
    ["get", "post", "put", "patch", "delete", "head", "options", "parameters"] depth t
  let operation (name : String) : Decoder (Option OperationNode) :=
    fieldOr fields name none (d.optional (readOperation d depth))
  return {
    get := ← operation "get"
    post := ← operation "post"
    put := ← operation "put"
    patch := ← operation "patch"
    delete := ← operation "delete"
    head := ← operation "head"
    options := ← operation "options"
    parameters := ← readParameters d depth fields }

def readInfo (depth : Nat) (t : Tree) : Decoder Info := do
  let (_, fields) ← d.record ["title", "version"] depth t
  return {
    title := ← fieldOr fields "title" "" d.text
    version := ← fieldOr fields "version" "" d.text }

def readDocument (depth : Nat) (t : Tree) : Decoder Document := do
  let (depth, fields) ← d.record ["openapi", "info", "paths"] depth t
  return {
    openapi := ← fieldOr fields "openapi" "" d.text
    info := ← fieldOr fields "info" none (d.optional (readInfo d depth))
    paths := ← fieldOr fields "paths" .empty (d.table (readPathItem d) depth) }

end

def Document.read (s : String) : Except Yaml.Fault Document := do
  let d ← Yaml.document s
  d.read (readDocument d Yaml.maxDepth)

end ArchSpec.OpenApi
