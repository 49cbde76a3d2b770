import ArchSpec.Component
import ArchSpec.Symbol

/-!
# Models

A model is a specification that has been understood: typed components, and edges between them.
An edge leads from a component to one that it needs.

* `Model.connect` — a new edge, which both of its ends record.
* `Model.effectiveMiddleware` — what the requests of a use-case pass through.
-/

namespace ArchSpec

/-- The data of a specification as a whole. -/
structure Metadata where
  version : String
  name : String
  description : String
  deriving DecidableEq, Repr, Inhabited

/-- Why a component needs another one. -/
inductive Relation where
  /-- It lists it under `depends_on`. -/
  | dependency
  /-- It lists it under `middleware`. -/
  | middleware
  /-- It is bound to a route of it. -/
  | binding
  deriving DecidableEq, Repr, Inhabited

def Relation.text : Relation → String
  | .dependency => "dependency"
  | .middleware => "middleware"
  | .binding => "binding"

/-- One component needs another one. -/
structure Edge where
  source : String
  target : String
  relation : Relation
  deriving DecidableEq, Repr, Inhabited

/-- A specification that has been understood. -/
structure Model where
  metadata : Metadata
  components : SortedMap Component
  edges : List Edge
  symbols : SymbolTable
  deriving Inhabited

namespace Model

def empty (metadata : Metadata) : Model := ⟨metadata, .empty, [], .empty⟩

def get? (m : Model) (id : String) : Option Component := m.components.get? id

/-- Whether there is a component of an ID. -/
def contains (m : Model) (id : String) : Bool := m.components.contains id

/-- The IDs of all components, in order. -/
def ids (m : Model) : List String := m.components.keys

/-- The components of a kind, in the order of their IDs. -/
def ofKind (m : Model) (k : Kind) : List Component := m.components.values.filter (·.kind = k)

/-- The edges that start at a component, in the order in which they were added. -/
def edgesFrom (m : Model) (id : String) : List Edge := m.edges.filter (·.source = id)

/-- What a component depends on as it records it; nothing for an unknown ID. -/
def dependencies (m : Model) (id : String) : List String :=
  match m.get? id with
  | none => []
  | some c => c.dependencies

/-- The components that edges from a component lead to. -/
def successors (m : Model) (id : String) : List String :=
  ((m.edgesFrom id).map (·.target)).filter m.contains

/-- Add an edge; the components at its ends record it. -/
def connect (m : Model) (e : Edge) : Model :=
  { m with
    components := (m.components.modify e.source fun c =>
      { c with dependencies := c.dependencies ++ [e.target] }).modify e.target fun c =>
        { c with dependents := c.dependents ++ [e.source] }
    edges := m.edges ++ [e] }

/-- The server that a use-case is bound to, or would be if the rest of its binding were in order. -/
def boundServer? (u : Usecase) : Option String :=
  match u.binding with
  | some b => some b.server
  | none => Binding.serverOf? u.bindsTo

/-- What the requests of a use-case pass through: its own list if it has one, also an empty one,
and that of its server otherwise. -/
def effectiveMiddleware (m : Model) (u : Usecase) : List String :=
  match u.middleware with
  | some own => own
  | none => ((((boundServer? u).bind m.get?).bind Component.server?).bind Server.middleware).getD []

end Model

/-! ## As document values -/

/-- The data of a specification as a document value. -/
def Metadata.toValue (d : Metadata) : Value :=
  .ofFields ([("version", .text d.version), ("name", .text d.name)] ++
    textUnlessEmpty "description" d.description)

def Edge.toValue (e : Edge) : Value :=
  .ofFields [("from", .text e.source), ("to", .text e.target), ("type", .text e.relation.text)]

def Component.toValue (c : Component) : Value :=
  .ofFields [("id", .text c.id), ("kind", .text c.kind.text), ("spec", c.body.toValue),
    ("dependencies", .texts c.dependencies), ("dependents", .texts c.dependents)]

def Model.toValue (m : Model) : Value :=
  .ofFields [("metadata", m.metadata.toValue),
    ("components", .list (m.components.values.map Component.toValue)),
    ("edges", .list (m.edges.map Edge.toValue))]

end ArchSpec
