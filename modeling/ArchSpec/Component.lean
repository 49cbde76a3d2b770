import ArchSpec.Binding
import ArchSpec.Kind
import ArchSpec.Position

/-!
# Typed components

What a component says, by its kind. Its kind is the constructor of its body, so a component cannot
have the fields of another kind. Texts that a document leaves out are empty, lists that it leaves
out are absent.
-/

namespace ArchSpec

/-- A server, and the contract of what it offers once that has been read. -/
structure Server where
  framework : String
  /-- Zero if there is none. -/
  port : Int
  /-- The path of the contract, relative to the specification. -/
  openapi : String
  middleware : Option (List String)
  dependsOn : Option (List String)
  contract : Option Contract
  deriving Inhabited

/-- Something that requests pass through. -/
structure Middleware where
  provider : String
  config : String
  model : String
  policy : String
  dependsOn : Option (List String)
  deriving DecidableEq, Repr, Inhabited

/-- A database. -/
structure Database where
  provider : String
  schema : String
  deriving DecidableEq, Repr, Inhabited

/-- Something that users can do, and the binding of its route once that has been resolved. -/
structure Usecase where
  bindsTo : String
  goal : String
  actor : String
  /-- Absent means: that of the server. -/
  middleware : Option (List String)
  preconditions : Option (List String)
  acceptanceCriteria : Option (List String)
  postconditions : Option (List String)
  binding : Option Binding
  deriving Inhabited

/-- What a component says. -/
inductive Body where
  | server (s : Server)
  | middleware (m : Middleware)
  | database (d : Database)
  | usecase (u : Usecase)
  deriving Inhabited

namespace Body

def kind : Body → Kind
  | server _ => .server
  | middleware _ => .middleware
  | database _ => .database
  | usecase _ => .usecase

end Body

/-- A component of a model. -/
structure Component where
  id : String
  /-- Where it is declared. -/
  position : Option Position
  body : Body
  /-- The components it points at, one for each edge. -/
  dependencies : List String
  /-- The components that point at it, one for each edge. -/
  dependents : List String
  deriving Inhabited

namespace Component

def kind (c : Component) : Kind := c.body.kind

def server? (c : Component) : Option Server :=
  match c.body with
  | .server s => some s
  | _ => none

def middleware? (c : Component) : Option Middleware :=
  match c.body with
  | .middleware m => some m
  | _ => none

def database? (c : Component) : Option Database :=
  match c.body with
  | .database d => some d
  | _ => none

def usecase? (c : Component) : Option Usecase :=
  match c.body with
  | .usecase u => some u
  | _ => none

/-- The middleware that a component lists; only servers and use-cases have such a list. -/
def middlewareList (c : Component) : List String :=
  match c.body with
  | .server s => s.middleware.getD []
  | .usecase u => u.middleware.getD []
  | _ => []

/-- The components that a component lists as what it depends on. -/
def dependsOnList (c : Component) : List String :=
  match c.body with
  | .server s => s.dependsOn.getD []
  | .middleware m => m.dependsOn.getD []
  | _ => []

end Component

/-! ## As document values -/

/-- A list that may be absent. -/
def optionalTexts : Option (List String) → Value
  | none => .null
  | some xs => .texts xs

/-- What a component says, as a document value. -/
def Body.toValue : Body → Value
  | server s => .ofFields ([("framework", .text s.framework), ("port", .int s.port),
      ("openapi", .text s.openapi), ("middleware", optionalTexts s.middleware),
      ("depends_on", optionalTexts s.dependsOn)] ++
      optionalField "contract" (s.contract.map Contract.toValue))
  | middleware m => .ofFields [("provider", .text m.provider), ("config", .text m.config),
      ("model", .text m.model), ("policy", .text m.policy),
      ("depends_on", optionalTexts m.dependsOn)]
  | database d => .ofFields [("provider", .text d.provider), ("schema", .text d.schema)]
  | usecase u => .ofFields ([("binds_to", .text u.bindsTo), ("goal", .text u.goal),
      ("actor", .text u.actor), ("middleware", optionalTexts u.middleware),
      ("preconditions", optionalTexts u.preconditions),
      ("acceptance_criteria", optionalTexts u.acceptanceCriteria),
      ("postconditions", optionalTexts u.postconditions)] ++
      optionalField "binding" (u.binding.map Binding.toValue))

end ArchSpec
