import ArchSpec.Limits
import ArchSpec.Model.Cycle

/-!
# Rules for models

What has to hold of a model over and above that it could be built: fields that must not be empty,
fields that a provider asks for, the kinds of what is referred to, no cycles, and what one
component demands of the others.

* `Model.checkComponent` — the problems of one component.
* `Model.checkTogether` — the problems of components with each other.
* `Model.check` — all problems, in the order in which they are shown.
-/

namespace ArchSpec.Model

/-! ## Single components -/

/-- A field that is not there. -/
def missing (c : Component) (field : String) (requiredBy : Option String) : Diagnostic :=
  .missingField c.id field requiredBy c.position

/-- One problem for a field that is empty. -/
def requireText (c : Component) (field value : String) (requiredBy : Option String) :
    List Diagnostic :=
  if value.isEmpty then [missing c field requiredBy] else []

/-- One problem for a reference to a component of another kind than expected. A reference to
nothing is not reported again. -/
def expectKind (m : Model) (c : Component) (field reference : String) (expected : Kind) :
    List Diagnostic :=
  match m.symbols.get? reference with
  | none => []
  | some s =>
    if s.kind = expected then []
    else [.typeMismatch c.id field reference expected s.kind c.position]

/-- One problem for each component that is listed as middleware and is none. -/
def checkMiddleware (m : Model) (c : Component) : List Diagnostic :=
  c.middlewareList.flatMap fun r => m.expectKind c "middleware" r .middleware

def checkPort (c : Component) (port : Int) : List Diagnostic :=
  if port = 0 then [missing c "port" none]
  else if minPort ≤ port ∧ port ≤ maxPort then []
  else [.range c.id "port" port minPort maxPort c.position]

/-- The problems of the fields that the provider of a middleware asks for. -/
def checkProvider (c : Component) (w : Middleware) : List Diagnostic :=
  if w.provider = betterAuth then
    requireText c "config" w.config (some (betterAuth ++ " provider"))
  else if w.provider = casbin then
    requireText c "model" w.model (some (casbin ++ " provider")) ++
      requireText c "policy" w.policy (some (casbin ++ " provider"))
  else []

/-- The problems of what a use-case is bound to. -/
def checkBinding (m : Model) (c : Component) (text : String) : List Diagnostic :=
  if text.isEmpty then [missing c "binds_to" none]
  else
    (match Binding.parse text with
      | .ok _ => []
      | .error f => [.format c.id ("invalid binds_to: " ++ f.message) c.position]) ++
    (match Binding.serverOf? text with
      | none => []
      | some server => m.expectKind c "binds_to" server .server)

def checkComponent (m : Model) (c : Component) : List Diagnostic :=
  match c.body with
  | .server s =>
    requireText c "framework" s.framework none ++ checkPort c s.port ++ m.checkMiddleware c
  | .middleware w => requireText c "provider" w.provider none ++ checkProvider c w
  | .database d =>
    requireText c "provider" d.provider none ++ requireText c "schema" d.schema none
  | .usecase u =>
    m.checkBinding c u.bindsTo ++ requireText c "goal" u.goal none ++ m.checkMiddleware c

/-! ## Components with each other -/

/-- Whether an ID is that of a middleware that authenticates. -/
def authenticates (m : Model) (id : String) : Bool :=
  match (m.get? id).bind Component.middleware? with
  | none => false
  | some w => w.provider = betterAuth

/-- The listed middleware that authenticates. -/
def authentication (m : Model) : List String :=
  (m.components.values.flatMap Component.middlewareList).filter m.authenticates

/-- The least of a list of texts. -/
def least? : List String → Option String
  | [] => none
  | a :: rest =>
    match least? rest with
    | none => some a
    | some b => if b < a then some b else some a

/-- Whether there is a database that authentication can keep its tables in. -/
def hasAuthenticationTables (m : Model) : Bool :=
  m.components.values.any fun c => match c.database? with
    | none => false
    | some d => d.provider = drizzle

/-- Authentication that is used needs a server and a database for its tables. What is missing is
reported once, for the first middleware by ID that authenticates. -/
def checkTogether (m : Model) : List Diagnostic :=
  match least? m.authentication with
  | none => []
  | some id =>
    (if (m.ofKind .server).isEmpty then [.crossComponent id
      (betterAuth ++ " middleware requires at least one " ++ Kind.server.text ++ " component")]
      else []) ++
    (if m.hasAuthenticationTables then [] else [.crossComponent id
      (betterAuth ++ " middleware requires a " ++ Kind.database.text ++
        " component with provider \"" ++ drizzle ++ "\"")])

/-- All problems of a model, in the order in which they are shown. -/
def check (m : Model) : List Diagnostic :=
  Diagnostic.sort (m.detectCycles.map .cycle ++ m.components.values.flatMap m.checkComponent ++
    m.checkTogether)

end ArchSpec.Model
