import ArchSpec.Failure
import ArchSpec.Model.Basic
import ArchSpec.Path
import ArchSpec.Specification.Basic

/-!
# Building a model

A specification is understood in four steps: its components are typed and their names defined, the
contracts of servers are read, references become edges, and use-cases are bound to routes. What
goes wrong is collected and the model stays as it is without it; only if a component could not be
typed do the later steps not take place.

* `Model.declare` — the typed components.
* `Model.attachContracts` — what servers offer, through a function that reads contracts.
* `Model.resolveReferences`, `Model.resolveBindings` — the edges.
* `Model.build` — all steps.
-/

namespace ArchSpec

/-! ## Typing -/

/-- The field of a component that is to be a text; anything else counts as empty. -/
def textOf (fields : List (String × Value)) (key : String) : String :=
  ((findEntry key fields).bind Value.text?).getD ""

/-- The field of a component that is to be a list of texts: the texts in the list, if it is one. -/
def textsOf (fields : List (String × Value)) (key : String) : Option (List String) :=
  ((findEntry key fields).bind Value.list?).map fun vs => vs.filterMap Value.text?

/-- The port of a server: integers that fit, and of other numbers what stands before the point,
held to the range of 64 bits. Anything else counts as zero. -/
def portOf (fields : List (String × Value)) : Int :=
  match findEntry "port" fields with
  | some (.int i) => if Value.fitsSigned i then i else (Binary64.ofInt i).truncate
  | some (.float x) => x.truncate
  | _ => 0

/-- What a component of a kind says by its fields. -/
def Body.ofFields (k : Kind) (fields : List (String × Value)) : Body :=
  let text := textOf fields
  let texts := textsOf fields
  match k with
  | .server =>
    .server ⟨text "framework", portOf fields, text "openapi", texts "middleware",
      texts "depends_on", none⟩
  | .middleware =>
    .middleware ⟨text "provider", text "config", text "model", text "policy",
      texts "depends_on"⟩
  | .database => .database ⟨text "provider", text "schema"⟩
  | .usecase =>
    .usecase ⟨text "binds_to", text "goal", text "actor", texts "middleware",
      texts "preconditions", texts "acceptance_criteria", texts "postconditions", none⟩

/-- The typed component of a declaration, before it is connected to any other. -/
def Component.ofDeclaration (d : Declaration) (k : Kind) : Component :=
  ⟨d.id, d.position, .ofFields k d.spec, [], []⟩

namespace Model

/-- Add the component of a declaration, if its kind is known and its name is new. -/
def addDeclaration (m : Model) (d : Declaration) : Except Diagnostic Model :=
  match Kind.ofText? d.kind with
  | none => .error (.unknownKind d.id d.kind d.position)
  | some k =>
    match m.symbols.define d.id k d.id with
    | .error (.duplicateSymbol name existing _) =>
      .error (.duplicateSymbol name existing d.position)
    | .error e => .error e
    | .ok symbols =>
      .ok { m with
        symbols := symbols
        components := m.components.insert d.id (.ofDeclaration d k) }

/-- Add the components of declarations, leaving out those that cannot be added. -/
def declare (m : Model) : List Declaration → Model × List Diagnostic
  | [] => (m, [])
  | d :: rest =>
    match m.addDeclaration d with
    | .ok m => m.declare rest
    | .error e =>
      let others := m.declare rest
      (others.1, e :: others.2)

/-! ## Contracts -/

/-- A component with its contract read, and what went wrong. -/
def attachContract (base : Path) (read : Path → Except Failure Contract) (c : Component) :
    Component × List Diagnostic :=
  match c.body with
  | .server s =>
    if s.openapi.isEmpty then (c, [])
    else match read (Path.join base s.openapi) with
      | .ok contract => ({ c with body := .server { s with contract := some contract } }, [])
      | .error e => (c, [.contractParse c.id s.openapi e.fullMessage c.position])
  | _ => (c, [])

/-- Read the contracts of all servers that name one. -/
def attachContracts (m : Model) (base : Path) (read : Path → Except Failure Contract) :
    Model × List Diagnostic :=
  let attached := m.components.mapValues fun _ c => attachContract base read c
  ({ m with components := attached.mapValues fun _ r => r.1 }, attached.values.flatMap (·.2))

/-! ## References -/

/-- The edges that a component asks for by its lists. -/
def references (c : Component) : List Edge :=
  c.middlewareList.map (⟨c.id, ·, .middleware⟩) ++ c.dependsOnList.map (⟨c.id, ·, .dependency⟩)

/-- Where a component is declared. -/
def positionOf (m : Model) (id : String) : Option Position := (m.get? id).bind (·.position)

/-- Add the edges whose targets are defined. -/
def addEdges (m : Model) : List Edge → Model × List Diagnostic
  | [] => (m, [])
  | e :: rest =>
    match m.symbols.get? e.target with
    | some _ => (m.connect e).addEdges rest
    | none =>
      let others := m.addEdges rest
      (others.1, .unresolvedReference e.source e.target (m.positionOf e.source) :: others.2)

/-- Add the edges that all components ask for by their lists. -/
def resolveReferences (m : Model) : Model × List Diagnostic :=
  m.addEdges (m.components.values.flatMap references)

/-! ## Bindings -/

/-- What becomes of the binding of a use-case. -/
inductive Resolution where
  /-- There is no server to bind it to. -/
  | refused (d : Diagnostic)
  /-- The server does not offer the route; the edge to it counts nevertheless. -/
  | notOffered (server : String) (d : Diagnostic)
  | bound (b : Binding)

/-- What the text of a binding is refused with. -/
def malformedBinding (id : String) (f : Binding.Fault) (p : Option Position) : Diagnostic :=
  .format id ("invalid binds_to: " ++ f.message) p

/-- The contract of a server, if it has one. -/
def contractOf? (m : Model) (id : String) : Option Contract :=
  ((m.get? id).bind Component.server?).bind (·.contract)

/-- Find out what becomes of a binding that a use-case at `position` asks for. -/
def resolveBinding (m : Model) (id text : String) (position : Option Position) : Resolution :=
  match Binding.parse text with
  | .error f => .refused (malformedBinding id f position)
  | .ok b =>
    match m.symbols.get? b.server with
    | none => .refused (.unresolvedReference id b.server position)
    | some s =>
      if s.kind ≠ .server then
        .refused (.typeMismatch id "binds_to" b.server .server s.kind position)
      else match m.contractOf? b.server with
        | none => .bound b
        | some contract =>
          match contract.find? b.method b.path with
          | some o => .bound { b with operation := some o }
          | none =>
            .notOffered b.server (.operationNotFound id b.server b.method.text b.path position)

def attachBinding (b : Binding) (c : Component) : Component :=
  match c.body with
  | .usecase u => { c with body := .usecase { u with binding := some b } }
  | _ => c

/-- Carry out what becomes of the binding of a use-case. -/
def applyResolution (m : Model) (id : String) : Resolution → Model × List Diagnostic
  | .refused d => (m, [d])
  | .notOffered server d => (m.connect ⟨id, server, .binding⟩, [d])
  | .bound b =>
    let m := m.connect ⟨id, b.server, .binding⟩
    ({ m with components := m.components.modify id (attachBinding b) }, [])

/-- Bind use-cases, given by their IDs and the texts of their bindings. -/
def bindAll (m : Model) : List (String × String) → Model × List Diagnostic
  | [] => (m, [])
  | (id, text) :: rest =>
    -- the model of this step resolves the next binding; edges and bindings make no difference to it
    let step := m.applyResolution id (m.resolveBinding id text (m.positionOf id))
    let others := step.1.bindAll rest
    (others.1, step.2 ++ others.2)

/-- The use-cases that ask for a binding. -/
def bindingRequests (m : Model) : List (String × String) :=
  m.components.values.filterMap fun c =>
    match c.usecase? with
    | none => none
    | some u => if u.bindsTo.isEmpty then none else some (c.id, u.bindsTo)

/-- Bind all use-cases that ask for it. -/
def resolveBindings (m : Model) : Model × List Diagnostic := m.bindAll m.bindingRequests

/-! ## All steps -/

/-- The data of a specification as a whole. -/
def metadataOf (s : Specification) : Metadata := ⟨s.version, s.name, s.description⟩

/-- The model of typed components alone. -/
def typed (s : Specification) : Model × List Diagnostic :=
  (empty (metadataOf s)).declare s.declarations

/-- The model of a specification whose contracts are below `base`. If there are problems, the model
is what could be understood. -/
def build (s : Specification) (base : Path) (read : Path → Except Failure Contract) :
    Model × List Diagnostic :=
  let (m, errors) := typed s
  if !errors.isEmpty then (m, errors)
  else
    let (m, unread) := m.attachContracts base read
    let (m, unresolved) := m.resolveReferences
    let (m, unbound) := m.resolveBindings
    (m, unread ++ unresolved ++ unbound)

/-- The paths at which the contracts of a specification are looked for. -/
def contractPaths (s : Specification) (base : Path) : List Path :=
  s.declarations.filterMap fun d =>
    let path := textOf d.spec "openapi"
    if Kind.ofText? d.kind = some .server ∧ !path.isEmpty then some (Path.join base path) else none

end Model

end ArchSpec
