import ArchSpec.Model.Build
import ArchSpec.Model.Rules
import ArchSpec.Proofs.Command.StarterText
import ArchSpec.Proofs.Pipeline.Passing

/-!
# What the specification of a new project means

The stages of a validation are gone through once for all projects. The specification is a server
and a use-case that is bound to its only route, which no stage finds fault with, as long as the name
of the project means a text. If it means anything else, the document does not fit the schema.

* `Starter.parse_eq`, `Starter.schema_eq` — the specification, and what the schema says of it.
* `Starter.typed_eq`, `attach_eq`, `references_eq`, `bindings_eq` — the model after each step.
* `Starter.build_eq`, `Starter.check_eq` — the whole model, and its problems.
* `Starter.accepted`, `Starter.not_accepted` — the specification in a tree of files.
-/

namespace ArchSpec.Starter

open Command (starterSpecification starterContract)
open Yaml (IsPlainLine IsPlainText plainValue)

variable {name : String} {file base : Path} {p q : Option Position}

/-! ## The specification -/

/-- The declared components, at their positions. -/
def declarations (p q : Option Position) : List Declaration :=
  [⟨"server.api", "http.server", [("framework", .text "hono"),
      ("openapi", .text "./api/openapi.yaml"), ("port", .int 3000)], p⟩,
    ⟨"usecase.health", "usecase", [("acceptance_criteria", .list [
        .text "responds with 200 while the service is running"]), ("actor", .text "operator"),
      ("binds_to", .text "server.api:GET:/health"),
      ("goal", .text "Report that the service is up")], q⟩]

def specification (name : String) (file : Path) (p q : Option Position) : Specification :=
  ⟨"1.0.0", name, "Starter specification", file, declarations p q, specificationValue (.text name)⟩

/-- The specification of a document whose name is a text. -/
theorem ofValue_eq (name source : String) (file : Path) : ∃ p q,
    Specification.ofValue (specificationValue (.text name)) file (some source) =
      .ok (specification name file p q) :=
  ⟨_, _, rfl⟩

/-- A name that means itself is the name of the specification. -/
theorem parse_eq (hname : IsPlainText name) (file : Path) : ∃ p q,
    Specification.parse (starterSpecification name) file = .ok (specification name file p q) := by
  rw [Specification.parse, readValue_specification hname.toIsPlainLine, hname.means]
  exact ofValue_eq name _ file

/-- **All that the schema can find fault with** is what the name means. -/
theorem schema_eq (v : Value) :
    Schema.check (specificationValue v) = Schema.checkName (some v) := by
  have hversion : Schema.checkVersion (some (.text "1.0.0")) = [] := by decide +kernel
  have hcomponents : Schema.checkComponentList (some componentsValue) = [] := by decide +kernel
  change [] ++ Schema.checkVersion (some (.text "1.0.0")) ++ Schema.checkName (some v) ++ [] ++
    Schema.checkComponentList (some componentsValue) = _
  rw [hversion, hcomponents]
  simp

theorem semantics_eq (hne : name ≠ "") : (specification name file p q).checkSemantics = [] := by
  have hempty : name.isEmpty = false := by simpa using hne
  simp only [Specification.checkSemantics, Specification.missingMetadata, specification, hempty]
  cbv

/-! ## The model -/

/-- The server, with its contract once that has been read and what depends on it by then. -/
def server (p : Option Position) (k : Option Contract) (dependents : List String) : Component :=
  ⟨"server.api", p, .server ⟨"hono", 3000, "./api/openapi.yaml", none, none, k⟩, [], dependents⟩

/-- The use-case, with its binding once that has been resolved and what it depends on by then. -/
def usecase (p : Option Position) (b : Option Binding) (dependencies : List String) : Component :=
  ⟨"usecase.health", p, .usecase ⟨"server.api:GET:/health", "Report that the service is up",
    "operator", none, none, some ["responds with 200 while the service is running"], none, b⟩,
    dependencies, []⟩

/-- What is known of the server and of the use-case, by their IDs. -/
def byId {α : Type} (s u : α) : SortedMap α where
  entries := [("server.api", s), ("usecase.health", u)]
  increasing := by
    refine .cons (List.forall_mem_singleton.2 ?_) (List.pairwise_singleton _ _)
    dsimp only
    decide

def symbols : SymbolTable :=
  ⟨byId ⟨"server.api", .server, "server.api"⟩ ⟨"usecase.health", .usecase, "usecase.health"⟩⟩

/-- A model of a server, a use-case and some edges. -/
def modelOf (name : String) (s u : Component) (edges : List Edge) : Model :=
  ⟨⟨"1.0.0", name, "Starter specification"⟩, byId s u, edges, symbols⟩

/-- The binding of the use-case. -/
def binding : Binding := ⟨"server.api", .get, "/health", some operation⟩

/-- The model of a new project. -/
def model (name : String) (p q : Option Position) : Model :=
  modelOf name (server p (some (contract name)) ["usecase.health"])
    (usecase q (some binding) ["server.api"]) [⟨"usecase.health", "server.api", .binding⟩]

theorem typed_eq : Model.typed (specification name file p q) =
    (modelOf name (server p none []) (usecase q none []) [], []) := by
  cbv

theorem attach_eq {read : Path → Except Failure Contract}
    (h : read (Path.join base "./api/openapi.yaml") = .ok (contract name)) :
    (modelOf name (server p none []) (usecase q none []) []).attachContracts base read =
      (modelOf name (server p (some (contract name)) []) (usecase q none []) [], []) := by
  have hserver : Model.attachContract base read (server p none []) =
      (server p (some (contract name)) [], []) := by
    unfold Model.attachContract
    simp only [server, h]
    rfl
  have husecase : Model.attachContract base read (usecase q none []) = (usecase q none [], []) :=
    rfl
  simp [Model.attachContracts, modelOf, byId, SortedMap.mapValues, SortedMap.values, hserver,
    husecase]

theorem references_eq (k : Option Contract) :
    (modelOf name (server p k []) (usecase q none []) []).resolveReferences =
      (modelOf name (server p k []) (usecase q none []) [], []) := rfl

theorem bindings_eq :
    (modelOf name (server p (some (contract name)) []) (usecase q none []) []).resolveBindings =
      (model name p q, []) := by
  generalize hm : modelOf name (server p (some (contract name)) []) (usecase q none []) [] = m
  have hrequests : m.bindingRequests = [("usecase.health", "server.api:GET:/health")] := by
    rw [← hm]
    rfl
  have hposition : m.positionOf "usecase.health" = q := by
    rw [← hm]
    rfl
  have hresolved : m.resolveBinding "usecase.health" "server.api:GET:/health" q =
      .bound binding := by
    rw [← hm]
    rfl
  rw [Model.resolveBindings, hrequests, Model.bindAll, hposition, hresolved]
  simp only [Model.applyResolution, Model.bindAll, List.append_nil, ← hm]
  cbv

/-- The only contract is that of the server. -/
theorem contractPaths_eq : Model.contractPaths (specification name file p q) base =
    [Path.join base "./api/openapi.yaml"] := rfl

/-- **The model of a new project** is built without problems from its contract. -/
theorem build_eq {read : Path → Except Failure Contract}
    (h : read (Path.join base "./api/openapi.yaml") = .ok (contract name)) :
    Model.build (specification name file p q) base read = (model name p q, []) := by
  simp only [Model.build, typed_eq, List.isEmpty_nil, Bool.not_true, Bool.false_eq_true, if_false,
    attach_eq h, references_eq, bindings_eq, List.append_nil]

/-- **No rule is broken** in the model of a new project. -/
theorem check_eq : (model name p q).check = [] := by
  have hcycles : (model name p q).detectCycles = [] := by cbv
  have htogether : (model name p q).checkTogether = [] := by cbv
  have hcomponents : (model name p q).components.values =
      [server p (some (contract name)) ["usecase.health"],
        usecase q (some binding) ["server.api"]] := rfl
  have hserver : (model name p q).checkComponent
      (server p (some (contract name)) ["usecase.health"]) = [] := by cbv
  have husecase : (model name p q).checkComponent
      (usecase q (some binding) ["server.api"]) = [] := rfl
  rw [Model.check, hcycles, htogether, hcomponents, List.flatMap_cons, List.flatMap_cons, hserver,
    husecase]
  exact Diagnostic.sort_eq_nil_iff.2 rfl

/-! ## The specification in a tree of files -/

section

variable {u : FileTree} {source : Path} {s : Specification} {m : Model}
  (hjson : Specification.isJsonPath source = false)
  (hspecification : u.readText source = .ok (starterSpecification name))

include hjson hspecification

/-- **A specification whose name means itself is accepted**, if its contract is beside it. -/
theorem accepted (hname : IsPlainText name)
    (hcontract : u.readText (Path.join ((Path.parent? source).getD "") "./api/openapi.yaml") =
      .ok (starterContract name)) :
    ∃ s m, Accepted u source s m ∧ s.name = name := by
  obtain ⟨p, q, hparse⟩ := parse_eq hname source
  have hne : name ≠ "" := by
    rintro rfl
    cases hname.begins
  have hread := contractsAt_of_text (s := specification name source p q)
    (by rw [contractPaths_eq]; exact List.mem_singleton_self _) hcontract
    (contract_eq hname.toIsPlainLine)
  refine ⟨specification name source p q, model name p q, ⟨?_, ?_, semantics_eq hne, ?_, check_eq⟩,
    rfl⟩
  · refine Specification.load_of_text hspecification ?_
    rw [Specification.parseFile, hjson, if_neg Bool.false_ne_true, hparse]
  · refine (schema_eq _).trans ?_
    rw [Schema.checkName, if_neg (by simpa using hne)]
  · exact build_eq hread

/-- **A specification whose name means anything else is not accepted.** -/
theorem not_accepted (hname : IsPlainLine name) (hmeans : plainValue name ≠ .ok (.text name)) :
    ¬Accepted u source s m := by
  intro h
  obtain ⟨text, htext, hparse⟩ := Specification.load_ok h.load
  obtain rfl := Except.ok.inj (hspecification.symm.trans htext)
  rw [Specification.parseFile, hjson, if_neg Bool.false_ne_true, Specification.parse,
    readValue_specification hname] at hparse
  cases hvalue : plainValue name with
  | error e =>
    rw [hvalue] at hparse
    cases hparse
  | ok v =>
    rw [hvalue] at hparse
    cases hparse
    have hcheck := (schema_eq v).symm.trans h.schema
    cases v with
    | text other =>
      obtain rfl := Yaml.plainValue_text hvalue
      exact hmeans hvalue
    | _ => cases hcheck

end

end ArchSpec.Starter
