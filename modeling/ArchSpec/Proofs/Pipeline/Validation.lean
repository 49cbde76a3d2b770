import ArchSpec.Pipeline.Stages
import ArchSpec.Proofs.FileStore.Reading
import ArchSpec.Proofs.Model.Resolved

/-!
# Validation is sound

A run of the validating stages that succeeds has built a model without problems, from contracts
that were read, and has found nothing wrong with it. This holds for every store of files: whatever
the store answers, the model is resolved.

* `Pipeline.run_cons_ok` — a run that succeeds is opened stage by stage.
* `Stage.build_ok`, `Stage.rules_ok` — what the stages guarantee that build and check the model.
* `Pipeline.validation_resolved` — the model of a run that succeeds is resolved.
-/

namespace ArchSpec

variable {σ : Type}

/-! ## Runs that succeed -/

/-- A run that succeeds begins with a stage that does. -/
theorem Pipeline.run_cons_ok {s : Stage (StateM σ)} {rest : Pipeline (StateM σ)} {p p' : Progress}
    {t t' : σ} (h : Pipeline.run (s :: rest) p t = ((p', .ok ()), t')) :
    ∃ q u, (s.run p).run t = (.ok q, u) ∧ Pipeline.run rest q u = ((p', .ok ()), t') := by
  rw [Pipeline.run, bind_apply] at h
  cases hs : (s.run p).run t with
  | mk r u =>
    rw [hs] at h
    cases r with
    | error e => cases h
    | ok q => exact ⟨q, u, rfl, h⟩

theorem Pipeline.run_nil_ok {p p' : Progress} {t t' : σ}
    (h : Pipeline.run ([] : Pipeline (StateM σ)) p t = ((p', .ok ()), t')) : p' = p := by
  cases h
  rfl

/-! ## Stages -/

namespace Stage

variable {p q : Progress} {t u : σ}

theorem refuse_ok {stage what : String} {errors : List Diagnostic}
    (h : refuse stage what errors = .ok ()) : errors = [] := by
  unfold refuse at h
  cases errors with
  | nil => rfl
  | cons d rest => cases h

/-- A model is built without problems. -/
theorem buildFrom_ok {read : Path → Except Failure Contract} {s : Specification}
    (h : buildFrom read s p = .ok q) : (Model.build s s.baseDirectory read).2 = [] ∧
      q.model = some (Model.build s s.baseDirectory read).1 := by
  obtain ⟨_, hrefuse, h⟩ := except_bind_ok h
  cases h
  exact ⟨Diagnostic.sort_eq_nil_iff.1 (refuse_ok hrefuse), rfl⟩

/-- The model is there and breaks no rule. -/
theorem rules_ok (h : ((rules : Stage (StateM σ)).run p).run t = (.ok q, u)) :
    q = p ∧ ∃ m, p.model = some m ∧ m.check = [] := by
  obtain ⟨m, hmodel, h⟩ := except_bind_ok (Action.ofFault_ok h)
  obtain ⟨_, hrefuse, h⟩ := except_bind_ok h
  cases h
  refine ⟨rfl, m, ?_, Diagnostic.sort_eq_nil_iff.1 (refuse_ok hrefuse)⟩
  unfold Progress.requireModel at hmodel
  split at hmodel
  · cases hmodel
  · rename_i m' hm
    cases hmodel
    exact hm

end Stage

/-! ## Contracts from files -/

section

variable [FileStore (StateM σ)]

theorem Contract.load_wellKeyed {path : Path} {k : Contract} {t u : σ}
    (h : (Contract.load path : Action (StateM σ) Contract).run t = (.ok k, u)) : k.WellKeyed := by
  obtain ⟨source, v, _, h⟩ := Action.bind_ok h
  exact OpenApi.contract_wellKeyed (congrArg Prod.fst h)

theorem Contract.loadAll_wellKeyed : ∀ (paths : List Path) (t : σ),
    ∀ e ∈ ((Contract.loadAll paths : StateM σ _) t).1, ∀ k, e.2 = .ok k → k.WellKeyed
  | [], _ => nofun
  | path :: rest, t => by
    intro e he k hk
    rw [Contract.loadAll, bind_apply, bind_apply] at he
    rcases List.mem_cons.1 he with rfl | he
    · exact Contract.load_wellKeyed (Prod.ext hk rfl)
    · exact Contract.loadAll_wellKeyed rest _ e he k hk

/-- A contract that is found for a path is among those that were read. -/
theorem Stage.contractFor_wellKeyed {found : List (Path × Except Failure Contract)}
    (h : ∀ e ∈ found, ∀ k, e.2 = .ok k → k.WellKeyed) {path : Path} {k : Contract}
    (hk : contractFor found path = .ok k) : k.WellKeyed := by
  unfold contractFor at hk
  cases hl : found.lookup path with
  | none =>
    rw [hl] at hk
    cases hk
  | some r =>
    rw [hl] at hk
    obtain ⟨l₁, l₂, rfl, _⟩ := List.lookup_eq_some_iff.1 hl
    exact h (path, r) (List.mem_append_right _ List.mem_cons_self) k hk

/-- The model of a run is built without problems, from contracts that keep operations under their
keys. -/
theorem Stage.build_ok {p q : Progress} {t u : σ}
    (h : ((Stage.build : Stage (StateM σ)).run p).run t = (.ok q, u)) :
    ∃ s read, (∀ path k, read path = .ok k → k.WellKeyed) ∧
      (Model.build s s.baseDirectory read).2 = [] ∧
      q.model = some (Model.build s s.baseDirectory read).1 := by
  obtain ⟨s, v, _, h⟩ := Action.bind_ok h
  obtain ⟨found, w, hfound, h⟩ := Action.bind_ok h
  have hread : ∀ e ∈ found, ∀ k, e.2 = .ok k → k.WellKeyed := by
    have := Contract.loadAll_wellKeyed (Model.contractPaths s s.baseDirectory) v
    cases hfound
    exact this
  obtain ⟨hnil, hmodel⟩ := Stage.buildFrom_ok (Action.ofFault_ok h)
  exact ⟨s, contractFor found, fun _ _ => Stage.contractFor_wellKeyed hread, hnil, hmodel⟩

/-- **The model of a run that succeeds is resolved**, whatever the store of files answers. -/
theorem Pipeline.validation_resolved {p : Progress} {t : σ}
    (h : (Pipeline.run (Pipeline.validation : Pipeline (StateM σ)) p t).1.2 = .ok ()) :
    ∃ m, (Pipeline.run (Pipeline.validation : Pipeline (StateM σ)) p t).1.1.model = some m ∧
      m.Resolved := by
  cases hrun : Pipeline.run (Pipeline.validation : Pipeline (StateM σ)) p t with
  | mk r t' =>
    obtain ⟨p', result⟩ := r
    rw [hrun] at h
    cases h
    -- the first three stages look at the document alone
    obtain ⟨p₁, t₁, _, hrun⟩ := Pipeline.run_cons_ok hrun
    obtain ⟨p₂, t₂, _, hrun⟩ := Pipeline.run_cons_ok hrun
    obtain ⟨p₃, t₃, _, hrun⟩ := Pipeline.run_cons_ok hrun
    obtain ⟨p₄, t₄, hbuild, hrun⟩ := Pipeline.run_cons_ok hrun
    obtain ⟨p₅, t₅, hrules, hrun⟩ := Pipeline.run_cons_ok hrun
    obtain ⟨hsame, m, hmodel, hcheck⟩ := Stage.rules_ok hrules
    obtain ⟨s, read, hread, hnil, hbuilt⟩ := Stage.build_ok hbuild
    rw [hbuilt, Option.some.injEq] at hmodel
    rw [Pipeline.run_nil_ok hrun, hsame]
    exact ⟨_, hbuilt, Model.resolved_of_build hread hnil (hmodel ▸ hcheck)⟩

end

/-- A server with a contract and a use-case that is bound to it. Both list authentication, and the
server depends on the database for its tables. -/
def mallLines : List String :=
  ["version: 1.0.0", "name: mall", "components:",
    "- id: s.web", "  kind: server", "  spec:", "   framework: axum", "   port: 80",
    "   openapi: web", "   middleware: [w.auth]", "   depends_on: [d.b]",
    "- id: w.auth", "  kind: middleware", "  spec:", "   provider: better-auth", "   config: c",
    "- id: d.b", "  kind: postgres", "  spec:", "   provider: drizzle", "   schema: b",
    "- id: s.buy", "  kind: usecase", "  spec:", "   binds_to: s.web:GET:/", "   goal: buy",
    "   middleware: [w.auth]"]

def mallText : String := String.join (mallLines.map (· ++ "\n"))

def mall : FileTree :=
  ⟨[(["mall"], .file mallText),
    (["web"], .file "openapi: 3.0.0\npaths:\n  /:\n    get:\n      summary: visit\n")], []⟩

def mallStart : Progress := .start "/mall" .standard false

def mallRun : (Progress × Except Failure Unit) × FileTree :=
  Pipeline.run (Pipeline.validation : Pipeline (StateM FileTree)) mallStart mall

/-- What the stages behind the first make of a specification. -/
def mallRest (s : Specification) : (Progress × Except Failure Unit) × FileTree :=
  Pipeline.run ([.schema, .semantics, .build, .rules] : Pipeline (StateM FileTree))
    { mallStart with specification := some s } mall

def mallEdges : List Edge :=
  [⟨"s.buy", "w.auth", .middleware⟩, ⟨"s.web", "w.auth", .middleware⟩,
    ⟨"s.web", "d.b", .dependency⟩, ⟨"s.buy", "s.web", .binding⟩]

/-- A run succeeds with the components of the mall and their edges. -/
def opens (run : (Progress × Except Failure Unit) × FileTree) : Bool :=
  run.1.2 = .ok () ∧ (run.1.1.model.map fun m => (m.ids, m.edges)) =
    some (["d.b", "s.buy", "s.web", "w.auth"], mallEdges)

/-- A text with these characters is read, and what it describes opens the mall. This is said of any
such text because the characters of a long one are better known by a lemma than evaluated. -/
theorem opens_of_toList {text : String}
    (h : text.toList = mallLines.flatMap fun line => line.toList ++ ['\n']) :
    (Specification.parseFile text "/mall").toOption.any (opens ∘ mallRest) = true := by
  rw [Specification.parseFile, if_neg (by decide)]
  unfold Specification.parse Specification.ofValue Specification.withPositions Locate.locate
    Text.lines Yaml.readValue Yaml.document Yaml.tokens
  dsimp only
  rw [h]
  decide +kernel

theorem Pipeline.validation_resolved_mall : mallRun.1.2 = .ok () ∧
    ∃ m, mallRun.1.1.model = some m ∧ m.ids = ["d.b", "s.buy", "s.web", "w.auth"] ∧
      m.edges = mallEdges ∧ m.Resolved := by
  have htext : mallText.toList = mallLines.flatMap fun line => line.toList ++ ['\n'] :=
    Text.toList_ofLines mallLines
  have hopens := opens_of_toList htext
  rw [Option.any_eq_true] at hopens
  obtain ⟨s, hs, hopens⟩ := hopens
  have hload : ((Stage.parse : Stage (StateM FileTree)).run mallStart).run mall =
      (.ok { mallStart with specification := some s }, mall) :=
    Action.run_bind_ok (Specification.load_of_text rfl (eq_ok_of_toOption hs))
  have hrun : mallRun = mallRest s := by
    rw [mallRun, Pipeline.validation, Pipeline.run, bind_apply, hload]
    rfl
  rw [Function.comp_apply, ← hrun] at hopens
  obtain ⟨hok, hmodel⟩ := of_decide_eq_true hopens
  unfold mallRun at hok hmodel ⊢
  obtain ⟨m, hm, hresolved⟩ := Pipeline.validation_resolved hok
  rw [hm, Option.map_some, Option.some.injEq] at hmodel
  obtain ⟨hids, hedges⟩ := Prod.mk.inj hmodel
  exact ⟨hok, m, hm, hids, hedges, hresolved⟩

end ArchSpec
