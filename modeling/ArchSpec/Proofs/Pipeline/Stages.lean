import ArchSpec.Proofs.Artifact.Write
import ArchSpec.Proofs.FileStore.Reading
import ArchSpec.Proofs.Pipeline.Validation

/-!
# The stages of a run, one after the other

All stages but the last only read, so the tree is what it was until artifacts are written. Two
pipelines in a row run one after the other, and a run that fails stops at a stage that does.

* `Pipeline.run_append`, `run_error`, `run_keeps` — runs by their stages.
* `Accepted` — a specification in which no stage finds a problem, with its model;
  `Pipeline.validation_ok` — what a validation that succeeds has found.
* `Stage.run_generate`, `run_write` — the stages after it.
* `Pipeline.compile_cases` — what a whole run does.
-/

namespace ArchSpec

open ArchSpec.Action (Keeps)

/-! ## Runs -/

namespace Pipeline

variable {σ : Type} {stages : Pipeline (StateM σ)} {s : Stage (StateM σ)} {p q : Progress}
  {t u : σ} {e : Failure}

theorem run_cons (s : Stage (StateM σ)) (rest : Pipeline (StateM σ)) (p : Progress) (t : σ) :
    run (s :: rest) p t = match (s.run p).run t with
      | (.error e, u) => ((p, .error e), u)
      | (.ok q, u) => run rest q u := by
  rw [run, bind_apply]
  cases hs : (s.run p).run t with
  | mk r u => cases r <;> rfl

/-- Two pipelines in a row run one after the other. -/
theorem run_append (before later : Pipeline (StateM σ)) (p : Progress) (t : σ) :
    run (before ++ later) p t = match run before p t with
      | ((q, .error e), u) => ((q, .error e), u)
      | ((q, .ok ()), u) => run later q u := by
  induction before generalizing p t with
  | nil => rfl
  | cons s before ih =>
    rw [List.cons_append, run_cons, run_cons]
    split
    · rfl
    · exact ih _ _

/-- A run that fails has run some stages, with what they achieved, and stopped at the next. -/
theorem run_error (h : run stages p t = ((q, .error e), u)) :
    ∃ (before : Pipeline (StateM σ)) (s : Stage (StateM σ)) (later : Pipeline (StateM σ)) (v : σ),
      stages = before ++ s :: later ∧ run before p t = ((q, .ok ()), v) ∧
        (s.run q).run v = (.error e, u) := by
  induction stages generalizing p t with
  | nil => cases h
  | cons s rest ih =>
    rw [run_cons] at h
    cases hs : (s.run p).run t with
    | mk r v =>
      rw [hs] at h
      cases r with
      | error e' =>
        cases h
        exact ⟨[], s, rest, t, rfl, rfl, hs⟩
      | ok p' =>
        obtain ⟨before, s', later, w, rfl, hbefore, hs'⟩ := ih h
        refine ⟨s :: before, s', later, w, rfl, ?_, hs'⟩
        rw [run_cons, hs]
        exact hbefore

/-- Stages that only read leave the store as it is, however far the run gets. -/
theorem run_keeps (h : ∀ s ∈ stages, ∀ p, Keeps (s.run p)) (p : Progress) (t : σ) :
    (run stages p t).2 = t := by
  induction stages generalizing p t with
  | nil => rfl
  | cons s rest ih =>
    rw [run_cons]
    cases hs : (s.run p).run t with
    | mk r u =>
      obtain rfl := (h s List.mem_cons_self p).eq hs
      cases r with
      | error e => rfl
      | ok q => exact ih (fun s' hs' => h s' (List.mem_cons_of_mem _ hs')) q u

end Pipeline

/-! ## The stages that check -/

/-- The contracts that a specification names, as they are in a tree. -/
def contractsAt (t : FileTree) (s : Specification) (path : Path) : Except Failure Contract :=
  Stage.contractFor
    ((Contract.loadAll (Model.contractPaths s s.baseDirectory) : StateM FileTree _) t).1 path

/-- A specification in the files of a tree, with its model, in which no stage finds a problem. -/
structure Accepted (t : FileTree) (source : Path) (s : Specification) (m : Model) : Prop where
  load : (Specification.load source : Action (StateM FileTree) Specification).run t = (.ok s, t)
  schema : Schema.check s.raw = []
  semantics : s.checkSemantics = []
  build : Model.build s s.baseDirectory (contractsAt t s) = (m, [])
  rules : m.check = []

namespace Stage

variable {p q : Progress} {t u : FileTree}

theorem requireSpecification_ok {s : Specification} (h : p.requireSpecification = .ok s) :
    p.specification = some s := by
  unfold Progress.requireSpecification at h
  split at h
  · cases h
  · rename_i hs
    cases h
    exact hs

theorem parse_ok (h : ((parse : Stage (StateM FileTree)).run p).run t = (.ok q, u)) :
    ∃ s, (Specification.load p.source : Action (StateM FileTree) Specification).run t =
      (.ok s, u) ∧ q = { p with specification := some s } := by
  obtain ⟨s, v, hload, h⟩ := Action.bind_ok h
  cases h
  exact ⟨s, hload, rfl⟩

theorem schema_ok (h : ((schema : Stage (StateM FileTree)).run p).run t = (.ok q, u)) :
    q = p ∧ ∃ s, p.specification = some s ∧ Schema.check s.raw = [] := by
  obtain ⟨s, hs, h⟩ := except_bind_ok (Action.ofFault_ok h)
  obtain ⟨_, hrefuse, h⟩ := except_bind_ok h
  cases h
  exact ⟨rfl, s, requireSpecification_ok hs, refuse_ok hrefuse⟩

theorem semantics_ok (h : ((semantics : Stage (StateM FileTree)).run p).run t = (.ok q, u)) :
    q = p ∧ ∃ s, p.specification = some s ∧ s.checkSemantics = [] := by
  obtain ⟨s, hs, h⟩ := except_bind_ok (Action.ofFault_ok h)
  obtain ⟨_, hrefuse, h⟩ := except_bind_ok h
  cases h
  exact ⟨rfl, s, requireSpecification_ok hs, Diagnostic.sort_eq_nil_iff.1 (refuse_ok hrefuse)⟩

theorem build_eq (h : ((build : Stage (StateM FileTree)).run p).run t = (.ok q, u)) :
    ∃ s m, p.specification = some s ∧ Model.build s s.baseDirectory (contractsAt t s) = (m, []) ∧
      q = { p with model := some m } := by
  obtain ⟨s, v, hs, hrest⟩ := Action.bind_ok h
  obtain rfl := (Action.keeps_ofFault _).eq hs
  obtain ⟨found, w, hfound, hfrom⟩ := Action.bind_ok hrest
  cases hfound
  obtain ⟨_, hrefuse, hq⟩ := except_bind_ok (Action.ofFault_ok hfrom)
  cases hq
  refine ⟨s, _, requireSpecification_ok (Action.ofFault_ok hs), ?_, rfl⟩
  exact Prod.ext rfl (Diagnostic.sort_eq_nil_iff.1 (refuse_ok hrefuse))

/-- All stages up to the last check only read. -/
theorem validation_keeps :
    ∀ s ∈ (Pipeline.validation : Pipeline (StateM FileTree)), ∀ p, Keeps (s.run p) := by
  intro s hs p
  simp only [Pipeline.validation, List.mem_cons, List.not_mem_nil, or_false] at hs
  rcases hs with rfl | rfl | rfl | rfl | rfl
  · exact (Specification.load_keeps p.source).bind fun s => Action.keeps_pure _
  · exact Action.keeps_ofFault _
  · exact Action.keeps_ofFault _
  · refine (Action.keeps_ofFault _).bind fun s => ?_
    exact Keeps.bind (fun t => Contract.loadAll_state _ t) fun found => Action.keeps_ofFault _
  · exact Action.keeps_ofFault _

end Stage

/-- A validation that succeeds has accepted the specification, and changes nothing. -/
theorem Pipeline.validation_ok {p q : Progress} {t u : FileTree}
    (h : run (validation : Pipeline (StateM FileTree)) p t = ((q, .ok ()), u)) :
    u = t ∧ ∃ s m, Accepted t p.source s m ∧
      q = { p with specification := some s, model := some m } := by
  have hstate : u = t := by
    have := run_keeps Stage.validation_keeps p t
    rwa [h] at this
  refine ⟨hstate, ?_⟩
  have hkeeps := fun s hs p => Stage.validation_keeps s hs p
  simp only [validation, List.mem_cons, List.not_mem_nil, or_false, forall_eq_or_imp,
    forall_eq] at hkeeps
  obtain ⟨p₁, t₁, hparse, h⟩ := run_cons_ok h
  obtain ⟨p₂, t₂, hschema, h⟩ := run_cons_ok h
  obtain ⟨p₃, t₃, hsemantics, h⟩ := run_cons_ok h
  obtain ⟨p₄, t₄, hbuild, h⟩ := run_cons_ok h
  obtain ⟨p₅, t₅, hrules, h⟩ := run_cons_ok h
  obtain rfl := (hkeeps.1 _).eq hparse
  obtain rfl := (hkeeps.2.1 _).eq hschema
  obtain rfl := (hkeeps.2.2.1 _).eq hsemantics
  obtain ⟨s, hload, rfl⟩ := Stage.parse_ok hparse
  obtain ⟨rfl, s₁, hs₁, hnoschema⟩ := Stage.schema_ok hschema
  obtain ⟨rfl, s₂, hs₂, hnosemantics⟩ := Stage.semantics_ok hsemantics
  obtain ⟨s₃, m, hs₃, hnobuild, rfl⟩ := Stage.build_eq hbuild
  obtain ⟨rfl, m', hm, hnorules⟩ := Stage.rules_ok hrules
  cases hs₁
  cases hs₂
  cases hs₃
  cases hm
  exact ⟨s, m, ⟨hload, hnoschema, hnosemantics, hnobuild, hnorules⟩, run_nil_ok h⟩

/-! ## The stages after the checks -/

namespace Stage

variable {r : Registry} {p q : Progress} {t u : FileTree}

theorem generate_keeps (r : Registry) (p : Progress) :
    Keeps ((generate r : Stage (StateM FileTree)).run p) := fun _ => rfl

theorem run_generate (r : Registry) {m : Model} (hm : p.model = some m) (t : FileTree) :
    ((generate r : Stage (StateM FileTree)).run p).run t =
      ((r.plan m).map fun plan => { p with artifacts := plan.toList }, t) := by
  have hrequire : p.requireModel = .ok m := by
    rw [Progress.requireModel, hm]
  have hrun : ((generate r : Stage (StateM FileTree)).run p).run t =
      ((p.requireModel.mapError Failure.ofFault >>= fun model => r.plan model >>= fun plan =>
        pure { p with artifacts := plan.toList }), t) := rfl
  rw [hrun, hrequire]
  cases h : r.plan m with
  | error e => simp [Except.mapError, bind, Except.bind, h, Except.map]
  | ok plan => simp [Except.mapError, bind, Except.bind, h, Except.map, pure, Except.pure]

/-- The task of writing what a run has generated. -/
def writeTask (p : Progress) : WriteTask :=
  ⟨p.configuration.outputDirectory, p.configuration.cachePath?, p.force⟩

theorem run_write {m : Model} (hm : p.model = some m) (t : FileTree) :
    ((write : Stage (StateM FileTree)).run p).run t =
      match ((writeTask p).run m p.artifacts : Action (StateM FileTree) WriteStats).run t with
      | (.error e, u) => (.error e, u)
      | (.ok stats, u) => (.ok { p with stats := stats }, u) := by
  have hmodel : (Action.ofFault p.requireModel : Action (StateM FileTree) Model).run t =
      (.ok m, t) := by
    rw [Progress.requireModel, hm]
    rfl
  refine (Action.run_bind_ok hmodel).trans ?_
  cases htask : ((writeTask p).run m p.artifacts : Action (StateM FileTree) WriteStats).run t with
  | mk result u =>
    cases result with
    | error e => exact Action.run_bind_error htask
    | ok stats => exact Action.run_bind_ok htask

end Stage

/-- What a run has achieved that has come to write. -/
def Progress.generated (p : Progress) (s : Specification) (m : Model) (plan : Plan) : Progress :=
  { p with specification := some s, model := some m, artifacts := plan.toList }

/-- **A run changes nothing, or it writes what is planned for an accepted model.** -/
theorem Pipeline.compile_cases (r : Registry) (p : Progress) (t : FileTree) :
    (∃ q e, run (compile r : Pipeline (StateM FileTree)) p t = ((q, .error e), t)) ∨
    ∃ s m plan, Accepted t p.source s m ∧ r.plan m = .ok plan ∧
      run (compile r : Pipeline (StateM FileTree)) p t =
        match ((Stage.writeTask p).run m plan.toList :
          Action (StateM FileTree) WriteStats).run t with
        | (.error e, u) => ((p.generated s m plan, .error e), u)
        | (.ok stats, u) => (({ p.generated s m plan with stats := stats }, .ok ()), u) := by
  rw [compile, run_append]
  cases hrun : run (validation : Pipeline (StateM FileTree)) p t with
  | mk result v =>
    obtain ⟨q, outcome⟩ := result
    cases outcome with
    | error e =>
      have hstate := run_keeps Stage.validation_keeps p t
      rw [hrun] at hstate
      exact .inl ⟨q, e, by rw [show v = t from hstate]⟩
    | ok _ =>
      obtain ⟨rfl, s, m, haccepted, rfl⟩ := validation_ok hrun
      simp only
      rw [run_cons, Stage.run_generate r rfl]
      cases hplan : r.plan m with
      | error e => exact .inl ⟨_, e, rfl⟩
      | ok plan =>
        refine .inr ⟨s, m, plan, haccepted, hplan, ?_⟩
        simp only [Except.map]
        have hsame : Stage.writeTask p = Stage.writeTask (p.generated s m plan) := rfl
        have hartifacts : plan.toList = (p.generated s m plan).artifacts := rfl
        rw [run_cons, ← Progress.generated, Stage.run_write rfl, hsame, hartifacts]
        generalize ((Stage.writeTask (p.generated s m plan)).run m
          (p.generated s m plan).artifacts : Action (StateM FileTree) WriteStats).run v = done
        obtain ⟨result, u⟩ := done
        cases result <;> rfl

end ArchSpec
