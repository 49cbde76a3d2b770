import ArchSpec.Proofs.Pipeline.Accepted

/-!
# Validations that succeed

A validation succeeds if the specification can be read, with the contracts that it names, and no
stage finds a problem in it.

* `contractsAt_of_text` — contracts that can be read.
* `Stage.schema_of_nil`, `semantics_of_nil`, `build_of_eq`, `rules_of_nil` — stages that find no
  problems.
* `Accepted.validation` — a whole validation.
-/

namespace ArchSpec

/-! ## Contracts -/

/-- Of several paths, each is found with what is read from it. -/
theorem Contract.lookup_loadAll (t : FileTree) {path : Path} : ∀ {paths : List Path},
    path ∈ paths → ((loadAll paths : StateM FileTree _) t).1.lookup path =
      some ((load path : Action (StateM FileTree) Contract).run t).1
  | first :: rest, h => by
    rw [loadAll, bind_apply, bind_apply, Contract.load_keeps first t]
    by_cases hfirst : path = first
    · subst hfirst
      exact List.lookup_cons_self
    · have hrest := (List.mem_cons.1 h).resolve_left hfirst
      refine Eq.trans ?_ (lookup_loadAll t hrest)
      change (_ :: _).lookup path = _
      rw [List.lookup_cons, beq_false_of_ne hfirst]

/-- The contract of a file that a specification names. -/
theorem contractsAt_of_text {t : FileTree} {s : Specification} {path : Path} {k : Contract}
    {text : String} (hpath : path ∈ Model.contractPaths s s.baseDirectory)
    (hread : t.readText path = .ok text) (hcontract : OpenApi.contract text = .ok k) :
    contractsAt t s path = .ok k := by
  rw [contractsAt, Stage.contractFor, Contract.lookup_loadAll t hpath,
    Contract.load_of_text hread hcontract]
  rfl

/-! ## Stages -/

namespace Stage

variable {p : Progress} {t : FileTree} {s : Specification} {m : Model}

theorem run_ofFault_ok {x : Except Fault Progress} {q : Progress} (h : x = .ok q) :
    (Action.ofFault x : Action (StateM FileTree) Progress).run t = (.ok q, t) := by
  rw [h]
  rfl

/-- No problems are left without problems when they are put in order. -/
theorem sort_nil : Diagnostic.sort ([] : List Diagnostic) = [] := Diagnostic.sort_eq_nil_iff.2 rfl

theorem schema_of_nil (hs : p.specification = some s) (h : Schema.check s.raw = []) :
    ((schema : Stage (StateM FileTree)).run p).run t = (.ok p, t) := by
  refine run_ofFault_ok ?_
  simp only [Progress.requireSpecification, hs, bind, Except.bind, h]
  rfl

theorem semantics_of_nil (hs : p.specification = some s) (h : s.checkSemantics = []) :
    ((semantics : Stage (StateM FileTree)).run p).run t = (.ok p, t) := by
  refine run_ofFault_ok ?_
  simp only [Progress.requireSpecification, hs, bind, Except.bind, h, sort_nil]
  rfl

theorem rules_of_nil (hm : p.model = some m) (h : m.check = []) :
    ((rules : Stage (StateM FileTree)).run p).run t = (.ok p, t) := by
  refine run_ofFault_ok ?_
  simp only [Progress.requireModel, hm, bind, Except.bind, h, sort_nil]
  rfl

theorem build_of_eq (hs : p.specification = some s)
    (h : Model.build s s.baseDirectory (contractsAt t s) = (m, [])) :
    ((build : Stage (StateM FileTree)).run p).run t = (.ok { p with model := some m }, t) := by
  have hrequired : (Action.ofFault p.requireSpecification : Action (StateM FileTree) _).run t =
      (.ok s, t) := by
    rw [Progress.requireSpecification, hs]
    rfl
  have hfound : (ExceptT.lift (Contract.loadAll (Model.contractPaths s s.baseDirectory)) :
      Action (StateM FileTree) _).run t =
        (.ok ((Contract.loadAll (Model.contractPaths s s.baseDirectory) :
          StateM FileTree _) t).1, t) :=
    Prod.ext rfl (Contract.loadAll_state _ t)
  refine (Action.run_bind_ok hrequired).trans ((Action.run_bind_ok hfound).trans ?_)
  refine run_ofFault_ok ?_
  change buildFrom (contractsAt t s) s p = _
  simp only [buildFrom, h, sort_nil]
  rfl

end Stage

/-! ## The whole validation -/

/-- A stage that succeeds is followed by the rest. -/
theorem Pipeline.run_cons_of_ok {σ : Type} {s : Stage (StateM σ)} {p q : Progress} {t u : σ}
    (rest : Pipeline (StateM σ)) (h : (s.run p).run t = (.ok q, u)) :
    run (s :: rest) p t = run rest q u := by
  rw [run_cons, h]

/-- **A specification that is accepted passes validation.** -/
theorem Accepted.validation {p : Progress} {t : FileTree} {s : Specification} {m : Model}
    (h : Accepted t p.source s m) :
    Pipeline.run (Pipeline.validation : Pipeline (StateM FileTree)) p t =
      (({ p with specification := some s, model := some m }, .ok ()), t) := by
  have hparse : ((Stage.parse : Stage (StateM FileTree)).run p).run t =
      (.ok { p with specification := some s }, t) := Action.run_bind_ok h.load
  refine (Pipeline.run_cons_of_ok _ hparse).trans ?_
  refine (Pipeline.run_cons_of_ok _ (Stage.schema_of_nil rfl h.schema)).trans ?_
  refine (Pipeline.run_cons_of_ok _ (Stage.semantics_of_nil rfl h.semantics)).trans ?_
  refine (Pipeline.run_cons_of_ok _ (Stage.build_of_eq rfl h.build)).trans ?_
  exact Pipeline.run_cons_of_ok [] (Stage.rules_of_nil rfl h.rules)

end ArchSpec
