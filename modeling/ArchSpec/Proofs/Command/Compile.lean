import ArchSpec.Command.Compile
import ArchSpec.Proofs.Pipeline.Stages

/-!
# What a compilation runs

A compilation reads a configuration and runs its pipeline, so it writes what has been generated from
an accepted specification, or it changes nothing.

* `Command.run_compileRun` — a compilation by its configuration and its pipeline.
* `Command.compileRun_cases` — what a compilation does.
* `Command.compileRun_state`, `compileRun_ok` — what it changes, and one that succeeds.
-/

namespace ArchSpec.Command

variable {t u : FileTree} {source : Path} {output : Option Path} {noCache force verbose : Bool}
  {o : Output}

/-- What a compilation starts its pipeline with. -/
def compileStart (c : Configuration) (source : Path) (output : Option Path)
    (noCache force : Bool) : Progress :=
  .start source (c.override output noCache) force

/-- A compilation reads a configuration and runs its pipeline. -/
theorem run_compileRun (t : FileTree) (source : Path) (output : Option Path)
    (noCache force verbose : Bool) :
    (compileRun source output noCache force verbose : StateM FileTree Output) t =
      match (Configuration.forSpecification source : Action (StateM FileTree) _).run t with
      | (.error e, _) => (.failed e, t)
      | (.ok c, _) =>
        match Pipeline.run (Pipeline.compile .builtin : Pipeline (StateM FileTree))
          (compileStart c source output noCache force) t with
        | ((_, .error e), u) => (.failed e, u)
        | ((p, .ok ()), u) => (.printed (compileText verbose p), u) := by
  rw [compileRun, bind_apply]
  cases hc : (Configuration.forSpecification source : Action (StateM FileTree) _).run t with
  | mk result v =>
    obtain rfl := (Configuration.load_keeps _).eq hc
    cases result with
    | error e => rfl
    | ok c =>
      simp only
      rw [bind_apply, ← compileStart]
      cases hrun : Pipeline.run (Pipeline.compile .builtin : Pipeline (StateM FileTree))
        (compileStart c source output noCache force) v with
      | mk result u =>
        obtain ⟨q, outcome⟩ := result
        cases outcome <;> rfl

/-- The task of writing what a compilation has generated. -/
def compileTask (c : Configuration) (force : Bool) : WriteTask :=
  ⟨c.outputDirectory, c.cachePath?, force⟩

/-- **A compilation changes nothing and fails, or it writes what is planned** for an accepted
model. -/
theorem compileRun_cases (t : FileTree) (source : Path) (output : Option Path)
    (noCache force verbose : Bool) :
    (∃ e, (compileRun source output noCache force verbose : StateM FileTree Output) t =
      (.failed e, t)) ∨
    ∃ c s m plan,
      (Configuration.forSpecification source : Action (StateM FileTree) _).run t = (.ok c, t) ∧
      Accepted t source s m ∧ Registry.builtin.plan m = .ok plan ∧
      (compileRun source output noCache force verbose : StateM FileTree Output) t =
        match ((compileTask (c.override output noCache) force).run m plan.toList :
          Action (StateM FileTree) WriteStats).run t with
        | (.error e, u) => (.failed e, u)
        | (.ok stats, u) => (.printed (compileText verbose
          { (compileStart c source output noCache force).generated s m plan with
            stats := stats }), u) := by
  rw [run_compileRun]
  cases hc : (Configuration.forSpecification source : Action (StateM FileTree) _).run t with
  | mk result v =>
    obtain rfl := (Configuration.load_keeps _).eq hc
    cases result with
    | error e => exact .inl ⟨e, rfl⟩
    | ok c =>
      simp only
      rcases Pipeline.compile_cases .builtin (compileStart c source output noCache force) v with
        ⟨q, e, hrun⟩ | ⟨s, m, plan, haccepted, hplan, hrun⟩
      · rw [hrun]
        exact .inl ⟨e, rfl⟩
      · refine .inr ⟨c, s, m, plan, rfl, haccepted, hplan, ?_⟩
        have htask : Stage.writeTask (compileStart c source output noCache force) =
            compileTask (c.override output noCache) force := rfl
        rw [hrun, htask]
        generalize ((compileTask (c.override output noCache) force).run m plan.toList :
          Action (StateM FileTree) WriteStats).run v = done
        obtain ⟨result, u⟩ := done
        cases result <;> rfl

/-- The file system after a compilation is the one before, or that of the writing. -/
theorem compileRun_state (t : FileTree) (source : Path) (output : Option Path)
    (noCache force verbose : Bool) :
    ((compileRun source output noCache force verbose : StateM FileTree Output) t).2 = t ∨
    ∃ c s m plan,
      (Configuration.forSpecification source : Action (StateM FileTree) _).run t = (.ok c, t) ∧
      Accepted t source s m ∧ Registry.builtin.plan m = .ok plan ∧
      ((compileRun source output noCache force verbose : StateM FileTree Output) t).2 =
        (((compileTask (c.override output noCache) force).run m plan.toList :
          Action (StateM FileTree) WriteStats).run t).2 := by
  rcases compileRun_cases t source output noCache force verbose with
    ⟨e, hrun⟩ | ⟨c, s, m, plan, hc, haccepted, hplan, hrun⟩
  · exact .inl (congrArg Prod.snd hrun)
  · refine .inr ⟨c, s, m, plan, hc, haccepted, hplan, ?_⟩
    rw [hrun]
    split <;> rename_i hdone <;> rw [hdone]

/-- A compilation that succeeds has written what is planned. -/
theorem compileRun_ok (h : (compileRun source output noCache force verbose :
      StateM FileTree Output) t = (o, u)) (hok : o.outcome = .ok ()) :
    ∃ c s m plan stats,
      (Configuration.forSpecification source : Action (StateM FileTree) _).run t = (.ok c, t) ∧
      Accepted t source s m ∧ Registry.builtin.plan m = .ok plan ∧
      ((compileTask (c.override output noCache) force).run m plan.toList :
        Action (StateM FileTree) WriteStats).run t = (.ok stats, u) ∧
      o = .printed (compileText verbose
        { (compileStart c source output noCache force).generated s m plan with
          stats := stats }) := by
  rcases compileRun_cases t source output noCache force verbose with
    ⟨e, hrun⟩ | ⟨c, s, m, plan, hc, haccepted, hplan, hrun⟩
  · rw [h] at hrun
    cases hrun
    cases hok
  · rw [h] at hrun
    cases htask : ((compileTask (c.override output noCache) force).run m plan.toList :
        Action (StateM FileTree) WriteStats).run t with
    | mk result v =>
      rw [htask] at hrun
      cases result with
      | error e =>
        cases hrun
        cases hok
      | ok stats =>
        cases hrun
        exact ⟨c, s, m, plan, stats, hc, haccepted, hplan, htask, rfl⟩

end ArchSpec.Command
