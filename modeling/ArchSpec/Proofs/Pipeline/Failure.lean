import ArchSpec.Proofs.FileTree.Locate
import ArchSpec.Proofs.Generator.Planned
import ArchSpec.Proofs.Pipeline.Stages

/-!
# Runs that fail leave no trace

A run that fails before artifacts are written, or because a path leads out of the output directory
or because the cache is malformed, leaves the tree as it was. One that fails while it writes leaves
the cache file as it was. Generators are asked for files of accepted models only.

* `WriteTask.run_fault` — a task that fails for a declared reason changes nothing.
* `WriteTask.run_error_cache` — a task that fails leaves its cache file alone.
* `Pipeline.compile_congr` — generators count for accepted models only.
* `Pipeline.compile_failure` — what a run that fails leaves.
-/

namespace ArchSpec

open ArchSpec.Action (Keeps Undeclared)
open FileStore (temporaryPath)

/-! ## Tasks that fail -/

namespace WriteTask

variable {task : WriteTask} {as : List Artifact} {t u : FileTree} {e : Failure}

theorem writeOne_undeclared (task : WriteTask) (stale : Option (List String)) (a : Artifact) :
    Undeclared (task.writeOne stale a : Action (StateM FileTree) Bool) := by
  refine (Action.undeclared_lift _).bind fun there => ?_
  split
  · exact Action.undeclared_pure false
  · exact ((FileStore.replaceText_undeclared _ _).within _).bind
      fun _ => Action.undeclared_pure true

theorem writeAll_undeclared (task : WriteTask) (stale : Option (List String))
    (as : List Artifact) :
    Undeclared (task.writeAll stale as : Action (StateM FileTree) WriteStats) := by
  induction as with
  | nil => exact Action.undeclared_pure _
  | cons a rest ih =>
    exact (task.writeOne_undeclared stale a).bind fun _ => ih.bind
      fun _ => Action.undeclared_pure _

/-- A task that fails for a reason that the compiler declares has changed nothing. -/
theorem run_fault {model : Model} {f : Fault}
    (h : (task.run model as : Action (StateM FileTree) WriteStats).run t = (.error e, u))
    (hf : e.cause = .fault f) : u = t := by
  rcases Action.bind_error h with hpaths | ⟨_, t', hpaths, hrest⟩
  · exact (Action.keeps_ofFault _).eq hpaths
  · obtain rfl := (Action.keeps_ofFault _).eq hpaths
    cases hpath : task.cachePath with
    | none =>
      rw [hpath] at hrest
      exact absurd hf (task.writeAll_undeclared none as _ e u hrest f)
    | some path =>
      rw [hpath] at hrest
      rcases Action.bind_error hrest with hload | ⟨c, t'', _, hrun⟩
      · exact (Cache.load_keeps path).eq hload
      · -- from here on only the store can fail
        have hundeclared : Undeclared (task.writeAll (some (c.staleComponents model)) as >>=
            fun stats => ((c.update model).recordArtifacts as).save path >>= fun _ => pure stats :
              Action (StateM FileTree) WriteStats) :=
          (task.writeAll_undeclared _ as).bind fun stats =>
            ((FileStore.replaceText_undeclared _ _).within _).bind
              fun _ => Action.undeclared_pure stats
        exact absurd hf (hundeclared t'' e u hrun f)

/-- A task that fails leaves its cache file alone, unless an artifact takes its place. -/
theorem run_error_cache {path : Path} (hpath : task.cachePath = some path) {model : Model}
    (ht : t.WellFormed)
    (h : (task.run model as : Action (StateM FileTree) WriteStats).run t = (.error e, u))
    (hapart : ∀ a ∈ as, t.locate path ≠ t.locate (task.target a) ∧
      t.locate path ≠ t.locate (temporaryPath (task.target a))) :
    u.textAt? (t.locate path) = t.textAt? (t.locate path) ∧
      ∀ text, t.readText path = .ok text → u.readText path = .ok text := by
  have hchanged := run_error hpath ht h
  have hothers : ∀ q ∈ task.touched as ++ [temporaryPath path], t.locate q ≠ t.locate path := by
    intro q hq
    rcases List.mem_append.1 hq with hq | hq
    · obtain ⟨a, ha, hq⟩ := List.mem_flatMap.1 hq
      simp only [List.mem_cons, List.not_mem_nil, or_false] at hq
      rcases hq with rfl | rfl
      · exact (hapart a ha).2.symm
      · exact (hapart a ha).1.symm
    · rw [List.mem_singleton.1 hq]
      exact t.locate_temporaryPath_ne path
  exact ⟨hchanged.textAt? hothers, fun text => hchanged.readText hothers⟩

end WriteTask

/-! ## Runs that fail -/

namespace Pipeline

variable {t u : FileTree} {p q : Progress} {e : Failure} {r r' : Registry}

/-- **Generators count for accepted models only**: registries that plan the same for these give the
same run. -/
theorem compile_congr (h : ∀ s m, Accepted t p.source s m → r.plan m = r'.plan m) :
    run (compile r : Pipeline (StateM FileTree)) p t =
      run (compile r' : Pipeline (StateM FileTree)) p t := by
  rw [compile, compile, run_append, run_append]
  cases hrun : run (validation : Pipeline (StateM FileTree)) p t with
  | mk result v =>
    obtain ⟨q, outcome⟩ := result
    cases outcome with
    | error e => rfl
    | ok _ =>
      obtain ⟨rfl, s, m, haccepted, rfl⟩ := validation_ok hrun
      simp only
      rw [run_cons, run_cons, Stage.run_generate r rfl, Stage.run_generate r' rfl,
        h s m haccepted]

/-- A run stops at a stage that checks, or at one of the two after all checks. -/
theorem compile_stage {before later : Pipeline (StateM FileTree)} {s : Stage (StateM FileTree)}
    (h : compile r = before ++ s :: later) :
    (s ∈ validation ∧ before <+: validation) ∨ (s = .generate r ∧ before = validation) ∨
      (s = .write ∧ before = validation ++ [.generate r]) := by
  unfold compile at h
  rcases List.append_eq_append_iff.1 h with ⟨more, rfl, hmore⟩ | ⟨rest, hrest, hlater⟩
  · cases more with
    | nil => exact .inr (.inl ⟨(List.cons.inj hmore).1.symm, List.append_nil _⟩)
    | cons first more =>
      obtain ⟨rfl, hwrite⟩ := List.cons.inj hmore
      cases more with
      | nil => exact .inr (.inr ⟨(List.cons.inj hwrite).1.symm, rfl⟩)
      | cons second more =>
        have hlength := congrArg List.length hwrite
        simp at hlength
  · cases rest with
    | nil => exact .inr (.inl ⟨(List.cons.inj hlater).1, by rw [hrest, List.append_nil]⟩)
    | cons first rest =>
      obtain ⟨rfl, _⟩ := List.cons.inj hlater
      exact .inl ⟨by rw [hrest]; simp, ⟨_, hrest.symm⟩⟩

/-- A stage that checks neither generates nor writes. -/
theorem name_of_validation {s : Stage (StateM FileTree)} (h : s ∈ validation) :
    s.name ≠ "generate" ∧ s.name ≠ "write" := by
  simp only [validation, List.mem_cons, List.not_mem_nil, or_false] at h
  rcases h with rfl | rfl | rfl | rfl | rfl <;>
    simp [Stage.parse, Stage.schema, Stage.semantics, Stage.build, Stage.rules]

/-- A run that has come to write artifacts has accepted the specification. -/
theorem generated_ok
    (h : run (validation ++ [.generate r] : Pipeline (StateM FileTree)) p t = ((q, .ok ()), u)) :
    u = t ∧ ∃ s m, Accepted t p.source s m ∧ q.model = some m ∧
      q.configuration = p.configuration ∧ q.force = p.force := by
  rw [run_append] at h
  cases hrun : run (validation : Pipeline (StateM FileTree)) p t with
  | mk result v =>
    obtain ⟨q', outcome⟩ := result
    rw [hrun] at h
    cases outcome with
    | error e => cases h
    | ok _ =>
      obtain ⟨rfl, s, m, haccepted, rfl⟩ := validation_ok hrun
      simp only at h
      rw [run_cons, Stage.run_generate r rfl] at h
      cases hplan : r.plan m with
      | error e =>
        rw [hplan] at h
        cases h
      | ok plan =>
        rw [hplan] at h
        cases h
        exact ⟨rfl, s, m, haccepted, rfl, rfl, rfl⟩

/-- What a run on a tree leaves that stops at a stage, with what it has achieved by then. -/
structure Untraced (t u : FileTree) (p q : Progress) (s : Stage (StateM FileTree)) (e : Failure) :
    Prop where
  /-- Only the last stage changes anything. -/
  reading : s.name ≠ "write" → u = t
  /-- Nothing is written if a path leads out of the output directory or the cache is malformed. -/
  declared : s.name = "write" →
    (∃ path, e.cause = .fault (.pathTraversal path)) ∨
      (∃ message, e.cause = .fault (.cache message)) → u = t
  /-- The cache file is left alone, unless an artifact or its temporary file takes its place. -/
  cache : s.name = "write" → ∀ path, p.configuration.cachePath? = some path →
    (∀ a ∈ q.artifacts,
      t.locate path ≠ t.locate (Path.join p.configuration.outputDirectory a.path) ∧
      t.locate path ≠
        t.locate (temporaryPath (Path.join p.configuration.outputDirectory a.path))) →
    u.textAt? (t.locate path) = t.textAt? (t.locate path) ∧
      ∀ text, t.readText path = .ok text → u.readText path = .ok text
  /-- What is generated and written comes from an accepted model. -/
  accepted : s.name = "generate" ∨ s.name = "write" →
    ∃ spec m, Accepted t p.source spec m ∧ q.model = some m

/-- The writing of artifacts, if it fails. -/
theorem write_untraced (ht : t.WellFormed) {spec : Specification} {m : Model}
    (haccepted : Accepted t p.source spec m) (hm : q.model = some m)
    (hc : q.configuration = p.configuration)
    (h : ((Stage.write : Stage (StateM FileTree)).run q).run t = (.error e, u)) :
    Untraced t u p q .write e := by
  rw [Stage.run_write hm] at h
  cases htask : ((Stage.writeTask q).run m q.artifacts :
      Action (StateM FileTree) WriteStats).run t with
  | mk result v =>
    rw [htask] at h
    cases result with
    | ok stats => cases h
    | error e' =>
      cases h
      refine ⟨fun hname => absurd rfl hname, ?_, ?_, fun _ => ⟨spec, m, haccepted, hm⟩⟩
      · rintro - (⟨path, hcause⟩ | ⟨message, hcause⟩)
        · exact WriteTask.run_fault htask hcause
        · exact WriteTask.run_fault htask hcause
      · intro _ path hpath hapart
        rw [← hc] at hpath hapart
        exact WriteTask.run_error_cache hpath ht htask hapart

/-- **A run that fails leaves no trace**, unless it fails while it writes; then it leaves the cache
file alone. Generators count for accepted models only: a registry that plans the same for these
gives the same run. -/
theorem compile_failure (ht : t.WellFormed) (r : Registry) (p : Progress) :
    (∀ r' : Registry, (∀ s m, Accepted t p.source s m → r.plan m = r'.plan m) →
      run (compile r : Pipeline (StateM FileTree)) p t =
        run (compile r' : Pipeline (StateM FileTree)) p t) ∧
    ∀ q e u, run (compile r : Pipeline (StateM FileTree)) p t = ((q, .error e), u) →
      ∃ (before : Pipeline (StateM FileTree)) (s : Stage (StateM FileTree))
        (later : Pipeline (StateM FileTree)),
        compile r = before ++ s :: later ∧ run before p t = ((q, .ok ()), t) ∧
        (s.run q).run t = (.error e, u) ∧ Untraced t u p q s e := by
  refine ⟨fun r' hplans => compile_congr hplans, fun q e u h => ?_⟩
  obtain ⟨before, s, later, v, hstages, hbefore, hs⟩ := run_error h
  rcases compile_stage hstages with ⟨hcheck, hearlier⟩ | ⟨rfl, rfl⟩ | ⟨rfl, rfl⟩
  · have hnames := name_of_validation hcheck
    obtain rfl : v = t := by
      have := run_keeps (fun s' hs' => Stage.validation_keeps s' (hearlier.subset hs')) p t
      rwa [hbefore] at this
    refine ⟨before, s, later, hstages, hbefore, hs, ?_⟩
    refine ⟨fun _ => (Stage.validation_keeps s hcheck q).eq hs, fun hname => ?_,
      fun hname => ?_, ?_⟩
    · exact absurd hname hnames.2
    · exact absurd hname hnames.2
    · rintro (hname | hname)
      · exact absurd hname hnames.1
      · exact absurd hname hnames.2
  · obtain ⟨rfl, spec, m, haccepted, rfl⟩ := validation_ok hbefore
    refine ⟨_, _, later, hstages, hbefore, hs, ?_⟩
    have hname : (Stage.generate r : Stage (StateM FileTree)).name ≠ "write" := by
      simp [Stage.generate]
    refine ⟨fun _ => (Stage.generate_keeps r _).eq hs, fun h => absurd h hname,
      fun h => absurd h hname, fun _ => ⟨spec, m, haccepted, rfl⟩⟩
  · obtain ⟨rfl, spec, m, haccepted, hm, hc, _⟩ := generated_ok hbefore
    exact ⟨_, _, later, hstages, hbefore, hs, write_untraced ht haccepted hm hc hs⟩

end Pipeline

/-- The tree of the shop with a cache, and with a directory where the snapshot is written. -/
def stuckShop : FileTree :=
  { shop with entries := shop.entries ++ [(["out"], .directory), (["out", ".bound"], .directory),
      (["out", ".bound", "ir.json"], .directory),
      (["out", ".bound", "cache.json"], .file "\x7b\x7d")] }

/-- The compilation of the shop there. -/
def stuckRun : (Progress × Except Failure Unit) × FileTree :=
  Pipeline.run (Pipeline.compile .builtin : Pipeline (StateM FileTree))
    (.start "/shop" ⟨"/out", true, defaultCacheFile⟩ false) stuckShop

theorem Pipeline.compile_failure_stuck : stuckShop.WellFormed ∧
    (∃ e, stuckRun.1.2 = .error e) ∧
    stuckRun.2.textAt? ["out", ".bound", "ir.json.tmp"] ≠ none ∧
    stuckRun.2.textAt? ["out", ".bound", "cache.json"] = some "\x7b\x7d" := by
  have hwell : stuckShop.WellFormed := FileTree.wellFormed_of_entries (by decide)
  have hrun : stuckRun.1.2.isOk = false ∧
      stuckRun.2.textAt? ["out", ".bound", "ir.json.tmp"] ≠ none ∧
      (stuckRun.1.1.artifacts.map (·.path)) = [".bound/ir.json", "docs/usecases/s.buy.md"] := by
    decide +kernel
  refine ⟨hwell, ?_, hrun.2.1, ?_⟩
  · cases herror : stuckRun.1.2 with
    | error e => exact ⟨e, rfl⟩
    | ok _ =>
      rw [herror] at hrun
      cases hrun.1
  · unfold stuckRun at hrun ⊢
    generalize hresult : Pipeline.run (Pipeline.compile .builtin : Pipeline (StateM FileTree))
      (.start "/shop" ⟨"/out", true, defaultCacheFile⟩ false) stuckShop = result at hrun ⊢
    obtain ⟨⟨q, outcome⟩, u⟩ := result
    obtain ⟨hfailed, htemporary, hpaths⟩ := hrun
    cases outcome with
    | ok _ => cases hfailed
    | error e =>
      obtain ⟨before, s, later, _, _, _, huntraced⟩ :=
        (compile_failure hwell .builtin _).2 q e u hresult
      have hwrite : s.name = "write" := by
        by_contra hname
        obtain rfl := huntraced.reading hname
        exact htemporary (show stuckShop.textAt? _ = none by decide)
      refine (huntraced.cache hwrite _ rfl fun a ha => ?_).1.trans (by decide)
      have hpath : a.path ∈ q.artifacts.map (·.path) := List.mem_map.2 ⟨a, ha, rfl⟩
      rw [show q.artifacts.map (·.path) = _ from hpaths] at hpath
      simp only [List.mem_cons, List.not_mem_nil, or_false] at hpath
      rcases hpath with hpath | hpath <;> rw [hpath] <;> decide +kernel

end ArchSpec
