import Mathlib.Data.List.Perm.Basic
import ArchSpec.Proofs.Generator.Places
import ArchSpec.Proofs.Path.Normal
import ArchSpec.Proofs.Pipeline.Accepted

/-!
# Nothing is refused that is always generated

The generators that are always there make files under different paths that are not empty, so their
plan is complete for every model. If the model is that of an accepted specification, its IDs have no
separators, and the paths stay different places below every output directory.

* `Plan.addEntries_free` — files under free paths are all added.
* `Registry.plan_builtin`, `Registry.perm_builtin` — the plan is made, and what it consists of.
* `UsecasePage.steps_path` — the steps of the path of a page.
* `Pipeline.generate_builtin` — what is generated after a validation that succeeds.
-/

namespace ArchSpec

/-! ## Additions that are not refused -/

namespace Plan

variable {p : Plan} {owner path : String}

theorem add_free (hpath : path ≠ "") (hfree : p.byPath.get? path = none) (file : GeneratedFile) :
    p.add owner path file = .ok ⟨p.byPath.insert path ⟨owner, path, file⟩⟩ := by
  have hnamed : path.isEmpty = false := by simpa using hpath
  rw [add, hnamed, hfree]
  rfl

/-- Files under different paths are all added, if these paths are free and not empty. -/
theorem addEntries_free (owner : String) {es : List (String × GeneratedFile)}
    (hdistinct : (es.map (·.1)).Nodup)
    (hfree : ∀ e ∈ es, e.1 ≠ "" ∧ p.byPath.get? e.1 = none) :
    ∃ q, p.addEntries owner es = (q, .ok ()) := by
  induction es generalizing p with
  | nil => exact ⟨p, rfl⟩
  | cons e es ih =>
    obtain ⟨path, file⟩ := e
    obtain ⟨hother, hdistinct⟩ := List.nodup_cons.1 hdistinct
    obtain ⟨⟨hpath, hpathFree⟩, hfree⟩ := List.forall_mem_cons.1 hfree
    rw [addEntries, add_free hpath hpathFree]
    refine ih hdistinct fun e he => ⟨(hfree e he).1, ?_⟩
    have hne : path ≠ e.1 := fun h => hother (List.mem_map.2 ⟨e, he, h.symm⟩)
    rw [SortedMap.get?_insert, if_neg hne]
    exact (hfree e he).2

end Plan

/-! ## The plan of the generators that are always there -/

theorem UsecasePage.path_ne_empty (id : String) : path id ≠ "" := by
  rw [path_eq]
  simp

/-- The pages of the use-cases of a model as artifacts. -/
def UsecasePage.artifacts (m : Model) : List Artifact :=
  m.components.values.filterMap fun c => c.usecase?.map (artifact m c.id)

theorem UsecasePage.mem_artifacts {m : Model} (hm : m.WellFormed) {a : Artifact} :
    a ∈ artifacts m ↔ ∃ id c u, m.get? id = some c ∧ c.usecase? = some u ∧ a = artifact m id u := by
  unfold artifacts
  rw [List.mem_filterMap]
  constructor
  · rintro ⟨c, hc, ha⟩
    obtain ⟨id, hid⟩ := (m.components.mem_values_iff c).1 hc
    obtain ⟨u, hu, rfl⟩ := Option.map_eq_some_iff.1 ha
    exact ⟨id, c, u, hid, hu, by rw [hm.id_eq hid]⟩
  · rintro ⟨id, c, u, hc, hu, rfl⟩
    refine ⟨c, (m.components.mem_values_iff c).2 ⟨id, hc⟩, ?_⟩
    rw [hu, hm.id_eq hc]
    rfl

/-- The paths of these artifacts are those of the pages. -/
theorem UsecasePage.map_path_artifacts (m : Model) :
    (artifacts m).map (·.path) = (pages m).map (·.1) := by
  unfold artifacts pages
  rw [List.map_filterMap, List.map_filterMap]
  congr 1
  funext c
  cases c.usecase? <;> rfl

namespace Registry

variable {m : Model} {plan : Plan}

/-- What is found among the pages is found under the path of a page. -/
theorem path_of_get?_pages {k : String} {file : GeneratedFile}
    (h : (SortedMap.ofList (UsecasePage.pages m)).get? k = some file) :
    ∃ id, k = UsecasePage.path id := by
  rw [SortedMap.get?, SortedMap.entries_ofList, findEntry_foldl, findEntry, Option.or_none] at h
  have hmem : (k, file) ∈ UsecasePage.pages m := List.mem_reverse.1 (mem_of_findEntry h)
  obtain ⟨c, _, hpage⟩ := List.mem_filterMap.1 hmem
  obtain ⟨u, _, heq⟩ := Option.map_eq_some_iff.1 hpage
  exact ⟨c.id, (congrArg Prod.fst heq).symm⟩

/-- The files of a generator are added before those of the others. -/
theorem planWith_cons {p q : Plan} {g : Generator} {files : GeneratedFiles}
    (hfiles : g.run m = .ok files) (hadd : p.addEntries g.name files.entries = (q, .ok ()))
    (rest : List Generator) : planWith m p (g :: rest) = planWith m q rest := by
  have hall : p.addAll g.name files = (q, .ok ()) := hadd
  rw [planWith, hfiles]
  simp only
  rw [hall]

/-- **The plan is made for every model**: no path is empty, and none is claimed twice. -/
theorem plan_builtin (m : Model) : ∃ plan, builtin.plan m = .ok plan := by
  have hsnapshot : Plan.empty.addEntries Snapshot.generator.name
      (SortedMap.empty.insert Snapshot.path
        (⟨Snapshot.content m, .overwrite, none⟩ : GeneratedFile)).entries =
      (⟨SortedMap.empty.insert Snapshot.path (Snapshot.artifact m)⟩, .ok ()) := rfl
  rw [plan, runningFor_builtin, planWith_cons rfl hsnapshot]
  split
  · obtain ⟨q, hq⟩ := Plan.addEntries_free
      (p := ⟨SortedMap.empty.insert Snapshot.path (Snapshot.artifact m)⟩)
      UsecasePage.generator.name
      (SortedMap.nodup_keys (.ofList (UsecasePage.pages m))) fun e he => by
        have hget := ((SortedMap.ofList (UsecasePage.pages m)).mem_entries_iff e.1 e.2).1 he
        obtain ⟨id, hid⟩ := path_of_get?_pages hget
        rw [hid, SortedMap.get?_insert, if_neg (snapshot_ne_page id)]
        exact ⟨UsecasePage.path_ne_empty id, rfl⟩
    exact ⟨q, planWith_cons rfl hq []⟩
  · exact ⟨_, rfl⟩

/-- **What the plan consists of**: the snapshot of the model and one page for each use-case. -/
theorem perm_builtin (hm : m.WellFormed) (h : builtin.plan m = .ok plan) :
    plan.toList.Perm (Snapshot.artifact m :: UsecasePage.artifacts m) := by
  have hpages : (UsecasePage.artifacts m).Nodup := by
    refine List.Nodup.of_map (·.path) ?_
    rw [UsecasePage.map_path_artifacts]
    exact UsecasePage.nodup_pages hm
  have hnodup : (Snapshot.artifact m :: UsecasePage.artifacts m).Nodup := by
    refine List.nodup_cons.2 ⟨fun hmem => ?_, hpages⟩
    obtain ⟨id, c, u, _, _, heq⟩ := (UsecasePage.mem_artifacts hm).1 hmem
    exact snapshot_ne_page id (congrArg Artifact.path heq)
  refine (List.perm_ext_iff_of_nodup (List.Nodup.of_map _ (keyed_plan h).nodup) hnodup).2 ?_
  intro a
  rw [mem_builtin hm h, List.mem_cons, UsecasePage.mem_artifacts hm]

end Registry

/-! ## Places of the planned files -/

open ArchSpec.Path (IsName isArtifactPath isSafe)

theorem UsecasePage.isName {id : String} (h : '/' ∉ id.toList) : IsName (id ++ ".md") := by
  have hlong : ∀ dots : String, dots.length < 3 → id ++ ".md" ≠ dots := by
    intro dots hdots heq
    have hlength := congrArg String.length heq
    rw [String.length_append, show ".md".length = 3 from rfl] at hlength
    omega
  exact ⟨by simpa using h, hlong _ (by decide), hlong _ (by decide), hlong _ (by decide)⟩

/-- The path of a page goes down to the directory of pages, and there to the name of the page. -/
theorem UsecasePage.steps_path {id : String} (h : '/' ∉ id.toList) :
    Path.steps (path id) = [.name "docs", .name "usecases", .name (id ++ ".md")] := by
  obtain ⟨hjoin, hrelative⟩ := path_eq_join h
  rw [hjoin, Path.steps_join hrelative (by decide),
    (Path.moves_of_name (isName h).noSlash (isName h).noDots).1]
  rfl

/-- The path of a page has no dots to be taken away. -/
theorem UsecasePage.normalSteps_path {id : String} (h : '/' ∉ id.toList) :
    Path.normalSteps (path id) = Path.steps (path id) := by
  rw [Path.normalSteps, steps_path h]
  rfl

theorem UsecasePage.isArtifactPath_path {id : String} (h : '/' ∉ id.toList) :
    isArtifactPath (path id) = true := by
  have hfirst : (path id).toList.head? = some 'd' := by
    rw [path_eq, String.toList_append, String.toList_append]
    rfl
  have hbelow : Path.staysBelow 0 (Path.steps (path id)) = true := by
    rw [steps_path h]
    rfl
  rw [isArtifactPath, (plain_path h).relative, hfirst, hbelow]
  decide

theorem Snapshot.isArtifactPath_path : isArtifactPath path = true := by decide +kernel

theorem Snapshot.normalSteps_path : Path.normalSteps path = [.name ".bound", .name "ir.json"] := by
  decide +kernel

namespace Registry

variable {m : Model} {plan : Plan} {a b : Artifact}

/-- The paths of the plan never leave the output directory. -/
theorem isArtifactPath_builtin (hm : m.WellFormed)
    (hids : ∀ id c, m.get? id = some c → '/' ∉ id.toList) (h : builtin.plan m = .ok plan)
    (ha : a ∈ plan.toList) : isArtifactPath a.path = true := by
  rcases (mem_builtin hm h).1 ha with rfl | ⟨id, c, u, hc, _, rfl⟩
  · exact Snapshot.isArtifactPath_path
  · exact UsecasePage.isArtifactPath_path (hids id c hc)

/-- Two artifacts of the plan whose paths are the same without dots are the same. -/
theorem eq_of_normalSteps_eq (hm : m.WellFormed)
    (hids : ∀ id c, m.get? id = some c → '/' ∉ id.toList) (h : builtin.plan m = .ok plan)
    (ha : a ∈ plan.toList) (hb : b ∈ plan.toList)
    (hsame : Path.normalSteps a.path = Path.normalSteps b.path) : a = b := by
  have hpage : ∀ {id c}, m.get? id = some c → ∀ u,
      Path.normalSteps (UsecasePage.artifact m id u).path =
        [.name "docs", .name "usecases", .name (id ++ ".md")] := fun {id c} hc u => by
    have hid := hids id c hc
    rw [← UsecasePage.steps_path hid, ← UsecasePage.normalSteps_path hid]
    rfl
  have hsnapshot : Path.normalSteps (Snapshot.artifact m).path =
      [.name ".bound", .name "ir.json"] := Snapshot.normalSteps_path
  rcases (mem_builtin hm h).1 ha with rfl | ⟨id, c, u, hc, hu, rfl⟩ <;>
    rcases (mem_builtin hm h).1 hb with rfl | ⟨id', c', u', hc', hu', rfl⟩
  · rfl
  · rw [hsnapshot, hpage hc'] at hsame
    exact absurd hsame (by simp)
  · rw [hsnapshot, hpage hc] at hsame
    exact absurd hsame (by simp)
  · rw [hpage hc, hpage hc'] at hsame
    have hid : id = id' := by simpa using hsame
    subst hid
    rw [hc] at hc'
    cases hc'
    rw [hu] at hu'
    cases hu'
    rfl

end Registry

/-! ## After a validation that succeeds -/

/-- **Generation does not fail after a validation that succeeds.** It plans the snapshot of the
model and one page for each use-case. The paths of these files are different also without dots, and
are safe below every output directory. -/
theorem Pipeline.generate_builtin {p : Progress} {t : FileTree}
    (h : (run (validation : Pipeline (StateM FileTree)) p t).1.2 = .ok ()) :
    ∃ q m artifacts, run (validation : Pipeline (StateM FileTree)) p t = ((q, .ok ()), t) ∧
      q.model = some m ∧
      ((Stage.generate .builtin : Stage (StateM FileTree)).run q).run t =
        (.ok { q with artifacts := artifacts }, t) ∧
      artifacts.Perm (Snapshot.artifact m :: UsecasePage.artifacts m) ∧
      (artifacts.map fun a => Path.steps (Path.normalize a.path)).Nodup ∧
      ∀ a ∈ artifacts, isArtifactPath a.path = true ∧ ∀ output, isSafe output a.path = true := by
  cases hrun : run (validation : Pipeline (StateM FileTree)) p t with
  | mk result u =>
    obtain ⟨q, outcome⟩ := result
    rw [hrun] at h
    obtain rfl : outcome = .ok () := h
    obtain ⟨rfl, s, m, haccepted, hq⟩ := validation_ok hrun
    obtain ⟨plan, hplan⟩ := Registry.plan_builtin m
    have hmodel : q.model = some m := by rw [hq]
    have hgenerate := Stage.run_generate .builtin hmodel u
    rw [hplan] at hgenerate
    have hm := haccepted.wellFormed
    have hids := haccepted.not_mem_slash
    have hnodup : (plan.toList.map fun a => Path.steps (Path.normalize a.path)).Nodup := by
      refine List.Nodup.map_on (fun a ha b hb hsame => ?_)
        (List.Nodup.of_map _ (Registry.keyed_plan hplan).nodup)
      rw [Path.steps_normalize, Path.steps_normalize] at hsame
      exact Registry.eq_of_normalSteps_eq hm hids hplan ha hb hsame
    refine ⟨q, m, plan.toList, rfl, hmodel, hgenerate, Registry.perm_builtin hm hplan, hnodup,
      fun a ha => ?_⟩
    have hpath := Registry.isArtifactPath_builtin hm hids hplan ha
    exact ⟨hpath, fun output => Path.isSafe_of_isArtifactPath output hpath⟩

/-- A tree with a specification of a server and a use-case, and the contract of the server. -/
def shop : FileTree :=
  ⟨[(["shop"], .file ("version: 1.0.0\nname: shop\ncomponents:\n" ++
      "- id: s.web\n  kind: server\n  spec:\n    framework: axum\n    port: 80\n" ++
      "    openapi: web\n" ++
      "- id: s.buy\n  kind: usecase\n  spec:\n    binds_to: s.web:GET:/\n    goal: buy\n")),
    (["web"], .file "openapi: 3.0.0\npaths:\n  /:\n    get:\n      summary: visit\n")], []⟩

/-- The validation of that specification. -/
def shopRun : (Progress × Except Failure Unit) × FileTree :=
  Pipeline.run (Pipeline.validation : Pipeline (StateM FileTree))
    (.start "/shop" .standard false) shop

/-- The shop has one use-case, so one page is planned beside the snapshot. -/
theorem Pipeline.generate_builtin_shop : shopRun.1.2 = .ok () ∧
    ∃ q m artifacts, shopRun = ((q, .ok ()), shop) ∧
      (UsecasePage.artifacts m).map (·.path) = ["docs/usecases/s.buy.md"] ∧
      ((Stage.generate .builtin : Stage (StateM FileTree)).run q).run shop =
        (.ok { q with artifacts := artifacts }, shop) ∧
      artifacts.Perm (Snapshot.artifact m :: UsecasePage.artifacts m) ∧
      (artifacts.map fun a => Path.steps (Path.normalize a.path)).Nodup ∧
      ∀ a ∈ artifacts, isArtifactPath a.path = true ∧
        ∀ output, isSafe output a.path = true := by
  have hrun : shopRun.1.2 = .ok () ∧ (shopRun.1.1.model.map fun m =>
      (UsecasePage.artifacts m).map (·.path)) = some ["docs/usecases/s.buy.md"] := by
    decide +kernel
  unfold shopRun at hrun ⊢
  obtain ⟨q, m, artifacts, hstate, hmodel, hgenerated, hplanned⟩ :=
    Pipeline.generate_builtin hrun.1
  have hpages := hrun.2
  rw [hstate, hmodel, Option.map_some, Option.some.injEq] at hpages
  exact ⟨hrun.1, q, m, artifacts, hstate, hpages, hgenerated, hplanned⟩

end ArchSpec
