import ArchSpec.Proofs.Artifact.History
import ArchSpec.Proofs.Cache.History

/-!
# Which files a saved cache lists of components

The files that a cache lists of a component come from two places. When the cache is brought up to
date, a component that is still what it was keeps its list, and any other one starts with none.
After that the plan is recorded: each component that has artifacts gets their paths instead. One
without artifacts is not recorded, so it goes on with what it has kept, and that may be files that
nothing plans any more.

* `Cache.Lists`, `Cache.Carries` — the files that a cache lists, and those that it passes on.
* `Cache.lists_recorded_iff` — what is listed when a plan has been recorded.
* `WriteCall.lists_planned_iff` — after a call, which components are listed with what is planned.
* `WriteCall.list_outlives_plan` — not all of them are.
-/

namespace ArchSpec

/-! ## The list of a component -/

namespace Cache

variable {c : Cache} {m : Model} {id : String} {component : Component} {paths : List String}
  {artifacts : List Artifact}

/-- The files that a cache lists of a component. -/
def Lists (c : Cache) (id : String) (paths : List String) : Prop :=
  ∃ entry, c.components.get? id = some entry ∧ entry.artifacts = paths

/-- The files that a cache lists of a component which is still what it was. -/
def Carries (c : Cache) (id : String) (component : Component) (paths : List String) : Prop :=
  ∃ entry, c.components.get? id = some entry ∧ entry.hash = component.fingerprint ∧
    entry.artifacts = paths

theorem Lists.unique {paths' : List String} (h : c.Lists id paths) (h' : c.Lists id paths') :
    paths = paths' := by
  obtain ⟨entry, hentry, rfl⟩ := h
  obtain ⟨entry', hentry', rfl⟩ := h'
  rw [hentry] at hentry'
  cases hentry'
  rfl

/-- A component that is still what it was keeps its list. -/
theorem refresh_of_carries (h : c.Carries id component paths) :
    c.refresh id component = ⟨component.fingerprint, paths⟩ := by
  obtain ⟨entry, hentry, hhash, rfl⟩ := h
  rw [refresh, hentry]
  exact if_pos hhash

/-- Any other component starts without files. -/
theorem refresh_of_not_carries (h : ¬∃ paths, c.Carries id component paths) :
    c.refresh id component = ⟨component.fingerprint, []⟩ := by
  unfold refresh
  split
  · rfl
  · rename_i entry hentry
    exact if_neg fun hhash => h ⟨entry.artifacts, entry, hentry, hhash, rfl⟩

/-- The components that are recorded are those that have artifacts. -/
theorem mem_owners_iff :
    id ∈ artifacts.filterMap (·.file.component) ↔ Artifact.pathsOf id artifacts ≠ [] := by
  rw [Artifact.pathsOf, ne_eq, List.map_eq_nil_iff, List.filter_eq_nil_iff, List.mem_filterMap]
  simp

/-- **What is listed when a plan has been recorded**: what it has for a component, or else what the
component has kept. -/
theorem lists_recorded (hget : m.get? id = some component) (artifacts : List Artifact) :
    ((c.update m).recordArtifacts artifacts).Lists id
      (if Artifact.pathsOf id artifacts = [] then (c.refresh id component).artifacts
        else Artifact.pathsOf id artifacts) := by
  have hupdated : (c.update m).components.get? id = some (c.refresh id component) := by
    have hget : m.components.get? id = some component := hget
    rw [update, SortedMap.get?_mapValues, hget, Option.map_some]
  refine ⟨_, by rw [get?_recordArtifacts, hupdated, Option.map_some], ?_⟩
  by_cases hnone : Artifact.pathsOf id artifacts = []
  · rw [if_neg (fun hmem => mem_owners_iff.1 hmem hnone), if_pos hnone]
  · rw [if_pos (mem_owners_iff.2 hnone), if_neg hnone]

/-- A component for which nothing is planned goes on with the files that it has kept. -/
theorem lists_of_carries (hget : m.get? id = some component)
    (hnone : Artifact.pathsOf id artifacts = []) (hcarries : c.Carries id component paths) :
    ((c.update m).recordArtifacts artifacts).Lists id paths := by
  have hlist := lists_recorded (c := c) hget artifacts
  rw [if_pos hnone, refresh_of_carries hcarries] at hlist
  exact hlist

/-- A component is listed with what is planned for it, unless that is nothing and it has kept
files. -/
theorem lists_recorded_iff (hget : m.get? id = some component) (artifacts : List Artifact) :
    ((c.update m).recordArtifacts artifacts).Lists id (Artifact.pathsOf id artifacts) ↔
      Artifact.pathsOf id artifacts ≠ [] ∨ ∀ paths, c.Carries id component paths → paths = [] := by
  have hlist := lists_recorded (c := c) hget artifacts
  by_cases hnone : Artifact.pathsOf id artifacts = []
  · rw [if_pos hnone] at hlist
    simp only [hnone, ne_eq, not_true_eq_false, false_or]
    constructor
    · intro hempty paths hcarries
      exact (lists_of_carries hget hnone hcarries).unique hempty
    · intro hkept
      by_cases hcarries : ∃ paths, c.Carries id component paths
      · obtain ⟨paths, hcarries⟩ := hcarries
        rw [← hkept paths hcarries]
        exact lists_of_carries hget hnone hcarries
      · rw [refresh_of_not_carries hcarries] at hlist
        exact hlist
  · rw [if_neg hnone] at hlist
    exact iff_of_true hlist (.inl hnone)

end Cache

/-! ## The lists after a call -/

namespace WriteCall

variable {w : WriteCall} {place : Place} {t u : FileTree} {stats : WriteStats}

/-- The paths of the artifacts that a call plans for a component, in the order of the plan. -/
def plannedPaths (w : WriteCall) (id : String) : List String :=
  (w.artifacts.filter fun a => a.file.component = some id).map (·.path)

/-- **A call with a cache that succeeds lists every component of its model with the paths that it
plans for it**, written or left alone, in the order of the plan; but a component for which it plans
nothing, and which is still what it was, goes on with the files that it was listed with. -/
theorem lists_planned_iff (ht : t.WellFormed) (hcached : w.cached = true)
    (hrun : w.run place t = (.ok stats, u)) :
    ∃ earlier saved : Cache,
      (Cache.load place.cachePath : Action (StateM FileTree) Cache).run t = (.ok earlier, t) ∧
      (Cache.load place.cachePath : Action (StateM FileTree) Cache).run u = (.ok saved, u) ∧
      saved.components.keys = w.model.ids ∧
      ∀ id component, w.model.get? id = some component →
        (saved.Lists id (w.plannedPaths id) ↔
          w.plannedPaths id ≠ [] ∨ ∀ paths, earlier.Carries id component paths → paths = []) ∧
        ∀ paths, w.plannedPaths id = [] → earlier.Carries id component paths →
          saved.Lists id paths := by
  obtain ⟨earlier, hload, hsaved⟩ := run_saved ht hcached hrun
  have hversion := WriteTask.version_saved hload w.model w.artifacts
  have hmodel := (earlier.remembersModel_update w.model).recordArtifacts w.artifacts
  refine ⟨earlier, _, hload, Cache.load_current hversion hsaved, hmodel.keys_eq,
    fun id component hget => ⟨?_, fun paths hnone hcarries => ?_⟩⟩
  · exact Cache.lists_recorded_iff hget w.artifacts
  · exact Cache.lists_of_carries hget hnone hcarries

/-! ## A file that goes from one database to the other -/

/-- The tree after the site has been written with a file for each database. -/
def siteWritten : FileTree := ((writeSite true "y").run sitePlace siteTree).2

/-- A call that plans both files for the first database, and none for the second one, which may
have changed. The file of the second one is there and is to be left alone. -/
def joinedSite (schema : String) : WriteCall :=
  ⟨true, true, site schema, [siteArtifact "a" "x", ⟨"schemas", "b", ⟨"y", .writeOnce, some "a"⟩⟩]⟩

theorem siteWritten_wellFormed : siteWritten.WellFormed :=
  ((writeSite true "y").run_changed sitePlace siteTree_wellFormed).wellFormed

theorem siteWritten_load : (Cache.load "cache" : Action (StateM FileTree) Cache).run siteWritten =
    (.ok siteCache, siteWritten) :=
  Cache.load_current rfl site_saved

theorem eq_siteCache_of_load {c : Cache}
    (h : (Cache.load "cache" : Action (StateM FileTree) Cache).run siteWritten =
      (.ok c, siteWritten)) : c = siteCache :=
  Except.ok.inj (congrArg Prod.fst (h.symm.trans siteWritten_load))

theorem site_get?_second (schema : String) :
    (site schema).get? "b" = some (siteDatabase "b" schema) := by
  rw [site_get?]
  rfl

theorem joinedSite_run (schema : String) (hschema : schema ∈ ["y", "z"]) :
    (joinedSite schema).run sitePlace siteWritten =
      (.ok ⟨["a"], ["b"]⟩, ((joinedSite schema).run sitePlace siteWritten).2) := by
  have hpath : ((joinedSite schema).task sitePlace).cachePath = some "cache" := rfl
  have hload := WriteTask.run_of_load hpath siteWritten_load (site schema)
    (joinedSite schema).artifacts
  have hstats : ((joinedSite schema).run sitePlace siteWritten).1.toOption =
      some ⟨["a"], ["b"]⟩ := by
    show (((((joinedSite schema).task sitePlace).run (site schema) (joinedSite schema).artifacts :
      Action (StateM FileTree) WriteStats).run _).1).toOption = _
    rw [hload]
    simp only [List.mem_cons, List.not_mem_nil, or_false] at hschema
    rcases hschema with rfl | rfl <;> decide +kernel
  exact eq_pair_of_toOption hstats

/-- The second database had a file when the site was written first. -/
theorem siteCache_carries : siteCache.Carries "b" (siteDatabase "b" "y") ["b"] := by
  have hplanned : Artifact.pathsOf "b" (writeSite true "y").artifacts = ["b"] := by
    decide
  have hlists := (Cache.lists_recorded_iff (c := .empty) (site_get?_second "y")
    (writeSite true "y").artifacts).2 (.inl (by rw [hplanned]; exact List.cons_ne_nil _ _))
  rw [hplanned] at hlists
  obtain ⟨entry, hentry, hpaths⟩ := hlists
  have hentry' : siteCache.components.get? "b" = some entry := hentry
  have hget : (site "y").components.get? "b" = some (siteDatabase "b" "y") := site_get?_second "y"
  have hhash := siteCache_remembersModel.hash "b"
  rw [Cache.hash?, hentry', hget] at hhash
  exact ⟨entry, hentry', Option.some.inj hhash, hpaths⟩

/-- The first database is listed with both files, one of them left alone, and the second one, which
has changed, with none. -/
theorem lists_planned_iff_joined : ∃ u saved,
    (joinedSite "z").run sitePlace siteWritten = (.ok ⟨["a"], ["b"]⟩, u) ∧
    (Cache.load "cache" : Action (StateM FileTree) Cache).run u = (.ok saved, u) ∧
    saved.Lists "a" ["a", "b"] ∧ saved.Lists "b" [] := by
  have hrun := joinedSite_run "z" (by simp)
  obtain ⟨earlier, saved, hload, hsaved, _, hlists⟩ :=
    lists_planned_iff siteWritten_wellFormed rfl hrun
  have hget : (site "z").get? "a" = some (siteDatabase "a" "x") := by
    rw [site_get?]
    rfl
  have hfirst : (joinedSite "z").plannedPaths "a" = ["a", "b"] := by
    decide
  have hsecond : (joinedSite "z").plannedPaths "b" = [] := by
    decide
  have hchanged : ¬(siteDatabase "b" "y").fingerprint = (siteDatabase "b" "z").fingerprint := by
    decide +kernel
  have hlistsFirst := hlists "a" (siteDatabase "a" "x") hget
  have hlistsSecond := hlists "b" (siteDatabase "b" "z") (site_get?_second "z")
  rw [hfirst] at hlistsFirst
  rw [hsecond, eq_siteCache_of_load hload] at hlistsSecond
  refine ⟨_, saved, hrun, hsaved, hlistsFirst.1.2 (.inl (List.cons_ne_nil _ _)),
    hlistsSecond.1.2 (.inr fun paths hcarries => ?_)⟩
  obtain ⟨entry, hentry, hhash, _⟩ := hcarries
  obtain ⟨entry', hentry', hhash', _⟩ := siteCache_carries
  rw [hentry] at hentry'
  cases hentry'
  exact absurd (hhash'.symm.trans hhash) hchanged

/-- **Some component is listed with files that are not planned for it**: the second database, if it
has not changed, goes on with a file that is now planned for the first one. -/
theorem list_outlives_plan : ¬∀ (w : WriteCall) (place : Place) (t u : FileTree)
    (stats : WriteStats), t.WellFormed → w.cached = true → w.run place t = (.ok stats, u) →
    ∃ saved, (Cache.load place.cachePath : Action (StateM FileTree) Cache).run u =
      (.ok saved, u) ∧ ∀ id component, w.model.get? id = some component →
        saved.Lists id (w.plannedPaths id) := by
  intro h
  have hrun := joinedSite_run "y" (by simp)
  have hnone : (joinedSite "y").plannedPaths "b" = [] := by
    decide
  obtain ⟨saved, hsaved, hlists⟩ := h _ _ _ _ _ siteWritten_wellFormed rfl hrun
  obtain ⟨earlier, hload, hread⟩ := run_saved siteWritten_wellFormed rfl hrun
  have hversion := WriteTask.version_saved hload (joinedSite "y").model (joinedSite "y").artifacts
  have hsame := Except.ok.inj
    (congrArg Prod.fst (hsaved.symm.trans (Cache.load_current hversion hread)))
  have hempty := hlists "b" _ (site_get?_second "y")
  rw [hnone, hsame, eq_siteCache_of_load hload] at hempty
  have hkept := Cache.lists_of_carries (site_get?_second "y") hnone siteCache_carries
  exact absurd (hempty.unique hkept) (by simp)

end WriteCall

end ArchSpec
