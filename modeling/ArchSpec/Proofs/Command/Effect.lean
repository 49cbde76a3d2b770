import ArchSpec.Proofs.Command.Compile
import ArchSpec.Proofs.Configuration
import ArchSpec.Proofs.Generator.Places
import ArchSpec.Proofs.Pipeline.Accepted

/-!
# What a compilation leaves

A compilation that succeeds leaves the snapshot of its model, the pages of the use-cases as far as
they were not there, and a cache that is up to date; nothing else is changed. The same compilation
finds the same settings and the same model afterwards, and has nothing to change.

* `Command.Effect` — the files that a compilation leaves, and what it reports.
* `Command.effect_of_result` — the effect of the task of writing.
* `Command.compileRun_again` — a compilation that is run again.
* `Command.compileRun_effect` — what a compilation leaves, and that it may be run again.
* `Command.page_missing_after_detour` — a page whose place is on the way to the output directory.
-/

namespace ArchSpec.Command

open FileStore (temporaryPath)
open FileTree (ChangedAt MadeAlong lastChar?)

variable {t u : FileTree} {source : Path} {output : Option Path} {noCache force verbose : Bool}
  {c : Configuration} {s : Specification} {m : Model} {plan : Plan} {stats : WriteStats}
  {o : Output}

/-- What a compilation leaves in a tree `u` that was `t` before, and what it reports. -/
structure Effect (c : Configuration) (force : Bool) (t u : FileTree) (m : Model) (plan : Plan)
    (stats : WriteStats) : Prop where
  /-- The snapshot is that of the model. -/
  snapshot : u.readText (Path.join c.outputDirectory Snapshot.path) = .ok (Snapshot.content m)
  /-- A page holds what it held before, if it was there, and is rendered otherwise, unless its place
  is taken by a directory or is on the way to the output directory. -/
  page : ∀ id component usecase, m.get? id = some component → component.usecase? = some usecase →
    t.find? (t.locate (Path.join c.outputDirectory (UsecasePage.path id))) ≠ some .directory →
    t.locate (Path.join c.outputDirectory (UsecasePage.path id)) ∉ t.way c.outputDirectory →
    u.readText (Path.join c.outputDirectory (UsecasePage.path id)) =
      .ok ((t.textAt? (t.locate (Path.join c.outputDirectory (UsecasePage.path id)))).getD
        (UsecasePage.content m id usecase))
  /-- The cache has the fingerprints of the model, and for each use-case its page. -/
  cache : c.cache = true → ∃ k : Cache,
    (Cache.load (Path.join c.outputDirectory defaultCacheFile) :
      Action (StateM FileTree) Cache).run u = (.ok k, u) ∧ k.RemembersModel m ∧
    ∀ id component usecase, m.get? id = some component → component.usecase? = some usecase →
      k.components.get? id = some ⟨component.fingerprint, [UsecasePage.path id]⟩
  /-- Other files are as they were, but for the temporary files beside those that are written. -/
  frame : ∀ l, (∀ p ∈ (compileTask c force).writtenFiles stats,
    t.locate p ≠ l ∧ t.locate (temporaryPath p) ≠ l) → u.textAt? l = t.textAt? l
  /-- Planned paths are different and in order; each is reported by what happened to it. -/
  order : (plan.toList.map (·.path)).Pairwise (· < ·)
  written : stats.written =
    (plan.toList.filter (!(compileTask c force).leaves t u ·)).map (·.path)
  skipped : stats.skipped =
    (plan.toList.filter ((compileTask c force).leaves t u ·)).map (·.path)

/-! ## The task -/

/-- The task of a compilation with the usual cache file reports and leaves what a task does. -/
theorem result_of_run (ht : t.WellFormed) (haccepted : Accepted t source s m)
    (hplan : Registry.builtin.plan m = .ok plan) (hcache : c.cacheFile = defaultCacheFile)
    (h : ((compileTask c force).run m plan.toList : Action (StateM FileTree) WriteStats).run t =
      (.ok stats, u)) : (compileTask c force).Result m t u plan.toList stats := by
  have hm := haccepted.wellFormed
  have hids := haccepted.not_mem_slash
  obtain ⟨pages, hlist, _⟩ := Registry.toList_builtin hm hplan
  have hsep := Registry.separate_builtin hm hplan hids t c.outputDirectory
  rw [List.map_append, List.map_map] at hsep
  refine WriteTask.run_result ht (hsep.sublist ?_)
    (fun a ha => (Registry.own_of_mem hm hplan hids ha).plain)
    (fun a ha => Registry.steady_builtin hm hplan ha) (fun a ha => ?_) h
  · refine (List.Sublist.refl _).append ?_
    rw [compileTask, Configuration.cachePath?, Configuration.cachePath, hcache]
    split
    · exact List.Sublist.refl _
    · exact List.nil_sublist _
  · rw [hlist, List.head?_cons, Option.some.injEq] at ha
    rw [← ha]
    rfl

/-- What is written in a compilation and kept as its cache has a path of its own. -/
theorem own_of_target (hm : m.WellFormed) (hplan : Registry.builtin.plan m = .ok plan)
    (hids : ∀ id component, m.get? id = some component → '/' ∉ id.toList)
    (hcache : c.cacheFile = defaultCacheFile) {p : Path}
    (hp : p ∈ plan.toList.map (compileTask c force).target ++
      (compileTask c force).cachePath.toList) :
    ∃ r, Registry.Own r ∧ p = Path.join c.outputDirectory r := by
  rcases List.mem_append.1 hp with hp | hp
  · obtain ⟨a, ha, rfl⟩ := List.mem_map.1 hp
    exact ⟨a.path, Registry.own_of_mem hm hplan hids ha, rfl⟩
  · rw [compileTask, Configuration.cachePath?, Configuration.cachePath, hcache] at hp
    split at hp
    · exact ⟨defaultCacheFile, .inr (.inl rfl), List.mem_singleton.1 hp⟩
    · cases hp

/-- No directory is made in the place of a page, if it is not on the way to the output directory. -/
theorem page_not_directory (hm : m.WellFormed) (hplan : Registry.builtin.plan m = .ok plan)
    (hids : ∀ id component, m.get? id = some component → '/' ∉ id.toList)
    (hcache : c.cacheFile = defaultCacheFile)
    (hmade : MadeAlong (WriteTask.parentsOf (plan.toList.map (compileTask c force).target ++
      (compileTask c force).cachePath.toList)) t u) {id : String} (hid : '/' ∉ id.toList)
    (hbefore : t.find? (t.locate (Path.join c.outputDirectory (UsecasePage.path id))) ≠
      some .directory)
    (hway : t.locate (Path.join c.outputDirectory (UsecasePage.path id)) ∉
      t.way c.outputDirectory) :
    u.find? (t.locate (Path.join c.outputDirectory (UsecasePage.path id))) ≠ some .directory := by
  intro hdirectory
  rcases hmade.directory _ hdirectory with hthere | ⟨q, hq, hmem⟩
  · exact hbefore hthere
  · obtain ⟨p, hp, hparent⟩ := List.mem_flatMap.1 hq
    obtain ⟨r, hr, rfl⟩ := own_of_target hm hplan hids hcache hp
    exact hway (hr.page_on_way (Option.mem_toList.1 hparent) hid hmem)

/-- **The effect of a compilation** is that of its task. -/
theorem effect_of_result (hm : m.WellFormed) (hplan : Registry.builtin.plan m = .ok plan)
    (hids : ∀ id component, m.get? id = some component → '/' ∉ id.toList)
    (hcache : c.cacheFile = defaultCacheFile)
    (h : (compileTask c force).Result m t u plan.toList stats)
    (hmade : MadeAlong (WriteTask.parentsOf (plan.toList.map (compileTask c force).target ++
      (compileTask c force).cachePath.toList)) t u) :
    Effect c force t u m plan stats where
  snapshot := h.done (Snapshot.artifact m) ((Registry.mem_builtin hm hplan).2 (.inl rfl)) rfl
  page id component usecase hc hu hbefore hway :=
    h.readText_writeOnce (a := UsecasePage.artifact m id usecase) ((Registry.mem_builtin hm hplan).2
      (.inr ⟨id, component, usecase, hc, hu, rfl⟩)) rfl
      (page_not_directory hm hplan hids hcache hmade (hids id component hc) hbefore hway)
  cache hkept := by
    have hpath : (compileTask c force).cachePath =
        some (Path.join c.outputDirectory defaultCacheFile) := by
      rw [compileTask, Configuration.cachePath?, if_pos hkept, Configuration.cachePath, hcache]
    obtain ⟨earlier, hversion, htext⟩ := h.cache _ hpath
    have hremembers := earlier.remembersModel_update m
    refine ⟨_, Cache.load_current hversion htext, hremembers.recordArtifacts _, ?_⟩
    intro id component usecase hc hu
    have hhash := hremembers.hash id
    rw [show m.components.get? id = some component from hc, Option.map_some, Cache.hash?,
      Option.map_eq_some_iff] at hhash
    obtain ⟨entry, hentry, hhash⟩ := hhash
    have hpage : id ∈ plan.toList.filterMap (·.file.component) :=
      List.mem_filterMap.2 ⟨_, (Registry.mem_builtin hm hplan).2
        (.inr ⟨id, component, usecase, hc, hu, rfl⟩), rfl⟩
    rw [Cache.get?_recordArtifacts, hentry, Option.map_some, if_pos hpage, ← hhash,
      Registry.pathsOf_builtin hm hplan hc hu]
  frame l hl := by
    refine h.changed.textAt? fun q hq => ?_
    obtain ⟨p, hp, hq⟩ := List.mem_flatMap.1 hq
    simp only [List.mem_cons, List.not_mem_nil, or_false] at hq
    rcases hq with rfl | rfl
    · exact (hl p hp).2
    · exact (hl q hp).1
  order := (Registry.keyed_plan hplan).increasing
  written := h.written
  skipped := h.skipped

/-- A page whose place is on the way to the output directory is not there: the way leads through
directories. -/
theorem Effect.page_on_way (h : Effect c force t u m plan stats) {id : String}
    (hdir : u.workingDirectory = t.workingDirectory)
    (hway : t.locate (Path.join c.outputDirectory (UsecasePage.path id)) ∈
      t.way c.outputDirectory) (text : String) :
    u.readText (Path.join c.outputDirectory (UsecasePage.path id)) ≠ .ok text := by
  intro hread
  rw [← FileTree.locate_congr hdir, ← FileTree.way_congr hdir] at hway
  have hdirectory := FileTree.directory_of_mem_way (FileTree.readText_ok h.snapshot).1
    Snapshot.plain_path.relative hway
  rw [(FileTree.readText_ok hread).2] at hdirectory
  cases hdirectory

/-! ## The same compilation again -/

/-- A file that has not been written is not read as another text afterwards. -/
theorem sameText_of_result {path : Path} {task : WriteTask} {as : List Artifact}
    (h : task.Result m t u as stats)
    (hpath : ∀ p ∈ task.writtenFiles stats, t.locate path ≠ t.locate p) : t.SameText u path := by
  intro text text' htext htext'
  by_cases htemporary : ∃ p ∈ task.writtenFiles stats,
      t.locate (temporaryPath p) = t.locate path
  · -- what was in the place of a temporary file is gone
    obtain ⟨p, hp, hlocate⟩ := htemporary
    have hgone := h.temporaries p hp
    rw [hlocate, ← h.changed.locate, FileTree.textAt?_of_readText htext'] at hgone
    cases hgone
  · have hkept : u.readText path = .ok text := by
      refine h.changed.readText (fun q hq => ?_) htext
      obtain ⟨p, hp, hq⟩ := List.mem_flatMap.1 hq
      simp only [List.mem_cons, List.not_mem_nil, or_false] at hq
      rcases hq with rfl | rfl
      · exact fun heq => htemporary ⟨p, hp, heq⟩
      · exact (hpath q hp).symm
    rw [hkept, Except.ok.injEq] at htext'
    exact htext'.symm

/-- The files that are written have the paths of the plan and of the cache. -/
theorem own_of_writtenFiles (haccepted : Accepted t source s m)
    (hplan : Registry.builtin.plan m = .ok plan) (hcache : c.cacheFile = defaultCacheFile)
    {f : Artifact → Bool} (hwritten : stats.written = (plan.toList.filter f).map (·.path))
    {p : Path} (hp : p ∈ (compileTask c force).writtenFiles stats) :
    ∃ r, Registry.Own r ∧ p = Path.join c.outputDirectory r := by
  suffices hmem : p ∈ plan.toList.map (compileTask c force).target ++
      (compileTask c force).cachePath.toList from
    own_of_target haccepted.wellFormed hplan haccepted.not_mem_slash hcache hmem
  rcases List.mem_append.1 hp with hp | hp
  · rw [hwritten, List.map_map] at hp
    obtain ⟨a, ha, rfl⟩ := List.mem_map.1 hp
    exact List.mem_append_left _ (List.mem_map.2 ⟨a, List.mem_of_mem_filter ha, rfl⟩)
  · exact List.mem_append_right _ hp

/-- No file that is written, and no temporary file, has the name of settings. -/
theorem lastChar?_of_own {p q base : Path} (hp : ∃ r, Registry.Own r ∧ p = Path.join base r)
    (hq : q ∈ [temporaryPath p, p]) : lastChar? (t.locate q) ≠ some 'l' := by
  simp only [List.mem_cons, List.not_mem_nil, or_false] at hq
  rcases hq with rfl | rfl
  · rw [FileTree.lastChar?_temporaryPath]
    decide
  · obtain ⟨r, hr, rfl⟩ := hp
    rw [hr.plain.lastChar?]
    rcases hr.lastChar? with hlast | hlast <;> rw [hlast] <;> decide

/-- **A compilation that is run again changes nothing**, if none of the files that it has written is
one that it reads. -/
theorem compileRun_again (verbose : Bool)
    (hc : (Configuration.forSpecification source : Action (StateM FileTree) _).run t = (.ok c, t))
    (haccepted : Accepted t source s m) (hplan : Registry.builtin.plan m = .ok plan)
    (hcache : c.cacheFile = defaultCacheFile)
    (h : (compileTask (c.override output noCache) force).Result m t u plan.toList stats)
    (hinputs : ∀ path ∈ source :: Model.contractPaths s s.baseDirectory,
      ∀ p ∈ (compileTask (c.override output noCache) force).writtenFiles stats,
        t.locate path ≠ t.locate p) :
    ChangedAt [] u
      ((compileRun source output noCache force verbose : StateM FileTree Output) u).2 := by
  obtain ⟨text, htext⟩ := haccepted.readText
  have hsame : ∀ path ∈ source :: Model.contractPaths s s.baseDirectory, t.SameText u path :=
    fun path hpath => sameText_of_result h (hinputs path hpath)
  rcases compileRun_state u source output noCache force verbose with
    hstate | ⟨c', s', m', plan', hc', haccepted', hplan', hstate⟩
  · rw [hstate]
    exact .refl h.changed.wellFormed
  · obtain rfl := Configuration.forSpecification_again htext hc hc' h.changed fun q hq => by
      obtain ⟨p, hp, hq⟩ := List.mem_flatMap.1 hq
      exact lastChar?_of_own (own_of_writtenFiles (c := c.override output noCache) haccepted
        hplan hcache h.written hp) hq
    obtain ⟨rfl, rfl⟩ := haccepted.unique haccepted' (hsame source List.mem_cons_self)
      fun path hpath => hsame path (List.mem_cons_of_mem _ hpath)
    rw [hplan, Except.ok.injEq] at hplan'
    rw [hstate, ← hplan']
    exact h.run_again

/-- **What a compilation leaves**: the snapshot of the model, the pages of its use-cases, a cache
that is up to date, and all other files as they were. The same compilation again changes no file, if
none of the files that have been written is one that it reads. -/
theorem compileRun_effect (ht : t.WellFormed) (h : (compileRun source output noCache force verbose :
    StateM FileTree Output) t = (o, u)) (hok : o.outcome = .ok ()) :
    ∃ c s m plan stats,
      (Configuration.forSpecification source : Action (StateM FileTree) _).run t = (.ok c, t) ∧
      Accepted t source s m ∧ Registry.builtin.plan m = .ok plan ∧
      o = .printed (compileText verbose
        { (compileStart c source output noCache force).generated s m plan with
          stats := stats }) ∧
      (c.cacheFile = defaultCacheFile →
        Effect (c.override output noCache) force t u m plan stats ∧
        ((∀ path ∈ source :: Model.contractPaths s s.baseDirectory,
            ∀ p ∈ (compileTask (c.override output noCache) force).writtenFiles stats,
              t.locate path ≠ t.locate p) →
          ∀ l, ((compileRun source output noCache force verbose :
            StateM FileTree Output) u).2.textAt? l = u.textAt? l)) := by
  obtain ⟨c, s, m, plan, stats, hc, haccepted, hplan, hrun, hprinted⟩ := compileRun_ok h hok
  refine ⟨c, s, m, plan, stats, hc, haccepted, hplan, hprinted, fun hcache => ?_⟩
  have hresult := result_of_run (c := c.override output noCache) ht haccepted hplan hcache hrun
  refine ⟨effect_of_result haccepted.wellFormed hplan haccepted.not_mem_slash hcache hresult
    (WriteTask.run_madeAlong hrun), fun hinputs l => ?_⟩
  exact (compileRun_again verbose hc haccepted hplan hcache hresult hinputs).textAt? nofun

/-! ## A page that the user has changed, and one that is not there -/

/-- A working directory with a specification, its contract, and a page that is there already. -/
def changedPage : FileTree :=
  ⟨[(["docs"], .directory), (["docs", "usecases"], .directory),
    (["docs", "usecases", "spec.yaml"], .file ("version: 1.0.0
name: shop
components:
" ++
      "- id: s.web
  kind: server
  spec:
    framework: axum
    port: 80
" ++
      "    openapi: web.yaml
" ++
      "- id: s.buy
  kind: usecase
  spec:
    binds_to: s.web:GET:/
    goal: buy
")),
    (["docs", "usecases", "web.yaml"],
      .file "openapi: 3.0.0
paths:
  /:
    get:
      summary: visit
"),
    (["docs", "usecases", "generated"], .directory),
    (["docs", "usecases", "generated", "docs"], .directory),
    (["docs", "usecases", "generated", "docs", "usecases"], .directory),
    (["docs", "usecases", "generated", "docs", "usecases", "s.buy.md"], .file "mine")],
    ["docs", "usecases"]⟩

/-- The compilation of that specification in a tree. -/
def changedPageRun (output : Option Path) (t : FileTree) : Output × FileTree :=
  (compileRun "spec.yaml" output false false false : StateM FileTree Output) t

theorem changedPageRun_ok {output : Option Path}
    (h : (changedPageRun output changedPage).1.outcome.isOk = true) :
    (changedPageRun output changedPage).1.outcome = .ok () := by
  cases houtcome : (changedPageRun output changedPage).1.outcome with
  | error e =>
    rw [houtcome] at h
    cases h
  | ok _ => rfl

/-- What is read of that specification. -/
def changedPageInput : Option (List Path × Bool) :=
  ((Specification.load "spec.yaml" : Action (StateM FileTree) Specification).run
    changedPage).1.toOption.map fun s =>
      (Model.contractPaths s s.baseDirectory,
        (((Model.build s s.baseDirectory (contractsAt changedPage s)).1.get? "s.buy").bind
          Component.usecase?).isSome)

/-- What is read of that specification. -/
theorem changedPage_input {s : Specification} {m : Model}
    (h : Accepted changedPage "spec.yaml" s m) :
    Model.contractPaths s s.baseDirectory = ["web.yaml"] ∧
      ∃ component usecase, m.get? "s.buy" = some component ∧
        component.usecase? = some usecase := by
  have hinput : changedPageInput = some (["web.yaml"], true) := by decide +kernel
  rw [changedPageInput, h.load, Except.toOption, Option.map_some, h.build, Option.some.injEq,
    Prod.mk.injEq, Option.isSome_iff_exists] at hinput
  obtain ⟨hpaths, usecase, husecase⟩ := hinput
  obtain ⟨component, hcomponent, husecase⟩ := Option.bind_eq_some_iff.1 husecase
  exact ⟨hpaths, component, usecase, hcomponent, husecase⟩

/-- The settings of that specification. -/
theorem changedPage_settings {c : Configuration}
    (h : (Configuration.forSpecification "spec.yaml" : Action (StateM FileTree) _).run changedPage =
      (.ok c, changedPage)) : c = ⟨"./generated", true, defaultCacheFile⟩ := by
  have hsettings : ((Configuration.forSpecification "spec.yaml" : Action (StateM FileTree) _).run
      changedPage).1.toOption = some ⟨"./generated", true, defaultCacheFile⟩ := by
    decide +kernel
  rwa [h, Except.toOption, Option.some.injEq] at hsettings

theorem compileRun_effect_changedPage : changedPage.WellFormed ∧
    (changedPageRun none changedPage).1.outcome = .ok () ∧
    (changedPageRun none changedPage).2.readText "./generated/docs/usecases/s.buy.md" =
      .ok "mine" ∧
    (∃ k fingerprint, (Cache.load "./generated/.bound/cache.json" :
        Action (StateM FileTree) Cache).run (changedPageRun none changedPage).2 =
          (.ok k, (changedPageRun none changedPage).2) ∧
      k.components.get? "s.buy" = some ⟨fingerprint, ["docs/usecases/s.buy.md"]⟩) ∧
    ∀ l, (changedPageRun none (changedPageRun none changedPage).2).2.textAt? l =
      (changedPageRun none changedPage).2.textAt? l := by
  have hwell : changedPage.WellFormed := FileTree.wellFormed_of_entries (by decide)
  have hok : (changedPageRun none changedPage).1.outcome = .ok () :=
    changedPageRun_ok (by decide +kernel)
  have hplace : Path.join "./generated" (UsecasePage.path "s.buy") =
        "./generated/docs/usecases/s.buy.md" ∧
      changedPage.locate "./generated/docs/usecases/s.buy.md" ∉ changedPage.way "./generated" ∧
      changedPage.locate "./generated/docs/usecases/s.buy.md" =
        ["docs", "usecases", "generated", "docs", "usecases", "s.buy.md"] := by
    decide +kernel
  have hbefore : changedPage.find?
      ["docs", "usecases", "generated", "docs", "usecases", "s.buy.md"] = some (.file "mine") := by
    decide
  have hdone : changedPageRun none changedPage =
      ((changedPageRun none changedPage).1, (changedPageRun none changedPage).2) :=
    Prod.mk.eta.symm
  refine ⟨hwell, hok, ?_⟩
  obtain ⟨c, s, m, plan, stats, hc, haccepted, hplan, _, heffect⟩ :=
    compileRun_effect hwell hdone hok
  obtain rfl := changedPage_settings hc
  obtain ⟨heffect, hagain⟩ := heffect rfl
  obtain ⟨hpaths, component, usecase, hcomponent, husecase⟩ := changedPage_input haccepted
  refine ⟨?_, ?_, hagain fun path hpath p hp heq => ?_⟩
  · obtain ⟨hjoin, hway, hlocate⟩ := hplace
    have hpage := heffect.page "s.buy" component usecase hcomponent husecase
    rw [show Path.join (Configuration.override ⟨"./generated", true, defaultCacheFile⟩ none
      false).outputDirectory (UsecasePage.path "s.buy") = _ from hjoin, hlocate] at hpage
    have htext := hpage (by rw [hbefore]; nofun) (hlocate ▸ hway)
    rwa [FileTree.textAt?_eq_some.2 hbefore] at htext
  · obtain ⟨k, hload, _, hentries⟩ := heffect.cache rfl
    exact ⟨k, component.fingerprint, hload,
      hentries "s.buy" component usecase hcomponent husecase⟩
  · -- the specification and its contract end in another way than what is written
    have hlast : ∀ path ∈ ["spec.yaml", "web.yaml"],
        lastChar? (changedPage.locate path) = some 'l' := by
      decide +kernel
    have hlast := hlast path (by rwa [hpaths] at hpath)
    rw [heq] at hlast
    exact lastChar?_of_own (own_of_writtenFiles haccepted hplan rfl heffect.written hp)
      (by simp) hlast

/-- The working directory is where an output directory has its pages, and this path of the output
directory leads through the place of one of them. -/
def detour : Path := "s.buy.md/../../.."

/-- **A page that is not there**: nothing stands in the places of what is generated, and the
compilation succeeds, but it makes a directory where it looks for the page. -/
theorem page_missing_after_detour : changedPage.WellFormed ∧
    (∀ path ∈ [Snapshot.path, UsecasePage.path "s.buy", defaultCacheFile],
      changedPage.find? (changedPage.locate (Path.join detour path)) = none) ∧
    (changedPageRun (some detour) changedPage).1.outcome = .ok () ∧
    ∃ c s m component usecase,
      (Configuration.forSpecification "spec.yaml" : Action (StateM FileTree) _).run changedPage =
        (.ok c, changedPage) ∧ c.cacheFile = defaultCacheFile ∧
      Accepted changedPage "spec.yaml" s m ∧ Model.contractPaths s s.baseDirectory = ["web.yaml"] ∧
      m.get? "s.buy" = some component ∧ component.usecase? = some usecase ∧
      (changedPageRun (some detour) changedPage).2.readText
        (Path.join detour (UsecasePage.path "s.buy")) ≠
          .ok (UsecasePage.content m "s.buy" usecase) := by
  have hwell : changedPage.WellFormed := FileTree.wellFormed_of_entries (by decide)
  have hok : (changedPageRun (some detour) changedPage).1.outcome = .ok () :=
    changedPageRun_ok (by decide +kernel)
  have hway : changedPage.locate (Path.join detour (UsecasePage.path "s.buy")) ∈
      changedPage.way detour := by
    decide +kernel
  have hdone : changedPageRun (some detour) changedPage =
      ((changedPageRun (some detour) changedPage).1,
        (changedPageRun (some detour) changedPage).2) := Prod.mk.eta.symm
  obtain ⟨c, s, m, plan, stats, hc, haccepted, hplan, hrun, _⟩ := compileRun_ok hdone hok
  obtain rfl := changedPage_settings hc
  obtain ⟨hpaths, component, usecase, hcomponent, husecase⟩ := changedPage_input haccepted
  have hresult := result_of_run (c := Configuration.override _ (some detour) false) hwell haccepted
    hplan rfl hrun
  have heffect := effect_of_result haccepted.wellFormed hplan haccepted.not_mem_slash rfl hresult
    (WriteTask.run_madeAlong hrun)
  exact ⟨hwell, by decide +kernel, hok, _, s, m, component, usecase, hc, rfl, haccepted, hpaths,
    hcomponent, husecase, heffect.page_on_way hresult.changed.workingDirectory hway _⟩

end ArchSpec.Command
