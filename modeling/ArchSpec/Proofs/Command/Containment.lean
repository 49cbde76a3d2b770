import ArchSpec.Proofs.Command.Compile
import ArchSpec.Proofs.FileTree.Locate
import ArchSpec.Proofs.Generator.Builtin
import ArchSpec.Proofs.Pipeline.Accepted

/-!
# Where a compilation writes

A compilation changes files below the output directory only, but for the cache file: of its path a
configuration has to say no more than that it is relative, so it may lead out of the directory.

* `Command.compileRun_contained` — where the files are that a compilation changes.
* `Command.cache_escapes` — a cache file that is written beside the output directory.
-/

namespace ArchSpec

open FileStore (temporaryPath)
open FileTree (ChangedAt Below)

/-! ## Tasks and plans -/

/-- The paths that are always planned end in names. -/
theorem Registry.fileName?_builtin {m : Model} (hm : m.WellFormed) {plan : Plan}
    (h : builtin.plan m = .ok plan) {a : Artifact} (ha : a ∈ plan.toList) :
    ∃ n, Path.fileName? a.path = some n := by
  rcases (mem_builtin hm h).1 ha with rfl | ⟨id, c, u, _, _, rfl⟩
  · exact ⟨"ir.json", show Path.fileName? ".bound/ir.json" = _ by decide +kernel⟩
  · exact Path.fileName?_append ("docs/usecases/" ++ id) ".md" (by decide) (by decide)

/-- A task changes nothing, or only its files, all artifacts being where they may be. -/
theorem WriteTask.run_touches (task : WriteTask) (model : Model) (as : List Artifact)
    {t : FileTree} (ht : t.WellFormed) :
    ((task.run model as : Action (StateM FileTree) WriteStats).run t).2 = t ∨
      (task.checkPaths as = .ok () ∧ ChangedAt (task.touched as ++ task.cacheFiles) t
        ((task.run model as : Action (StateM FileTree) WriteStats).run t).2) := by
  cases hcheck : task.checkPaths as with
  | ok _ => exact .inr ⟨rfl, task.run_changes model as t ht⟩
  | error f =>
    refine .inl ?_
    have hrun : (Action.ofFault (task.checkPaths as) : Action (StateM FileTree) Unit).run t =
        (.error (.ofFault f), t) := by
      rw [hcheck]
      rfl
    exact congrArg Prod.snd (Action.run_bind_error hrun)

/-- The file of the cache stays below the output directory, by what its path says. -/
def Configuration.CacheStays (c : Configuration) : Prop :=
  Path.isArtifactPath c.cacheFile = true ∧ ∃ n, Path.fileName? c.cacheFile = some n

/-! ## Compilations -/

namespace Command

variable {t : FileTree} {source : Path} {output : Option Path} {noCache force verbose : Bool}

/-- **Where the files are that a compilation changes**: below the output directory, unless it is the
cache file or its temporary file, by a path that may lead elsewhere. -/
theorem compileRun_contained (ht : t.WellFormed) {l : Location}
    (hl : ((compileRun source output noCache force verbose : StateM FileTree Output) t).2.textAt? l
      ≠ t.textAt? l) :
    ∃ c, (Configuration.forSpecification source : Action (StateM FileTree) _).run t = (.ok c, t) ∧
      (Below (t.locate (c.override output noCache).outputDirectory) l ∨
        ((c.override output noCache).cache = true ∧ ¬c.CacheStays ∧
          (l = t.locate (c.override output noCache).cachePath ∨
            l = t.locate (temporaryPath (c.override output noCache).cachePath)))) := by
  rcases compileRun_state t source output noCache force verbose with
    hsame | ⟨c, s, m, plan, hc, haccepted, hplan, hstate⟩
  · exact absurd (by rw [hsame]) hl
  · refine ⟨c, hc, ?_⟩
    rw [hstate] at hl
    rcases WriteTask.run_touches (compileTask (c.override output noCache) force) m plan.toList ht
      with hsame | ⟨hpaths, hchanged⟩
    · exact absurd (by rw [hsame]) hl
    · -- the location is that of a file which the task takes
      obtain ⟨q, hq, rfl⟩ : ∃ q ∈ _, t.locate q = l := by
        by_contra hnone
        refine hl (hchanged.textAt? fun q hq hlocate => hnone ⟨q, hq, hlocate⟩)
      rcases List.mem_append.1 hq with hq | hq
      · obtain ⟨a, ha, hq⟩ := List.mem_flatMap.1 hq
        obtain ⟨n, hname⟩ := Registry.fileName?_builtin haccepted.wellFormed hplan ha
        have hbelow := t.below_of_isArtifactPath (c.override output noCache).outputDirectory
          (WriteTask.checkPaths_ok hpaths ha).1 hname
        simp only [List.mem_cons, List.not_mem_nil, or_false] at hq
        rcases hq with rfl | rfl
        · exact .inl hbelow.2
        · exact .inl hbelow.1
      · have hcache : (c.override output noCache).cache = true ∧
            (q = temporaryPath (c.override output noCache).cachePath ∨
              q = (c.override output noCache).cachePath) := by
          have hpath : (compileTask (c.override output noCache) force).cachePath =
              (c.override output noCache).cachePath? := rfl
          rw [WriteTask.cacheFiles, hpath, Configuration.cachePath?] at hq
          cases hcache : (c.override output noCache).cache with
          | false =>
            rw [hcache] at hq
            cases hq
          | true =>
            rw [hcache] at hq
            simpa using hq
        by_cases hstays : c.CacheStays
        · obtain ⟨hpath, n, hname⟩ := hstays
          have hbelow := t.below_of_isArtifactPath (c.override output noCache).outputDirectory
            hpath hname
          rcases hcache.2 with rfl | rfl
          · exact .inl hbelow.2
          · exact .inl hbelow.1
        · refine .inr ⟨hcache.1, hstays, ?_⟩
          rcases hcache.2 with rfl | rfl
          · exact .inr rfl
          · exact .inl rfl

/-- A working directory with a specification, and with settings that keep the cache outside of the
output directory. -/
def outsideTree : FileTree :=
  ⟨[(["w"], .directory),
    (["w", "spec.yaml"], .file ("version: 1.0.0\nname: site\ncomponents:\n" ++
      "- id: s.db\n  kind: postgres\n  spec:\n    provider: drizzle\n    schema: x\n")),
    (["w", "bound.toml"], .file "output_dir = \"out\"\ncache_file = \"../cache.json\"\n")],
    ["w"]⟩

/-- The compilation of that specification. -/
def outsideRun : Output × FileTree :=
  (compileRun "spec.yaml" none false false false : StateM FileTree Output) outsideTree

theorem compileRun_contained_outside : outsideTree.WellFormed ∧
    outsideRun.2.textAt? ["w", "out", ".bound", "ir.json"] ≠
      outsideTree.textAt? ["w", "out", ".bound", "ir.json"] ∧
    ∃ c, (Configuration.forSpecification "spec.yaml" : Action (StateM FileTree) _).run outsideTree =
      (.ok c, outsideTree) ∧
      (Below (outsideTree.locate (c.override none false).outputDirectory)
          ["w", "out", ".bound", "ir.json"] ∨
        ((c.override none false).cache = true ∧ ¬c.CacheStays ∧
          (["w", "out", ".bound", "ir.json"] =
              outsideTree.locate (c.override none false).cachePath ∨
            ["w", "out", ".bound", "ir.json"] =
              outsideTree.locate (temporaryPath (c.override none false).cachePath)))) := by
  have hwell : outsideTree.WellFormed := FileTree.wellFormed_of_entries (by decide)
  have hchanged : outsideRun.2.textAt? ["w", "out", ".bound", "ir.json"] ≠
      outsideTree.textAt? ["w", "out", ".bound", "ir.json"] := by
    decide +kernel
  exact ⟨hwell, hchanged, compileRun_contained hwell hchanged⟩

/-- The settings of that specification. -/
def outsideSettings : Option Configuration :=
  ((Configuration.forSpecification "spec.yaml" : Action (StateM FileTree) _).run
    outsideTree).1.toOption

/-- **A cache file beside the output directory**: the settings are accepted, and the compilation
succeeds and makes a file outside of the output directory. -/
theorem cache_escapes : outsideSettings = some ⟨"./out", true, "../cache.json"⟩ ∧
    outsideTree.locate "./out" = ["w", "out"] ∧
    outsideRun.1.outcome.isOk = true ∧
    outsideTree.textAt? ["w", "cache.json"] = none ∧
    outsideRun.2.textAt? ["w", "cache.json"] ≠ none ∧
    ¬Below ["w", "out"] ["w", "cache.json"] := by
  have hrun : outsideRun.1.outcome.isOk = true ∧
      outsideRun.2.textAt? ["w", "cache.json"] ≠ none := by
    decide +kernel
  refine ⟨by decide +kernel, by decide +kernel, hrun.1, by decide, hrun.2, ?_⟩
  rintro ⟨names, _, hnames⟩
  exact absurd (List.cons.inj (List.cons.inj hnames).2).1 (by decide)

end Command

end ArchSpec
