import ArchSpec.Proofs.Artifact.Plan
import ArchSpec.Proofs.Artifact.Write

/-!
# Files that meet

A plan tells its artifacts apart by their paths as texts. What is written are files, and two paths
may lead to one file, or one to the temporary file of the other, or to the cache file. An artifact
whose file is met by nothing else that a run writes holds its text in the end if it is reported as
written, and what it held before if it may be written only once.

* `WriteTask.Undisturbed` — an artifact whose file nothing else meets.
* `WriteTask.content_of_undisturbed` — what such a file holds in the end.
* `WriteTask.temporary_meets_artifact` — a file of the user that is lost where files meet.
-/

namespace ArchSpec.WriteTask

open FileStore (temporaryPath)
open FileTree (ChangedAt)

variable {task : WriteTask} {stale : Option (List String)} {a : Artifact} {as : List Artifact}
  {t u : FileTree} {stats : WriteStats}

/-- No other artifact, no temporary file of one and no file of the cache is where an artifact is. -/
structure Undisturbed (task : WriteTask) (t : FileTree) (as : List Artifact) (a : Artifact) :
    Prop where
  targets : ∀ b ∈ as, b.path ≠ a.path → t.locate (task.target b) ≠ t.locate (task.target a)
  temporaries : ∀ b ∈ as, b.path ≠ a.path →
    t.locate (temporaryPath (task.target b)) ≠ t.locate (task.target a)
  cache : ∀ q ∈ task.cacheFiles, t.locate q ≠ t.locate (task.target a)

/-- The files of other artifacts are not met. -/
theorem Undisturbed.others (h : Undisturbed task t as a) {bs : List Artifact}
    (hsub : ∀ b ∈ bs, b ∈ as ∧ b.path ≠ a.path) :
    ∀ q ∈ task.touched bs, t.locate q ≠ t.locate (task.target a) := by
  intro q hq
  obtain ⟨b, hb, hq⟩ := List.mem_flatMap.1 hq
  obtain ⟨hmem, hpath⟩ := hsub b hb
  simp only [List.mem_cons, List.not_mem_nil, or_false] at hq
  rcases hq with rfl | rfl
  · exact h.temporaries b hmem hpath
  · exact h.targets b hmem hpath

/-- Where an artifact stands among others with different paths. -/
theorem split_of_nodup (hnodup : (as.map (·.path)).Nodup) (ha : a ∈ as) :
    ∃ before later, as = before ++ a :: later ∧ (∀ b ∈ before, b ∈ as ∧ b.path ≠ a.path) ∧
      ∀ b ∈ later, b ∈ as ∧ b.path ≠ a.path := by
  obtain ⟨before, later, rfl⟩ := List.append_of_mem ha
  rw [List.map_append, List.map_cons, List.nodup_append, List.nodup_cons] at hnodup
  obtain ⟨_, ⟨hlater, _⟩, hbefore⟩ := hnodup
  refine ⟨before, later, rfl, fun b hb => ⟨by simp [hb], ?_⟩, fun b hb => ⟨by simp [hb], ?_⟩⟩
  · exact hbefore b.path (List.mem_map_of_mem hb) a.path List.mem_cons_self
  · exact fun hpath => hlater (hpath ▸ List.mem_map_of_mem hb)

/-- **What the file of an artifact holds in the end**: its text, if it is reported as written, and
what it held before, if it may be written only once. No other file that the run writes may be where
the artifact is; that the paths of a plan are different as texts is not enough. -/
theorem content_of_undisturbed (ht : t.WellFormed) {additions : List Artifact} {plan : Plan}
    (hplan : Plan.empty.addEach additions = .ok plan) {model : Model}
    (h : (task.run model plan.toList : Action (StateM FileTree) WriteStats).run t =
      (.ok stats, u)) (ha : a ∈ plan.toList) (hapart : Undisturbed task t plan.toList a) :
    (a.path ∈ stats.written → u.readText (task.target a) = .ok a.file.content) ∧
      (a.file.strategy = .writeOnce → ∀ text, t.readText (task.target a) = .ok text →
        u.readText (task.target a) = .ok text) := by
  obtain ⟨_, stale, v, hwrite, hcache⟩ := run_ok ht h
  obtain ⟨before, later, has, hbefore, hlater⟩ :=
    split_of_nodup (Plan.keyed_addEach hplan).nodup ha
  rw [has] at hwrite
  obtain ⟨earlier, w, done, x, others, hfirst, hone, hrest, hwritten, _⟩ := writeAll_split hwrite
  have hw := (task.writeAll_changes stale before).changedAt ht hfirst
  have hx := (task.writeOne_changes stale a).changedAt hw.wellFormed hone
  have hv := (task.writeAll_changes stale later).changedAt hx.wellFormed hrest
  have hlocate : ∀ p, x.locate p = t.locate p := fun p => (hx.locate p).trans (hw.locate p)
  -- what comes after the artifact leaves its file as it is
  have hafter : ∀ text, x.readText (task.target a) = .ok text →
      u.readText (task.target a) = .ok text := by
    intro text htext
    refine hcache.readText (fun q hq => ?_) (hv.readText (fun q hq => ?_) htext)
    · rw [hv.locate, hv.locate, hlocate, hlocate]
      exact hapart.cache q hq
    · rw [hlocate, hlocate]
      exact hapart.others hlater q hq
  refine ⟨fun hreported => ?_, fun honce text htext => ?_⟩
  · rcases writeOne_ok hone with ⟨rfl, _⟩ | ⟨_, hreplace⟩
    · -- another artifact would have to have the same path
      rw [hwritten] at hreported
      simp only [Bool.false_eq_true, if_false, List.append_nil, List.mem_append] at hreported
      rcases hreported with hreported | hreported
      · obtain ⟨b, hb, hpath⟩ := List.mem_map.1 (path_of_stats hfirst (.inl hreported))
        exact absurd hpath (hbefore b hb).2
      · obtain ⟨b, hb, hpath⟩ := List.mem_map.1 (path_of_stats hrest (.inl hreported))
        exact absurd hpath (hlater b hb).2
    · exact hafter _ (FileStore.replaceText_ok hw.wellFormed hreplace).2
  · have hthere := hw.readText (hapart.others hbefore) htext
    have hkept : a.isPreserved task.force stale = true := by simp [Artifact.isPreserved, honce]
    rw [run_writeOne, FileTree.existsAt_of_readText hthere, hkept] at hone
    cases hone
    exact hafter _ hthere

/-! ## Files that are met, and files that are not -/

/-- A working directory with an output directory in which the user keeps a file. -/
def keptTree (name : String) : FileTree :=
  ⟨[(["w"], .directory), (["w", "out"], .directory), (["w", "out", name], .file "mine")], ["w"]⟩

/-- A file that is always written, and one that is written only once. -/
def keptAdditions (name : String) : List Artifact :=
  [⟨"drafts", "a", ⟨"one", .overwrite, none⟩⟩, ⟨"notes", name, ⟨"two", .writeOnce, none⟩⟩]

def keptTask : WriteTask := ⟨"out", some "out/cache.json", false⟩

/-- The writing of these two files. -/
def keptRun (name : String) : Except Failure WriteStats × FileTree :=
  (keptTask.run default (keptAdditions name) : Action (StateM FileTree) WriteStats).run
    (keptTree name)

theorem keptAdditions_planned (name : String) (h : ((Plan.empty.addEach (keptAdditions name)).map
    Plan.toList).toOption = some (keptAdditions name)) : ∃ plan,
      Plan.empty.addEach (keptAdditions name) = .ok plan ∧ plan.toList = keptAdditions name := by
  cases hplan : Plan.empty.addEach (keptAdditions name) with
  | error f =>
    rw [hplan] at h
    cases h
  | ok plan =>
    rw [hplan] at h
    exact ⟨plan, rfl, Option.some.inj h⟩

theorem keptRun_eq {name : String} {stats : WriteStats}
    (h : (keptRun name).1.toOption = some stats) :
    (keptTask.run default (keptAdditions name) : Action (StateM FileTree) WriteStats).run
      (keptTree name) = (.ok stats, (keptRun name).2) := by
  have hrun : keptRun name = (.ok stats, (keptRun name).2) := eq_pair_of_toOption h
  exact hrun

theorem content_of_undisturbed_kept : (keptTree "b").WellFormed ∧
    ∃ plan u, Plan.empty.addEach (keptAdditions "b") = .ok plan ∧
      (keptTask.run default plan.toList : Action (StateM FileTree) WriteStats).run
        (keptTree "b") = (.ok ⟨["a"], ["b"]⟩, u) ∧
      (∀ a ∈ plan.toList, Undisturbed keptTask (keptTree "b") plan.toList a) ∧
      u.readText "out/a" = .ok "one" ∧ u.readText "out/b" = .ok "mine" := by
  have hwell : (keptTree "b").WellFormed := FileTree.wellFormed_of_entries (by decide)
  obtain ⟨plan, hplan, hlist⟩ := keptAdditions_planned "b" (by decide +kernel)
  have hstats : (keptRun "b").1.toOption = some ⟨["a"], ["b"]⟩ := by decide +kernel
  have hrun : (keptTask.run default plan.toList : Action (StateM FileTree) WriteStats).run
      (keptTree "b") = (.ok ⟨["a"], ["b"]⟩, (keptRun "b").2) := by
    rw [hlist]
    exact keptRun_eq hstats
  have hapart : ∀ a ∈ plan.toList, Undisturbed keptTask (keptTree "b") plan.toList a := by
    rw [hlist]
    refine fun a ha => ⟨?_, ?_, ?_⟩ <;> revert a <;> decide +kernel
  have hmem : ∀ a ∈ keptAdditions "b", a ∈ plan.toList := fun a ha => hlist ▸ ha
  have hdraft := hmem ⟨"drafts", "a", ⟨"one", .overwrite, none⟩⟩ (by simp [keptAdditions])
  have hnote := hmem ⟨"notes", "b", ⟨"two", .writeOnce, none⟩⟩ (by simp [keptAdditions])
  have hdraftPath : keptTask.target ⟨"drafts", "a", ⟨"one", .overwrite, none⟩⟩ = "out/a" := by
    decide +kernel
  have hnotePath : keptTask.target ⟨"notes", "b", ⟨"two", .writeOnce, none⟩⟩ = "out/b" := by
    decide +kernel
  have hmine : (keptTree "b").readText "out/b" = .ok "mine" :=
    eq_ok_of_toOption (by decide +kernel)
  refine ⟨hwell, plan, _, hplan, hrun, hapart, ?_, ?_⟩
  · have hcontent := (content_of_undisturbed hwell hplan hrun hdraft (hapart _ hdraft)).1
    rw [hdraftPath] at hcontent
    exact hcontent List.mem_cons_self
  · have hcontent := (content_of_undisturbed hwell hplan hrun hnote (hapart _ hnote)).2 rfl
    rw [hnotePath] at hcontent
    exact hcontent "mine" hmine

/-- **A file of the user is lost**: it may be written only once, but its path is that of the
temporary file of another artifact. -/
theorem temporary_meets_artifact :
    ∃ plan u, Plan.empty.addEach (keptAdditions "a.tmp") = .ok plan ∧
      (keptTask.run default plan.toList : Action (StateM FileTree) WriteStats).run
        (keptTree "a.tmp") = (.ok ⟨["a", "a.tmp"], []⟩, u) ∧
      (keptTree "a.tmp").readText "out/a.tmp" = .ok "mine" ∧
      u.readText "out/a.tmp" = .ok "two" := by
  obtain ⟨plan, hplan, hlist⟩ := keptAdditions_planned "a.tmp" (by decide +kernel)
  have hstats : (keptRun "a.tmp").1.toOption = some ⟨["a", "a.tmp"], []⟩ := by decide +kernel
  refine ⟨plan, (keptRun "a.tmp").2, hplan, ?_, eq_ok_of_toOption (by decide +kernel), ?_⟩
  · rw [hlist]
    exact keptRun_eq hstats
  · have hread : ((keptRun "a.tmp").2.readText "out/a.tmp").toOption = some "two" := by
      decide +kernel
    exact eq_ok_of_toOption hread

end ArchSpec.WriteTask
