import ArchSpec.Proofs.Artifact.Settled
import ArchSpec.Proofs.FileStore.Directories

/-!
# What a run leaves

Artifacts that do not depend on the cache are written by every run, unless they may be written only
once and are there already. If their files are kept apart, the files that there are after a run can
be told from those before it, and a second run finds nothing to change.

* `WriteTask.Outcome` — what a run reports and leaves.
* `WriteTask.writeOne_cases`, `writeAll_outcome` — what a step and a run of steps does.
* `WriteTask.run_madeAlong` — where a whole task makes directories.
* `WriteTask.run_result`, `Result.run_again` — what a whole task does, and does again.
-/

namespace ArchSpec

open FileStore (replaceText temporaryPath)
open FileTree (ChangedAt MadeAlong Plain Separate)

/-- Whether an artifact is left alone does not depend on the cache. -/
def Artifact.Steady (a : Artifact) : Prop :=
  a.file.strategy = .writeOnce ∨ a.file.component = none

theorem Artifact.Steady.isPreserved {a : Artifact} (h : a.Steady) (force : Bool)
    (stale : Option (List String)) :
    a.isPreserved force stale = decide (a.file.strategy = .writeOnce) := by
  unfold Artifact.isPreserved
  by_cases honce : a.file.strategy = .writeOnce
  · simp [honce]
  · simp [honce, h.resolve_left honce]

namespace WriteTask

variable {task : WriteTask} {stale : Option (List String)} {a : Artifact} {as : List Artifact}
  {t u v : FileTree} {stats : WriteStats}

/-- The file of an artifact before a run, if there is one. -/
def textBefore? (task : WriteTask) (t : FileTree) (a : Artifact) : Option String :=
  t.textAt? (t.locate (task.target a))

/-- Whether an artifact is left alone in a run from `t` to `u`: it may be written only once, and its
file is there, or a directory stands in its place. -/
def leaves (task : WriteTask) (t u : FileTree) (a : Artifact) : Bool :=
  a.file.strategy = .writeOnce && ((task.textBefore? t a).isSome ||
    u.find? (t.locate (task.target a)) = some .directory)

/-- What a run reports and leaves. -/
structure Outcome (task : WriteTask) (t u : FileTree) (as : List Artifact) (stats : WriteStats) :
    Prop where
  written : stats.written = (as.filter (!task.leaves t u ·)).map (·.path)
  skipped : stats.skipped = (as.filter (task.leaves t u ·)).map (·.path)
  done : ∀ a ∈ as, task.leaves t u a = false →
    u.readText (task.target a) = .ok a.file.content ∧
      u.textAt? (t.locate (temporaryPath (task.target a))) = none
  left : ∀ a ∈ as, task.leaves t u a = true → u.existsAt (task.target a) = true ∧
    ∀ text, task.textBefore? t a = some text → u.readText (task.target a) = .ok text
  changed : ChangedAt (task.touched (as.filter (!task.leaves t u ·))) t u

/-- Some path below the output directory resolves. -/
def Reached (task : WriteTask) (t : FileTree) : Prop :=
  ∃ p l, Path.isAbsolute p = false ∧ t.resolve (Path.join task.directory p) = .ok l

/-- Whether an artifact is left alone depends on its own file only. -/
theorem leaves_congr (hbefore : task.textBefore? v a = task.textBefore? t a)
    (hdir : v.workingDirectory = t.workingDirectory) :
    task.leaves v u a = task.leaves t u a := by
  rw [leaves, leaves, hbefore, FileTree.locate_congr hdir]

/-! ## One artifact -/

/-- A step changes the files of its artifact if it answers that it has. -/
theorem writeOne_changedAt (ht : t.WellFormed) {done : Bool}
    (h : (task.writeOne stale a : Action (StateM FileTree) Bool).run t = (.ok done, u)) :
    ChangedAt (task.touched (if done then [a] else [])) t u := by
  rcases writeOne_ok h with ⟨rfl, rfl, _⟩ | ⟨rfl, hreplace⟩
  · exact .refl ht
  · exact (FileStore.replaceText_ok ht hreplace).1

/-- What a step does. A file that is there is found, because the way to it is that to what is beside
it. -/
theorem writeOne_cases (ht : t.WellFormed) (hplain : Plain a.path) (hsteady : a.Steady)
    (hreached : Reached task t ∨ a.file.strategy = .overwrite) {done : Bool}
    (h : (task.writeOne stale a : Action (StateM FileTree) Bool).run t = (.ok done, v)) :
    (done = true ∧ (a.file.strategy = .writeOnce → task.textBefore? t a = none) ∧
      v.readText (task.target a) = .ok a.file.content ∧
      v.textAt? (t.locate (temporaryPath (task.target a))) = none) ∨
    (done = false ∧ v = t ∧ a.file.strategy = .writeOnce ∧
      t.existsAt (task.target a) = true) := by
  rw [run_writeOne, hsteady.isPreserved] at h
  split at h
  · rename_i hkept
    cases h
    simp only [Bool.and_eq_true, decide_eq_true_eq] at hkept
    exact .inr ⟨rfl, rfl, hkept.2, hkept.1⟩
  · rename_i hkept
    obtain ⟨_, w, hreplace, h⟩ := Action.bind_ok h
    cases h
    have hreplace := Action.within_ok hreplace
    obtain ⟨hchanged, hread⟩ := FileStore.replaceText_ok ht hreplace
    refine .inl ⟨rfl, fun honce => ?_, hread, ?_⟩
    · cases hbefore : task.textBefore? t a with
      | none => rfl
      | some text =>
        have hentry := FileTree.textAt?_eq_some.1 hbefore
        obtain ⟨beside, l, hrelative, hbeside⟩ := hreached.resolve_right (by rw [honce]; nofun)
        have hresolve := FileTree.resolve_of_entry ht hplain.relative hrelative hplain.noDots
          hbeside hchanged.workingDirectory (FileTree.readText_ok hread).1
          (show t.find? (t.locate (task.target a)) ≠ none by rw [hentry]; nofun)
        have hexists : t.existsAt (task.target a) = true :=
          FileTree.existsAt_of_readText (FileTree.readText_eq hresolve hentry)
        exact absurd (by rw [hexists, honce]; rfl) hkept
    · rw [FileTree.textAt?, FileStore.replaceText_temporary ht hreplace]

/-! ## All artifacts -/

/-- A step leaves the files of later artifacts as they are. -/
theorem textBefore?_later (hsep : Separate t (task.target a :: as.map task.target))
    (hone : ChangedAt (task.touched [a]) t v) {b : Artifact} (hb : b ∈ as) :
    task.textBefore? v b = task.textBefore? t b := by
  rw [textBefore?, hone.locate]
  refine hone.textAt? fun q hq => ?_
  exact hsep.head (List.mem_map_of_mem hb) q (by simpa [touched] using hq) _ (by simp)

/-- Later artifacts do not meet the file of an artifact and its temporary file. -/
theorem later_not_met (hsep : Separate t (task.target a :: as.map task.target))
    {bs : List Artifact} (hbs : bs ⊆ as) : ∀ q ∈ task.touched bs,
      ∀ x ∈ [temporaryPath (task.target a), task.target a], t.locate q ≠ t.locate x := by
  intro q hq x hx
  obtain ⟨b, hb, hq⟩ := List.mem_flatMap.1 hq
  exact (hsep.head (List.mem_map_of_mem (hbs hb)) x hx q hq).symm

/-- A step and what follows it, if their files are kept apart. -/
theorem Outcome.cons (hsep : Separate t (task.target a :: as.map task.target))
    (hone : ChangedAt (task.touched (if task.leaves t u a then [] else [a])) t v)
    (hdone : task.leaves t u a = false → v.readText (task.target a) = .ok a.file.content ∧
      v.textAt? (t.locate (temporaryPath (task.target a))) = none)
    (hleft : task.leaves t u a = true → v.existsAt (task.target a) = true ∧
      ∀ text, task.textBefore? t a = some text → v.readText (task.target a) = .ok text)
    (hrest : Outcome task v u as stats) :
    Outcome task t u (a :: as) (if task.leaves t u a then
      { stats with skipped := a.path :: stats.skipped }
      else { stats with written := a.path :: stats.written }) := by
  have hstep : ChangedAt (task.touched [a]) t v := by
    split at hone
    · exact hone.mono (List.nil_subset _)
    · exact hone
  have hbefore : ∀ b ∈ as, task.textBefore? v b = task.textBefore? t b :=
    fun b hb => textBefore?_later hsep hstep hb
  have hmet : ∀ q ∈ task.touched (as.filter (!task.leaves t u ·)),
      ∀ x ∈ [temporaryPath (task.target a), task.target a], v.locate q ≠ v.locate x := by
    intro q hq x hx
    rw [hone.locate, hone.locate]
    exact later_not_met hsep (List.filter_subset_self _) q hq x hx
  have hsame : ∀ b ∈ as, task.leaves v u b = task.leaves t u b :=
    fun b hb => leaves_congr (hbefore b hb) hone.workingDirectory
  obtain ⟨hwritten, hskipped, hrestdone, hrestleft, hchanged⟩ := hrest
  rw [List.filter_congr hsame] at hskipped
  rw [List.filter_congr fun b hb => congrArg (!·) (hsame b hb)] at hwritten hchanged
  refine ⟨?_, ?_, fun b hb hl => ?_, fun b hb hl => ?_, ?_⟩
  · cases hl : task.leaves t u a <;> simp [hl, hwritten]
  · cases hl : task.leaves t u a <;> simp [hl, hskipped]
  · rcases List.mem_cons.1 hb with rfl | hb
    · refine ⟨hchanged.readText (fun q hq => hmet q hq _ (by simp)) (hdone hl).1, ?_⟩
      rw [← hone.locate, hchanged.textAt? fun q hq => hmet q hq _ (by simp), hone.locate,
        (hdone hl).2]
    · rw [← hone.locate]
      exact hrestdone b hb ((hsame b hb).trans hl)
  · rcases List.mem_cons.1 hb with rfl | hb
    · exact ⟨hchanged.existsAt (fun q hq => hmet q hq _ (by simp)) (hleft hl).1,
        fun text htext => hchanged.readText (fun q hq => hmet q hq _ (by simp))
          ((hleft hl).2 text htext)⟩
    · rw [← hbefore b hb]
      exact hrestleft b hb ((hsame b hb).trans hl)
  · cases hl : task.leaves t u a with
    | true =>
      rw [hl] at hone
      rw [List.filter_cons_of_neg (by simp [hl])]
      exact (hone.mono (List.nil_subset _)).trans hchanged
    | false =>
      rw [hl] at hone
      rw [List.filter_cons_of_pos (by simp [hl])]
      exact (hone.mono (List.subset_append_left _ _)).trans
        (hchanged.mono (List.subset_append_right _ _))

/-- **What a run of steps reports and leaves**, if something below the output directory can be
reached before the first artifact that may be written only once. -/
theorem writeAll_outcome (ht : t.WellFormed) (hsep : Separate t (as.map task.target))
    (hplain : ∀ a ∈ as, Plain a.path) (hsteady : ∀ a ∈ as, a.Steady)
    (hreached : Reached task t ∨ ∀ a, as.head? = some a → a.file.strategy = .overwrite)
    (h : (task.writeAll stale as : Action (StateM FileTree) WriteStats).run t = (.ok stats, u)) :
    Outcome task t u as stats := by
  induction as generalizing t stats with
  | nil =>
    cases h
    exact ⟨rfl, rfl, nofun, nofun, .refl ht⟩
  | cons a rest ih =>
    obtain ⟨done, v, hone, h⟩ := Action.bind_ok h
    obtain ⟨others, w, hrest, h⟩ := Action.bind_ok h
    cases h
    have hplain' := hplain a List.mem_cons_self
    have hv := writeOne_changedAt ht hone
    have hw := (task.writeAll_changes stale rest).changedAt hv.wellFormed hrest
    have hlater : ∀ q ∈ task.touched rest, v.locate q ≠ v.locate (task.target a) := by
      intro q hq
      rw [hv.locate, hv.locate]
      exact later_not_met hsep (List.Subset.refl _) q hq _ (by simp)
    have hothers := fun hreached' => ih hv.wellFormed (hsep.tail.congr hv.workingDirectory)
      (fun b hb => hplain b (List.mem_cons_of_mem _ hb))
      (fun b hb => hsteady b (List.mem_cons_of_mem _ hb)) (.inl hreached') hrest
    rcases writeOne_cases ht hplain' (hsteady a List.mem_cons_self)
      (hreached.imp_right fun hhead => hhead a rfl) hone with
      ⟨rfl, hbefore, hread, htemporary⟩ | ⟨rfl, rfl, honce, hthere⟩
    · have hl : task.leaves t u a = false := by
        have hfile := (FileTree.readText_ok (hw.readText hlater hread)).2
        rw [hw.locate, hv.locate] at hfile
        by_cases honce : a.file.strategy = .writeOnce
        · simp [leaves, hbefore honce, hfile]
        · simp [leaves, honce]
      have hcons := (hothers ⟨a.path, _, hplain'.relative, (FileTree.readText_ok hread).1⟩).cons
        hsep (by simpa [hl] using hv) (fun _ => ⟨hread, htemporary⟩) (by simp [hl])
      simpa [hl] using hcons
    · obtain ⟨hresolve, e, he⟩ := FileTree.entry_of_existsAt hthere
      have hl : task.leaves v u a = true := by
        cases e with
        | directory => simp [leaves, honce, hw.directory _ he]
        | file text =>
          have hbefore : task.textBefore? v a = some text := FileTree.textAt?_eq_some.2 he
          simp [leaves, honce, hbefore]
      have hcons := (hothers ⟨a.path, _, hplain'.relative, hresolve⟩).cons hsep
        (by simpa [hl] using hv) (by simp [hl]) fun _ => ⟨hthere, fun text htext =>
          FileTree.readText_eq hresolve (FileTree.textAt?_eq_some.1 htext)⟩
      simpa [hl] using hcons

/-! ## Directories -/

/-- The directories that files are to be in. -/
def parentsOf (ps : List Path) : List Path := ps.flatMap fun p => (Path.parent? p).toList

/-- A run of steps makes directories on the ways to the parents of its targets only. -/
theorem writeAll_madeAlong
    (h : (task.writeAll stale as : Action (StateM FileTree) WriteStats).run t = (.ok stats, u)) :
    MadeAlong (parentsOf (as.map task.target)) t u := by
  induction as generalizing t stats with
  | nil =>
    cases h
    exact .refl _ _
  | cons a rest ih =>
    obtain ⟨done, v, hone, h⟩ := Action.bind_ok h
    obtain ⟨others, w, hrest, h⟩ := Action.bind_ok h
    cases h
    have hv : MadeAlong (Path.parent? (task.target a)).toList t v := by
      rcases writeOne_ok hone with ⟨_, hsame, _⟩ | ⟨_, hreplace⟩
      · rw [hsame]
        exact .refl _ t
      · exact FileStore.replaceText_madeAlong hreplace
    rw [List.map_cons, parentsOf, List.flatMap_cons]
    exact (hv.mono (List.subset_append_left _ _)).trans
      ((ih hrest).mono (List.subset_append_right _ _))

/-- A task makes directories on the ways to the parents of its files only. -/
theorem run_madeAlong {model : Model}
    (h : (task.run model as : Action (StateM FileTree) WriteStats).run t = (.ok stats, u)) :
    MadeAlong (parentsOf (as.map task.target ++ task.cachePath.toList)) t u := by
  rw [parentsOf, List.flatMap_append]
  cases hpath : task.cachePath with
  | none =>
    obtain ⟨_, t', hpaths, hrest⟩ := Action.bind_ok h
    obtain rfl : t = t' := congrArg Prod.snd hpaths
    rw [hpath] at hrest
    exact (writeAll_madeAlong hrest).mono (List.subset_append_left _ _)
  | some path =>
    obtain ⟨c, v, _, hwrite, hsave⟩ := run_cached_ok hpath h
    rw [Option.toList_some, List.flatMap_singleton]
    exact ((writeAll_madeAlong hwrite).mono (List.subset_append_left _ _)).trans
      ((FileStore.replaceText_madeAlong (Action.within_ok hsave)).mono
        (List.subset_append_right _ _))

/-! ## The whole task -/

/-- The files that a run has written: those of artifacts, and the cache. -/
def writtenFiles (task : WriteTask) (stats : WriteStats) : List Path :=
  stats.written.map (Path.join task.directory) ++ task.cachePath.toList

/-- What a whole task reports and leaves. -/
structure Result (task : WriteTask) (model : Model) (t u : FileTree) (as : List Artifact)
    (stats : WriteStats) : Prop where
  written : stats.written = (as.filter (!task.leaves t u ·)).map (·.path)
  skipped : stats.skipped = (as.filter (task.leaves t u ·)).map (·.path)
  done : ∀ a ∈ as, task.leaves t u a = false → u.readText (task.target a) = .ok a.file.content
  left : ∀ a ∈ as, task.leaves t u a = true → u.existsAt (task.target a) = true ∧
    ∀ text, task.textBefore? t a = some text → u.readText (task.target a) = .ok text
  cache : ∀ path, task.cachePath = some path → ∃ earlier : Cache,
    ((earlier.update model).recordArtifacts as).version = cacheVersion ∧
      u.readText path = .ok ((earlier.update model).recordArtifacts as).text
  temporaries : ∀ p ∈ task.writtenFiles stats, u.textAt? (t.locate (temporaryPath p)) = none
  changed : ChangedAt ((task.writtenFiles stats).flatMap fun p => [temporaryPath p, p]) t u

/-- The files of the artifacts that are written, and those of the cache, in other words. -/
theorem files_eq (hwritten : stats.written = as.map (·.path)) :
    ((task.writtenFiles stats).flatMap fun p => [temporaryPath p, p]) =
      task.touched as ++ task.cacheFiles := by
  rw [writtenFiles, hwritten, List.flatMap_append, List.map_map, List.flatMap_map]
  refine congrArg _ ?_
  unfold cacheFiles
  cases task.cachePath <;> rfl

theorem mem_files {p : Path} (hp : p ∈ task.cachePath.toList) :
    ∀ q ∈ task.cacheFiles, q ∈ [temporaryPath p, p] := by
  intro q hq
  unfold cacheFiles at hq
  cases hpath : task.cachePath with
  | none =>
    rw [hpath] at hp
    cases hp
  | some path =>
    rw [hpath] at hp hq
    obtain rfl := List.mem_singleton.1 hp
    exact hq

/-- What has been written or left alone goes on to be so. -/
theorem leaves_later {ps : List Path} (hchanged : ChangedAt ps v u)
    (hps : ∀ q ∈ ps, v.locate q ≠ v.locate (task.target a))
    (hlocate : v.locate (task.target a) = t.locate (task.target a))
    (hdone : task.leaves t v a = false → v.readText (task.target a) = .ok a.file.content) :
    task.leaves t v a = task.leaves t u a := by
  cases hl : task.leaves t v a with
  | true =>
    simp only [leaves, Bool.and_eq_true, Bool.or_eq_true, decide_eq_true_eq] at hl ⊢
    exact (Bool.and_eq_true_iff.2 ⟨decide_eq_true hl.1, Bool.or_eq_true_iff.2
      (hl.2.imp_right fun h => decide_eq_true (hchanged.directory _ h))⟩).symm
  | false =>
    have hfile := (FileTree.readText_ok (hchanged.readText hps (hdone hl))).2
    rw [hchanged.locate, hlocate] at hfile
    simp only [leaves, Bool.and_eq_false_iff, Bool.or_eq_false_iff] at hl
    rw [leaves, hfile]
    rcases hl with honce | hnone
    · rw [honce]
      rfl
    · rw [hnone.1]
      simp

/-- The files of the cache are none of those of the artifacts. -/
theorem cacheFiles_apart (hsep : Separate t (as.map task.target ++ task.cachePath.toList))
    (ha : a ∈ as) {q x : Path} (hq : q ∈ task.cacheFiles)
    (hx : x ∈ [temporaryPath (task.target a), task.target a]) : t.locate q ≠ t.locate x := by
  obtain ⟨_, _, hapart⟩ := List.pairwise_append.1 hsep.targets
  cases hpath : task.cachePath with
  | none =>
    rw [cacheFiles, hpath] at hq
    cases hq
  | some path =>
    have hmem : path ∈ task.cachePath.toList := by rw [hpath]; exact List.mem_singleton_self path
    have ha' : task.target a ∈ as.map task.target := List.mem_map_of_mem ha
    exact (hsep.apart (List.mem_append_left _ ha') (List.mem_append_right _ hmem)
      (hapart _ ha' _ hmem) x hx q (mem_files hmem q hq)).symm

/-- The cache that a task saves records its model and its artifacts, and leaves no temporary
file. -/
theorem run_saved {model : Model} (ht : t.WellFormed) {path : Path}
    (hpath : task.cachePath = some path)
    (h : (task.run model as : Action (StateM FileTree) WriteStats).run t = (.ok stats, u)) :
    (∃ earlier : Cache, ((earlier.update model).recordArtifacts as).version = cacheVersion ∧
      u.readText path = .ok ((earlier.update model).recordArtifacts as).text) ∧
      u.textAt? (t.locate (temporaryPath path)) = none := by
  obtain ⟨earlier, v, hload, hwrite, hsave⟩ := run_cached_ok hpath h
  have hv := (task.writeAll_changes _ as).changedAt ht hwrite
  refine ⟨⟨earlier, version_saved hload model as, (Cache.save_ok hv.wellFormed hsave).2⟩, ?_⟩
  rw [← hv.locate, FileTree.textAt?,
    FileStore.replaceText_temporary hv.wellFormed (Action.within_ok hsave)]

/-- **What a whole task reports and leaves.** -/
theorem run_result {model : Model} (ht : t.WellFormed)
    (hsep : Separate t (as.map task.target ++ task.cachePath.toList))
    (hplain : ∀ a ∈ as, Plain a.path) (hsteady : ∀ a ∈ as, a.Steady)
    (hhead : ∀ a, as.head? = some a → a.file.strategy = .overwrite)
    (h : (task.run model as : Action (StateM FileTree) WriteStats).run t = (.ok stats, u)) :
    Result task model t u as stats := by
  obtain ⟨_, stale, v, hwrite, hcache⟩ := run_ok ht h
  obtain ⟨hwritten, hskipped, hdone, hleft, hchanged⟩ := writeAll_outcome ht
    (hsep.sublist (List.sublist_append_left _ _)) hplain hsteady (.inr hhead) hwrite
  have hlocate := hchanged.locate
  -- what the artifacts leave is there once the cache is saved
  have hmet : ∀ a ∈ as, ∀ x ∈ [temporaryPath (task.target a), task.target a],
      ∀ q ∈ task.cacheFiles, v.locate q ≠ v.locate x := by
    intro a ha x hx q hq
    rw [hlocate, hlocate]
    exact cacheFiles_apart hsep ha hq hx
  have hkept : ∀ a ∈ as, ∀ q ∈ task.cacheFiles, v.locate q ≠ v.locate (task.target a) :=
    fun a ha => hmet a ha _ (by simp)
  have hsame : ∀ a ∈ as, task.leaves t v a = task.leaves t u a := fun a ha =>
    leaves_later hcache (hkept a ha) (hlocate _) fun hl => (hdone a ha hl).1
  rw [List.filter_congr hsame] at hskipped
  rw [List.filter_congr fun a ha => congrArg (!·) (hsame a ha)] at hwritten hchanged
  refine ⟨hwritten, hskipped, fun a ha hl => ?_, fun a ha hl => ?_,
    fun path hpath => (run_saved ht hpath h).1, fun p hp => ?_, ?_⟩
  · exact hcache.readText (hkept a ha) (hdone a ha ((hsame a ha).trans hl)).1
  · obtain ⟨hthere, htext⟩ := hleft a ha ((hsame a ha).trans hl)
    exact ⟨hcache.existsAt (hkept a ha) hthere, fun text hbefore =>
      hcache.readText (hkept a ha) (htext text hbefore)⟩
  · rcases List.mem_append.1 hp with hp | hp
    · rw [hwritten, List.map_map] at hp
      obtain ⟨a, ha, rfl⟩ := List.mem_map.1 hp
      rw [List.mem_filter, Bool.not_eq_true'] at ha
      have hgone := (hdone a ha.1 ((hsame a ha.1).trans ha.2)).2
      rw [← hlocate] at hgone ⊢
      exact (hcache.textAt? (hmet a ha.1 (temporaryPath (task.target a)) (by simp))).trans hgone
    · exact (run_saved ht (Option.mem_toList.1 hp) h).2
  · rw [files_eq hwritten]
    exact (hchanged.mono (List.subset_append_left _ _)).trans
      (hcache.mono (List.subset_append_right _ _))

/-- What may be written only once holds what it held before, or its text if it was not there. -/
theorem Result.readText_writeOnce {model : Model} (h : Result task model t u as stats) (ha : a ∈ as)
    (honce : a.file.strategy = .writeOnce)
    (hfile : u.find? (t.locate (task.target a)) ≠ some .directory) :
    u.readText (task.target a) = .ok ((task.textBefore? t a).getD a.file.content) := by
  have hl : task.leaves t u a = (task.textBefore? t a).isSome := by
    rw [leaves, decide_eq_true honce, Bool.true_and, decide_eq_false hfile, Bool.or_false]
  cases htext : task.textBefore? t a with
  | some text =>
    rw [htext] at hl
    exact (h.left a ha hl).2 text htext
  | none =>
    rw [htext] at hl
    exact h.done a ha hl

/-- **A task that is run again changes nothing**, whether it succeeds or not. -/
theorem Result.run_again {model : Model} (h : Result task model t u as stats) :
    ChangedAt [] u ((task.run model as : Action (StateM FileTree) WriteStats).run u).2 := by
  have hlocate := h.changed.locate
  refine run_settled h.changed.wellFormed (fun a ha => ?_) fun path hpath => ?_
  · cases hl : task.leaves t u a with
    | true =>
      have hthere := (h.left a ha hl).1
      simp only [leaves, Bool.and_eq_true, decide_eq_true_eq] at hl
      exact .inl ⟨hl.1, hthere⟩
    | false =>
      refine .inr ⟨h.done a ha hl, ?_⟩
      rw [hlocate]
      refine h.temporaries _ (List.mem_append_left _ ?_)
      rw [h.written, List.map_map]
      exact List.mem_map.2 ⟨a, by simp [ha, hl], rfl⟩
  · obtain ⟨earlier, hversion, htext⟩ := h.cache path hpath
    refine ⟨_, hversion, htext, (earlier.remembersModel_update model).recordArtifacts as,
      Cache.recordArtifacts_recordArtifacts _ as, ?_⟩
    rw [hlocate]
    exact h.temporaries path (List.mem_append_right _ (Option.mem_toList.2 hpath))

end WriteTask

end ArchSpec
