import ArchSpec.Artifact.Write
import ArchSpec.Proofs.Cache.Basic
import ArchSpec.Proofs.Cache.Stored

/-!
# What the writing of artifacts changes

Artifacts are written one by one, each to a file of its own. If no file is that of another artifact
or a temporary one, every file holds its text in the end or has been left alone.

* `WriteTask.touched` — the files that the writing of artifacts may change.
* `WriteTask.Apart` — artifacts that do not disturb each other.
* `WriteTask.writeAll_content` — what the files hold in the end.
* `WriteTask.handled` — the artifacts that a run comes to before it ends or fails;
  `WriteTask.content_of_handled` — what is written by then stays written.
* `WriteTask.writeAll_split` — what a run does with one artifact among others.
* `WriteTask.run_cached_ok`, `run_ok`, `run_changes` — the parts of a task, and what it changes.
-/

namespace ArchSpec.WriteTask

open ArchSpec.Action (Changes)
open FileStore (replaceText temporaryPath)
open FileTree (ChangedAt)

variable {task : WriteTask} {stale : Option (List String)} {a : Artifact} {as : List Artifact}
  {t u : FileTree} {written : Bool} {stats : WriteStats}

/-! ## One artifact -/

theorem run_writeOne (task : WriteTask) (stale : Option (List String)) (a : Artifact)
    (t : FileTree) :
    (task.writeOne stale a : Action (StateM FileTree) Bool).run t =
      if t.existsAt (task.target a) && a.isPreserved task.force stale then (.ok false, t)
      else (Action.within ("Failed to write artifact " ++ a.path)
        (replaceText (task.target a) a.file.content) >>= fun _ => pure true :
          Action (StateM FileTree) Bool).run t := by
  have hask : (liftM (FileStore.existsAt (task.target a) : StateM FileTree Bool) :
      Action (StateM FileTree) Bool).run t = (.ok (t.existsAt (task.target a)), t) := rfl
  rw [writeOne, Action.run_bind_ok hask]
  split <;> rfl

/-- An artifact is left alone, which its strategy allows, or its file is replaced. -/
theorem writeOne_ok
    (h : (task.writeOne stale a : Action (StateM FileTree) Bool).run t = (.ok written, u)) :
    (written = false ∧ u = t ∧ a.isPreserved task.force stale = true) ∨
      (written = true ∧ (replaceText (task.target a) a.file.content :
        Action (StateM FileTree) Unit).run t = (.ok (), u)) := by
  rw [run_writeOne] at h
  split at h
  · rename_i hkeep
    cases h
    rw [Bool.and_eq_true] at hkeep
    exact .inl ⟨rfl, rfl, hkeep.2⟩
  · obtain ⟨_, v, hreplace, h⟩ := Action.bind_ok h
    cases h
    exact .inr ⟨rfl, Action.within_ok hreplace⟩

theorem writeOne_changes (task : WriteTask) (stale : Option (List String)) (a : Artifact) :
    Changes [temporaryPath (task.target a), task.target a] (task.writeOne stale a) := by
  intro t ht
  rw [run_writeOne]
  split
  · exact .refl ht
  · exact (((FileStore.replaceText_changes _ _).within _).bind
      fun _ => Action.changes_pure true) t ht

/-! ## All artifacts -/

/-- The files that the writing of artifacts may change. -/
def touched (task : WriteTask) (as : List Artifact) : List Path :=
  as.flatMap fun a => [temporaryPath (task.target a), task.target a]

theorem writeAll_changes (task : WriteTask) (stale : Option (List String))
    (as : List Artifact) : Changes (task.touched as) (task.writeAll stale as) := by
  induction as with
  | nil => exact Action.changes_pure _
  | cons a rest ih =>
    have hone := (task.writeOne_changes stale a).mono
      (show _ ⊆ task.touched (a :: rest) from List.subset_append_left _ _)
    have hrest := ih.mono
      (show _ ⊆ task.touched (a :: rest) from List.subset_append_right _ _)
    exact hone.bind fun _ => hrest.bind fun _ => Action.changes_pure _

/-- Artifacts whose files are all different, and none of which is a temporary one. -/
structure Apart (task : WriteTask) (t : FileTree) (as : List Artifact) : Prop where
  targets : as.Pairwise fun a b => t.locate (task.target a) ≠ t.locate (task.target b)
  temporaries : ∀ a ∈ as, ∀ b ∈ as,
    t.locate (task.target a) ≠ t.locate (temporaryPath (task.target b))

theorem Apart.tail (h : Apart task t (a :: as)) : Apart task t as where
  targets := (List.pairwise_cons.1 h.targets).2
  temporaries b hb d hd :=
    h.temporaries b (List.mem_cons_of_mem _ hb) d (List.mem_cons_of_mem _ hd)

theorem Apart.congr (hdir : u.workingDirectory = t.workingDirectory) (h : Apart task t as) :
    Apart task u as := by
  have hlocate := fun p => FileTree.locate_congr hdir p
  refine ⟨?_, ?_⟩
  · simpa only [hlocate] using h.targets
  · simpa only [hlocate] using h.temporaries

/-- The first artifact is not disturbed by the others. -/
theorem Apart.head (h : Apart task t (a :: as)) :
    ∀ q ∈ task.touched as, t.locate q ≠ t.locate (task.target a) := by
  intro q hq
  obtain ⟨b, hb, hq⟩ := List.mem_flatMap.1 hq
  simp only [List.mem_cons, List.not_mem_nil, or_false] at hq
  rcases hq with rfl | rfl
  · exact (h.temporaries a List.mem_cons_self b (List.mem_cons_of_mem _ hb)).symm
  · exact ((List.pairwise_cons.1 h.targets).1 b hb).symm

/-- The other artifacts are not disturbed by the first one. -/
theorem Apart.undisturbed (h : Apart task t (a :: as)) {b : Artifact} (hb : b ∈ as) :
    ∀ q ∈ [temporaryPath (task.target a), task.target a],
      t.locate q ≠ t.locate (task.target b) := by
  intro q hq
  simp only [List.mem_cons, List.not_mem_nil, or_false] at hq
  rcases hq with rfl | rfl
  · exact (h.temporaries b (List.mem_cons_of_mem _ hb) a List.mem_cons_self).symm
  · exact (List.pairwise_cons.1 h.targets).1 b hb

/-- **Every file holds its text in the end**, unless it has been left alone and holds what it held
before. -/
theorem writeAll_content (ht : t.WellFormed) (hapart : Apart task t as)
    (h : (task.writeAll stale as : Action (StateM FileTree) WriteStats).run t = (.ok stats, u))
    (ha : a ∈ as) : u.readText (task.target a) = .ok a.file.content ∨
      (a.isPreserved task.force stale = true ∧ ∀ text, t.readText (task.target a) = .ok text →
        u.readText (task.target a) = .ok text) := by
  induction as generalizing t stats with
  | nil => cases ha
  | cons b rest ih =>
    obtain ⟨written, v, hone, h⟩ := Action.bind_ok h
    obtain ⟨reststats, w, hrest, h⟩ := Action.bind_ok h
    cases h
    have hv := (task.writeOne_changes stale b).changedAt ht hone
    have hapart' := hapart.congr hv.workingDirectory
    have hw := (task.writeAll_changes stale rest).changedAt hv.wellFormed hrest
    rcases List.mem_cons.1 ha with rfl | ha
    · -- what follows leaves the file of the first artifact as it is
      rcases writeOne_ok hone with ⟨_, rfl, hkeep⟩ | ⟨_, hreplace⟩
      · exact .inr ⟨hkeep, fun text htext => hw.readText hapart.head htext⟩
      · exact .inl (hw.readText hapart'.head (FileStore.replaceText_ok ht hreplace).2)
    · rcases ih hv.wellFormed hapart'.tail hrest ha with hcontent | ⟨hkeep, hsame⟩
      · exact .inl hcontent
      · exact .inr ⟨hkeep, fun text htext => hsame text (hv.readText (hapart.undisturbed ha) htext)⟩

/-! ## Artifacts that have been come to -/

/-- The artifacts that steps on a tree come to, up to the first that fails, each with what its step
answers. -/
def comeTo (step : Artifact → FileTree → Except Failure Bool × FileTree) :
    List Artifact → FileTree → List (Artifact × Bool)
  | [], _ => []
  | a :: rest, t =>
    match step a t with
    | (.error _, _) => []
    | (.ok written, u) => (a, written) :: comeTo step rest u

/-- The artifacts that the writing comes to, each with whether it is written. -/
def handled (task : WriteTask) (stale : Option (List String)) (as : List Artifact)
    (t : FileTree) : List (Artifact × Bool) :=
  comeTo (fun a t => (task.writeOne stale a : Action (StateM FileTree) Bool).run t) as t

theorem handled_cons_ok {v : FileTree}
    (h : (task.writeOne stale a : Action (StateM FileTree) Bool).run t = (.ok written, v)) :
    task.handled stale (a :: as) t = (a, written) :: task.handled stale as v := by
  rw [handled, comeTo, h]
  rfl

theorem handled_cons_error {v : FileTree} {e : Failure}
    (h : (task.writeOne stale a : Action (StateM FileTree) Bool).run t = (.error e, v)) :
    task.handled stale (a :: as) t = [] := by
  rw [handled, comeTo, h]

/-- A run that succeeds comes to all artifacts, and reports what is written and what is not. -/
theorem handled_of_ok
    (h : (task.writeAll stale as : Action (StateM FileTree) WriteStats).run t = (.ok stats, u)) :
    (task.handled stale as t).map (·.1) = as ∧
      stats.written = ((task.handled stale as t).filter (·.2)).map (·.1.path) ∧
      stats.skipped = ((task.handled stale as t).filter (!·.2)).map (·.1.path) := by
  induction as generalizing t stats with
  | nil =>
    cases h
    exact ⟨rfl, rfl, rfl⟩
  | cons a rest ih =>
    obtain ⟨written, v, hone, h⟩ := Action.bind_ok h
    obtain ⟨reststats, w, hrest, h⟩ := Action.bind_ok h
    cases h
    obtain ⟨hall, hwritten, hskipped⟩ := ih hrest
    rw [handled_cons_ok hone]
    cases written <;> simp [hall, hwritten, hskipped]

/-- What has been come to is the first artifact, or has been come to after it. -/
theorem mem_handled_cons {b : Artifact} {e : Artifact × Bool}
    (h : e ∈ task.handled stale (b :: as) t) : ∃ done v,
      (task.writeOne stale b : Action (StateM FileTree) Bool).run t = (.ok done, v) ∧
        (e = (b, done) ∨ e ∈ task.handled stale as v) := by
  cases hone : (task.writeOne stale b : Action (StateM FileTree) Bool).run t with
  | mk r v =>
    cases r with
    | error f =>
      rw [handled_cons_error hone] at h
      cases h
    | ok done =>
      rw [handled_cons_ok hone] at h
      exact ⟨done, v, rfl, List.mem_cons.1 h⟩

theorem mem_of_handled (h : (a, written) ∈ task.handled stale as t) : a ∈ as := by
  induction as generalizing t with
  | nil => cases h
  | cons b rest ih =>
    obtain ⟨done, v, _, heq | hrest⟩ := mem_handled_cons h
    · cases heq
      exact List.mem_cons_self
    · exact List.mem_cons_of_mem _ (ih hrest)

/-- An artifact that is come to and not written is left alone because its strategy allows it. -/
theorem preserved_of_handled (h : (a, false) ∈ task.handled stale as t) :
    a.isPreserved task.force stale = true := by
  induction as generalizing t with
  | nil => cases h
  | cons b rest ih =>
    obtain ⟨done, v, hone, heq | hrest⟩ := mem_handled_cons h
    · cases heq
      rcases writeOne_ok hone with ⟨_, _, hkeep⟩ | ⟨hwritten, _⟩
      · exact hkeep
      · cases hwritten
    · exact ih hrest

/-- What has been written holds its text in the end, also if a later artifact cannot be written. -/
theorem content_of_handled (ht : t.WellFormed) (hapart : Apart task t as)
    (h : (a, true) ∈ task.handled stale as t) :
    ((task.writeAll stale as : Action (StateM FileTree) WriteStats).run t).2.readText
      (task.target a) = .ok a.file.content := by
  induction as generalizing t with
  | nil => cases h
  | cons b rest ih =>
    obtain ⟨done, v, hone, h⟩ := mem_handled_cons h
    have hv := (task.writeOne_changes stale b).changedAt ht hone
    have hapart' := hapart.congr hv.workingDirectory
    rw [writeAll, Action.run_bind_ok hone, Action.run_bind_pure]
    rcases h with heq | hrest
    · -- what follows leaves the file of the first artifact as it is
      cases heq
      rcases writeOne_ok hone with ⟨hleft, _⟩ | ⟨_, hreplace⟩
      · cases hleft
      · exact (task.writeAll_changes stale rest v hv.wellFormed).readText hapart'.head
          (FileStore.replaceText_ok ht hreplace).2
    · exact ih hv.wellFormed hapart'.tail hrest

/-! ## One artifact among others -/

/-- The paths that a run reports are those of artifacts. -/
theorem path_of_stats
    (h : (task.writeAll stale as : Action (StateM FileTree) WriteStats).run t = (.ok stats, u))
    {path : String} (hpath : path ∈ stats.written ∨ path ∈ stats.skipped) :
    path ∈ as.map (·.path) := by
  obtain ⟨hall, hwritten, hskipped⟩ := handled_of_ok h
  rw [hwritten, hskipped] at hpath
  rw [← hall, List.map_map]
  rcases hpath with hpath | hpath
  · obtain ⟨e, he, rfl⟩ := List.mem_map.1 hpath
    exact List.mem_map.2 ⟨e, List.mem_of_mem_filter he, rfl⟩
  · obtain ⟨e, he, rfl⟩ := List.mem_map.1 hpath
    exact List.mem_map.2 ⟨e, List.mem_of_mem_filter he, rfl⟩

theorem run_writeAll_cons {v w : FileTree}
    (hone : (task.writeOne stale a : Action (StateM FileTree) Bool).run t = (.ok written, v))
    (hrest : (task.writeAll stale as : Action (StateM FileTree) WriteStats).run v =
      (.ok stats, w)) :
    (task.writeAll stale (a :: as) : Action (StateM FileTree) WriteStats).run t =
      (.ok (if written then { stats with written := a.path :: stats.written }
        else { stats with skipped := a.path :: stats.skipped }), w) := by
  rw [writeAll, Action.run_bind_ok hone, Action.run_bind_ok hrest]
  rfl

/-- A run that succeeds comes to each artifact after those before it and before those after it. -/
theorem writeAll_split {before later : List Artifact}
    (h : (task.writeAll stale (before ++ a :: later) :
      Action (StateM FileTree) WriteStats).run t = (.ok stats, u)) :
    ∃ earlier v done w others,
      (task.writeAll stale before : Action (StateM FileTree) WriteStats).run t =
        (.ok earlier, v) ∧
      (task.writeOne stale a : Action (StateM FileTree) Bool).run v = (.ok done, w) ∧
      (task.writeAll stale later : Action (StateM FileTree) WriteStats).run w =
        (.ok others, u) ∧
      stats.written = earlier.written ++ (if done then [a.path] else []) ++ others.written ∧
      stats.skipped = earlier.skipped ++ (if done then [] else [a.path]) ++ others.skipped := by
  induction before generalizing t stats with
  | nil =>
    obtain ⟨done, w, hone, h⟩ := Action.bind_ok h
    obtain ⟨others, x, hlater, h⟩ := Action.bind_ok h
    cases h
    refine ⟨⟨[], []⟩, t, done, w, others, rfl, hone, hlater, ?_⟩
    cases done <;> exact ⟨rfl, rfl⟩
  | cons b before ih =>
    obtain ⟨first, v, hfirst, h⟩ := Action.bind_ok h
    obtain ⟨stats', x, hrest, h⟩ := Action.bind_ok h
    cases h
    obtain ⟨earlier, y, done, w, others, hbefore, hone, hlater, hwritten, hskipped⟩ := ih hrest
    refine ⟨_, y, done, w, others, run_writeAll_cons hfirst hbefore, hone, hlater, ?_⟩
    cases first <;> simp [hwritten, hskipped]

/-! ## The whole task -/

theorem checkPath_ok {directory : Path} (h : a.checkPath directory = .ok ()) :
    Path.isArtifactPath a.path = true ∧ Path.isSafe directory a.path = true := by
  unfold Artifact.checkPath at h
  split at h
  · rename_i hpath
    exact Bool.and_eq_true_iff.1 hpath
  · cases h

theorem checkPaths_ok (h : task.checkPaths as = .ok ()) (ha : a ∈ as) :
    Path.isArtifactPath a.path = true ∧ Path.isSafe task.directory a.path = true := by
  induction as with
  | nil => cases ha
  | cons b rest ih =>
    rw [checkPaths] at h
    split at h
    · rename_i hb
      rcases List.mem_cons.1 ha with rfl | ha
      · exact checkPath_ok hb
      · exact ih h ha
    · cases h

/-- A task with a cache that succeeds: the cache is loaded, the artifacts are written, and the
cache is saved. -/
theorem run_cached_ok {path : Path} (hpath : task.cachePath = some path) {model : Model}
    (h : (task.run model as : Action (StateM FileTree) WriteStats).run t = (.ok stats, u)) :
    ∃ c v, (Cache.load path : Action (StateM FileTree) Cache).run t = (.ok c, t) ∧
      (task.writeAll (some (c.staleComponents model)) as :
        Action (StateM FileTree) WriteStats).run t = (.ok stats, v) ∧
      (((c.update model).recordArtifacts as).save path : Action (StateM FileTree) Unit).run v =
        (.ok (), u) := by
  obtain ⟨_, t', hpaths, hrest⟩ := Action.bind_ok h
  obtain rfl : t = t' := congrArg Prod.snd hpaths
  rw [hpath] at hrest
  obtain ⟨c, t'', hload, hrun⟩ := Action.bind_ok hrest
  obtain ⟨rfl, _⟩ := Cache.load_ok hload
  obtain ⟨stats', v, hwrite, h⟩ := Action.bind_ok hrun
  obtain ⟨_, w, hsave, h⟩ := Action.bind_ok h
  cases h
  exact ⟨c, v, hload, hwrite, hsave⟩

/-- The cache that a task saves is of this version, as the one that it has loaded. -/
theorem version_saved {path : Path} {c : Cache}
    (h : (Cache.load path : Action (StateM FileTree) Cache).run t = (.ok c, u)) (model : Model)
    (as : List Artifact) : ((c.update model).recordArtifacts as).version = cacheVersion := by
  have hversion : c.version = cacheVersion := Cache.version_of_load h
  rw [Cache.version_recordArtifacts, Cache.update, hversion]

/-- A task whose cache is known need not load it. -/
theorem run_of_load {path : Path} (hpath : task.cachePath = some path) {c : Cache}
    (hload : (Cache.load path : Action (StateM FileTree) Cache).run t = (.ok c, t))
    (model : Model) (as : List Artifact) :
    (task.run model as : Action (StateM FileTree) WriteStats).run t =
      (do
        Action.ofFault (task.checkPaths as)
        let stats ← task.writeAll (some (c.staleComponents model)) as
        ((c.update model).recordArtifacts as).save path
        return stats : Action (StateM FileTree) WriteStats).run t := by
  unfold WriteTask.run
  rw [hpath]
  cases hcheck : task.checkPaths as with
  | error f =>
    have hfail : (Action.ofFault (.error f) : Action (StateM FileTree) Unit).run t =
      (.error (Failure.ofFault f), t) := rfl
    rw [Action.run_bind_error hfail, Action.run_bind_error hfail]
  | ok _ =>
    have hpass : (Action.ofFault (.ok ()) : Action (StateM FileTree) Unit).run t =
      (.ok (), t) := rfl
    rw [Action.run_bind_ok hpass, Action.run_bind_ok hpass]
    exact Action.run_bind_ok hload

/-- The files that the cache of a task takes. -/
def cacheFiles (task : WriteTask) : List Path :=
  match task.cachePath with
  | none => []
  | some path => [temporaryPath path, path]

theorem run_changes (task : WriteTask) (model : Model) (as : List Artifact) :
    Changes (task.touched as ++ task.cacheFiles) (task.run model as) := by
  refine (Action.changes_ofFault (task.checkPaths as)).bind fun _ => ?_
  unfold cacheFiles
  cases task.cachePath with
  | none => exact (task.writeAll_changes none as).mono (List.subset_append_left _ _)
  | some path =>
    refine ((Cache.load_changes path).mono (List.nil_subset _)).bind fun c => ?_
    refine ((task.writeAll_changes _ as).mono (List.subset_append_left _ _)).bind fun stats => ?_
    exact ((Cache.save_changes _ path).mono (List.subset_append_right _ _)).bind
      fun _ => Action.changes_pure stats

/-- A task that succeeds has written its artifacts, all below the output directory, and then at
most its cache. -/
theorem run_ok (ht : t.WellFormed) {model : Model}
    (h : (task.run model as : Action (StateM FileTree) WriteStats).run t = (.ok stats, u)) :
    task.checkPaths as = .ok () ∧ ∃ stale v,
      (task.writeAll stale as : Action (StateM FileTree) WriteStats).run t = (.ok stats, v) ∧
      ChangedAt task.cacheFiles v u := by
  refine ⟨?_, ?_⟩
  · obtain ⟨_, _, hpaths, _⟩ := Action.bind_ok h
    exact Action.ofFault_ok hpaths
  · cases hpath : task.cachePath with
    | none =>
      obtain ⟨_, t', hpaths, hrest⟩ := Action.bind_ok h
      obtain rfl : t = t' := congrArg Prod.snd hpaths
      rw [hpath] at hrest
      exact ⟨none, u, hrest, .refl ((task.writeAll_changes none as).changedAt ht hrest).wellFormed⟩
    | some path =>
      obtain ⟨c, v, _, hwrite, hsave⟩ := run_cached_ok hpath h
      have hv := (task.writeAll_changes _ as).changedAt ht hwrite
      refine ⟨_, v, hwrite, ?_⟩
      unfold cacheFiles
      rw [hpath]
      exact (Cache.save_changes _ path).changedAt hv.wellFormed hsave

/-- A task that fails has not saved its cache. -/
theorem run_error {path : Path} (hpath : task.cachePath = some path) {model : Model}
    {e : Failure} (ht : t.WellFormed)
    (h : (task.run model as : Action (StateM FileTree) WriteStats).run t = (.error e, u)) :
    ChangedAt (task.touched as ++ [temporaryPath path]) t u := by
  rcases Action.bind_error h with hpaths | ⟨_, t', hpaths, hrest⟩
  · obtain rfl : t = u := congrArg Prod.snd hpaths
    exact .refl ht
  · obtain rfl : t = t' := congrArg Prod.snd hpaths
    rw [hpath] at hrest
    rcases Action.bind_error hrest with hload | ⟨c, t'', hload, hrun⟩
    · exact ((Cache.load_changes path).changedAt ht hload).mono (List.nil_subset _)
    · obtain ⟨rfl, _⟩ := Cache.load_ok hload
      have hchanges := task.writeAll_changes (some (c.staleComponents model)) as
      rcases Action.bind_error hrun with hwrite | ⟨stats, v, hwrite, hsave⟩
      · exact (hchanges.changedAt ht hwrite).mono (List.subset_append_left _ _)
      · have hv := (hchanges.changedAt ht hwrite).mono
          (List.subset_append_left _ [temporaryPath path])
        rcases Action.bind_error hsave with hsave | ⟨_, _, _, hdone⟩
        · obtain ⟨e', hreplace⟩ := Action.within_error hsave
          exact hv.trans ((FileStore.replaceText_error hv.wellFormed hreplace).mono
            (List.subset_append_right _ _))
        · cases hdone

end ArchSpec.WriteTask
