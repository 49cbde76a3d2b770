import ArchSpec.Proofs.Artifact.Provenance

/-!
# Which files the cache keeps from being written

Before anything is written, the components of the model that are stale are put on a list; a file of
a component that is not on it is left alone. The list says what the cache says as long as every
component that owns a file is in the model. A file whose owner is not in the model is never on the
list and so is always left alone, although no cache has ever seen its owner.

* `WriteCall.Turn` — what a call finds when it comes to an artifact.
* `WriteCall.Turn.leftAlone_iff` — which files are left alone; `WriteCall.vouched_iff_leftAlone` —
  they are those that the cache vouches for, if the model has their owners.
* `WriteCall.stranger_leftAlone` — what becomes of a file whose owner is not in the model.
-/

namespace ArchSpec

/-! ## One artifact -/

/-- Unless it is forced, a file that may be written again is left alone if it has an owner that is
not on the list. -/
theorem Artifact.isPreserved_overwrite_iff {a : Artifact} {stale : List String}
    (hstrategy : a.file.strategy = .overwrite) : a.isPreserved false (some stale) = true ↔
      ∃ id, a.file.component = some id ∧ id ∉ stale := by
  constructor
  · exact isPreserved_overwrite hstrategy
  · intro hfresh
    obtain ⟨id, hid, hfresh⟩ := hfresh
    simp [isPreserved, hstrategy, hid, hfresh]

namespace WriteTask

variable {task : WriteTask} {before later : List Artifact} {a : Artifact} {t v : FileTree}
  {stale : Option (List String)} {earlier : WriteStats}

/-- What is decided on artifacts is decided on the first of them and then on the others. -/
theorem handled_append
    (h : (task.writeAll stale before : Action (StateM FileTree) WriteStats).run t =
      (.ok earlier, v)) (later : List Artifact) :
    task.handled stale (before ++ later) t =
      task.handled stale before t ++ task.handled stale later v := by
  induction before generalizing t earlier with
  | nil =>
    cases h
    rfl
  | cons b before ih =>
    obtain ⟨written, w, hone, h⟩ := Action.bind_ok h
    obtain ⟨others, x, hrest, h⟩ := Action.bind_ok h
    cases h
    rw [List.cons_append, handled_cons_ok hone, handled_cons_ok hone, ih hrest, List.cons_append]

/-- What is decided on an artifact after those before it. -/
theorem handled_at
    (h : (task.writeAll stale before : Action (StateM FileTree) WriteStats).run t =
      (.ok earlier, v)) (a : Artifact) (later : List Artifact) :
    (task.handled stale (before ++ a :: later) t)[before.length]? =
      (task.handled stale (a :: later) v).head? := by
  have hlength : (task.handled stale before t).length = before.length := by
    obtain ⟨hall, _⟩ := handled_of_ok h
    rw [← List.length_map, hall]
  rw [handled_append h, List.getElem?_append_right (Nat.le_of_eq hlength), hlength, Nat.sub_self,
    List.head?_eq_getElem?]

/-- A file that is there is left alone just if its artifact is to be preserved. -/
theorem head?_handled_iff (hthere : v.existsAt (task.target a) = true) :
    (task.handled stale (a :: later) v).head? = some (a, false) ↔
      a.isPreserved task.force stale = true := by
  constructor
  · intro h
    exact preserved_of_handled (List.mem_of_mem_head? h)
  · intro hkeep
    have hone : (task.writeOne stale a : Action (StateM FileTree) Bool).run v = (.ok false, v) := by
      rw [run_writeOne, hthere, hkeep]
      rfl
    rw [handled_cons_ok hone]
    rfl

end WriteTask

/-! ## The turn of an artifact -/

namespace WriteCall

/-- A call with a cache comes to an artifact after those before it: its paths are accepted, it has
loaded a cache, and it finds the tree as the artifacts before have left it. -/
structure Turn (w : WriteCall) (place : Place) (t : FileTree) (before : List Artifact)
    (a : Artifact) (c : Cache) (v : FileTree) : Prop where
  cached : w.cached = true
  planned : ∃ later, w.artifacts = before ++ a :: later
  paths : (w.task place).checkPaths w.artifacts = .ok ()
  loaded : (Cache.load place.cachePath : Action (StateM FileTree) Cache).run t = (.ok c, t)
  reached : ∃ stats, ((w.task place).writeAll (some (c.staleComponents w.model)) before :
    Action (StateM FileTree) WriteStats).run t = (.ok stats, v)

variable {w : WriteCall} {place : Place} {before : List Artifact} {a : Artifact} {c : Cache}
  {t u v : FileTree} {stats : WriteStats}

/-- What a call comes to is decided by the cache that it has loaded. -/
theorem Turn.handled_eq (h : w.Turn place t before a c v) : w.handled place t =
    (w.task place).handled (some (c.staleComponents w.model)) w.artifacts t := by
  rw [handled, h.paths]
  simp only [if_pos h.cached, h.loaded]

/-- **Which files are left alone**, unless that is forced: those of owners that the cache vouches
for, and those of owners that are not in the model. -/
theorem Turn.leftAlone_iff (h : w.Turn place t before a c v) (hforce : w.force = false)
    (hstrategy : a.file.strategy = .overwrite) (hthere : v.existsAt (place.target a) = true) :
    (w.handled place t)[before.length]? = some (a, false) ↔ ∃ id, a.file.component = some id ∧
      (w.model.components.contains id = true → c.Vouches w.model id) := by
  obtain ⟨later, hplanned⟩ := h.planned
  obtain ⟨earlier, hreached⟩ := h.reached
  have htask : (w.task place).force = false := hforce
  have htarget : v.existsAt ((w.task place).target a) = true := hthere
  rw [h.handled_eq, hplanned, WriteTask.handled_at hreached, WriteTask.head?_handled_iff htarget,
    htask, Artifact.isPreserved_overwrite_iff hstrategy]
  refine exists_congr fun id => and_congr Iff.rfl ?_
  -- the list has components of the model only, so that an owner outside of it is not on the list
  cases hmodel : w.model.components.contains id with
  | true =>
    rw [Cache.not_mem_staleComponents_iff hmodel]
    simp
  | false =>
    have hfresh := c.not_mem_staleComponents_of_absent hmodel
    simp [hfresh]

/-- **A file is left alone just if the cache vouches for its owner**, if its owner is in the model:
a file without an owner, and one whose owner the cache does not have as it is, is written. A call
that succeeds comes to all artifacts and reports what it has decided. -/
theorem vouched_iff_leftAlone (h : w.Turn place t before a c v) (hforce : w.force = false)
    (hstrategy : a.file.strategy = .overwrite) (hthere : v.existsAt (place.target a) = true)
    (howner : ∀ id, a.file.component = some id → w.model.components.contains id = true) :
    ((w.handled place t)[before.length]? = some (a, false) ↔
      ∃ id, a.file.component = some id ∧ c.Vouches w.model id) ∧
    ∀ stats u, w.run place t = (.ok stats, u) →
      (w.handled place t).map (·.1) = w.artifacts ∧
      stats.written = ((w.handled place t).filter (·.2)).map (·.1.path) ∧
      stats.skipped = ((w.handled place t).filter (!·.2)).map (·.1.path) := by
  refine ⟨?_, fun stats u hrun => handled_of_run hrun⟩
  rw [h.leftAlone_iff hforce hstrategy hthere]
  constructor
  · intro hleft
    obtain ⟨id, hid, hvouches⟩ := hleft
    exact ⟨id, hid, hvouches (howner id hid)⟩
  · intro hleft
    obtain ⟨id, hid, hvouches⟩ := hleft
    exact ⟨id, hid, fun _ => hvouches⟩

end WriteCall

/-! ## Files of the site -/

/-- The first file of the site is left alone when nothing has changed. -/
theorem WriteCall.vouched_iff_leftAlone_site :
    ((writeSite true "y").handled sitePlace siteMixed)[0]? =
      some (siteArtifact "a" "x", false) := by
  have hturn : (writeSite true "y").Turn sitePlace siteMixed [] (siteArtifact "a" "x") siteCache
      siteMixed :=
    ⟨rfl, ⟨[siteArtifact "b" "y"], rfl⟩, site_checkPaths true "y",
      Cache.load_current rfl siteMixed_saved, ⟨⟨[], []⟩, rfl⟩⟩
  have hthere : siteMixed.existsAt (sitePlace.target (siteArtifact "a" "x")) = true := by
    decide +kernel
  have hmodel : (site "y").components.contains "a" = true := by
    show ((site "y").get? "a").isSome = true
    rw [site_get?]
    rfl
  have howner : ∀ id, (siteArtifact "a" "x").file.component = some id →
      (writeSite true "y").model.components.contains id = true := by
    intro id hid
    cases hid
    exact hmodel
  obtain ⟨hiff, _⟩ := vouched_iff_leftAlone hturn rfl rfl hthere howner
  exact hiff.2 ⟨"a", rfl, siteCache_remembersModel.vouches hmodel⟩

/-- A file that the user has, at a path that an artifact is planned for, and no cache. -/
def strangerTree : FileTree := ⟨[(["out"], .directory), (["out", "a"], .file "old")], []⟩

/-- An artifact whose owner is not in the model. -/
def strangerArtifact : Artifact := ⟨"schemas", "a", ⟨"new", .overwrite, some "gone"⟩⟩

def strangerCall : WriteCall := ⟨true, false, site "y", [strangerArtifact]⟩

/-- A file is left alone whose owner is neither in the model nor in the cache. -/
theorem WriteCall.stranger_leftAlone :
    strangerCall.Turn sitePlace strangerTree [] strangerArtifact .empty strangerTree ∧
    strangerCall.force = false ∧ strangerArtifact.file.strategy = .overwrite ∧
    strangerTree.existsAt (sitePlace.target strangerArtifact) = true ∧
    (strangerCall.handled sitePlace strangerTree)[0]? = some (strangerArtifact, false) ∧
    (strangerCall.run sitePlace strangerTree).1.toOption = some ⟨[], ["a"]⟩ ∧
    ¬∃ id, strangerArtifact.file.component = some id ∧
      Cache.empty.Vouches strangerCall.model id := by
  have hturn : strangerCall.Turn sitePlace strangerTree [] strangerArtifact .empty strangerTree :=
    ⟨rfl, ⟨[], rfl⟩, by decide, rfl, ⟨⟨[], []⟩, rfl⟩⟩
  have hthere : strangerTree.existsAt (sitePlace.target strangerArtifact) = true := by
    decide
  have hgone : strangerCall.model.components.contains "gone" = false := by
    show ((site "y").get? "gone").isSome = false
    rw [site_get?]
    rfl
  refine ⟨hturn, rfl, rfl, hthere, ?_, by decide +kernel, ?_⟩
  · refine (hturn.leftAlone_iff rfl rfl hthere).2 ⟨"gone", rfl, fun hmodel => ?_⟩
    rw [hgone] at hmodel
    cases hmodel
  · intro hvouches
    obtain ⟨id, _, entry, component, hentry, _⟩ := hvouches
    cases hentry

end ArchSpec
