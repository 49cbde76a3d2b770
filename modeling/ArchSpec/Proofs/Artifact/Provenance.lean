import ArchSpec.Proofs.Artifact.History

/-!
# Who wrote a file that is left alone

Files are written one by one, and the cache is saved after the last of them. A call without a cache
or one that fails half-way may write files that the cache does not know of. So a file that is left
alone need not be what its last writer should have written; but of the calls with a cache that
succeed, the last one that wrote it agrees with the call that leaves it alone.

* `WriteCall.handled` — the artifacts that a call comes to, each with whether it is written;
  `WriteCall.content_of_handled` — what is written holds its text, also if the call fails.
* `last?` — the last call of a history, of those that pass a test.
* `NeverOutdated` — the last writer of a file that is left alone agrees on its component.
* `WriteCall.last_saved_writer` — that is so of the calls that complete.
* `WriteCall.outdated_after_uncached` — it is not so of all calls.
-/

namespace ArchSpec

open FileStore (temporaryPath)
open FileTree (ChangedAt)

namespace WriteCall

/-- The artifacts that a call comes to, each with whether it is written. -/
def handled (w : WriteCall) (place : Place) (t : FileTree) : List (Artifact × Bool) :=
  match (w.task place).checkPaths w.artifacts with
  | .error _ => []
  | .ok _ =>
    if w.cached then
      match ((Cache.load place.cachePath : Action (StateM FileTree) Cache).run t).1 with
      | .error _ => []
      | .ok c => (w.task place).handled (some (c.staleComponents w.model)) w.artifacts t
    else (w.task place).handled none w.artifacts t

/-- Whether a call writes the file at a path. -/
def writes (w : WriteCall) (place : Place) (p : Path) (t : FileTree) : Bool :=
  (w.handled place t).any fun e => e.2 && t.locate (place.target e.1) = t.locate p

/-- Whether a call has a cache and succeeds, so that the cache is saved. -/
def completes (w : WriteCall) (place : Place) (t : FileTree) : Bool :=
  w.cached && (w.run place t).1.isOk

/-- The cache file is none of the temporary ones. -/
def CacheApart (place : Place) (t : FileTree) (w : WriteCall) : Prop :=
  ∀ p ∈ place.cachePath :: w.artifacts.map place.target,
    t.locate place.cachePath ≠ t.locate (temporaryPath p)

/-- The last call that passes a test, of calls one after another, with the tree that it found. -/
def last? (place : Place) (test : WriteCall → FileTree → Bool) :
    FileTree → List WriteCall → Option (WriteCall × FileTree)
  | _, [] => none
  | t, w :: rest =>
    (last? place test (w.run place t).2 rest).or (if test w t then some (w, t) else none)

/-- The last call that wrote the file at a path, of those that count. -/
def lastWriter? (place : Place) (counts : WriteCall → FileTree → Bool) (p : Path) (t : FileTree)
    (calls : List WriteCall) : Option (WriteCall × FileTree) :=
  last? place (fun v u => counts v u && v.writes place p u) t calls

/-- In a history, after the calls `before`, a call with a cache leaves alone the file of an artifact
that belongs to a component. -/
structure LeavesAlone (place : Place) (t : FileTree) (calls before : List WriteCall)
    (w : WriteCall) (a : Artifact) (id : String) : Prop where
  inHistory : ∃ later, calls = before ++ w :: later
  cached : w.cached = true
  handled : (a, false) ∈ w.handled place (after place t before)
  strategy : a.file.strategy = .overwrite
  component : a.file.component = some id

end WriteCall

/-- Whenever a file of a component is left alone, the last call that wrote it agrees on that
component with the call that leaves it alone. -/
def NeverOutdated (place : Place) (t : FileTree) (calls : List WriteCall) : Prop :=
  ∀ before w a id, WriteCall.LeavesAlone place t calls before w a id → ∀ v u,
    WriteCall.lastWriter? place (fun _ _ => true) (place.target a) t before = some (v, u) →
      v.AgreeOn id w

variable {place : Place} {rule : PlanRule} {calls : List WriteCall} {v w : WriteCall}
  {t u : FileTree} {a : Artifact} {stats : WriteStats} {id : String} {p : Path}

/-! ## Histories -/

namespace WriteCall

theorem after_concat (place : Place) (t : FileTree) (calls : List WriteCall) (w : WriteCall) :
    after place t (calls ++ [w]) = (w.run place (after place t calls)).2 := by
  rw [after, List.foldl_append]
  rfl

theorem last?_concat (place : Place) (test : WriteCall → FileTree → Bool) (t : FileTree)
    (calls : List WriteCall) (w : WriteCall) : last? place test t (calls ++ [w]) =
      if test w (after place t calls) then some (w, after place t calls)
      else last? place test t calls := by
  induction calls generalizing t with
  | nil =>
    rw [List.nil_append, last?, last?]
    rfl
  | cons v calls ih =>
    have hafter : after place t (v :: calls) = after place (v.run place t).2 calls := rfl
    rw [List.cons_append, last?, last?, ih, hafter]
    split <;> rfl

/-- The last call that passes a test passes it. -/
theorem last?_test {test : WriteCall → FileTree → Bool}
    (h : last? place test t calls = some (v, u)) : test v u = true := by
  induction calls using List.reverseRecOn with
  | nil => cases h
  | append_singleton calls x ih =>
    rw [last?_concat] at h
    split at h
    · rename_i htest
      cases h
      exact htest
    · exact ih h

/-- The last call that passes a test is the last of those that pass a stronger one as well. -/
theorem last?_of_stronger {test strong : WriteCall → FileTree → Bool}
    (himp : ∀ v u, strong v u = true → test v u = true)
    (h : last? place test t calls = some (v, u)) (hstrong : strong v u = true) :
    last? place strong t calls = some (v, u) := by
  induction calls using List.reverseRecOn with
  | nil => cases h
  | append_singleton calls x ih =>
    rw [last?_concat] at h ⊢
    cases htest : test x (after place t calls) with
    | true =>
      rw [if_pos htest] at h
      cases h
      rw [if_pos hstrong]
    | false =>
      rw [if_neg (by simp [htest])] at h
      rw [if_neg fun hx => by simp [himp x _ hx] at htest]
      exact ih h

/-- Calls leave a tree well-formed and the working directory as it is. -/
theorem after_wellFormed (place : Place) (ht : t.WellFormed) (calls : List WriteCall) :
    (after place t calls).WellFormed ∧
      (after place t calls).workingDirectory = t.workingDirectory := by
  induction calls using List.reverseRecOn with
  | nil => exact ⟨ht, rfl⟩
  | append_singleton calls w ih =>
    rw [after_concat]
    have hchanged := w.run_changed place ih.1
    exact ⟨hchanged.wellFormed, hchanged.workingDirectory.trans ih.2⟩

/-! ## What a call does to its artifacts -/

/-- A call that succeeds comes to all artifacts, and reports what is written and what is not. -/
theorem handled_of_run (h : w.run place t = (.ok stats, u)) :
    (w.handled place t).map (·.1) = w.artifacts ∧
      stats.written = ((w.handled place t).filter (·.2)).map (·.1.path) ∧
      stats.skipped = ((w.handled place t).filter (!·.2)).map (·.1.path) := by
  obtain ⟨_, t', hpaths, hrest⟩ := Action.bind_ok h
  obtain rfl : t = t' := congrArg Prod.snd hpaths
  rw [handled, Action.ofFault_ok hpaths]
  cases hcached : w.cached with
  | false =>
    have hpath : (w.task place).cachePath = none := if_neg (by simp [hcached])
    rw [hpath] at hrest
    exact WriteTask.handled_of_ok hrest
  | true =>
    have hpath : (w.task place).cachePath = some place.cachePath := if_pos hcached
    obtain ⟨c, v, hload, hwrite, _⟩ := WriteTask.run_cached_ok hpath h
    simp only [if_true, hload]
    exact WriteTask.handled_of_ok hwrite

/-- A call that succeeds leaves alone what it does not write. -/
theorem handled_of_not_writes (h : w.run place t = (.ok stats, u)) (ha : a ∈ w.artifacts)
    (hnot : w.writes place (place.target a) t = false) : (a, false) ∈ w.handled place t := by
  rw [← (handled_of_run h).1, List.mem_map] at ha
  obtain ⟨⟨b, written⟩, hhandled, rfl⟩ := ha
  cases written with
  | false => exact hhandled
  | true =>
    have hany := List.any_eq_false.1 hnot _ hhandled
    simp at hany

/-- A call with a cache comes to artifacts by what the loaded cache says. -/
theorem handled_of_cached (hcached : w.cached = true) {e : Artifact × Bool}
    (h : e ∈ w.handled place t) : ∃ c,
      (Cache.load place.cachePath : Action (StateM FileTree) Cache).run t = (.ok c, t) ∧
        e ∈ (w.task place).handled (some (c.staleComponents w.model)) w.artifacts t := by
  have hstate := Cache.load_state place.cachePath t
  unfold handled at h
  split at h
  · cases h
  · rw [if_pos hcached] at h
    split at h
    · cases h
    · rename_i c hload
      exact ⟨c, Prod.ext hload hstate, h⟩

/-- What a call has written holds its text in the end, whether the call succeeds or fails. -/
theorem content_of_handled (ht : t.WellFormed) (hsep : w.Separate place t)
    (h : (a, true) ∈ w.handled place t) :
    (w.run place t).2.readText (place.target a) = .ok a.file.content := by
  have hpaths : (Action.ofFault ((w.task place).checkPaths w.artifacts) :
      Action (StateM FileTree) Unit).run t = (.ok (), t) := by
    unfold handled at h
    split at h
    · cases h
    · rename_i hcheck
      rw [hcheck]
      rfl
  cases hcached : w.cached with
  | false =>
    have hpath : (w.task place).cachePath = none := if_neg (by simp [hcached])
    rw [handled, Action.ofFault_ok hpaths] at h
    rw [run, WriteTask.run, hpath, Action.run_bind_ok hpaths]
    simp only [hcached, Bool.false_eq_true, if_false] at h
    exact WriteTask.content_of_handled ht hsep.apart h
  | true =>
    have hpath : (w.task place).cachePath = some place.cachePath := if_pos hcached
    obtain ⟨c, hload, h⟩ := handled_of_cached hcached h
    have hcontent := WriteTask.content_of_handled ht hsep.apart h
    rw [run, WriteTask.run_of_load hpath hload, Action.run_bind_ok hpaths]
    cases hwrite : ((w.task place).writeAll (some (c.staleComponents w.model)) w.artifacts :
        Action (StateM FileTree) WriteStats).run t with
    | mk r v =>
      rw [hwrite] at hcontent
      have hv := ((w.task place).writeAll_changes _ w.artifacts).changedAt ht hwrite
      cases r with
      | error e =>
        rw [Action.run_bind_error hwrite]
        exact hcontent
      | ok stats =>
        rw [Action.run_bind_ok hwrite, Action.run_bind_pure]
        refine (Cache.save_changes _ place.cachePath v hv.wellFormed).readText ?_ hcontent
        exact (hsep.congr hv.workingDirectory).cache_apart (WriteTask.mem_of_handled h)

end WriteCall

/-! ## The cache that a tree holds -/

/-- The cache file of a tree has the text of a cache. -/
def Place.Holds (place : Place) (t : FileTree) (c : Cache) : Prop :=
  ∃ text, t.find? (t.locate place.cachePath) = some (.file text) ∧ Cache.ofText text = .ok c

theorem Place.holds_of_readText {c : Cache} (hversion : c.version = cacheVersion)
    (h : t.readText place.cachePath = .ok c.text) : place.Holds t c :=
  ⟨c.text, (FileTree.readText_ok h).2, by rw [c.ofText_text, if_pos hversion]⟩

theorem Place.Holds.eq {c d : Cache} (h : place.Holds t c) (h' : place.Holds t d) : c = d := by
  obtain ⟨text, hfind, hc⟩ := h
  obtain ⟨text', hfind', hd⟩ := h'
  rw [hfind] at hfind'
  cases hfind'
  rw [hc] at hd
  cases hd
  rfl

/-- A call that leaves alone a file of a component has found a cache for which the component is not
stale. -/
theorem Coherent.holds_of_handled (hc : Coherent place t rule calls) (hw : w ∈ calls)
    (hcached : w.cached = true) (h : (a, false) ∈ w.handled place u)
    (hstrategy : a.file.strategy = .overwrite) (hid : a.file.component = some id) :
    a ∈ w.artifacts ∧ ∃ c, place.Holds u c ∧ id ∉ c.staleComponents w.model := by
  obtain ⟨c, hload, hhandled⟩ := WriteCall.handled_of_cached hcached h
  have ha := WriteTask.mem_of_handled hhandled
  have hkeep := WriteTask.preserved_of_handled hhandled
  obtain ⟨id', hid', hfresh⟩ := Artifact.isPreserved_overwrite hstrategy hkeep
  obtain rfl : id = id' := Option.some.inj (hid.symm.trans hid')
  refine ⟨ha, c, ?_, hfresh⟩
  rcases (Cache.load_ok hload).2 with rfl | ⟨text, hread, htext⟩
  · exact absurd (Cache.mem_staleComponents_empty (hc.owned w hw a ha hstrategy id hid)) hfresh
  · exact ⟨text, (FileTree.readText_ok hread).2, htext⟩

/-- A call that does not complete has not come to replace the cache file. -/
theorem WriteCall.changed_of_not_completes (ht : t.WellFormed)
    (hnot : w.completes place t = false) :
    ChangedAt ((w.task place).touched w.artifacts ++ [temporaryPath place.cachePath]) t
      (w.run place t).2 := by
  unfold completes at hnot
  cases hcached : w.cached with
  | false =>
    have hnone : (w.task place).cacheFiles = [] := by
      simp [WriteTask.cacheFiles, task, hcached]
    have hchanged := w.run_changed place ht
    rw [hnone, List.append_nil] at hchanged
    exact hchanged.mono (List.subset_append_left _ _)
  | true =>
    cases hrun : w.run place t with
    | mk r u =>
      cases r with
      | error e => exact WriteTask.run_error (if_pos hcached) ht hrun
      | ok stats =>
        rw [hcached, hrun] at hnot
        cases hnot

/-- A call that does not complete leaves the cache file as it is. -/
theorem WriteCall.holds_of_not_completes (ht : t.WellFormed) (hsep : w.Separate place t)
    (hapart : w.CacheApart place t) (hnot : w.completes place t = false) {c : Cache}
    (h : place.Holds (w.run place t).2 c) : place.Holds t c := by
  have hchanged := w.changed_of_not_completes ht hnot
  have hother : ∀ p ∈ (w.task place).touched w.artifacts ++ [temporaryPath place.cachePath],
      t.locate p ≠ t.locate place.cachePath := by
    intro p hp
    rcases List.mem_append.1 hp with hp | hp
    · obtain ⟨b, hb, hp⟩ := List.mem_flatMap.1 hp
      simp only [List.mem_cons, List.not_mem_nil, or_false] at hp
      rcases hp with rfl | rfl
      · exact (hapart _ (List.mem_cons_of_mem _ (List.mem_map_of_mem hb))).symm
      · exact hsep.cache b hb
    · rw [List.mem_singleton.1 hp]
      exact (hapart _ List.mem_cons_self).symm
  obtain ⟨text, hfind, htext⟩ := h
  rw [hchanged.locate] at hfind
  exact ⟨text, (hchanged.file _ hother text).1 hfind, htext⟩

/-! ## The last writer -/

namespace WriteCall

theorem AgreeOn.trans {x : WriteCall} (h : v.AgreeOn id x) (h' : x.AgreeOn id w) :
    v.AgreeOn id w := by
  obtain ⟨hidentity, c, d, hc, hd, hessence⟩ := h
  obtain ⟨hidentity', d', e, hd', he, hessence'⟩ := h'
  rw [hd] at hd'
  cases hd'
  exact ⟨hidentity.trans hidentity', c, e, hc, he, hessence.trans hessence'⟩

end WriteCall

/-- Calls that agree on a component plan the same files for it. -/
theorem Coherent.same_artifact (hc : Coherent place t rule calls) (hv : v ∈ calls) (hw : w ∈ calls)
    (hagree : v.AgreeOn id w) (ha : a ∈ w.artifacts) (hstrategy : a.file.strategy = .overwrite)
    (hid : a.file.component = some id) :
    ∃ b ∈ v.artifacts, place.target b = place.target a ∧ b.file.strategy = .overwrite ∧
      b.file.component = some id := by
  have hplanned := hc.planned_eq hv hw hagree a.path
  rw [(hc.separate w hw).planned_eq ha hid, hstrategy] at hplanned
  obtain ⟨b, hb, hpath, hidb, hstrategyb, _⟩ := WriteCall.mem_of_planned hplanned
  exact ⟨b, hb, by rw [Place.target, Place.target, hpath], hstrategyb, hidb⟩

/-- Whom the cache that a history has left may be asked about: the last writer that completes, of
each file that a call plans for a component that the cache finds fresh. -/
def Traced (place : Place) (calls : List WriteCall) (t : FileTree) (before : List WriteCall) :
    Prop :=
  ∀ c, place.Holds (WriteCall.after place t before) c → ∀ w ∈ calls, ∀ a ∈ w.artifacts,
    a.file.strategy = .overwrite → ∀ id, a.file.component = some id →
      id ∉ c.staleComponents w.model →
        (∀ v u, WriteCall.lastWriter? place (·.completes place) (place.target a) t before =
          some (v, u) → v.AgreeOn id w) ∧
        (t.find? (t.locate place.cachePath) = none →
          (WriteCall.lastWriter? place (·.completes place) (place.target a) t before).isSome = true)

theorem traced_nil : Traced place calls t [] := by
  intro c hc w _ a _ _ id _ _
  refine ⟨fun _ _ h => (nomatch h), fun hnone => ?_⟩
  obtain ⟨text, hfind, _⟩ := hc
  have hfind' : t.find? (t.locate place.cachePath) = some (.file text) := hfind
  rw [hnone] at hfind'
  cases hfind'

/-- A call that does not complete is no writer that counts, and leaves the cache file alone. -/
theorem Traced.skip {before : List WriteCall} (ht : t.WellFormed)
    (hc : Coherent place t rule calls) (hapart : ∀ w ∈ calls, w.CacheApart place t)
    (hf : Traced place calls t before) {x : WriteCall} (hx : x ∈ calls)
    (hnot : x.completes place (WriteCall.after place t before) = false) :
    Traced place calls t (before ++ [x]) := by
  obtain ⟨hwell, hdir⟩ := WriteCall.after_wellFormed place ht before
  intro c hholds
  have hlast : ∀ p, WriteCall.lastWriter? place (·.completes place) p t (before ++ [x]) =
      WriteCall.lastWriter? place (·.completes place) p t before := by
    intro p
    rw [WriteCall.lastWriter?, WriteCall.last?_concat, if_neg (by simp [hnot])]
    rfl
  simp only [hlast]
  rw [WriteCall.after_concat] at hholds
  refine hf c (WriteCall.holds_of_not_completes hwell ((hc.separate x hx).congr hdir) ?_ hnot
    hholds)
  intro p hp
  rw [FileTree.locate_congr hdir, FileTree.locate_congr hdir]
  exact hapart x hx p hp

/-- A call that completes leaves its own cache. It has written a file, or it has left it alone and
agrees with whom wrote it before. -/
theorem Traced.complete {before : List WriteCall} (ht : t.WellFormed)
    (hc : Coherent place t rule calls) (hf : Traced place calls t before) {x : WriteCall}
    (hx : x ∈ calls) (hdone : x.completes place (WriteCall.after place t before) = true) :
    Traced place calls t (before ++ [x]) := by
  obtain ⟨hwell, hdir⟩ := WriteCall.after_wellFormed place ht before
  obtain ⟨hcached, hok⟩ := Bool.and_eq_true_iff.1 hdone
  intro c hholds w hw a ha hstrategy id hid hfresh
  rw [WriteCall.after_concat] at hholds
  obtain ⟨stats, hrun⟩ := WriteCall.run_of_isOk hok
  -- the cache is the one that this call has saved
  obtain ⟨c', hload, hread⟩ := WriteCall.run_saved hwell hcached hrun
  obtain rfl := hholds.eq (Place.holds_of_readText (WriteTask.version_saved hload _ _) hread)
  obtain ⟨component, hget⟩ := Option.isSome_iff_exists.1 (hc.owned w hw a ha hstrategy id hid)
  have hagree := hc.agreeOn hx hw
    ((c'.remembersModel_update x.model).recordArtifacts x.artifacts) hget hfresh
  rw [WriteCall.lastWriter?, WriteCall.last?_concat, hdone, Bool.true_and]
  cases hwrites : x.writes place (place.target a) (WriteCall.after place t before) with
  | true =>
    refine ⟨fun v u h => ?_, fun _ => rfl⟩
    cases h
    exact hagree
  | false =>
    -- this call has the same artifact, and leaves it alone
    obtain ⟨b, hb, htarget, hstrategyb, hidb⟩ := hc.same_artifact hx hw hagree ha hstrategy hid
    rw [← htarget] at hwrites
    have hhandled := WriteCall.handled_of_not_writes hrun hb hwrites
    obtain ⟨_, d, hd, hfresh'⟩ := hc.holds_of_handled hx hcached hhandled hstrategyb hidb
    have hbefore := hf d hd x hx b hb hstrategyb id hidb hfresh'
    rw [htarget] at hbefore
    exact ⟨fun v u h => (hbefore.1 v u h).trans hagree, hbefore.2⟩

theorem traced {before : List WriteCall} (ht : t.WellFormed) (hc : Coherent place t rule calls)
    (hapart : ∀ w ∈ calls, w.CacheApart place t) (hsub : before ⊆ calls) :
    Traced place calls t before := by
  induction before using List.reverseRecOn with
  | nil => exact traced_nil
  | append_singleton before x ih =>
    have hx := hsub (List.mem_append_right _ List.mem_cons_self)
    have hbefore := ih fun y hy => hsub (List.mem_append_left _ hy)
    cases hdone : x.completes place (WriteCall.after place t before) with
    | true => exact hbefore.complete ht hc hx hdone
    | false => exact hbefore.skip ht hc hapart hx hdone

/-- **The last of the calls with a cache that succeed and wrote a file agrees with the call that
leaves it alone.** So does the last of all calls that wrote it, if it has a cache and succeeds; and
if there was no cache file at first, some call of that kind has written it. -/
theorem WriteCall.last_saved_writer (ht : t.WellFormed) (hc : Coherent place t rule calls)
    (hapart : ∀ w ∈ calls, w.CacheApart place t) {before : List WriteCall}
    (h : LeavesAlone place t calls before w a id) :
    (∀ v u, lastWriter? place (·.completes place) (place.target a) t before = some (v, u) →
      v.AgreeOn id w) ∧
    (∀ v u, lastWriter? place (fun _ _ => true) (place.target a) t before = some (v, u) →
      v.completes place u = true → v.AgreeOn id w) ∧
    (t.find? (t.locate place.cachePath) = none →
      (lastWriter? place (·.completes place) (place.target a) t before).isSome = true) := by
  obtain ⟨later, hsplit⟩ := h.inHistory
  have hw : w ∈ calls := by
    rw [hsplit]
    exact List.mem_append_right _ List.mem_cons_self
  have hsub : before ⊆ calls := by
    rw [hsplit]
    exact List.subset_append_left _ _
  obtain ⟨ha, c, hholds, hfresh⟩ :=
    hc.holds_of_handled hw h.cached h.handled h.strategy h.component
  obtain ⟨hlast, hsome⟩ :=
    traced ht hc hapart hsub c hholds w hw a ha h.strategy id h.component hfresh
  refine ⟨hlast, fun v u hall hdone => hlast v u ?_, hsome⟩
  rw [lastWriter?] at hall ⊢
  have hwrites : v.writes place (place.target a) u = true := by
    simpa using last?_test hall
  refine last?_of_stronger (fun x y hxy => ?_) hall (by rw [hdone, hwrites]; rfl)
  rw [Bool.true_and]
  exact (Bool.and_eq_true_iff.1 hxy).2

/-! ## The site, written without a cache in between -/

/-- The tree after a call with a cache and one without. -/
def siteMixed : FileTree :=
  WriteCall.after sitePlace siteTree [writeSite true "y", writeSite false "z"]

/-- The call without a cache leaves the cache file as it is. -/
theorem siteMixed_saved : siteMixed.readText "cache" = .ok siteCache.text := by
  have hfirst := (writeSite true "y").run_changed sitePlace siteTree_wellFormed
  have hchanged := (writeSite false "z").run_changed sitePlace hfirst.wellFormed
  refine hchanged.readText (fun q hq => ?_) site_saved
  rw [hfirst.locate, hfirst.locate]
  have htest : ∀ q ∈ ((writeSite false "z").task sitePlace).touched
      (writeSite false "z").artifacts, siteTree.locate q ≠ siteTree.locate "cache" := by
    decide
  exact htest q (by simpa [WriteTask.cacheFiles, WriteCall.task, writeSite] using hq)

theorem site_checkPaths (cached : Bool) (schema : String) :
    ((writeSite cached schema).task sitePlace).checkPaths (writeSite cached schema).artifacts =
      .ok () := by
  have hpath : ∀ q ∈ ["a", "b"], (Path.isArtifactPath q && Path.isSafe "out" q) = true := by
    decide
  simp [WriteTask.checkPaths, Artifact.checkPath, writeSite, siteArtifact, WriteCall.task,
    sitePlace, hpath "a" (by simp), hpath "b" (by simp)]

/-- A call with a cache comes to its artifacts by what the first call has left. -/
theorem siteMixed_handled (schema : String) : (writeSite true schema).handled sitePlace siteMixed =
    ((writeSite true schema).task sitePlace).handled
      (some (siteCache.staleComponents (site schema))) (writeSite true schema).artifacts
      siteMixed := by
  have hload : (Cache.load sitePlace.cachePath : Action (StateM FileTree) Cache).run siteMixed =
    (.ok siteCache, siteMixed) := Cache.load_current rfl siteMixed_saved
  rw [WriteCall.handled, site_checkPaths]
  simp only [hload]
  rfl

/-- The call without a cache is the last one that writes the second file. -/
theorem siteMixed_lastWriter : WriteCall.lastWriter? sitePlace (fun _ _ => true)
    (sitePlace.target (siteArtifact "b" "y")) siteTree [writeSite true "y", writeSite false "z"] =
      some (writeSite false "z", WriteCall.after sitePlace siteTree [writeSite true "y"]) := by
  have hwrites : (writeSite false "z").writes sitePlace (sitePlace.target (siteArtifact "b" "y"))
      (WriteCall.after sitePlace siteTree [writeSite true "y"]) = true := by
    decide +kernel
  have hlast := WriteCall.last?_concat sitePlace (fun v u => true && v.writes sitePlace
    (sitePlace.target (siteArtifact "b" "y")) u) siteTree [writeSite true "y"]
    (writeSite false "z")
  rw [if_pos (by rw [hwrites]; rfl)] at hlast
  exact hlast

theorem site_cacheApart (cached : Bool) (schema : String) :
    (writeSite cached schema).CacheApart sitePlace siteTree := by
  show ∀ p ∈ ["cache", Path.join "out" "a", Path.join "out" "b"],
    siteTree.locate "cache" ≠ siteTree.locate (temporaryPath p)
  decide

/-- A history in which a call without a cache comes between two calls with one. -/
def siteHistory (schema : String) : List WriteCall :=
  [writeSite true "y", writeSite false "z", writeSite true schema]

theorem siteHistory_coherent {schema : String} (hschema : schema ∈ ["y", "z"]) :
    Coherent sitePlace siteTree siteRule (siteHistory schema) := by
  refine site_coherent fun w hw => ?_
  simp only [siteHistory, List.mem_cons, List.not_mem_nil, or_false] at hw
  rcases hw with rfl | rfl | rfl
  · exact ⟨true, "y", by simp, rfl⟩
  · exact ⟨false, "z", by simp, rfl⟩
  · exact ⟨true, schema, hschema, rfl⟩

theorem siteHistory_cacheApart (schema : String) :
    ∀ w ∈ siteHistory schema, w.CacheApart sitePlace siteTree := by
  intro w hw
  simp only [siteHistory, List.mem_cons, List.not_mem_nil, or_false] at hw
  rcases hw with rfl | rfl | rfl
  · exact site_cacheApart true "y"
  · exact site_cacheApart false "z"
  · exact site_cacheApart true schema

/-- The first component does not change, so that its file is left alone by the third call. -/
theorem siteHistory_unchanged : WriteCall.LeavesAlone sitePlace siteTree (siteHistory "z")
    [writeSite true "y", writeSite false "z"] (writeSite true "z")
    (siteArtifact "a" "x") "a" where
  inHistory := ⟨[], rfl⟩
  cached := rfl
  handled := by
    show _ ∈ (writeSite true "z").handled sitePlace siteMixed
    rw [siteMixed_handled]
    decide +kernel
  strategy := rfl
  component := rfl

/-- The second component changes and changes back, and its file is left alone just so. -/
theorem siteHistory_changed_back : WriteCall.LeavesAlone sitePlace siteTree (siteHistory "y")
    [writeSite true "y", writeSite false "z"] (writeSite true "y")
    (siteArtifact "b" "y") "b" where
  inHistory := ⟨[], rfl⟩
  cached := rfl
  handled := by
    show _ ∈ (writeSite true "y").handled sitePlace siteMixed
    rw [siteMixed_handled]
    decide +kernel
  strategy := rfl
  component := rfl

/-- The last call with a cache that wrote the first file agrees with the one that leaves it alone,
although the call without a cache has written it since. -/
theorem WriteCall.last_saved_writer_site :
    ∃ v u, lastWriter? sitePlace (·.completes sitePlace)
        (sitePlace.target (siteArtifact "a" "x")) siteTree
        [writeSite true "y", writeSite false "z"] = some (v, u) ∧
      v.AgreeOn "a" (writeSite true "z") := by
  obtain ⟨hlast, _, hsome⟩ := last_saved_writer siteTree_wellFormed
    (siteHistory_coherent (by simp)) (siteHistory_cacheApart "z") siteHistory_unchanged
  obtain ⟨⟨v, u⟩, hfound⟩ := Option.isSome_iff_exists.1 (hsome (by decide))
  exact ⟨v, u, hfound, hlast v u hfound⟩

/-- The last writer of all need not agree: it has written the second file with another schema. -/
theorem WriteCall.outdated_after_uncached : ¬∀ place t rule calls, t.WellFormed →
    t.find? (t.locate place.cachePath) = none → Coherent place t rule calls →
    (∀ w ∈ calls, w.CacheApart place t) → NeverOutdated place t calls := by
  intro h
  have hnever := h sitePlace siteTree siteRule (siteHistory "y") siteTree_wellFormed (by decide)
    (siteHistory_coherent (by simp)) (siteHistory_cacheApart "y")
  obtain ⟨_, c, d, hc, hd, hessence⟩ :=
    hnever _ _ _ _ siteHistory_changed_back _ _ siteMixed_lastWriter
  have hc' : (site "z").get? "b" = some c := hc
  have hd' : (site "y").get? "b" = some d := hd
  rw [site_get?, if_pos rfl] at hc' hd'
  cases hc'
  cases hd'
  have hrule := congrArg (fun essence => siteRule (site "y").identity essence "b") hessence
  simp only [siteRule_database] at hrule
  exact absurd hrule (by decide)

end ArchSpec
