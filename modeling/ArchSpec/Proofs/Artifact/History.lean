import Mathlib.Data.List.Pairwise
import ArchSpec.Proofs.Artifact.Write
import ArchSpec.Proofs.Cache.Basic
import ArchSpec.Proofs.Cache.Fingerprint

/-!
# Writing again and again

A cache lets a call leave files alone that an earlier call has written. That is right as long as
the cache says nothing that is not so: what it takes to be up to date stands in the tree as it is
planned. Every call with a cache that succeeds keeps this, so in a history of such calls no file is
ever out of date.

* `WriteCall`, `WriteCall.after` — a call, and the tree after calls one after another.
* `Coherent` — what is assumed of plans, paths and digests.
* `Faithful` — the cache says nothing that is not so; `Faithful.step` — a call keeps that.
* `WriteCall.content_after` — after every call of a history its files are what it planned.
-/

namespace ArchSpec

open FileStore (temporaryPath)
open FileTree (ChangedAt)

/-- A directory that is written to, and the cache file that is kept for it. -/
structure Place where
  directory : Path
  cachePath : Path

/-- The file of an artifact. -/
def Place.target (place : Place) (a : Artifact) : Path := Path.join place.directory a.path

/-- A call that writes the artifacts of a model. -/
structure WriteCall where
  /-- Whether the cache is used. -/
  cached : Bool
  /-- Whether files of unchanged components are written too. -/
  force : Bool
  model : Model
  artifacts : List Artifact

namespace WriteCall

def task (w : WriteCall) (place : Place) : WriteTask :=
  ⟨place.directory, if w.cached then some place.cachePath else none, w.force⟩

/-- What a call answers, and the tree that it leaves. -/
def run (w : WriteCall) (place : Place) (t : FileTree) : Except Failure WriteStats × FileTree :=
  ((w.task place).run w.model w.artifacts : Action (StateM FileTree) WriteStats).run t

/-- The tree after calls one after another. -/
def after (place : Place) (t : FileTree) (calls : List WriteCall) : FileTree :=
  calls.foldl (fun t w => (w.run place t).2) t

/-- All calls succeed, one after another. -/
def AllSucceed (place : Place) : FileTree → List WriteCall → Prop
  | _, [] => True
  | t, w :: rest => (w.run place t).1.isOk = true ∧ AllSucceed place (w.run place t).2 rest

/-- What a component plans at a path. -/
def planned (w : WriteCall) (id path : String) : Option (WriteStrategy × String) :=
  (w.artifacts.find? fun a => a.path = path && a.file.component = some id).map fun a =>
    (a.file.strategy, a.file.content)

/-- Two calls have the same specification as a whole, and the same of what counts of a component. -/
def AgreeOn (id : String) (v w : WriteCall) : Prop :=
  v.model.identity = w.model.identity ∧ ∃ c d, v.model.get? id = some c ∧
    w.model.get? id = some d ∧ c.essence = d.essence

/-- The planned files are all different, and none of them is the cache file or a temporary one. -/
structure Separate (place : Place) (t : FileTree) (w : WriteCall) : Prop where
  targets : w.artifacts.Pairwise fun a b => t.locate (place.target a) ≠ t.locate (place.target b)
  cache : ∀ a ∈ w.artifacts, t.locate (place.target a) ≠ t.locate place.cachePath
  temporaries : ∀ a ∈ w.artifacts, ∀ p ∈ place.cachePath :: w.artifacts.map place.target,
    t.locate (place.target a) ≠ t.locate (temporaryPath p)

end WriteCall

/-- What components plan at a path, by what counts of the specification as a whole and of the
component. -/
abbrev PlanRule :=
  Metadata × List (String × Kind) → Value → String → Option (WriteStrategy × String)

/-- What is assumed of calls: the planned files are different, those of components belong to
components of the model, what a component plans depends only on what counts of it and of the
specification, and the digest does not collide. -/
structure Coherent (place : Place) (t : FileTree) (rule : PlanRule) (calls : List WriteCall) :
    Prop where
  separate : ∀ w ∈ calls, w.Separate place t
  owned : ∀ w ∈ calls, ∀ a ∈ w.artifacts, a.file.strategy = .overwrite →
    ∀ id, a.file.component = some id → w.model.contains id = true
  follows : ∀ w ∈ calls, ∀ id component, w.model.get? id = some component →
    ∀ path, w.planned id path = rule w.model.identity component.essence path
  models : ∀ v ∈ calls, ∀ w ∈ calls, ¬v.model.essence.Collide w.model.essence
  components : ∀ v ∈ calls, ∀ w ∈ calls, ∀ c ∈ v.model.components.values,
    ∀ d ∈ w.model.components.values, ¬c.essence.Collide d.essence

/-- What the cache of a tree takes to be up to date stands in the tree as it is planned. -/
def Faithful (place : Place) (rule : PlanRule) (calls : List WriteCall) (t : FileTree) : Prop :=
  ∀ c, (Cache.load place.cachePath : Action (StateM FileTree) Cache).run t = (.ok c, t) →
    ∀ w ∈ calls, ∀ id component, w.model.get? id = some component →
      id ∉ c.staleComponents w.model → ∀ path content,
        rule w.model.identity component.essence path = some (.overwrite, content) →
          t.readText (Path.join place.directory path) = .ok content

variable {place : Place} {rule : PlanRule} {calls : List WriteCall} {w : WriteCall}
  {t u : FileTree} {a : Artifact} {stats : WriteStats}

/-! ## Plans -/

theorem WriteCall.Separate.apart (h : w.Separate place t) :
    (w.task place).Apart t w.artifacts where
  targets := h.targets
  temporaries a ha _ hb :=
    h.temporaries a ha _ (List.mem_cons_of_mem _ (List.mem_map_of_mem hb))

theorem WriteCall.Separate.congr (hdir : u.workingDirectory = t.workingDirectory)
    (h : w.Separate place t) : w.Separate place u := by
  have hlocate := fun p => FileTree.locate_congr hdir p
  refine ⟨?_, ?_, ?_⟩
  · simpa only [hlocate] using h.targets
  · simpa only [hlocate] using h.cache
  · simpa only [hlocate] using h.temporaries

/-- Saving the cache does not disturb the artifacts. -/
theorem WriteCall.Separate.cache_apart (h : w.Separate place t) (ha : a ∈ w.artifacts) :
    ∀ q ∈ [temporaryPath place.cachePath, place.cachePath],
      t.locate q ≠ t.locate (place.target a) := by
  intro q hq
  simp only [List.mem_cons, List.not_mem_nil, or_false] at hq
  rcases hq with rfl | rfl
  · exact (h.temporaries a ha _ List.mem_cons_self).symm
  · exact (h.cache a ha).symm

/-- Different artifacts have different files. -/
theorem WriteCall.Separate.eq_of_locate (h : w.Separate place t) {b : Artifact}
    (ha : a ∈ w.artifacts) (hb : b ∈ w.artifacts)
    (hsame : t.locate (place.target a) = t.locate (place.target b)) : a = b := by
  have hsymm : Std.Symm fun a b => t.locate (place.target a) ≠ t.locate (place.target b) :=
    ⟨fun _ _ hne => hne.symm⟩
  by_contra hne
  exact h.targets.forall ha hb hne hsame

/-- What is planned at the path of an artifact is that artifact. -/
theorem WriteCall.Separate.planned_eq (h : w.Separate place t) (ha : a ∈ w.artifacts) {id : String}
    (hid : a.file.component = some id) :
    w.planned id a.path = some (a.file.strategy, a.file.content) := by
  unfold WriteCall.planned
  cases hfind : w.artifacts.find? fun b => b.path = a.path && b.file.component = some id with
  | none =>
    have hnot := List.find?_eq_none.1 hfind a ha
    simp [hid] at hnot
  | some b =>
    have hb := List.mem_of_find?_eq_some hfind
    have htest := List.find?_some hfind
    simp only [Bool.and_eq_true, decide_eq_true_eq] at htest
    have hsame : place.target b = place.target a := by
      rw [Place.target, Place.target, htest.1]
    rw [h.eq_of_locate hb ha (by rw [hsame])]
    rfl

theorem WriteCall.mem_of_planned {id path content : String} {strategy : WriteStrategy}
    (h : w.planned id path = some (strategy, content)) :
    ∃ a ∈ w.artifacts, a.path = path ∧ a.file.component = some id ∧
      a.file.strategy = strategy ∧ a.file.content = content := by
  obtain ⟨a, hfind, ha⟩ := Option.map_eq_some_iff.1 h
  have htest := List.find?_some hfind
  simp only [Bool.and_eq_true, decide_eq_true_eq] at htest
  cases ha
  exact ⟨a, List.mem_of_find?_eq_some hfind, htest.1, htest.2, rfl, rfl⟩

/-- Only a file of a component that is not stale is left alone, unless it is written once. -/
theorem Artifact.isPreserved_overwrite {force : Bool} {stale : List String}
    (hstrategy : a.file.strategy = .overwrite) (h : a.isPreserved force (some stale) = true) :
    ∃ id, a.file.component = some id ∧ id ∉ stale := by
  unfold Artifact.isPreserved at h
  rw [hstrategy, if_neg (by decide)] at h
  cases force with
  | true => cases h
  | false =>
    cases hid : a.file.component with
    | none =>
      rw [hid] at h
      cases h
    | some id =>
      rw [hid] at h
      exact ⟨id, rfl, by simpa using h⟩

/-! ## What a cache says -/

/-- An empty cache says nothing. -/
theorem faithful_of_absent (h : t.find? (t.locate place.cachePath) = none) :
    Faithful place rule calls t := by
  intro c hload w _ id component hget hfresh
  have hempty : c = .empty := by
    rcases (Cache.load_ok hload).2 with hempty | ⟨text, hread, _⟩
    · exact hempty
    · rw [(FileTree.readText_ok hread).2] at h
      cases h
  have hcontains : w.model.components.contains id = true := by
    rw [SortedMap.contains, show w.model.components.get? id = some component from hget]
    rfl
  rw [hempty] at hfresh
  exact absurd (Cache.mem_staleComponents_empty hcontains) hfresh

/-- A cache that remembers one call finds fresh for another what the two calls agree on. -/
theorem Coherent.agreeOn {v : WriteCall} (hc : Coherent place t rule calls) (hv : v ∈ calls)
    (hw : w ∈ calls) {c : Cache} (hc' : c.RemembersModel v.model) {id : String}
    {component : Component} (hget : w.model.get? id = some component)
    (hfresh : id ∉ c.staleComponents w.model) : v.AgreeOn id w := by
  obtain ⟨hspec, earlier, hearlier, hhash⟩ := hc'.fresh hget hfresh
  refine ⟨Model.identity_eq_of_fingerprint (hc.models v hv w hw) hspec, earlier, component,
    hearlier, hget, ?_⟩
  exact Component.essence_eq_of_fingerprint
    (hc.components v hv w hw earlier ((v.model.components.mem_values_iff _).2 ⟨id, hearlier⟩)
      component ((w.model.components.mem_values_iff _).2 ⟨id, hget⟩)) hhash

/-- What a component plans is the same in calls that agree on it. -/
theorem Coherent.planned_eq {v : WriteCall} (hc : Coherent place t rule calls) (hv : v ∈ calls)
    (hw : w ∈ calls) {id : String} (h : v.AgreeOn id w) (path : String) :
    v.planned id path = w.planned id path := by
  obtain ⟨hidentity, c, d, hgetc, hgetd, hessence⟩ := h
  rw [hc.follows v hv id c hgetc, hc.follows w hw id d hgetd, hidentity, hessence]

/-- What a cache remembers of a call is so after it. -/
theorem faithful_of_saved (hc : Coherent place t rule calls) (hw : w ∈ calls) {c : Cache}
    (hversion : c.version = cacheVersion) (hread : u.readText place.cachePath = .ok c.text)
    (hc' : c.RemembersModel w.model)
    (hcontent : ∀ a ∈ w.artifacts, a.file.strategy = .overwrite →
      u.readText (place.target a) = .ok a.file.content) : Faithful place rule calls u := by
  intro c' hload v hv id component hget hfresh path content hplan
  rw [Cache.load_current hversion hread] at hload
  cases hload
  have hagree := hc.agreeOn hw hv hc' hget hfresh
  rw [← hc.follows v hv id component hget path, ← hc.planned_eq hw hv hagree path] at hplan
  obtain ⟨a, ha, hpath, _, hstrategy, rfl⟩ := WriteCall.mem_of_planned hplan
  rw [← hpath]
  exact hcontent a ha hstrategy

/-- The file of an artifact that is left alone is what is planned. -/
theorem Faithful.content (hc : Coherent place t rule calls) (hf : Faithful place rule calls t)
    (hw : w ∈ calls) {c : Cache}
    (hload : (Cache.load place.cachePath : Action (StateM FileTree) Cache).run t = (.ok c, t))
    (ha : a ∈ w.artifacts) (hstrategy : a.file.strategy = .overwrite)
    (hkeep : a.isPreserved w.force (some (c.staleComponents w.model)) = true) :
    t.readText (place.target a) = .ok a.file.content := by
  obtain ⟨id, hid, hfresh⟩ := Artifact.isPreserved_overwrite hstrategy hkeep
  obtain ⟨component, hget⟩ :=
    Option.isSome_iff_exists.1 (hc.owned w hw a ha hstrategy id hid)
  refine hf c hload w hw id component hget hfresh a.path a.file.content ?_
  rw [← hc.follows w hw id component hget, (hc.separate w hw).planned_eq ha hid, hstrategy]

/-! ## Calls -/

theorem WriteCall.run_of_isOk (h : (w.run place t).1.isOk = true) :
    ∃ stats, w.run place t = (.ok stats, (w.run place t).2) := by
  cases hrun : (w.run place t).1 with
  | error e =>
    rw [hrun] at h
    cases h
  | ok stats => exact ⟨stats, Prod.ext hrun rfl⟩

/-- A call with a cache that succeeds leaves the cache that it has brought up to date. -/
theorem WriteCall.run_saved (ht : t.WellFormed) (hcached : w.cached = true)
    (h : w.run place t = (.ok stats, u)) :
    ∃ c, (Cache.load place.cachePath : Action (StateM FileTree) Cache).run t = (.ok c, t) ∧
      u.readText place.cachePath =
        .ok ((c.update w.model).recordArtifacts w.artifacts).text := by
  have hpath : (w.task place).cachePath = some place.cachePath := if_pos hcached
  obtain ⟨c, v, hload, hwrite, hsave⟩ := WriteTask.run_cached_ok hpath h
  have hv := ((w.task place).writeAll_changes _ w.artifacts).changedAt ht hwrite
  exact ⟨c, hload, (Cache.save_ok hv.wellFormed hsave).2⟩

/-- **A call with a cache that succeeds leaves its files as it planned them**, and its cache says
nothing that is not so. -/
theorem Faithful.step (hc : Coherent place t rule calls) (hf : Faithful place rule calls t)
    (hw : w ∈ calls) (hcached : w.cached = true) (ht : t.WellFormed)
    (h : w.run place t = (.ok stats, u)) :
    (∀ a ∈ w.artifacts, a.file.strategy = .overwrite →
      u.readText (place.target a) = .ok a.file.content) ∧ Faithful place rule calls u := by
  have hpath : (w.task place).cachePath = some place.cachePath := if_pos hcached
  have hsep := hc.separate w hw
  obtain ⟨c, v, hload, hwrite, hsave⟩ := WriteTask.run_cached_ok hpath h
  have hv := ((w.task place).writeAll_changes _ w.artifacts).changedAt ht hwrite
  obtain ⟨hu, hread⟩ := Cache.save_ok hv.wellFormed hsave
  have hwritten : ∀ a ∈ w.artifacts, a.file.strategy = .overwrite →
      v.readText (place.target a) = .ok a.file.content := by
    intro a ha hstrategy
    rcases WriteTask.writeAll_content ht hsep.apart hwrite ha with hcontent | ⟨hkeep, hsame⟩
    · exact hcontent
    · exact hsame _ (hf.content hc hw hload ha hstrategy hkeep)
  have hcontent : ∀ a ∈ w.artifacts, a.file.strategy = .overwrite →
      u.readText (place.target a) = .ok a.file.content := by
    intro a ha hstrategy
    exact hu.readText ((hsep.congr hv.workingDirectory).cache_apart ha) (hwritten a ha hstrategy)
  exact ⟨hcontent, faithful_of_saved hc hw (WriteTask.version_saved hload _ _) hread
    ((c.remembersModel_update w.model).recordArtifacts w.artifacts) hcontent⟩

/-! ## Histories -/

theorem WriteCall.run_changed (w : WriteCall) (place : Place) (ht : t.WellFormed) :
    ChangedAt ((w.task place).touched w.artifacts ++ (w.task place).cacheFiles) t
      (w.run place t).2 :=
  (w.task place).run_changes w.model w.artifacts t ht

theorem Coherent.congr (hdir : u.workingDirectory = t.workingDirectory)
    (h : Coherent place t rule calls) : Coherent place u rule calls :=
  { h with separate := fun w hw => (h.separate w hw).congr hdir }

theorem WriteCall.AllSucceed.cons {rest : List WriteCall} (h : AllSucceed place t (w :: rest)) :
    ∃ stats u, w.run place t = (.ok stats, u) ∧ AllSucceed place u rest := by
  obtain ⟨stats, hrun⟩ := run_of_isOk h.1
  exact ⟨stats, _, hrun, h.2⟩

/-- A history that begins where the cache says nothing that is not so. -/
theorem Faithful.content_throughout {rest : List WriteCall} (hc : Coherent place t rule calls)
    (hf : Faithful place rule calls t) (ht : t.WellFormed) (hsub : rest ⊆ calls)
    (hcached : ∀ w ∈ rest, w.cached = true) (hok : WriteCall.AllSucceed place t rest)
    {before later : List WriteCall} (hsplit : rest = before ++ w :: later)
    (ha : a ∈ w.artifacts) (hstrategy : a.file.strategy = .overwrite) :
    (WriteCall.after place t (before ++ [w])).readText (place.target a) =
      .ok a.file.content := by
  induction before generalizing rest t with
  | nil =>
    subst hsplit
    obtain ⟨stats, u, hrun, _⟩ := hok.cons
    have hstep := hf.step hc (hsub List.mem_cons_self) (hcached w List.mem_cons_self) ht hrun
    rw [List.nil_append, WriteCall.after, List.foldl_cons, List.foldl_nil, hrun]
    exact hstep.1 a ha hstrategy
  | cons v before ih =>
    subst hsplit
    obtain ⟨stats, u, hrun, hrest⟩ := hok.cons
    have hchanged := v.run_changed place ht
    have hstep := hf.step hc (hsub List.mem_cons_self) (hcached v List.mem_cons_self) ht hrun
    rw [hrun] at hchanged
    rw [List.cons_append, WriteCall.after, List.foldl_cons, hrun]
    exact ih (hc.congr hchanged.workingDirectory) hstep.2 hchanged.wellFormed
      (fun x hx => hsub (List.mem_cons_of_mem _ hx))
      (fun x hx => hcached x (List.mem_cons_of_mem _ hx)) hrest rfl

/-- **After every call of a history its files are what it planned**, written or left alone: calls
with a cache that succeed, one after another, from a tree without a cache file. -/
theorem WriteCall.content_after (ht : t.WellFormed)
    (hcache : t.find? (t.locate place.cachePath) = none) (hc : Coherent place t rule calls)
    (hcached : ∀ w ∈ calls, w.cached = true) (hok : AllSucceed place t calls) :
    ∀ before w later, calls = before ++ w :: later →
      ∀ a ∈ w.artifacts, a.file.strategy = .overwrite →
        (after place t (before ++ [w])).readText (place.target a) = .ok a.file.content := by
  intro before w later hsplit a ha hstrategy
  exact (faithful_of_absent hcache).content_throughout hc ht (List.Subset.refl _) hcached hok
    hsplit ha hstrategy

/-! ## A site of two databases -/

/-- A database with a schema. -/
def siteDatabase (id schema : String) : Component :=
  ⟨id, none, .database ⟨"drizzle", schema⟩, [], []⟩

/-- A model of two databases, of which the second one may change. -/
def site (schema : String) : Model :=
  ⟨⟨"1.0.0", "site", ""⟩,
    .ofList [("a", siteDatabase "a" "x"), ("b", siteDatabase "b" schema)], [], .empty⟩

/-- The schema of a database as a file of its own. -/
def siteArtifact (id schema : String) : Artifact := ⟨"schemas", id, ⟨schema, .overwrite, some id⟩⟩

/-- The call that writes the schemas of that model. -/
def writeSite (cached : Bool) (schema : String) : WriteCall :=
  ⟨cached, false, site schema, [siteArtifact "a" "x", siteArtifact "b" schema]⟩

/-- What those calls plan. -/
def siteRule : PlanRule := fun _ essence path =>
  if path = essence.textField "id" then
    some (.overwrite, ((essence.field? "spec").getD .null).textField "schema")
  else none

def sitePlace : Place := ⟨"out", "cache"⟩

/-- A working directory with nothing in it. -/
def siteTree : FileTree := .fresh ["w"]

theorem siteTree_wellFormed : siteTree.WellFormed :=
  FileTree.wellFormed_of_entries (by decide)

theorem site_get? (schema id : String) : (site schema).get? id =
    if "b" = id then some (siteDatabase "b" schema)
    else if "a" = id then some (siteDatabase "a" "x") else none := by
  rw [Model.get?, site, SortedMap.ofList, List.foldl_cons, List.foldl_cons, List.foldl_nil,
    SortedMap.get?_insert, SortedMap.get?_insert]
  rfl

theorem site_values (schema : String) :
    (site schema).components.values = [siteDatabase "a" "x", siteDatabase "b" schema] := by
  have hincreasing : KeysIncrease
      ([] ++ [("a", siteDatabase "a" "x"), ("b", siteDatabase "b" schema)]) := by
    refine List.Pairwise.cons (fun e he => ?_) (List.pairwise_singleton _ _)
    rw [List.mem_singleton.1 he]
    show "a" < "b"
    decide
  rw [SortedMap.values, site, SortedMap.entries_ofList, foldl_insertEntry hincreasing]
  rfl

theorem site_essence (schema schema' : String) :
    (site schema).essence = (site schema').essence := by
  rw [Model.essence_eq, Model.essence_eq, Model.identity, Model.identity, site_values, site_values]
  rfl

theorem site_separate (cached : Bool) (schema : String) :
    (writeSite cached schema).Separate sitePlace siteTree where
  targets := by
    refine List.Pairwise.cons (fun b hb => ?_) (List.pairwise_singleton _ _)
    rw [List.mem_singleton.1 hb]
    show siteTree.locate (Path.join "out" "a") ≠ siteTree.locate (Path.join "out" "b")
    decide
  cache a ha := by
    have htest : ∀ q ∈ ["a", "b"],
        siteTree.locate (Path.join "out" q) ≠ siteTree.locate "cache" := by
      decide
    simp only [writeSite, List.mem_cons, List.not_mem_nil, or_false] at ha
    rcases ha with rfl | rfl
    · exact htest "a" (by simp)
    · exact htest "b" (by simp)
  temporaries a ha p hp := by
    have htest : ∀ q ∈ ["a", "b"], ∀ p ∈ ["cache", Path.join "out" "a", Path.join "out" "b"],
        siteTree.locate (Path.join "out" q) ≠ siteTree.locate (temporaryPath p) := by
      decide
    have hp' : p ∈ ["cache", Path.join "out" "a", Path.join "out" "b"] := hp
    simp only [writeSite, List.mem_cons, List.not_mem_nil, or_false] at ha
    rcases ha with rfl | rfl
    · exact htest "a" (by simp) p hp'
    · exact htest "b" (by simp) p hp'

theorem siteRule_database (identity : Metadata × List (String × Kind))
    (id schema path : String) : siteRule identity (siteDatabase id schema).essence path =
      if path = id then some (.overwrite, schema) else none := by
  simp [siteRule, siteDatabase, Component.essence, Body.essence, Value.field?_ofFields,
    Value.textField, Value.text?, findEntry]

theorem site_follows (cached : Bool) (schema id : String) (component : Component)
    (hget : (site schema).get? id = some component) (path : String) :
    (writeSite cached schema).planned id path =
      siteRule (site schema).identity component.essence path := by
  rw [site_get?] at hget
  split at hget
  · rename_i hid
    cases hget
    subst hid
    rw [siteRule_database]
    by_cases hpath : path = "b"
    · subst hpath
      rfl
    · simp [WriteCall.planned, writeSite, siteArtifact, Ne.symm hpath, hpath]
  · split at hget
    · rename_i hid
      cases hget
      subst hid
      rw [siteRule_database]
      by_cases hpath : path = "a"
      · subst hpath
        rfl
      · simp [WriteCall.planned, writeSite, siteArtifact, Ne.symm hpath, hpath]
    · cases hget

/-- What counts of the databases of the site. -/
def siteEssences : List Value :=
  [(siteDatabase "a" "x").essence, (siteDatabase "b" "y").essence, (siteDatabase "b" "z").essence]

theorem siteEssences_clear : ∀ v ∈ siteEssences, ∀ w ∈ siteEssences,
    v.fingerprint = w.fingerprint → Json.compact v = Json.compact w := by
  decide +kernel

theorem site_essence_mem {schema : String} (hschema : schema ∈ ["y", "z"]) {c : Component}
    (hc : c ∈ (site schema).components.values) : c.essence ∈ siteEssences := by
  rw [site_values] at hc
  simp only [List.mem_cons, List.not_mem_nil, or_false] at hschema hc
  rcases hc with rfl | rfl
  · simp [siteEssences]
  · rcases hschema with rfl | rfl <;> simp [siteEssences]

theorem site_coherent {calls : List WriteCall}
    (h : ∀ w ∈ calls, ∃ cached, ∃ schema ∈ ["y", "z"], w = writeSite cached schema) :
    Coherent sitePlace siteTree siteRule calls where
  separate w hw := by
    obtain ⟨cached, schema, _, rfl⟩ := h w hw
    exact site_separate cached schema
  owned w hw := by
    obtain ⟨cached, schema, _, rfl⟩ := h w hw
    intro a ha _ id hid
    simp only [writeSite, List.mem_cons, List.not_mem_nil, or_false] at ha
    rcases ha with rfl | rfl
    · cases hid
      show ((site schema).get? "a").isSome = true
      rw [site_get?]
      rfl
    · cases hid
      show ((site schema).get? "b").isSome = true
      rw [site_get?]
      rfl
  follows w hw := by
    obtain ⟨cached, schema, _, rfl⟩ := h w hw
    exact site_follows cached schema
  models v hv w hw hcollide := by
    obtain ⟨cached, schema, _, rfl⟩ := h v hv
    obtain ⟨cached', schema', _, rfl⟩ := h w hw
    exact hcollide.2 (congrArg _ (site_essence schema schema'))
  components v hv w hw c hc d hd hcollide := by
    obtain ⟨cached, schema, hschema, rfl⟩ := h v hv
    obtain ⟨cached', schema', hschema', rfl⟩ := h w hw
    exact hcollide.2 (siteEssences_clear _ (site_essence_mem hschema hc) _
      (site_essence_mem hschema' hd) hcollide.1)

/-- The cache that the first call leaves. -/
def siteCache : Cache :=
  (Cache.empty.update (site "y")).recordArtifacts (writeSite true "y").artifacts

theorem siteCache_remembersModel : siteCache.RemembersModel (site "y") :=
  (Cache.empty.remembersModel_update (site "y")).recordArtifacts _

theorem site_first : ((writeSite true "y").run sitePlace siteTree).1.isOk = true := by
  decide +kernel

theorem site_saved :
    (((writeSite true "y").run sitePlace siteTree).2).readText "cache" = .ok siteCache.text := by
  obtain ⟨stats, hrun⟩ := WriteCall.run_of_isOk site_first
  obtain ⟨c, hload, hread⟩ := WriteCall.run_saved siteTree_wellFormed rfl hrun
  have hempty : c = .empty := by
    cases hload
    rfl
  rw [hempty] at hread
  exact hread

/-- The second call writes one of the files and leaves the other one alone. -/
theorem site_second : ((writeSite true "z").run sitePlace
    ((writeSite true "y").run sitePlace siteTree).2).1.toOption = some ⟨["b"], ["a"]⟩ := by
  have hpath : ((writeSite true "z").task sitePlace).cachePath = some "cache" := rfl
  have hrun := WriteTask.run_of_load hpath (Cache.load_current rfl site_saved) (site "z")
    (writeSite true "z").artifacts
  show (((((writeSite true "z").task sitePlace).run (site "z") (writeSite true "z").artifacts :
    Action (StateM FileTree) WriteStats).run _).1).toOption = _
  rw [hrun]
  decide +kernel

/-- Both files are as planned after the second call. -/
theorem WriteCall.content_after_site :
    (after sitePlace siteTree [writeSite true "y", writeSite true "z"]).readText
        (sitePlace.target (siteArtifact "a" "x")) = .ok "x" ∧
      (after sitePlace siteTree [writeSite true "y", writeSite true "z"]).readText
        (sitePlace.target (siteArtifact "b" "z")) = .ok "z" := by
  have hok : AllSucceed sitePlace siteTree [writeSite true "y", writeSite true "z"] := by
    refine ⟨site_first, ?_, trivial⟩
    have hsecond := site_second
    cases hrun : ((writeSite true "z").run sitePlace
        ((writeSite true "y").run sitePlace siteTree).2).1 with
    | error e =>
      rw [hrun] at hsecond
      cases hsecond
    | ok stats => rfl
  have hcoherent : Coherent sitePlace siteTree siteRule
      [writeSite true "y", writeSite true "z"] := by
    refine site_coherent fun w hw => ?_
    simp only [List.mem_cons, List.not_mem_nil, or_false] at hw
    rcases hw with rfl | rfl
    · exact ⟨true, "y", by simp, rfl⟩
    · exact ⟨true, "z", by simp, rfl⟩
  have hcached : ∀ w ∈ [writeSite true "y", writeSite true "z"], w.cached = true := by
    intro w hw
    simp only [List.mem_cons, List.not_mem_nil, or_false] at hw
    rcases hw with rfl | rfl <;> rfl
  have hcontent := content_after siteTree_wellFormed (by decide) hcoherent hcached hok
    [writeSite true "y"] (writeSite true "z") [] rfl
  exact ⟨hcontent (siteArtifact "a" "x") (by simp [writeSite]) rfl,
    hcontent (siteArtifact "b" "z") (by simp [writeSite]) rfl⟩

end ArchSpec
