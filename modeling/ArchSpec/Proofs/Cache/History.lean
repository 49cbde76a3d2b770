import Mathlib.Data.List.Induction
import ArchSpec.Proofs.Cache.Basic

/-!
# What a cache remembers in the end

A cache is updated and files are recorded in it, in any order. In the end it remembers the model of
the last update; which files it remembers of a component is decided by the last step that concerned
them: a record of files of a component that was in the cache, or an update that found the component
absent or changed. A component may have left the cache and come back in between.

* `Cache.Step`, `Cache.after` — the steps of a history, and the cache that they leave.
* `Step.Renews`, `Step.Records` — the steps that decide which files are remembered.
* `Cache.FilesOf` — the files of a component, by the history; `filesOf_iff` — they are remembered.
* `Cache.after_remembers` — the whole of what is remembered after a history with an update.
-/

namespace ArchSpec.Cache

/-! ## Histories -/

/-- What is done to a cache. -/
inductive Step where
  /-- Bring it up to date with a model. -/
  | update (m : Model)
  /-- Record the files of a component. -/
  | setArtifacts (id : String) (paths : List String)

namespace Step

def run (c : Cache) : Step → Cache
  | update m => c.update m
  | setArtifacts id paths => c.setArtifacts id paths

/-- The model of an update. -/
def model? : Step → Option Model
  | update m => some m
  | setArtifacts _ _ => none

/-- An update that has a component, and finds it absent from the cache or with another
fingerprint. -/
def Renews (id : String) (c : Cache) (s : Step) : Prop :=
  ∃ m component, s = .update m ∧ m.get? id = some component ∧
    c.hash? id ≠ some component.fingerprint

/-- A record of the files of a component that is in the cache. -/
def Records (id : String) (paths : List String) (c : Cache) (s : Step) : Prop :=
  s = .setArtifacts id paths ∧ c.contains id = true

/-- A step that does not concern the files of a component. -/
structure Spares (id : String) (c : Cache) (s : Step) : Prop where
  renews : ¬s.Renews id c
  records : ∀ paths, ¬s.Records id paths c

end Step

/-- The cache after steps one after another. -/
def after (c : Cache) (steps : List Step) : Cache := steps.foldl Step.run c

/-- The model of the last update of a history. -/
def lastModel? (steps : List Step) : Option Model := (steps.filterMap Step.model?).getLast?

/-- No step of a history concerns the files of a component, each in the cache that it finds. -/
def Undisturbed (id : String) : Cache → List Step → Prop
  | _, [] => True
  | c, s :: rest => s.Spares id c ∧ Undisturbed id (s.run c) rest

/-- The files of a component by the history of a cache: those of the last step that concerns
them, or those that were remembered at first. -/
inductive FilesOf (c : Cache) (id : String) : List Step → List String → Prop
  /-- Those that were recorded last, and have not been renewed since. -/
  | recorded {before later : List Step} {paths : List String}
    (records : (Step.setArtifacts id paths).Records id paths (c.after before))
    (since : Undisturbed id ((c.after before).setArtifacts id paths) later) :
    FilesOf c id (before ++ .setArtifacts id paths :: later) paths
  /-- None, if none have been recorded since the component was found absent or changed. -/
  | renewed {before later : List Step} {m : Model}
    (renews : (Step.update m).Renews id (c.after before))
    (since : Undisturbed id ((c.after before).update m) later) :
    FilesOf c id (before ++ .update m :: later) []
  /-- Those of the cache at first, if nothing has concerned them. -/
  | carried {steps : List Step} {entry : CacheEntry} (there : c.components.get? id = some entry)
    (since : Undisturbed id c steps) : FilesOf c id steps entry.artifacts

variable {c : Cache} {id : String} {steps : List Step} {s : Step} {paths : List String}
  {entry : CacheEntry} {m : Model}

theorem after_append (c : Cache) (before later : List Step) :
    c.after (before ++ later) = (c.after before).after later :=
  List.foldl_append

theorem after_split (c : Cache) (before : List Step) (s : Step) (later : List Step) :
    c.after (before ++ s :: later) = (s.run (c.after before)).after later := by
  rw [after_append]
  rfl

theorem Undisturbed.snoc (h : Undisturbed id c steps) (hs : s.Spares id (c.after steps)) :
    Undisturbed id c (steps ++ [s]) := by
  induction steps generalizing c with
  | nil => exact ⟨hs, trivial⟩
  | cons first rest ih => exact ⟨h.1, ih h.2 hs⟩

/-! ## The files of a component -/

theorem Step.Renews.artifacts (h : s.Renews id c)
    (hentry : (s.run c).components.get? id = some entry) : entry.artifacts = [] := by
  obtain ⟨m, component, rfl, hget, hhash⟩ := h
  have hget : m.components.get? id = some component := hget
  rw [run, Cache.update] at hentry
  simp only [SortedMap.get?_mapValues, hget, Option.map_some, Option.some.injEq] at hentry
  rw [← hentry, refresh]
  split
  · rfl
  · rename_i earlier hearlier
    have hne : earlier.hash ≠ component.fingerprint := by
      intro heq
      apply hhash
      rw [hash?, hearlier, Option.map_some, heq]
    simp only [if_neg hne]

theorem Step.Records.artifacts (h : s.Records id paths c)
    (hentry : (s.run c).components.get? id = some entry) : entry.artifacts = paths := by
  obtain ⟨rfl, _⟩ := h
  rw [run, Cache.setArtifacts] at hentry
  simp only [SortedMap.get?_modify, if_true] at hentry
  obtain ⟨earlier, _, rfl⟩ := Option.map_eq_some_iff.1 hentry
  rfl

/-- A step that does not concern the files of a component leaves them as they are. -/
theorem Step.Spares.artifacts (h : s.Spares id c)
    (hentry : (s.run c).components.get? id = some entry) :
    ∃ earlier, c.components.get? id = some earlier ∧ earlier.artifacts = entry.artifacts := by
  cases s with
  | update m =>
    rw [run, Cache.update] at hentry
    simp only [SortedMap.get?_mapValues] at hentry
    obtain ⟨component, hget, rfl⟩ := Option.map_eq_some_iff.1 hentry
    have hhash : c.hash? id = some component.fingerprint := by
      by_contra hne
      exact h.renews ⟨m, component, rfl, hget, hne⟩
    obtain ⟨earlier, hearlier, hsame⟩ := Option.map_eq_some_iff.1 hhash
    refine ⟨earlier, hearlier, ?_⟩
    rw [refresh, hearlier]
    simp only [if_pos hsame]
  | setArtifacts id' paths =>
    rw [run, Cache.setArtifacts] at hentry
    simp only [SortedMap.get?_modify] at hentry
    by_cases hid : id' = id
    · subst hid
      rw [if_pos rfl] at hentry
      obtain ⟨earlier, hearlier, _⟩ := Option.map_eq_some_iff.1 hentry
      have hcontains : c.contains id' = true := by
        rw [contains, SortedMap.contains, hearlier]
        rfl
      exact absurd ⟨rfl, hcontains⟩ (h.records paths)
    · rw [if_neg hid] at hentry
      exact ⟨entry, hentry, rfl⟩

/-- So does a history of such steps. -/
theorem Undisturbed.artifacts (h : Undisturbed id c steps)
    (hentry : (c.after steps).components.get? id = some entry) :
    ∃ earlier, c.components.get? id = some earlier ∧ earlier.artifacts = entry.artifacts := by
  induction steps generalizing c with
  | nil => exact ⟨entry, hentry, rfl⟩
  | cons s rest ih =>
    obtain ⟨middle, hmiddle, hsame⟩ := ih h.2 hentry
    obtain ⟨earlier, hearlier, hsame'⟩ := h.1.artifacts hmiddle
    exact ⟨earlier, hearlier, hsame'.trans hsame⟩

theorem FilesOf.snoc (h : FilesOf c id steps paths) (hs : s.Spares id (c.after steps)) :
    FilesOf c id (steps ++ [s]) paths := by
  cases h with
  | recorded records since =>
    rw [after_split] at hs
    rw [List.append_assoc]
    exact .recorded records (since.snoc hs)
  | renewed renews since =>
    rw [after_split] at hs
    rw [List.append_assoc]
    exact .renewed renews (since.snoc hs)
  | carried there since => exact .carried there (since.snoc hs)

/-- What is remembered in the end is what the history says. -/
theorem filesOf_of_get? (hentry : (c.after steps).components.get? id = some entry) :
    FilesOf c id steps entry.artifacts := by
  -- by the last step: it decides, or it does not concern the files and those before it decide
  induction steps using List.reverseRecOn generalizing entry with
  | nil => exact .carried hentry trivial
  | append_singleton steps s ih =>
    rw [after_split] at hentry
    by_cases hrenews : s.Renews id (c.after steps)
    · rw [hrenews.artifacts hentry]
      obtain ⟨m, component, rfl, hget⟩ := hrenews
      exact .renewed ⟨m, component, rfl, hget⟩ trivial
    by_cases hrecords : ∃ paths, s.Records id paths (c.after steps)
    · obtain ⟨paths, hrecords⟩ := hrecords
      rw [hrecords.artifacts hentry]
      obtain ⟨rfl, hcontains⟩ := hrecords
      exact .recorded ⟨rfl, hcontains⟩ trivial
    · have hspares : s.Spares id (c.after steps) :=
        ⟨hrenews, fun paths hpaths => hrecords ⟨paths, hpaths⟩⟩
      obtain ⟨earlier, hearlier, hsame⟩ := hspares.artifacts hentry
      rw [← hsame]
      exact (ih hearlier).snoc hspares

/-- **The files that are remembered of a component** are those that the history says, and no
others. -/
theorem filesOf_iff (hentry : (c.after steps).components.get? id = some entry) :
    FilesOf c id steps paths ↔ entry.artifacts = paths := by
  constructor
  · intro h
    cases h with
    | recorded records since =>
      rw [after_split] at hentry
      obtain ⟨earlier, hearlier, hsame⟩ := since.artifacts hentry
      rw [← hsame, records.artifacts hearlier]
    | renewed renews since =>
      rw [after_split] at hentry
      obtain ⟨earlier, hearlier, hsame⟩ := since.artifacts hentry
      rw [← hsame, renews.artifacts hearlier]
    | carried there since =>
      obtain ⟨earlier, hearlier, hsame⟩ := since.artifacts hentry
      rw [there] at hearlier
      cases hearlier
      exact hsame.symm
  · intro h
    rw [← h]
    exact filesOf_of_get? hentry

/-! ## The model of the last update -/

/-- A history with an update leaves a cache that remembers the model of the last one. -/
theorem remembersModel_after (h : lastModel? steps = some m) :
    (c.after steps).RemembersModel m := by
  induction steps using List.reverseRecOn with
  | nil => cases h
  | append_singleton steps s ih =>
    rw [after_split]
    cases s with
    | update n =>
      rw [lastModel?, List.filterMap_append] at h
      simp only [Step.model?, List.filterMap_cons, List.filterMap_nil, List.getLast?_concat,
        Option.some.injEq] at h
      rw [← h]
      exact (c.after steps).remembersModel_update n
    | setArtifacts id paths =>
      rw [lastModel?, List.filterMap_append] at h
      simp only [Step.model?, List.filterMap_cons, List.filterMap_nil, List.append_nil] at h
      exact (ih h).setArtifacts id paths

/-- A cache that remembers a model has its components and no others. -/
theorem RemembersModel.keys_eq (h : c.RemembersModel m) : c.components.keys = m.ids := by
  have hhashes : c.components.mapValues (fun _ entry => entry.hash) =
      m.components.mapValues fun _ component => component.fingerprint := by
    apply SortedMap.ext_get?
    intro id
    rw [SortedMap.get?_mapValues, SortedMap.get?_mapValues]
    exact h.hash id
  have hkeys := congrArg SortedMap.keys hhashes
  simp only [SortedMap.keys, SortedMap.mapValues, List.map_map] at hkeys
  exact hkeys

/-! ## Staleness -/

/-- If the data of the specification have changed, every component is stale. -/
theorem staleComponents_of_ne (h : c.specHash ≠ m.fingerprint) : c.staleComponents m = m.ids := by
  have hall : (m.components.entries.filter fun e =>
      c.isStale m.fingerprint e.1 e.2.fingerprint) = m.components.entries := by
    apply List.filter_eq_self.2
    intro e _
    simp [isStale, h]
  rw [staleComponents, hall]
  rfl

/-- If they have not, a component is stale that the cache does not have, or has with another
fingerprint. -/
theorem mem_staleComponents_of_eq (h : c.specHash = m.fingerprint) :
    id ∈ c.staleComponents m ↔ ∃ component, m.get? id = some component ∧
      (c.contains id = false ∨ ∃ hash, c.hash? id = some hash ∧ hash ≠ component.fingerprint) := by
  rw [mem_staleComponents]
  refine exists_congr fun component => and_congr Iff.rfl ?_
  rw [isStale, h]
  cases hentry : c.components.get? id with
  | none => simp [contains, SortedMap.contains, hash?, hentry]
  | some entry => simp [contains, SortedMap.contains, hash?, hentry]

/-- A cache that remembers a model finds nothing of it stale. -/
theorem RemembersModel.staleComponents_eq_nil (h : c.RemembersModel m) :
    c.staleComponents m = [] := by
  apply List.eq_nil_iff_forall_not_mem.2
  intro id hid
  obtain ⟨component, hget, _⟩ := mem_staleComponents.1 hid
  have hmodel : m.components.contains id = true := Option.isSome_iff_exists.2 ⟨component, hget⟩
  exact (not_mem_staleComponents_iff hmodel).2 (h.vouches hmodel) hid

/-- **What a cache remembers after a history** with an update: the model of the last update, and of
each of its components the files that the history says. After an update nothing of its model is
stale, and a second one changes nothing; of another model all is stale if its data or its IDs and
kinds are others, and else what is not remembered as it is. -/
theorem after_remembers (h : lastModel? steps = some m) :
    (c.after steps).specHash = m.fingerprint ∧
    (c.after steps).components.keys = m.ids ∧
    (∀ id, (c.after steps).hash? id = (m.get? id).map Component.fingerprint) ∧
    (∀ id entry, (c.after steps).components.get? id = some entry →
      ∀ paths, FilesOf c id steps paths ↔ entry.artifacts = paths) ∧
    (∀ n, (c.after (steps ++ [.update n])).staleComponents n = [] ∧
      c.after (steps ++ [.update n, .update n]) = c.after (steps ++ [.update n])) ∧
    ∀ n : Model, (m.fingerprint ≠ n.fingerprint → (c.after steps).staleComponents n = n.ids) ∧
      (m.fingerprint = n.fingerprint → ∀ id, id ∈ (c.after steps).staleComponents n ↔
        ∃ component, n.get? id = some component ∧ ((c.after steps).contains id = false ∨
          ∃ hash, (c.after steps).hash? id = some hash ∧ hash ≠ component.fingerprint)) := by
  have hremembers : (c.after steps).RemembersModel m := remembersModel_after h
  refine ⟨hremembers.specHash, hremembers.keys_eq, hremembers.hash,
    fun id entry hentry paths => filesOf_iff hentry, fun n => ?_,
    fun n => ⟨fun hne => ?_, fun heq id => ?_⟩⟩
  · have hupdated := (c.after steps).remembersModel_update n
    rw [after_append, after_append]
    exact ⟨hupdated.staleComponents_eq_nil, hupdated.update_eq⟩
  · apply staleComponents_of_ne
    rw [hremembers.specHash]
    exact hne
  · exact mem_staleComponents_of_eq (hremembers.specHash.trans heq)

/-! ## A component that leaves and comes back -/

def shelfTable : Component := ⟨"a", none, .database ⟨"drizzle", "x"⟩, [], []⟩

/-- A model with a database. -/
def shelf : Model := { Model.empty ⟨"1.0.0", "shelf", ""⟩ with
  components := SortedMap.empty.insert "a" shelfTable }

/-- The database leaves the model and comes back, and files are recorded of it both before and
while it is away. -/
def shelfHistory : List Step :=
  [.update shelf, .setArtifacts "a" ["a.sql"], .update (.empty shelf.metadata),
    .setArtifacts "a" ["b.sql"]] ++ [.update shelf]

/-- Nothing is remembered of the files that were recorded before it has come back. -/
theorem after_remembers_shelf : lastModel? shelfHistory = some shelf ∧
    (empty.after shelfHistory).components.keys = ["a"] ∧
    ∃ entry, (empty.after shelfHistory).components.get? "a" = some entry ∧
      entry.hash = shelfTable.fingerprint ∧ entry.artifacts = [] := by
  have hlast : lastModel? shelfHistory = some shelf := rfl
  have hget : shelf.get? "a" = some shelfTable := SortedMap.get?_insert_self _ _ _
  obtain ⟨_, hkeys, hhash, hfiles, _⟩ := after_remembers (c := empty) hlast
  have hentry := hhash "a"
  rw [hget, Option.map_some, hash?, Option.map_eq_some_iff] at hentry
  obtain ⟨entry, hentry, hsame⟩ := hentry
  refine ⟨hlast, hkeys, entry, hentry, hsame, (hfiles "a" entry hentry []).1 ?_⟩
  refine .renewed ⟨shelf, shelfTable, rfl, hget, ?_⟩ trivial
  have haway : (empty.after [.update shelf, .setArtifacts "a" ["a.sql"],
      .update (.empty shelf.metadata), .setArtifacts "a" ["b.sql"]]).RemembersModel
        (.empty shelf.metadata) := remembersModel_after rfl
  rw [haway.hash]
  intro hback
  cases hback

end ArchSpec.Cache
