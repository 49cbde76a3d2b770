import ArchSpec.Artifact.Write

/-!
# What a cache remembers

A cache that has been brought up to date remembers the fingerprints of its model and of each of its
components, whatever it remembered before and whichever files are recorded afterwards. A component
is not stale just when both fingerprints are the remembered ones.

* `Cache.RemembersModel` — a cache with the fingerprints of a model.
* `Cache.remembersModel_update`, `RemembersModel.recordArtifacts` — how it comes to have them.
* `RemembersModel.update_eq`, `Cache.get?_recordArtifacts` — caches that are up to date, and files.
* `Cache.mem_staleComponents`, `Cache.fresh_of_not_mem` — what staleness is.
* `Cache.Vouches`, `Cache.not_mem_staleComponents_iff` — the components that a cache knows as they
  are, and those that are not stale.
-/

namespace ArchSpec.Cache

variable {c : Cache} {m : Model} {id : String}

/-! ## Remembered fingerprints -/

/-- A cache remembers the fingerprints of a model and of its components. -/
structure RemembersModel (c : Cache) (m : Model) : Prop where
  specHash : c.specHash = m.fingerprint
  hash : ∀ id, c.hash? id = (m.components.get? id).map Component.fingerprint

theorem hash_refresh (c : Cache) (id : String) (component : Component) :
    (c.refresh id component).hash = component.fingerprint := by
  unfold refresh
  split
  · rfl
  · simp only
    split <;> rfl

theorem remembersModel_update (c : Cache) (m : Model) : (c.update m).RemembersModel m where
  specHash := rfl
  hash id := by
    unfold hash? update
    simp only [SortedMap.get?_mapValues, Option.map_map]
    congr 1
    funext component
    exact c.hash_refresh id component

/-- Which files belong to a component has nothing to do with fingerprints. -/
theorem RemembersModel.setArtifacts (h : c.RemembersModel m) (id : String)
    (paths : List String) : (c.setArtifacts id paths).RemembersModel m where
  specHash := h.specHash
  hash id' := by
    rw [← h.hash id', hash?, Cache.setArtifacts, hash?]
    simp only [SortedMap.get?_modify]
    split
    · rw [Option.map_map]
      rfl
    · rfl

theorem RemembersModel.recordArtifacts (h : c.RemembersModel m) (artifacts : List Artifact) :
    (c.recordArtifacts artifacts).RemembersModel m := by
  unfold Cache.recordArtifacts
  generalize artifacts.filterMap (·.file.component) = ids
  induction ids generalizing c with
  | nil => exact h
  | cons id ids ih => exact ih (h.setArtifacts id _)

/-- A cache that remembers a model is up to date. -/
theorem RemembersModel.update_eq (h : c.RemembersModel m) : c.update m = c := by
  have hcomponents : m.components.mapValues c.refresh = c.components := by
    refine SortedMap.ext_get? fun id => ?_
    have hid := h.hash id
    rw [hash?] at hid
    rw [SortedMap.get?_mapValues]
    cases hget : m.components.get? id with
    | none =>
      rw [hget] at hid
      exact (Option.map_eq_none_iff.1 hid).symm
    | some component =>
      rw [hget, Option.map_some, Option.map_eq_some_iff] at hid
      obtain ⟨entry, hentry, hhash⟩ := hid
      rw [Option.map_some, hentry, refresh, hentry]
      simp only [hhash, if_true]
      rw [← hhash]
  rw [update, hcomponents, ← h.specHash]

/-! ## Recorded files -/

/-- Which files are recorded of components, one after the other. -/
theorem get?_setArtifacts_foldl (pathsOf : String → List String) (ids : List String) (c : Cache)
    (id : String) :
    (ids.foldl (fun c id => c.setArtifacts id (pathsOf id)) c).components.get? id =
      (c.components.get? id).map fun entry =>
        if id ∈ ids then { entry with artifacts := pathsOf id } else entry := by
  induction ids generalizing c with
  | nil => simp
  | cons first ids ih =>
    rw [List.foldl_cons, ih, setArtifacts]
    simp only [SortedMap.get?_modify]
    by_cases hfirst : first = id
    · subst hfirst
      rw [if_pos rfl, Option.map_map]
      congr 1
      funext entry
      by_cases hmem : first ∈ ids <;> simp [hmem]
    · rw [if_neg hfirst]
      simp [Ne.symm hfirst]

/-- **What is recorded of a component** that has artifacts: their paths; nothing else changes. -/
theorem get?_recordArtifacts (c : Cache) (artifacts : List Artifact) (id : String) :
    (c.recordArtifacts artifacts).components.get? id = (c.components.get? id).map fun entry =>
      if id ∈ artifacts.filterMap (·.file.component) then
        { entry with artifacts := Artifact.pathsOf id artifacts } else entry :=
  get?_setArtifacts_foldl (fun id => Artifact.pathsOf id artifacts) _ c id

/-- Recorded files change nothing but what is remembered of components. -/
theorem recordArtifacts_eq (c : Cache) (artifacts : List Artifact) :
    c.recordArtifacts artifacts =
      { c with components := (c.recordArtifacts artifacts).components } := by
  unfold recordArtifacts
  induction artifacts.filterMap (·.file.component) generalizing c with
  | nil => rfl
  | cons id ids ih => exact ih _

theorem version_recordArtifacts (c : Cache) (artifacts : List Artifact) :
    (c.recordArtifacts artifacts).version = c.version := by
  rw [recordArtifacts_eq]

/-- Artifacts that are recorded again make no difference. -/
theorem recordArtifacts_recordArtifacts (c : Cache) (artifacts : List Artifact) :
    (c.recordArtifacts artifacts).recordArtifacts artifacts = c.recordArtifacts artifacts := by
  have hcomponents : ((c.recordArtifacts artifacts).recordArtifacts artifacts).components =
      (c.recordArtifacts artifacts).components := by
    refine SortedMap.ext_get? fun id => ?_
    rw [get?_recordArtifacts, get?_recordArtifacts, Option.map_map]
    congr 1
    funext entry
    by_cases hmem : id ∈ artifacts.filterMap (·.file.component) <;>
      simp only [Function.comp_apply, hmem, if_true, if_false]
  rw [recordArtifacts_eq, hcomponents]

/-! ## Staleness -/

theorem mem_staleComponents : id ∈ c.staleComponents m ↔
    ∃ component, m.components.get? id = some component ∧
      c.isStale m.fingerprint id component.fingerprint = true := by
  unfold staleComponents
  simp only [List.mem_map, List.mem_filter]
  constructor
  · rintro ⟨⟨k, component⟩, ⟨hmem, hstale⟩, rfl⟩
    exact ⟨component, (m.components.mem_entries_iff k component).1 hmem, hstale⟩
  · rintro ⟨component, hget, hstale⟩
    exact ⟨(id, component), ⟨(m.components.mem_entries_iff id component).2 hget, hstale⟩, rfl⟩

/-- A component of a model that is not stale is remembered with the fingerprints that it has. -/
theorem fresh_of_not_mem {component : Component} (hget : m.components.get? id = some component)
    (h : id ∉ c.staleComponents m) :
    c.specHash = m.fingerprint ∧ c.hash? id = some component.fingerprint := by
  have hnot : c.isStale m.fingerprint id component.fingerprint = false := by
    cases hstale : c.isStale m.fingerprint id component.fingerprint with
    | false => rfl
    | true => exact absurd (mem_staleComponents.2 ⟨component, hget, hstale⟩) h
  simpa [isStale] using hnot

/-- A cache has an entry for a component of a model, and both are still what they were. -/
def Vouches (c : Cache) (m : Model) (id : String) : Prop :=
  ∃ entry component, c.components.get? id = some entry ∧ m.components.get? id = some component ∧
    c.specHash = m.fingerprint ∧ entry.hash = component.fingerprint

/-- A component of a model is not stale just if the cache vouches for it. -/
theorem not_mem_staleComponents_iff (hmodel : m.components.contains id = true) :
    id ∉ c.staleComponents m ↔ c.Vouches m id := by
  obtain ⟨component, hget⟩ := Option.isSome_iff_exists.1 hmodel
  constructor
  · intro hfresh
    obtain ⟨hspec, hhash⟩ := fresh_of_not_mem hget hfresh
    obtain ⟨entry, hentry, hsame⟩ := Option.map_eq_some_iff.1 hhash
    exact ⟨entry, component, hentry, hget, hspec, hsame⟩
  · intro hvouches hstale
    obtain ⟨entry, component', hentry, hget', hspec, hsame⟩ := hvouches
    rw [hget] at hget'
    cases hget'
    obtain ⟨component', hget', hstale⟩ := mem_staleComponents.1 hstale
    rw [hget] at hget'
    cases hget'
    simp [isStale, hash?, hentry, hspec, hsame] at hstale

/-- A component that is not in the model is on no list of its stale components. -/
theorem not_mem_staleComponents_of_absent (habsent : m.components.contains id = false) :
    id ∉ c.staleComponents m := by
  intro hstale
  obtain ⟨component, hget, _⟩ := mem_staleComponents.1 hstale
  rw [SortedMap.contains, hget] at habsent
  cases habsent

/-- A cache that remembers a model vouches for all of its components. -/
theorem RemembersModel.vouches (h : c.RemembersModel m)
    (hmodel : m.components.contains id = true) : c.Vouches m id := by
  obtain ⟨component, hget⟩ := Option.isSome_iff_exists.1 hmodel
  have hhash := h.hash id
  rw [hget, Option.map_some] at hhash
  obtain ⟨entry, hentry, hsame⟩ := Option.map_eq_some_iff.1 hhash
  exact ⟨entry, component, hentry, hget, h.specHash, hsame⟩

/-- An empty cache finds every component stale. -/
theorem mem_staleComponents_empty (h : m.components.contains id = true) :
    id ∈ empty.staleComponents m := by
  obtain ⟨component, hget⟩ := Option.isSome_iff_exists.1 h
  exact mem_staleComponents.2 ⟨component, hget, by simp [isStale, hash?, empty]⟩

/-- **A component that is not stale is one of the remembered model**, with the same fingerprints. -/
theorem RemembersModel.fresh {n : Model} (h : c.RemembersModel n) {component : Component}
    (hget : m.components.get? id = some component) (hfresh : id ∉ c.staleComponents m) :
    n.fingerprint = m.fingerprint ∧ ∃ earlier, n.components.get? id = some earlier ∧
      earlier.fingerprint = component.fingerprint := by
  obtain ⟨hspec, hhash⟩ := fresh_of_not_mem hget hfresh
  rw [h.hash id, Option.map_eq_some_iff] at hhash
  exact ⟨h.specHash.symm.trans hspec, hhash⟩

end ArchSpec.Cache
