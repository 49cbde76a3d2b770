import ArchSpec.Artifact.Plan
import ArchSpec.Proofs.FileStore.Action

/-!
# What plans hold

An addition that succeeds puts one artifact under its path and replaces none, so every artifact of
a plan stands under its own path, and the paths of a plan are different and in order.

* `Plan.Keyed` — every artifact stands under its own path; `keyed_addEach` — as in all plans.
* `Plan.Keyed.increasing` — the paths of a plan are in order.
* `Plan.get?_addEntries` — what a plan holds after the files of a generator have been added.
-/

namespace ArchSpec.Plan

variable {p p' : Plan} {owner path : String} {file : GeneratedFile} {a : Artifact}

/-! ## Additions -/

/-- An addition that succeeds puts an artifact under a path that was free. -/
theorem add_ok (h : p.add owner path file = .ok p') :
    p.byPath.get? path = none ∧ p' = ⟨p.byPath.insert path ⟨owner, path, file⟩⟩ := by
  unfold add at h
  split at h
  · cases h
  · split at h
    · cases h
    · rename_i hfree
      cases h
      exact ⟨hfree, rfl⟩

/-- An addition that succeeds replaces nothing. -/
theorem add_keeps (h : p.add owner path file = .ok p') {k : String}
    (hk : p.byPath.get? k = some a) : p'.byPath.get? k = some a := by
  obtain ⟨hfree, rfl⟩ := add_ok h
  rw [SortedMap.get?_insert, if_neg]
  · exact hk
  · rintro rfl
    rw [hfree] at hk
    cases hk

/-- Add artifacts in order, as far as none is refused. -/
def addEach (p : Plan) (additions : List Artifact) : Except Fault Plan :=
  additions.foldlM (fun p a => p.add a.owner a.path a.file) p

/-- Every artifact of a plan stands under its own path. -/
def Keyed (p : Plan) : Prop := ∀ k a, p.byPath.get? k = some a → a.path = k

theorem keyed_empty : empty.Keyed := nofun

theorem Keyed.add (hp : p.Keyed) (h : p.add owner path file = .ok p') : p'.Keyed := by
  obtain ⟨_, rfl⟩ := add_ok h
  intro k a hk
  rw [SortedMap.get?_insert] at hk
  split at hk
  · rename_i hpath
    cases hk
    exact hpath
  · exact hp k a hk

theorem Keyed.addEach {additions : List Artifact} (hp : p.Keyed)
    (h : p.addEach additions = .ok p') : p'.Keyed := by
  induction additions generalizing p with
  | nil =>
    cases h
    exact hp
  | cons a additions ih =>
    rw [Plan.addEach, List.foldlM_cons] at h
    obtain ⟨q, hq, h⟩ := except_bind_ok h
    exact ih (hp.add hq) h

/-- **Every artifact of a plan stands under its own path**, whatever has been added. -/
theorem keyed_addEach {additions : List Artifact} (h : empty.addEach additions = .ok p) :
    p.Keyed := keyed_empty.addEach h

/-- The artifacts of a plan have the paths that it knows. -/
theorem Keyed.paths (hp : p.Keyed) : p.toList.map (·.path) = p.byPath.keys := by
  unfold toList SortedMap.values SortedMap.keys
  rw [List.map_map]
  refine List.map_congr_left fun e he => ?_
  exact hp e.1 e.2 ((p.byPath.mem_entries_iff e.1 e.2).1 he)

/-- The artifacts of a plan are in the order of their paths. -/
theorem Keyed.increasing (hp : p.Keyed) : (p.toList.map (·.path)).Pairwise (· < ·) := by
  rw [hp.paths]
  exact List.pairwise_map.2 p.byPath.increasing

theorem Keyed.nodup (hp : p.Keyed) : (p.toList.map (·.path)).Nodup := by
  rw [hp.paths]
  exact p.byPath.nodup_keys

theorem Keyed.mem_toList (hp : p.Keyed) : a ∈ p.toList ↔ p.byPath.get? a.path = some a := by
  rw [toList, SortedMap.mem_values_iff]
  constructor
  · rintro ⟨k, hk⟩
    rwa [hp k a hk]
  · exact fun h => ⟨a.path, h⟩

/-! ## The files of a generator -/

/-- The files of a generator replace nothing. -/
theorem addEntries_keeps {es : List (String × GeneratedFile)}
    (h : p.addEntries owner es = (p', .ok ())) {k : String} (hk : p.byPath.get? k = some a) :
    p'.byPath.get? k = some a := by
  induction es generalizing p with
  | nil =>
    cases h
    exact hk
  | cons e es ih =>
    rw [addEntries] at h
    split at h
    · rename_i q hq
      exact ih h (add_keeps hq hk)
    · cases h

/-- A plan holds the files of a generator that have been added, and what it held before. -/
theorem get?_addEntries {es : List (String × GeneratedFile)}
    (h : p.addEntries owner es = (p', .ok ())) (k : String) :
    p'.byPath.get? k =
      ((findEntry k es).map fun file => ⟨owner, k, file⟩).or (p.byPath.get? k) := by
  induction es generalizing p with
  | nil =>
    cases h
    rfl
  | cons e es ih =>
    obtain ⟨path, file⟩ := e
    rw [addEntries] at h
    split at h
    · rename_i q hq
      have hadded := (add_ok hq).2
      by_cases hpath : path = k
      · subst hpath
        have hq : q.byPath.get? path = some ⟨owner, path, file⟩ := by simp [hadded]
        simp [addEntries_keeps h hq, findEntry]
      · rw [ih h, hadded, SortedMap.get?_insert, findEntry, if_neg hpath, if_neg hpath]
    · cases h

theorem Keyed.addEntries {es : List (String × GeneratedFile)} (hp : p.Keyed)
    (h : p.addEntries owner es = (p', .ok ())) : p'.Keyed := by
  intro k a hk
  rw [get?_addEntries h] at hk
  cases hfind : findEntry k es with
  | none => exact hp k a (by simpa [hfind] using hk)
  | some file =>
    rw [hfind] at hk
    cases hk
    rfl

end ArchSpec.Plan
