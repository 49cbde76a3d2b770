import ArchSpec.Cache.Stored
import ArchSpec.Proofs.FileStore.Replace
import ArchSpec.Proofs.Json.Layout

/-!
# Saved caches are loaded as they were

The text of a cache says all that the cache remembers, in fields whose order does not count.

* `Cache.ofText_text` — the text of a cache describes that cache.
* `Cache.load_ok`, `Cache.load_saved` — what is loaded from a file.
* `Cache.save_changes`, `Cache.save_ok` — what saving changes.
-/

namespace ArchSpec

open FileStore (temporaryPath)
open Json (inOrder inOrder_text Readable)

/-! ## Values of texts and maps -/

theorem readable_texts {depth : Nat} (xs : List String) : Readable (depth + 1) (.texts xs) := by
  refine .list fun v hv => ?_
  obtain ⟨s, _, rfl⟩ := List.mem_map.1 hv
  exact .text s

theorem inOrder_texts (xs : List String) : inOrder (.texts xs) = .texts xs := by
  rw [Value.texts, inOrder, Json.itemsInOrder_eq, List.map_map]
  exact congrArg _ (List.map_congr_left fun x _ => inOrder_text x)

theorem readable_map {α : Type} {depth : Nat} {f : α → Value} (h : ∀ a, Readable depth (f a))
    (m : SortedMap α) : Readable (depth + 1) (m.toValue f) := by
  refine .object fun e he => ?_
  obtain ⟨a, _, rfl⟩ := List.mem_map.1 he
  exact h a.2

/-- The entries of a map are in order; what stands under them may have to be put in order. -/
theorem inOrder_map {α : Type} (f : α → Value) (m : SortedMap α) :
    inOrder (m.toValue f) = m.toValue fun a => inOrder (f a) := by
  have hincreasing : KeysIncrease ([] ++ m.entries.map fun e => (e.1, inOrder (f e.2))) :=
    List.pairwise_map.2 m.increasing
  rw [SortedMap.toValue, inOrder, Json.fieldsInOrder_eq, List.map_map]
  exact congrArg Value.object (foldl_insertEntry hincreasing)

/-! ## Caches -/

theorem CacheEntry.inOrder_toValue (e : CacheEntry) : inOrder e.toValue =
    .ofFields [("hash", .text e.hash), ("artifacts", .texts e.artifacts)] := by
  rw [CacheEntry.toValue, inOrder, Json.fieldsInOrder_eq]
  simp only [List.map_cons, List.map_nil, inOrder_text, inOrder_texts]

namespace Cache

theorem textsOf?_texts (xs : List String) : textsOf? (xs.map .text) = some xs := by
  induction xs with
  | nil => rfl
  | cons x xs ih => rw [List.map_cons, textsOf?, ih, Option.map_some]

theorem entryOf?_ofFields (fields : List (String × Value)) : entryOf? (.ofFields fields) = do
    let hash ← ((Value.ofFields fields).field? "hash").bind Value.text?
    let artifacts ← optionalTexts? ((Value.ofFields fields).field? "artifacts")
    return ⟨hash, artifacts⟩ := rfl

theorem entryOf?_toValue (e : CacheEntry) : entryOf? (inOrder e.toValue) = some e := by
  have htexts : optionalTexts? (some (.texts e.artifacts)) = some e.artifacts :=
    textsOf?_texts e.artifacts
  rw [CacheEntry.inOrder_toValue, entryOf?_ofFields]
  simp [Value.field?_ofFields, findEntry, htexts, Value.text?]

theorem entriesOf?_map (es : List (String × CacheEntry)) :
    entriesOf? (es.map fun e => (e.1, inOrder e.2.toValue)) = some es := by
  induction es with
  | nil => rfl
  | cons e es ih => simp [entriesOf?, entryOf?_toValue, ih]

theorem inOrder_toValue (c : Cache) : inOrder c.toValue =
    .ofFields [("cache_version", .text c.version), ("specHash", .text c.specHash),
      ("components", c.components.toValue fun e => inOrder e.toValue)] := by
  rw [toValue, inOrder, Json.fieldsInOrder_eq]
  simp only [List.map_cons, List.map_nil, inOrder_text, inOrder_map]

theorem ofValue?_toValue (c : Cache) : ofValue? (inOrder c.toValue) = some c := by
  have hcomponents : componentsOf? (some (c.components.toValue fun e => inOrder e.toValue)) =
      some c.components := by
    rw [componentsOf?, SortedMap.toValue, Value.fields?, Option.bind_some, entriesOf?_map,
      Option.map_some, SortedMap.ofList_entries]
  rw [inOrder_toValue, ofValue?]
  simp [Value.field?_ofFields, findEntry, hcomponents, optionalText?, Value.text?]

theorem readable_toValue (c : Cache) : Readable Json.maxDepth c.toValue := by
  have hentry : ∀ e : CacheEntry, Readable 2 e.toValue := by
    intro e
    refine .object fun f hf => ?_
    simp only [List.mem_cons, List.not_mem_nil, or_false] at hf
    rcases hf with rfl | rfl
    · exact .text _
    · exact readable_texts _
  refine Readable.mono (show 4 ≤ Json.maxDepth by decide) (.object fun f hf => ?_)
  simp only [List.mem_cons, List.not_mem_nil, or_false] at hf
  rcases hf with rfl | rfl | rfl
  · exact .text _
  · exact .text _
  · exact readable_map hentry _

/-- **The text of a cache describes that cache**, unless the cache is of another version; then it
counts as none. -/
theorem ofText_text (c : Cache) :
    ofText c.text = .ok (if c.version = cacheVersion then c else empty) := by
  have hversion : ((inOrder c.toValue).field? "cache_version").bind Value.text? =
      some c.version := by
    rw [inOrder_toValue, Value.field?_ofFields]
    rfl
  rw [ofText, text, Json.read_pretty c.readable_toValue]
  simp only [hversion, Option.some.injEq, ofValue?_toValue]
  split <;> rfl

theorem optionalText?_of_text {field : Option Value} {s : String}
    (h : field.bind Value.text? = some s) : optionalText? field = some s := by
  cases field with
  | none => cases h
  | some v => exact h

/-- The cache that a text describes is of this version. -/
theorem version_of_ofText {text : String} {c : Cache} (h : ofText text = .ok c) :
    c.version = cacheVersion := by
  unfold ofText at h
  split at h
  · cases h
  · rename_i v _
    split at h
    · rename_i hversion
      split at h
      · cases h
      · rename_i hvalue
        cases h
        obtain ⟨version, hread, hvalue⟩ := Option.bind_eq_some_iff.1 hvalue
        obtain ⟨_, _, hvalue⟩ := Option.bind_eq_some_iff.1 hvalue
        obtain ⟨_, _, hvalue⟩ := Option.bind_eq_some_iff.1 hvalue
        cases hvalue
        rw [optionalText?_of_text hversion] at hread
        exact (Option.some.inj hread).symm
    · cases h
      rfl

/-! ## Files of caches -/

section

variable {t u : FileTree} {path : Path} {c : Cache}

theorem run_load (path : Path) (t : FileTree) :
    (load path : Action (StateM FileTree) Cache).run t =
      if t.existsAt path then
        match t.readText path with
        | .error e => (.error (Failure.ofIo e ("Failed to read cache: " ++ path)), t)
        | .ok text => match ofText text with
          | .error f =>
            (.error (Failure.ofFault
              (.cache ("failed to parse cache " ++ path ++ ": " ++ f.message))), t)
          | .ok c => (.ok c, t)
      else (.ok empty, t) := by
  have hask : (liftM (FileStore.existsAt path : StateM FileTree Bool) :
      Action (StateM FileTree) Bool).run t = (.ok (t.existsAt path), t) := rfl
  rw [load, Action.run_bind_ok hask]
  cases hthere : t.existsAt path with
  | false => rfl
  | true =>
    simp only [Bool.not_true, Bool.false_eq_true, if_false, if_true]
    have hread : (Action.ofStore ("Failed to read cache: " ++ path)
      (FileStore.readText path : StateM FileTree _)).run t =
        ((t.readText path).mapError (Failure.ofIo · ("Failed to read cache: " ++ path)), t) := rfl
    cases hr : t.readText path with
    | error e =>
      rw [hr] at hread
      rw [Action.run_bind_error hread]
    | ok text =>
      rw [hr] at hread
      rw [Action.run_bind_ok hread]
      simp only
      cases ofText text <;> rfl

/-- Loading a cache changes nothing. -/
theorem load_state (path : Path) (t : FileTree) :
    ((load path : Action (StateM FileTree) Cache).run t).2 = t := by
  rw [run_load]
  split
  · split
    · rfl
    · split <;> rfl
  · rfl

theorem load_changes (path : Path) : Action.Changes [] (load path) := by
  intro t ht
  rw [load_state]
  exact .refl ht

/-- A cache that is loaded is the empty one if there is no file, and else that of the text. -/
theorem load_ok (h : (load path : Action (StateM FileTree) Cache).run t = (.ok c, u)) :
    u = t ∧ (c = empty ∨ ∃ text, t.readText path = .ok text ∧ ofText text = .ok c) := by
  rw [run_load] at h
  split at h
  · split at h
    · cases h
    · rename_i text hread
      split at h
      · cases h
      · rename_i hc
        cases h
        exact ⟨rfl, .inr ⟨text, hread, hc⟩⟩
  · cases h
    exact ⟨rfl, .inl rfl⟩

/-- What a saved cache is loaded as: a cache of another version counts as none. -/
theorem load_saved (h : t.readText path = .ok c.text) :
    (load path : Action (StateM FileTree) Cache).run t =
      (.ok (if c.version = cacheVersion then c else empty), t) := by
  have hthere : t.existsAt path = true := FileTree.existsAt_of_readText h
  rw [run_load, if_pos hthere, h]
  simp only
  rw [ofText_text]

/-- The cache that was saved is loaded, if it is of this version. -/
theorem load_current (hversion : c.version = cacheVersion) (h : t.readText path = .ok c.text) :
    (load path : Action (StateM FileTree) Cache).run t = (.ok c, t) := by
  rw [load_saved h, if_pos hversion]

/-- Every cache that is loaded is of this version. -/
theorem version_of_load (h : (load path : Action (StateM FileTree) Cache).run t = (.ok c, u)) :
    c.version = cacheVersion := by
  rcases (load_ok h).2 with rfl | ⟨text, _, htext⟩
  · rfl
  · exact version_of_ofText htext

theorem save_changes (c : Cache) (path : Path) :
    Action.Changes [temporaryPath path, path] (c.save path) :=
  (FileStore.replaceText_changes path c.text).within _

theorem save_ok (ht : t.WellFormed)
    (h : (c.save path : Action (StateM FileTree) Unit).run t = (.ok (), u)) :
    FileTree.ChangedAt [temporaryPath path, path] t u ∧ u.readText path = .ok c.text :=
  FileStore.replaceText_ok ht (Action.within_ok h)

end

end Cache

end ArchSpec
