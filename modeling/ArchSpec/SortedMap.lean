/-!
# Finite maps with text keys in increasing order

Components, symbols, operations and planned files are all kept under a text key and listed in key
order. A `SortedMap` is the list of its entries, and the order is part of the type, so two maps
with the same look-ups are equal (`SortedMap.ext_get?`).

* `SortedMap.get?_insert` — an insertion changes one look-up and no other.
* `SortedMap.mem_entries_iff` — an entry is listed exactly when the look-up finds it.
-/

namespace ArchSpec

/-- Put `v` under `k` into entries that are in key order, over an earlier value if there is one. -/
def insertEntry {α : Type} (k : String) (v : α) : List (String × α) → List (String × α)
  | [] => [(k, v)]
  | e :: rest =>
    if k < e.1 then (k, v) :: e :: rest
    else if e.1 < k then e :: insertEntry k v rest
    else (k, v) :: rest

/-- The first value under `k`. -/
def findEntry {α : Type} (k : String) : List (String × α) → Option α
  | [] => none
  | e :: rest => if e.1 = k then some e.2 else findEntry k rest

/-- Keys strictly increase along the list. -/
abbrev KeysIncrease {α : Type} (es : List (String × α)) : Prop :=
  es.Pairwise (fun a b => a.1 < b.1)

theorem mem_insertEntry {α : Type} {k : String} {v : α} {es : List (String × α)} {e : String × α}
    (h : e ∈ insertEntry k v es) : e = (k, v) ∨ e ∈ es := by
  induction es with
  | nil => simpa [insertEntry] using h
  | cons a rest ih =>
    unfold insertEntry at h
    split at h
    · simpa using h
    · split at h
      · rcases List.mem_cons.1 h with h | h
        · exact .inr (h ▸ List.mem_cons_self)
        · exact (ih h).imp id (List.mem_cons_of_mem _)
      · rcases List.mem_cons.1 h with h | h
        · exact .inl h
        · exact .inr (List.mem_cons_of_mem _ h)

/-- What is there after entries have been put in one by one was put in or was there before. -/
theorem mem_foldl_insertEntry {α : Type} {es seen : List (String × α)} {e : String × α}
    (h : e ∈ es.foldl (fun acc e => insertEntry e.1 e.2 acc) seen) : e ∈ es ∨ e ∈ seen := by
  induction es generalizing seen with
  | nil => exact .inr h
  | cons a rest ih =>
    rcases ih h with h | h
    · exact .inl (List.mem_cons_of_mem _ h)
    · rcases mem_insertEntry h with rfl | h
      · exact .inl List.mem_cons_self
      · exact .inr h

theorem keysIncrease_insertEntry {α : Type} (k : String) (v : α) {es : List (String × α)}
    (h : KeysIncrease es) : KeysIncrease (insertEntry k v es) := by
  induction es with
  | nil => simp [insertEntry]
  | cons a rest ih =>
    have hr := List.pairwise_cons.1 h
    unfold insertEntry
    split
    · rename_i hk
      refine List.pairwise_cons.2 ⟨?_, h⟩
      intro b hb
      rcases List.mem_cons.1 hb with rfl | hb
      · exact hk
      · exact String.lt_trans hk (hr.1 b hb)
    · split
      · rename_i hk
        refine List.pairwise_cons.2 ⟨?_, ih hr.2⟩
        intro b hb
        rcases mem_insertEntry hb with rfl | hb
        · exact hk
        · exact hr.1 b hb
      · rename_i h1 h2
        have hka : k = a.1 := String.le_antisymm h2 h1
        refine List.pairwise_cons.2 ⟨?_, hr.2⟩
        intro b hb
        exact hka ▸ hr.1 b hb

theorem findEntry_insertEntry {α : Type} (k k' : String) (v : α) (es : List (String × α)) :
    findEntry k' (insertEntry k v es) = if k = k' then some v else findEntry k' es := by
  induction es with
  | nil => simp [insertEntry, findEntry]
  | cons a rest ih =>
    unfold insertEntry
    split
    · simp [findEntry]
    · split
      · rename_i hk
        have hne : a.1 ≠ k := fun e => String.lt_irrefl k (e ▸ hk)
        by_cases hkk : k = k'
        · subst hkk
          simp [findEntry, hne, ih]
        · by_cases ha : a.1 = k' <;> simp [findEntry, ha, hkk, ih]
      · rename_i h1 h2
        have hka : k = a.1 := String.le_antisymm h2 h1
        by_cases hkk : k = k'
        · simp [findEntry, hkk]
        · have ha : a.1 ≠ k' := fun e => hkk (hka.trans e)
          simp [findEntry, hkk, ha]

theorem findEntry_append {α : Type} (k : String) (es fs : List (String × α)) :
    findEntry k (es ++ fs) = (findEntry k es).or (findEntry k fs) := by
  induction es with
  | nil => rfl
  | cons a rest ih =>
    by_cases ha : a.1 = k <;> simp [findEntry, ha, ih]

/-- Of entries that are put in one by one, the last one under a key is found. -/
theorem findEntry_foldl {α : Type} (k : String) (es seen : List (String × α)) :
    findEntry k (es.foldl (fun acc e => insertEntry e.1 e.2 acc) seen) =
      (findEntry k es.reverse).or (findEntry k seen) := by
  induction es generalizing seen with
  | nil => rfl
  | cons a rest ih =>
    rw [List.foldl_cons, ih, findEntry_insertEntry, List.reverse_cons, findEntry_append,
      Option.or_assoc]
    by_cases ha : a.1 = k <;> simp [findEntry, ha]

/-- A new key makes the entries one longer. -/
theorem length_insertEntry {α : Type} {k : String} {es : List (String × α)}
    (h : findEntry k es = none) (v : α) : (insertEntry k v es).length = es.length + 1 := by
  induction es with
  | nil => rfl
  | cons a rest ih =>
    have ha : a.1 ≠ k := fun e => by simp [findEntry, e] at h
    rw [findEntry, if_neg ha] at h
    unfold insertEntry
    split
    · rfl
    · split
      · rw [List.length_cons, ih h, List.length_cons]
      · rename_i h1 h2
        exact absurd (String.le_antisymm h1 h2) ha

/-- A key after all others is put last. -/
theorem insertEntry_of_lt {α : Type} {k : String} (v : α) {es : List (String × α)}
    (h : ∀ e ∈ es, e.1 < k) : insertEntry k v es = es ++ [(k, v)] := by
  induction es with
  | nil => rfl
  | cons a rest ih =>
    have ha : a.1 < k := h a List.mem_cons_self
    have hnot : ¬k < a.1 := fun hlt => String.lt_irrefl k (String.lt_trans hlt ha)
    rw [insertEntry, if_neg hnot, if_pos ha, ih fun e he => h e (List.mem_cons_of_mem _ he)]
    rfl

/-- Entries that come in key order stay as they are when they are put in one by one. -/
theorem foldl_insertEntry {α : Type} {seen es : List (String × α)}
    (h : KeysIncrease (seen ++ es)) :
    es.foldl (fun acc e => insertEntry e.1 e.2 acc) seen = seen ++ es := by
  induction es generalizing seen with
  | nil => simp
  | cons a rest ih =>
    have hlt : ∀ e ∈ seen, e.1 < a.1 := fun e he =>
      (List.pairwise_append.1 h).2.2 e he a List.mem_cons_self
    have hsplit : seen ++ a :: rest = (seen ++ [a]) ++ rest := by simp
    rw [hsplit] at h ⊢
    rw [List.foldl_cons, insertEntry_of_lt a.2 hlt]
    exact ih h

theorem findEntry_eq_none_of_lt {α : Type} {k : String} {es : List (String × α)}
    (h : ∀ e ∈ es, k < e.1) : findEntry k es = none := by
  induction es with
  | nil => rfl
  | cons a rest ih =>
    have ha : a.1 ≠ k := fun e => String.lt_irrefl k (e ▸ h a List.mem_cons_self)
    simp [findEntry, ha, ih (fun e he => h e (List.mem_cons_of_mem _ he))]

theorem findEntry_map {α β : Type} (f : String → α → β) (k : String) (es : List (String × α)) :
    findEntry k (es.map fun e => (e.1, f e.1 e.2)) = (findEntry k es).map (f k) := by
  induction es with
  | nil => rfl
  | cons a rest ih =>
    by_cases ha : a.1 = k
    · subst ha
      simp [findEntry]
    · simpa [findEntry, ha] using ih

theorem mem_of_findEntry {α : Type} {k : String} {v : α} {es : List (String × α)}
    (h : findEntry k es = some v) : (k, v) ∈ es := by
  induction es with
  | nil => cases h
  | cons e es ih =>
    rw [findEntry] at h
    split at h
    · rename_i hk
      cases h
      rw [← hk]
      exact List.mem_cons_self
    · exact List.mem_cons_of_mem _ (ih h)

/-- Under the key of an entry something is found, if not this entry then one before it. -/
theorem exists_findEntry_of_mem {α : Type} {e : String × α} {es : List (String × α)}
    (h : e ∈ es) : ∃ v, findEntry e.1 es = some v := by
  induction es with
  | nil => cases h
  | cons f es ih =>
    by_cases hf : f.1 = e.1
    · exact ⟨f.2, by rw [findEntry, if_pos hf]⟩
    · obtain ⟨v, hv⟩ := ih ((List.mem_cons.1 h).resolve_left fun he => hf (he ▸ rfl))
      exact ⟨v, by rw [findEntry, if_neg hf, hv]⟩

/-- Of entries under different keys, each is found under its own. -/
theorem findEntry_iff_mem {α : Type} {es : List (String × α)} (h : (es.map (·.1)).Nodup)
    {k : String} {v : α} : findEntry k es = some v ↔ (k, v) ∈ es := by
  refine ⟨mem_of_findEntry, fun hmem => ?_⟩
  induction es with
  | nil => cases hmem
  | cons e es ih =>
    obtain ⟨hfirst, hrest⟩ := List.nodup_cons.1 h
    rcases List.mem_cons.1 hmem with rfl | hmem
    · exact if_pos rfl
    · have hk : e.1 ≠ k := fun hk => hfirst (List.mem_map.2 ⟨(k, v), hmem, hk.symm⟩)
      rw [findEntry, if_neg hk, ih hrest hmem]

theorem KeysIncrease.nodup {α : Type} {es : List (String × α)} (h : KeysIncrease es) :
    (es.map (·.1)).Nodup := by
  refine List.pairwise_map.2 (h.imp ?_)
  intro a b hab e
  exact String.lt_irrefl a.1 (e ▸ hab)

/-- A finite map from texts to values, as its entries in increasing key order. -/
structure SortedMap (α : Type) where
  entries : List (String × α)
  increasing : KeysIncrease entries

namespace SortedMap

variable {α β : Type}

def empty : SortedMap α := ⟨[], List.Pairwise.nil⟩

instance : Inhabited (SortedMap α) := ⟨empty⟩

instance : EmptyCollection (SortedMap α) := ⟨empty⟩

/-- The value under `k`, if there is one. -/
def get? (m : SortedMap α) (k : String) : Option α := findEntry k m.entries

def contains (m : SortedMap α) (k : String) : Bool := (m.get? k).isSome

/-- Put `v` under `k`, over an earlier value if there is one. -/
def insert (m : SortedMap α) (k : String) (v : α) : SortedMap α :=
  ⟨insertEntry k v m.entries, keysIncrease_insertEntry k v m.increasing⟩

/-- The map of a list of entries; a later entry replaces an earlier one with its key. -/
def ofList (es : List (String × α)) : SortedMap α := es.foldl (fun m e => m.insert e.1 e.2) empty

/-- The keys, increasing. -/
def keys (m : SortedMap α) : List String := m.entries.map (·.1)

/-- The values, in key order. -/
def values (m : SortedMap α) : List α := m.entries.map (·.2)

def size (m : SortedMap α) : Nat := m.entries.length

def isEmpty (m : SortedMap α) : Bool := m.entries.isEmpty

/-- Apply `f` to the value under `k`; a map without `k` stays as it is. -/
def modify (m : SortedMap α) (k : String) (f : α → α) : SortedMap α :=
  match m.get? k with
  | none => m
  | some v => m.insert k (f v)

/-- Keep the entries whose key and value pass the test. -/
def filter (p : String → α → Bool) (m : SortedMap α) : SortedMap α :=
  ⟨m.entries.filter (fun e => p e.1 e.2), m.increasing.sublist List.filter_sublist⟩

/-- Replace every value by a function of its key and itself. -/
def mapValues (f : String → α → β) (m : SortedMap α) : SortedMap β :=
  ⟨m.entries.map (fun e => (e.1, f e.1 e.2)), by
    refine List.pairwise_map.2 ?_
    exact m.increasing⟩

@[simp] theorem get?_empty (k : String) : (empty : SortedMap α).get? k = none := rfl

theorem get?_insert (m : SortedMap α) (k k' : String) (v : α) :
    (m.insert k v).get? k' = if k = k' then some v else m.get? k' :=
  findEntry_insertEntry k k' v m.entries

@[simp] theorem get?_insert_self (m : SortedMap α) (k : String) (v : α) :
    (m.insert k v).get? k = some v := by
  simp [get?_insert]

theorem size_insert {m : SortedMap α} {k : String} (h : m.get? k = none) (v : α) :
    (m.insert k v).size = m.size + 1 := length_insertEntry h v

theorem mem_entries_iff (m : SortedMap α) (k : String) (v : α) :
    (k, v) ∈ m.entries ↔ m.get? k = some v :=
  (findEntry_iff_mem m.increasing.nodup).symm

theorem mem_keys_iff (m : SortedMap α) (k : String) : k ∈ m.keys ↔ m.contains k = true := by
  unfold keys contains
  rw [Option.isSome_iff_exists]
  constructor
  · intro h
    obtain ⟨e, he, rfl⟩ := List.mem_map.1 h
    exact ⟨e.2, (m.mem_entries_iff e.1 e.2).1 he⟩
  · rintro ⟨v, hv⟩
    exact List.mem_map.2 ⟨(k, v), (m.mem_entries_iff k v).2 hv, rfl⟩

theorem mem_values_iff (m : SortedMap α) (v : α) : v ∈ m.values ↔ ∃ k, m.get? k = some v := by
  unfold values
  rw [List.mem_map]
  constructor
  · rintro ⟨e, he, rfl⟩
    exact ⟨e.1, (m.mem_entries_iff e.1 e.2).1 he⟩
  · rintro ⟨k, hk⟩
    exact ⟨(k, v), (m.mem_entries_iff k v).2 hk, rfl⟩

theorem length_keys (m : SortedMap α) : m.keys.length = m.size := List.length_map _

theorem nodup_keys (m : SortedMap α) : m.keys.Nodup := m.increasing.nodup

theorem get?_modify (m : SortedMap α) (k k' : String) (f : α → α) :
    (m.modify k f).get? k' = if k = k' then (m.get? k').map f else m.get? k' := by
  unfold modify
  split
  · rename_i hk
    split
    · rename_i e
      rw [← e, hk]
      rfl
    · rfl
  · rename_i v hk
    rw [get?_insert]
    split
    · rename_i e
      rw [← e, hk]
      rfl
    · rfl

theorem get?_mapValues (m : SortedMap α) (f : String → α → β) (k : String) :
    (m.mapValues f).get? k = (m.get? k).map (f k) :=
  findEntry_map f k m.entries

theorem entries_ofList (es : List (String × α)) :
    (ofList es).entries = es.foldl (fun acc e => insertEntry e.1 e.2 acc) [] := by
  have hfold : ∀ m : SortedMap α, (es.foldl (fun m e => m.insert e.1 e.2) m).entries =
      es.foldl (fun acc e => insertEntry e.1 e.2 acc) m.entries := by
    intro m
    induction es generalizing m with
    | nil => rfl
    | cons e es ih => exact ih _
  exact hfold empty

/-- A map of entries under different keys holds these entries. -/
theorem get?_ofList_iff {es : List (String × α)} (h : (es.map (·.1)).Nodup)
    {k : String} {v : α} : (ofList es).get? k = some v ↔ (k, v) ∈ es := by
  have hreverse : (es.reverse.map (·.1)).Nodup := by
    rw [List.map_reverse]
    exact List.pairwise_reverse.2 (h.imp Ne.symm)
  rw [get?, entries_ofList, findEntry_foldl, findEntry, Option.or_none, findEntry_iff_mem hreverse,
    List.mem_reverse]

/-- Two lists of entries in key order with the same look-ups are one list. -/
theorem entries_eq_of_findEntry_eq {es fs : List (String × α)} (he : KeysIncrease es)
    (hf : KeysIncrease fs) (h : ∀ k, findEntry k es = findEntry k fs) : es = fs := by
  induction es generalizing fs with
  | nil =>
    cases fs with
    | nil => rfl
    | cons b fs => simpa [findEntry] using h b.1
  | cons a es ih =>
    have hea := List.pairwise_cons.1 he
    cases fs with
    | nil => simpa [findEntry] using h a.1
    | cons b fs =>
      have hfb := List.pairwise_cons.1 hf
      have hab : a.1 = b.1 := by
        apply String.le_antisymm
        · intro hlt
          have h1 := h b.1
          have : findEntry b.1 (a :: es) = none := findEntry_eq_none_of_lt (by
            intro e hm
            rcases List.mem_cons.1 hm with rfl | hm
            · exact hlt
            · exact String.lt_trans hlt (hea.1 e hm))
          rw [this] at h1
          simp [findEntry] at h1
        · intro hlt
          have h1 := h a.1
          have : findEntry a.1 (b :: fs) = none := findEntry_eq_none_of_lt (by
            intro e hm
            rcases List.mem_cons.1 hm with rfl | hm
            · exact hlt
            · exact String.lt_trans hlt (hfb.1 e hm))
          rw [this] at h1
          simp [findEntry] at h1
      have hv : a.2 = b.2 := by simpa [findEntry, hab] using h a.1
      have hab' : a = b := Prod.ext hab hv
      subst hab'
      rw [ih hea.2 hfb.2 fun k => ?_]
      by_cases hk : a.1 = k
      · subst hk
        rw [findEntry_eq_none_of_lt hea.1, findEntry_eq_none_of_lt hfb.1]
      · simpa [findEntry, hk] using h k

/-- A map is determined by its look-ups. -/
theorem ext_get? {m n : SortedMap α} (h : ∀ k, m.get? k = n.get? k) : m = n := by
  obtain ⟨es, he⟩ := m
  obtain ⟨fs, hf⟩ := n
  have := entries_eq_of_findEntry_eq he hf h
  subst this
  rfl

/-- The entries of a map make that map. -/
theorem ofList_entries (m : SortedMap α) : ofList m.entries = m := by
  refine ext_get? fun k => ?_
  have hincreasing : KeysIncrease ([] ++ m.entries) := m.increasing
  unfold get?
  rw [entries_ofList, foldl_insertEntry hincreasing, List.nil_append]

end SortedMap

end ArchSpec
