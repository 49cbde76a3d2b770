import Mathlib.Data.List.Basic
import Mathlib.Data.Option.Basic
import ArchSpec.Contract
import ArchSpec.Proofs.Json.Whole

/-!
# Records as document values

A record is written as an object that leaves out the fields that are absent. If no two fields have
one name, then each of them can be read off the object, the absent ones included, so the object
tells the record.

* `Value.ofRecord` — the object of a record; `field?_ofRecord` — its fields.
* `Value.ofRecord_inj` — the object tells all fields.
* `Value.textUnlessNil`, `Value.listUnlessNil` — fields that are absent if they are empty.
* `Json.Whole.ofRecord` — what has to be known of the fields.
-/

namespace ArchSpec

namespace Value

variable {fields fields' : List (String × Option Value)}

/-- The object of the fields that are not absent. -/
def ofRecord (fields : List (String × Option Value)) : Value :=
  .ofFields (fields.flatMap fun f => optionalField f.1 f.2)

theorem findEntry_optionalField (k name : String) (v : Option Value) :
    findEntry k (optionalField name v).reverse = if name = k then v else none := by
  cases v <;> simp [optionalField, findEntry]

theorem field?_ofRecord_cons (k : String) (f : String × Option Value)
    (fields : List (String × Option Value)) : (ofRecord (f :: fields)).field? k =
      ((ofRecord fields).field? k).or (if f.1 = k then f.2 else none) := by
  rw [ofRecord, ofRecord, field?_ofFields, field?_ofFields, List.flatMap_cons, List.reverse_append,
    findEntry_append, findEntry_optionalField]

theorem field?_ofRecord_of_not_mem {k : String} (h : k ∉ fields.map (·.1)) :
    (ofRecord fields).field? k = none := by
  induction fields with
  | nil => rfl
  | cons f fields ih =>
    rw [List.map_cons, List.mem_cons, not_or] at h
    rw [field?_ofRecord_cons, ih h.2, if_neg (Ne.symm h.1)]
    rfl

/-- **Every field can be read off**, if no two have one name. -/
theorem field?_ofRecord (hnames : (fields.map (·.1)).Nodup) {f : String × Option Value}
    (hf : f ∈ fields) : (ofRecord fields).field? f.1 = f.2 := by
  induction fields with
  | nil => cases hf
  | cons g fields ih =>
    rw [List.map_cons, List.nodup_cons] at hnames
    rw [field?_ofRecord_cons]
    rcases List.mem_cons.1 hf with rfl | hf
    · rw [field?_ofRecord_of_not_mem hnames.1, if_pos rfl]
      rfl
    · have hne : g.1 ≠ f.1 := fun heq => hnames.1 (heq ▸ List.mem_map_of_mem hf)
      rw [ih hnames.2 hf, if_neg hne, Option.or_none]

theorem eq_map_of_nodup (hnames : (fields.map (·.1)).Nodup) :
    fields = (fields.map (·.1)).map fun k => (k, (ofRecord fields).field? k) := by
  rw [List.map_map]
  refine List.ext_getElem (by rw [List.length_map]) fun i hi _ => ?_
  rw [List.getElem_map, Function.comp_apply, field?_ofRecord hnames (List.getElem_mem hi)]

/-- **The object of a record tells the record.** -/
theorem ofRecord_inj (h : ofRecord fields = ofRecord fields')
    (hsame : fields'.map (·.1) = fields.map (·.1)) (hnames : (fields.map (·.1)).Nodup) :
    fields = fields' := by
  rw [eq_map_of_nodup hnames, @eq_map_of_nodup fields' (hsame ▸ hnames), h, hsame]

end Value

/-! ## Fields that are left out -/

/-- A text, unless it is empty. -/
def Value.textUnlessNil (s : String) : Option Value := if s.isEmpty then none else some (.text s)

/-- A list, unless it is empty. -/
def Value.listUnlessNil (vs : List Value) : Option Value :=
  if vs.isEmpty then none else some (.list vs)

namespace Value

theorem textUnlessEmpty_eq (name s : String) :
    textUnlessEmpty name s = optionalField name (textUnlessNil s) := by
  unfold textUnlessEmpty textUnlessNil
  split <;> rfl

theorem listUnlessEmpty_eq (name : String) (vs : List Value) :
    listUnlessEmpty name vs = optionalField name (listUnlessNil vs) := by
  unfold listUnlessEmpty listUnlessNil
  split <;> rfl

theorem textUnlessNil_inj {s s' : String} (h : textUnlessNil s = textUnlessNil s') : s = s' := by
  unfold textUnlessNil at h
  split at h <;> split at h <;> simp_all

theorem listUnlessNil_inj {vs ws : List Value} (h : listUnlessNil vs = listUnlessNil ws) :
    vs = ws := by
  unfold listUnlessNil at h
  split at h <;> split at h <;> simp_all

theorem text_injective : Function.Injective Value.text := fun _ _ => Value.text.inj

theorem texts_injective : Function.Injective Value.texts := fun _ _ h =>
  List.map_injective_iff.2 text_injective (Value.list.inj h)

end Value

/-! ## Whole numbers -/

namespace Json

/-- A field that is absent, or that has no numbers but integers of 64 bits. -/
def WholeField (v : Option Value) : Prop := ∀ w ∈ v, Whole w

theorem Whole.field {v : Value} (h : Whole v) : WholeField (some v) := by
  intro w hw
  rwa [← Option.mem_some_iff.1 hw]

theorem wholeField_map {α : Type} {f : α → Value} {a : Option α} (h : ∀ x ∈ a, Whole (f x)) :
    WholeField (a.map f) := by
  intro w hw
  obtain ⟨x, hx, rfl⟩ := Option.mem_map.1 hw
  exact h x hx

theorem wholeField_text (s : Option String) : WholeField (s.map .text) :=
  wholeField_map fun t _ => .text t

theorem wholeField_flag (b : Bool) : WholeField (if b then some (.bool true) else none) := by
  cases b
  · nofun
  · exact (Whole.bool true).field

theorem wholeField_textUnlessNil (s : String) : WholeField (Value.textUnlessNil s) := by
  unfold Value.textUnlessNil
  split
  · nofun
  · exact (Whole.text s).field

theorem wholeField_listUnlessNil {vs : List Value} (h : ∀ v ∈ vs, Whole v) :
    WholeField (Value.listUnlessNil vs) := by
  unfold Value.listUnlessNil
  split
  · nofun
  · exact (Whole.list h).field

theorem wholeField_texts (xs : List String) :
    WholeField (Value.listUnlessNil (xs.map .text)) := by
  refine wholeField_listUnlessNil fun v hv => ?_
  obtain ⟨x, _, rfl⟩ := List.mem_map.1 hv
  exact .text x

/-- **A record is whole if its fields are.** -/
theorem Whole.ofRecord {fields : List (String × Option Value)}
    (h : ∀ f ∈ fields, WholeField f.2) : Whole (Value.ofRecord fields) := by
  refine Whole.ofFields fun e he => ?_
  obtain ⟨f, hf, he⟩ := List.mem_flatMap.1 he
  unfold optionalField at he
  split at he
  · cases he
  · rename_i v hv
    rw [List.mem_singleton.1 he]
    exact h f hf v hv

end Json

/-! ## Maps -/

/-- A map is told by its document value if its values are. -/
theorem SortedMap.toValue_injective {α : Type} {f : α → Value} (hf : Function.Injective f) :
    Function.Injective (SortedMap.toValue f) := by
  intro m n h
  have hentries : m.entries = n.entries := by
    refine List.map_injective_iff.2 (fun e e' he => ?_) (Value.object.inj h)
    obtain ⟨hkey, hvalue⟩ := Prod.mk.inj he
    exact Prod.ext hkey (hf hvalue)
  obtain ⟨es, _⟩ := m
  obtain ⟨fs, _⟩ := n
  cases hentries
  rfl

theorem Json.Whole.ofMap {α : Type} {f : α → Value} {m : SortedMap α}
    (h : ∀ v ∈ m.values, Whole (f v)) : Whole (m.toValue f) := by
  refine .object fun e he => ?_
  obtain ⟨e', he', rfl⟩ := List.mem_map.1 he
  exact h e'.2 (List.mem_map_of_mem he')

end ArchSpec
