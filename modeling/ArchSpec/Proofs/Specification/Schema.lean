import ArchSpec.Proofs.Specification.Form
import ArchSpec.Proofs.Version

/-!
# What the schema accepts

A value is accepted if nothing is found wrong with it. For the fields of components, for single
components and for whole documents this is said here without the check and its table of rules.

* `Schema.FieldsFit`, `Schema.ComponentFits`, `Schema.DocumentFits` — what is accepted.
* `FieldForm.Holds`, `fieldFits_iff`, `fieldsFit_iff` — the rules say the same of fields.
* `checkForm_eq_nil_iff`, `checkFields_eq_nil_iff`, `checkComponent_eq_nil_iff`,
  `checkObject_eq_nil_iff` — the check finds nothing exactly if that is so.
* `category_of_mem_check` — everything found in an object is a violation of the schema.
* `check_grammar` — which values are accepted, and what is reported for those that are no objects.
-/

namespace ArchSpec

/-! ## The grammar -/

/-- The fields that are texts of any form. -/
def Kind.textFields : Kind → List String
  | .server => ["framework", "openapi"]
  | .middleware => ["provider", "config", "model", "policy"]
  | .database => ["provider", "schema"]
  | .usecase => ["goal", "actor"]

/-- The fields that are lists of texts. -/
def Kind.listFields : Kind → List String
  | .server => ["middleware", "depends_on"]
  | .middleware => ["depends_on"]
  | .database => []
  | .usecase => ["middleware", "preconditions", "acceptance_criteria", "postconditions"]

/-- The fields that must be there. -/
def Kind.requiredFields : Kind → List String
  | .server => ["framework", "port"]
  | .middleware => ["provider"]
  | .database => ["provider", "schema"]
  | .usecase => ["binds_to", "goal"]

namespace Schema

/-- A component of some kind may have a field with this name and this value. -/
inductive FieldFits : Kind → String → Value → Prop where
  | text {k : Kind} {name : String} (h : name ∈ k.textFields) (s : String) :
    FieldFits k name (.text s)
  | texts {k : Kind} {name : String} (h : name ∈ k.listFields) (xs : List String) :
    FieldFits k name (.list (xs.map .text))
  | port {i : Int} (hmin : 1 ≤ i) (hmax : i ≤ 65535) : FieldFits .server "port" (.int i)
  | binding {s : String} (h : HasBindingForm s) : FieldFits .usecase "binds_to" (.text s)

/-- The fields of a component fit its kind. -/
structure FieldsFit (k : Kind) (fields : List (String × Value)) : Prop where
  fits : ∀ name v, findEntry name fields = some v → FieldFits k name v
  present : ∀ name ∈ k.requiredFields, (findEntry name fields).isSome = true

/-- An ID, a kind and fields, and nothing else. -/
structure ComponentFits (fields : List (String × Value)) (id kind : String) (k : Kind)
    (spec : List (String × Value)) : Prop where
  known : ∀ f ∈ fields, f.1 ∈ ["id", "kind", "spec"]
  idField : findEntry "id" fields = some (.text id)
  idForm : HasIdForm id
  kindField : findEntry "kind" fields = some (.text kind)
  kindKnown : kind ∈ k.spelled
  specField : findEntry "spec" fields = some (.object spec)
  specFits : FieldsFit k spec

/-- A value is a component that fits. -/
def IsComponent (v : Value) : Prop :=
  ∃ fields id kind k spec, v = .object fields ∧ ComponentFits fields id kind k spec

/-- A version, a name and components, perhaps a description, and nothing else. -/
structure DocumentFits (fields : List (String × Value)) (version name : String)
    (items : List Value) : Prop where
  known : ∀ f ∈ fields, f.1 ∈ ["version", "name", "description", "components"]
  versionField : findEntry "version" fields = some (.text version)
  versionForm : ∃ major minor patch release build,
    Version.Writes version major minor patch release build
  nameField : findEntry "name" fields = some (.text name)
  nameForm : name ≠ ""
  descriptionForm : ∀ v, findEntry "description" fields = some v → ∃ s, v = .text s
  componentsField : findEntry "components" fields = some (.list items)
  componentsFit : ∀ item ∈ items, IsComponent item

end Schema

/-! ## Rules -/

/-- Whether a value is what a field has to be. -/
def FieldForm.Holds : FieldForm → Value → Prop
  | .text, v => ∃ s, v = .text s
  | .texts, v => ∃ xs, v = .texts xs
  | .port, v => ∃ i, v = .int i ∧ 1 ≤ i ∧ i ≤ 65535
  | .binding, v => ∃ s, v = .text s ∧ Schema.HasBindingForm s

namespace Kind

variable {k : Kind}

theorem mem_textFields_iff {name : String} :
    name ∈ k.textFields ↔ ∃ r ∈ k.rules, r.name = name ∧ r.form = .text := by
  have hrules : k.textFields = (k.rules.filter (·.form = .text)).map (·.name) := by
    cases k <;> rfl
  simp [hrules, and_assoc, and_comm]

theorem mem_listFields_iff {name : String} :
    name ∈ k.listFields ↔ ∃ r ∈ k.rules, r.name = name ∧ r.form = .texts := by
  have hrules : k.listFields = (k.rules.filter (·.form = .texts)).map (·.name) := by
    cases k <;> rfl
  simp [hrules, and_assoc, and_comm]

theorem mem_requiredFields_iff {name : String} :
    name ∈ k.requiredFields ↔ ∃ r ∈ k.rules, r.name = name ∧ r.required = true := by
  have hrules : k.requiredFields = (k.rules.filter (·.required)).map (·.name) := by
    cases k <;> rfl
  simp [hrules, and_assoc, and_comm, and_left_comm]

theorem port_of_form : ∀ r ∈ k.rules, r.form = .port → k = .server ∧ r.name = "port" := by
  cases k <;> decide

theorem bindsTo_of_form :
    ∀ r ∈ k.rules, r.form = .binding → k = .usecase ∧ r.name = "binds_to" := by
  cases k <;> decide

/-- No two rules of a kind are about one field. -/
theorem eq_of_name_eq : ∀ r ∈ k.rules, ∀ r' ∈ k.rules, r.name = r'.name → r = r' := by
  cases k <;> decide

end Kind

namespace Schema

/-- **The grammar and the rules agree on every field.** -/
theorem fieldFits_iff {k : Kind} {name : String} {v : Value} :
    FieldFits k name v ↔ ∃ r ∈ k.rules, r.name = name ∧ r.form.Holds v := by
  constructor
  · intro h
    cases h with
    | text hname s =>
      obtain ⟨r, hr, hname, hform⟩ := Kind.mem_textFields_iff.1 hname
      exact ⟨r, hr, hname, by rw [hform]; exact ⟨s, rfl⟩⟩
    | texts hname xs =>
      obtain ⟨r, hr, hname, hform⟩ := Kind.mem_listFields_iff.1 hname
      exact ⟨r, hr, hname, by rw [hform]; exact ⟨xs, rfl⟩⟩
    | port hmin hmax => exact ⟨⟨"port", .port, true⟩, by decide, rfl, _, rfl, hmin, hmax⟩
    | binding hbinding => exact ⟨⟨"binds_to", .binding, true⟩, by decide, rfl, _, rfl, hbinding⟩
  · rintro ⟨r, hr, rfl, hholds⟩
    cases hform : r.form with
    | text =>
      rw [hform] at hholds
      obtain ⟨s, rfl⟩ := hholds
      exact .text (Kind.mem_textFields_iff.2 ⟨r, hr, rfl, hform⟩) s
    | texts =>
      rw [hform] at hholds
      obtain ⟨xs, rfl⟩ := hholds
      exact .texts (Kind.mem_listFields_iff.2 ⟨r, hr, rfl, hform⟩) xs
    | port =>
      rw [hform] at hholds
      obtain ⟨i, rfl, hmin, hmax⟩ := hholds
      obtain ⟨rfl, hname⟩ := Kind.port_of_form r hr hform
      rw [hname]
      exact .port hmin hmax
    | binding =>
      rw [hform] at hholds
      obtain ⟨s, rfl, hbinding⟩ := hholds
      obtain ⟨rfl, hname⟩ := Kind.bindsTo_of_form r hr hform
      rw [hname]
      exact .binding hbinding

namespace FieldsFit

variable {k : Kind} {fields : List (String × Value)}

theorem known (h : FieldsFit k fields) : ∀ f ∈ fields, f.1 ∈ k.rules.map (·.name) := by
  intro f hf
  obtain ⟨v, hv⟩ := exists_findEntry_of_mem hf
  obtain ⟨r, hr, hname, _⟩ := fieldFits_iff.1 (h.fits f.1 v hv)
  exact List.mem_map.2 ⟨r, hr, hname⟩

theorem form (h : FieldsFit k fields) {r : FieldRule} (hr : r ∈ k.rules) {v : Value}
    (hv : findEntry r.name fields = some v) : r.form.Holds v := by
  obtain ⟨r', hr', hname, hholds⟩ := fieldFits_iff.1 (h.fits r.name v hv)
  exact Kind.eq_of_name_eq r' hr' r hr hname ▸ hholds

theorem required (h : FieldsFit k fields) {r : FieldRule} (hr : r ∈ k.rules)
    (hrequired : r.required = true) : (findEntry r.name fields).isSome = true :=
  h.present r.name (Kind.mem_requiredFields_iff.2 ⟨r, hr, rfl, hrequired⟩)

end FieldsFit

/-- Fields fit a kind exactly if they keep to its rules. -/
theorem fieldsFit_iff {k : Kind} {fields : List (String × Value)} :
    FieldsFit k fields ↔ (∀ f ∈ fields, f.1 ∈ k.rules.map (·.name)) ∧
      ∀ r ∈ k.rules, (∀ v, findEntry r.name fields = some v → r.form.Holds v) ∧
        (r.required = true → (findEntry r.name fields).isSome = true) := by
  constructor
  · intro h
    exact ⟨h.known, fun r hr => ⟨fun v hv => h.form hr hv, h.required hr⟩⟩
  · rintro ⟨hknown, hrules⟩
    constructor
    · intro name v hv
      obtain ⟨r, hr, hname⟩ := List.mem_map.1 (hknown _ (mem_of_findEntry hv))
      exact fieldFits_iff.2 ⟨r, hr, hname, (hrules r hr).1 v (hname ▸ hv)⟩
    · intro name hname
      obtain ⟨r, hr, rfl, hrequired⟩ := Kind.mem_requiredFields_iff.1 hname
      exact (hrules r hr).2 hrequired

/-! ## Fields -/

theorem additional_eq_nil_iff {path context : String} {allowed : List String}
    {fields : List (String × Value)} :
    additional path allowed context fields = [] ↔ ∀ f ∈ fields, f.1 ∈ allowed := by
  unfold additional
  simp [List.filter_eq_nil_iff]

theorem checkTextItems_eq_nil_iff {path : String} {vs : List Value} {index : Nat} :
    checkTextItems path index vs = [] ↔ ∃ xs : List String, vs = xs.map Value.text := by
  induction vs generalizing index with
  | nil => simp [checkTextItems]
  | cons v rest ih =>
    cases v with
    | text s =>
      rw [checkTextItems, ih]
      constructor
      · rintro ⟨xs, rfl⟩
        exact ⟨s :: xs, rfl⟩
      · rintro ⟨xs, h⟩
        cases xs with
        | nil => cases h
        | cons x xs =>
          rw [List.map_cons, List.cons.injEq] at h
          exact ⟨xs, h.2⟩
    | null | bool | int | float | list | object =>
      simp only [checkTextItems, List.cons_ne_nil, false_iff]
      rintro ⟨xs, h⟩
      cases xs <;> simp at h

/-- A port that is in its range fits 64 bits. -/
theorem fitsSigned_of_port {i : Int} (h₁ : 1 ≤ i) (h₂ : i ≤ 65535) :
    Value.fitsSigned i = true := by
  have hmin : Binary64.minInteger ≤ 1 := by decide
  have hmax : 65535 ≤ Binary64.maxInteger := by decide
  simp only [Value.fitsSigned, Bool.and_eq_true, decide_eq_true_eq]
  exact ⟨Int.le_trans hmin h₁, Int.le_trans h₂ hmax⟩

/-- **The form of a value is not objected to exactly if the value has it.** -/
theorem checkForm_eq_nil_iff {path : String} {form : FieldForm} {v : Value} :
    checkForm path form v = [] ↔ form.Holds v := by
  cases form with
  | text => cases v <;> simp [checkForm, FieldForm.Holds]
  | texts =>
    cases v with
    | list items => simp [checkForm, FieldForm.Holds, checkTextItems_eq_nil_iff, Value.texts]
    | null | bool | int | float | text | object => simp [checkForm, FieldForm.Holds, Value.texts]
  | port =>
    cases v with
    | int i =>
      simp only [checkForm, FieldForm.Holds, Value.int.injEq, exists_eq_left', minPort, maxPort]
      constructor
      · intro h
        by_contra hrange
        split at h <;> simp [hrange] at h
      · intro h
        simp [fitsSigned_of_port h.1 h.2, h]
    | null | bool | float | text | list | object => simp [checkForm, FieldForm.Holds]
  | binding =>
    cases v with
    | text s => simp [checkForm, FieldForm.Holds, isBinding_iff]
    | null | bool | int | float | list | object => simp [checkForm, FieldForm.Holds]

theorem checkRule_eq_nil_iff {path : String} {fields : List (String × Value)} {r : FieldRule} :
    checkRule path fields r = [] ↔
      (∀ v, findEntry r.name fields = some v → r.form.Holds v) ∧
      (r.required = true → (findEntry r.name fields).isSome = true) := by
  unfold checkRule
  cases findEntry r.name fields with
  | none => simp
  | some v => simp [checkForm_eq_nil_iff]

/-- **Fields are not objected to exactly if they fit the kind.** -/
theorem checkFields_eq_nil_iff {path : String} {k : Kind} {fields : List (String × Value)} :
    checkFields path k fields = [] ↔ FieldsFit k fields := by
  unfold checkFields
  rw [List.append_eq_nil_iff, additional_eq_nil_iff, List.flatMap_eq_nil_iff, fieldsFit_iff]
  simp only [checkRule_eq_nil_iff]

/-! ## Components -/

theorem checkId_eq_nil_iff {path : String} {v : Option Value} :
    checkId path v = [] ↔ ∃ id, v = some (.text id) ∧ HasIdForm id := by
  unfold checkId
  cases v with
  | none => simp
  | some v => cases v <;> simp [isId_iff]

theorem checkKind_eq_nil_iff {path : String} {v : Option Value} :
    checkKind path v = [] ↔ ∃ kind k, v = some (.text kind) ∧ Kind.ofText? kind = some k := by
  unfold checkKind
  cases v with
  | none => simp
  | some v =>
    cases v with
    | text s => cases hk : Kind.ofText? s <;> simp [hk]
    | null | bool | int | float | list | object => simp

theorem checkSpec_eq_nil_iff {path : String} {k : Kind} {v : Option Value} :
    checkSpec path (some k) v = [] ↔ ∃ spec, v = some (.object spec) ∧ FieldsFit k spec := by
  unfold checkSpec
  cases v with
  | none => simp
  | some v => cases v <;> simp [checkFields_eq_nil_iff]

/-- **A component is not objected to exactly if it fits.** -/
theorem checkComponent_eq_nil_iff {path : String} {v : Value} :
    checkComponent path v = [] ↔ IsComponent v := by
  constructor
  · intro h
    cases v with
    | object fields =>
      simp only [checkComponent, List.append_eq_nil_iff] at h
      obtain ⟨⟨⟨hknown, hid⟩, hkind⟩, hspec⟩ := h
      obtain ⟨id, hid, hform⟩ := checkId_eq_nil_iff.1 hid
      obtain ⟨kind, k, hkind, hk⟩ := checkKind_eq_nil_iff.1 hkind
      have hkindOf : kindOf? (findEntry "kind" fields) = some k := by
        rw [hkind]
        exact hk
      rw [hkindOf] at hspec
      obtain ⟨spec, hspec, hfields⟩ := checkSpec_eq_nil_iff.1 hspec
      exact ⟨fields, id, kind, k, spec, rfl, ⟨additional_eq_nil_iff.1 hknown, hid, hform, hkind,
        Kind.ofText?_eq_some_iff.1 hk, hspec, hfields⟩⟩
    | null | bool | int | float | text | list => simp [checkComponent] at h
  · rintro ⟨fields, id, kind, k, spec, rfl, h⟩
    have hk := Kind.ofText?_eq_some_iff.2 h.kindKnown
    have hkindOf : kindOf? (findEntry "kind" fields) = some k := by
      rw [h.kindField]
      exact hk
    simp only [checkComponent, List.append_eq_nil_iff, hkindOf]
    exact ⟨⟨⟨additional_eq_nil_iff.2 h.known, checkId_eq_nil_iff.2 ⟨id, h.idField, h.idForm⟩⟩,
      checkKind_eq_nil_iff.2 ⟨kind, k, h.kindField, hk⟩⟩,
      checkSpec_eq_nil_iff.2 ⟨spec, h.specField, h.specFits⟩⟩

theorem checkComponents_eq_nil_iff {path : String} : ∀ {vs : List Value} {index : Nat},
    checkComponents path index vs = [] ↔ ∀ v ∈ vs, IsComponent v
  | [], _ => by simp [checkComponents]
  | v :: rest, index => by
    rw [checkComponents, List.append_eq_nil_iff, checkComponent_eq_nil_iff,
      checkComponents_eq_nil_iff, List.forall_mem_cons]

/-! ## Documents -/

theorem checkVersion_eq_nil_iff {v : Option Value} : checkVersion v = [] ↔
    ∃ version, v = some (.text version) ∧ ∃ major minor patch release build,
      Version.Writes version major minor patch release build := by
  unfold checkVersion
  cases v with
  | none => simp
  | some v => cases v <;> simp [Version.isValid_iff]

theorem checkName_eq_nil_iff {v : Option Value} :
    checkName v = [] ↔ ∃ name, v = some (.text name) ∧ name ≠ "" := by
  unfold checkName
  cases v with
  | none => simp
  | some v => cases v <;> simp

theorem checkDescription_eq_nil_iff {v : Option Value} :
    checkDescription v = [] ↔ ∀ w, v = some w → ∃ s, w = .text s := by
  unfold checkDescription
  cases v with
  | none => simp
  | some v => cases v <;> simp

theorem checkComponentList_eq_nil_iff {v : Option Value} : checkComponentList v = [] ↔
    ∃ items, v = some (.list items) ∧ ∀ item ∈ items, IsComponent item := by
  unfold checkComponentList
  cases v with
  | none => simp
  | some v => cases v <;> simp [checkComponents_eq_nil_iff]

/-- **An object is not objected to exactly if it is a document that fits.** -/
theorem checkObject_eq_nil_iff {fields : List (String × Value)} :
    check (.object fields) = [] ↔ ∃ version name items, DocumentFits fields version name items := by
  simp only [check, List.append_eq_nil_iff, additional_eq_nil_iff, checkVersion_eq_nil_iff,
    checkName_eq_nil_iff, checkDescription_eq_nil_iff, checkComponentList_eq_nil_iff]
  constructor
  · rintro ⟨⟨⟨⟨hknown, version, hversion, hform⟩, name, hname, hne⟩, hdescription⟩, items, hitems,
      hcomponents⟩
    exact ⟨version, name, items, hknown, hversion, hform, hname, hne, hdescription, hitems,
      hcomponents⟩
  · rintro ⟨version, name, items, h⟩
    exact ⟨⟨⟨⟨h.known, version, h.versionField, h.versionForm⟩, name, h.nameField, h.nameForm⟩,
      h.descriptionForm⟩, items, h.componentsField, h.componentsFit⟩

/-- The components of an accepted document fit. -/
theorem components_of_check {v : Value} (h : check v = []) :
    ∃ fields items, v = .object fields ∧ findEntry "components" fields = some (.list items) ∧
      ∀ item ∈ items, IsComponent item := by
  cases v with
  | object fields =>
    obtain ⟨_, _, items, hfits⟩ := checkObject_eq_nil_iff.1 h
    exact ⟨fields, items, rfl, hfits.componentsField, hfits.componentsFit⟩
  | null | bool | int | float | text | list => cases h

/-! ## What is found -/

@[simp] theorem category_mismatch (path expected : String) (v : Value) :
    (mismatch path expected v).category = .schemaViolation := rfl

@[simp] theorem category_missing (path key : String) :
    (missing path key).category = .schemaViolation := rfl

@[simp] theorem category_schemaViolation (path message : String) :
    (Diagnostic.schemaViolation path message).category = .schemaViolation := rfl

theorem category_of_mem_additional {path context : String} {allowed : List String}
    {fields : List (String × Value)} :
    ∀ d ∈ additional path allowed context fields, d.category = .schemaViolation := by
  intro d hd
  obtain ⟨f, _, rfl⟩ := List.mem_map.1 hd
  rfl

theorem category_of_mem_checkTextItems {path : String} {vs : List Value} {index : Nat} :
    ∀ d ∈ checkTextItems path index vs, d.category = .schemaViolation := by
  induction vs generalizing index with
  | nil => simp [checkTextItems]
  | cons v rest ih =>
    cases v with
    | text => exact ih
    | null | bool | int | float | list | object => exact List.forall_mem_cons.2 ⟨rfl, ih⟩

theorem category_of_mem_checkRule {path : String} {fields : List (String × Value)}
    {r : FieldRule} : ∀ d ∈ checkRule path fields r, d.category = .schemaViolation := by
  unfold checkRule
  split
  · split <;> simp
  · unfold checkForm
    split
    case h_3 => exact category_of_mem_checkTextItems
    case h_5 => split <;> [simp; split <;> simp]
    case h_7 => split <;> simp
    all_goals simp

theorem category_of_mem_checkComponent {path : String} {v : Value} :
    ∀ d ∈ checkComponent path v, d.category = .schemaViolation := by
  cases v with
  | object fields =>
    simp only [checkComponent, List.forall_mem_append]
    refine ⟨⟨⟨category_of_mem_additional, ?_⟩, ?_⟩, ?_⟩
    · unfold checkId
      split <;> [simp; (split <;> simp); simp]
    · unfold checkKind
      split <;> [simp; (split <;> simp); simp]
    · unfold checkSpec
      split
      · simp
      · split
        · simp
        · unfold checkFields
          rw [List.forall_mem_append]
          refine ⟨category_of_mem_additional, fun d hd => ?_⟩
          obtain ⟨r, _, hd⟩ := List.mem_flatMap.1 hd
          exact category_of_mem_checkRule d hd
      · simp
  | null | bool | int | float | text | list => simp [checkComponent]

theorem category_of_mem_checkComponents {path : String} : ∀ {vs : List Value} {index : Nat},
    ∀ d ∈ checkComponents path index vs, d.category = .schemaViolation
  | [], _ => by simp [checkComponents]
  | v :: rest, index => by
    rw [checkComponents, List.forall_mem_append]
    exact ⟨category_of_mem_checkComponent, category_of_mem_checkComponents⟩

/-- **Everything that is found in an object is a violation of the schema.** -/
theorem category_of_mem_check {fields : List (String × Value)} :
    ∀ d ∈ check (.object fields), d.category = .schemaViolation := by
  simp only [check, List.forall_mem_append]
  refine ⟨⟨⟨⟨category_of_mem_additional, ?_⟩, ?_⟩, ?_⟩, ?_⟩
  · unfold checkVersion
    split <;> [simp; (split <;> simp); simp]
  · unfold checkName
    split <;> [simp; (split <;> simp); simp]
  · unfold checkDescription
    split <;> simp
  · unfold checkComponentList
    split <;> [simp; exact category_of_mem_checkComponents; simp]

/-- **Accepted is exactly what the grammar describes.** Of a value that is no object, and of no
other, exactly that is reported. -/
theorem check_grammar (v : Value) :
    (check v = [] ↔ ∃ fields version name items,
      v = .object fields ∧ DocumentFits fields version name items) ∧
    (v.fields? = none ↔
      check v = [.structural ("expected a mapping at the root, got " ++ typeName v)]) := by
  cases v with
  | object fields =>
    constructor
    · rw [checkObject_eq_nil_iff]
      simp
    · refine iff_of_false (by simp [Value.fields?]) fun h => ?_
      have hviolation := category_of_mem_check _ (h ▸ List.mem_singleton_self _)
      cases hviolation
  | null | bool | int | float | text | list => simp [check, Value.fields?]

/-- A document with a server at a port and a use-case with a binding. -/
def booth (port : Int) (binding : String) : Value :=
  .object [("version", .text "1.0.0"), ("name", .text "booth"),
    ("components", .list
      [.object [("id", .text "s.web"), ("kind", .text "http.server"),
          ("spec", .object [("framework", .text "axum"), ("port", .int port),
            ("middleware", .list [.text "m.log"])])],
        .object [("id", .text "u.ask"), ("kind", .text "usecase"),
          ("spec", .object [("binds_to", .text binding), ("goal", .text "ask")])]])]

/-- The booth is accepted with a port in its range and a binding, and refused without either. -/
theorem check_grammar_booth :
    (∃ fields version name items, booth 80 "s.web:GET:/" = .object fields ∧
      DocumentFits fields version name items) ∧
    (¬∃ fields version name items, booth 0 "s.web:GET:/" = .object fields ∧
      DocumentFits fields version name items) ∧
    ¬∃ fields version name items, booth 80 "s.web:GET" = .object fields ∧
      DocumentFits fields version name items := by
  refine ⟨(check_grammar (booth 80 "s.web:GET:/")).1.1 (by decide +kernel), fun h => ?_,
    fun h => ?_⟩
  · exact absurd ((check_grammar (booth 0 "s.web:GET:/")).1.2 h) (by decide +kernel)
  · exact absurd ((check_grammar (booth 80 "s.web:GET")).1.2 h) (by decide +kernel)

end Schema

end ArchSpec
