import Mathlib.Data.List.Basic
import ArchSpec.Proofs.Json.Pointer

/-!
# What violations point to

The pointer of a violation is put together on the way down to the value that is objected to, so it
leads there again: to the object that lacks a property, to the value of a property that is not
allowed, and otherwise to the value whose type or form is wrong.

* `Schema.Objection` — what a message says of the value that is pointed to.
* `Schema.Points` — the pointer of a violation leads to such a value.
* `Schema.requiredText` — the one check behind IDs, kinds, versions and names.
* `Schema.points_checkForm`, `Schema.points_checkComponent` — violations of a value point into it.
* `Schema.points_of_mem_check` — all violations of an object do.
-/

namespace ArchSpec

namespace Schema

variable {document v : Value} {path expected key context : String}
  {fields : List (String × Value)} {vs : List Value} {allowed : List String}

/-! ## Objections -/

/-- Whether a value has a type, by the name that messages give it; an integer has to fit 64 bits. -/
def hasType (expected : String) : Value → Bool
  | .int i => expected = "integer" && Value.fitsSigned i
  | v => typeName v = expected

/-- What the message of a violation at a path of a document says of the value there. -/
inductive Objection (document : Value) (path : String) : Value → String → Prop where
  /-- An object lacks a property. -/
  | missing {fields : List (String × Value)} {key : String} (lacks : findEntry key fields = none) :
    Objection document path (.object fields) ("missing property '" ++ key ++ "'")
  /-- The value is that of a property that its object may not have. -/
  | additional {parent key context : String} {fields : List (String × Value)} {v : Value}
    (field : path = child parent key) (object : document.resolve? parent = some (.object fields))
    (has : findEntry key fields = some v) :
    Objection document path v ("additional property '" ++ key ++ "' not allowed" ++ context)
  | type {expected : String} {v : Value} (h : hasType expected v = false) :
    Objection document path v ("expected " ++ expected ++ ", but got " ++ typeName v)
  | version {s : String} (h : Version.isValid s = false) :
    Objection document path (.text s) ("'" ++ s ++ "' is not a valid semantic version")
  | name : Objection document path (.text "") "name must not be empty"
  | id {s : String} (h : isId s = false) :
    Objection document path (.text s) ("'" ++ s ++ "' does not match pattern '" ++ idForm ++ "'")
  | kind {s : String} (h : Kind.ofText? s = none) :
    Objection document path (.text s) ("value must be one of " ++
      String.intercalate ", " Kind.spellings ++ ", got '" ++ s ++ "'")
  | port {i : Int} (h : ¬(minPort ≤ i ∧ i ≤ maxPort)) :
    Objection document path (.int i) ("port must be between " ++ toString minPort ++ " and " ++
      toString maxPort ++ ", got " ++ toString i)
  | binding {s : String} (h : isBinding s = false) :
    Objection document path (.text s)
      ("'" ++ s ++ "' does not match pattern '" ++ bindingForm ++ "'")

/-- The pointer of a violation leads to the value that its message is about. -/
def Points (document : Value) (d : Diagnostic) : Prop :=
  ∃ path message v, d = .schemaViolation path message ∧ document.resolve? path = some v ∧
    Objection document path v message

theorem points_missing (h : document.resolve? path = some (.object fields))
    (hlacks : findEntry key fields = none) : Points document (missing path key) :=
  ⟨path, _, _, rfl, h, .missing hlacks⟩

theorem points_mismatch (h : document.resolve? path = some v) (htype : hasType expected v = false) :
    Points document (mismatch path expected v) :=
  ⟨path, _, _, rfl, h, .type htype⟩

theorem hasType_string (h : ∀ s, v = .text s → False) : hasType "string" v = false := by
  cases v with
  | text s => exact (h s rfl).elim
  | null | bool | int | float | list | object => rfl

theorem hasType_object (h : ∀ fields, v = .object fields → False) :
    hasType "object" v = false := by
  cases v with
  | object fields => exact (h fields rfl).elim
  | null | bool | int | float | text | list => rfl

theorem hasType_array (h : ∀ items, v = .list items → False) : hasType "array" v = false := by
  cases v with
  | list items => exact (h items rfl).elim
  | null | bool | int | float | text | object => rfl

theorem points_additional (h : document.resolve? path = some (.object fields)) :
    ∀ d ∈ additional path allowed context fields, Points document d := by
  intro d hd
  obtain ⟨f, hf, rfl⟩ := List.mem_map.1 hd
  obtain ⟨v, hv⟩ := exists_findEntry_of_mem (List.mem_filter.1 hf).1
  exact ⟨_, _, v, rfl, Value.resolve?_child h hv, .additional rfl h hv⟩

/-! ## Fields -/

theorem points_checkTextItems {index : Nat}
    (h : ∀ i v, vs[i]? = some v → document.resolve? (item path (index + i)) = some v) :
    ∀ d ∈ checkTextItems path index vs, Points document d := by
  induction vs generalizing index with
  | nil => exact List.forall_mem_nil _
  | cons v vs ih =>
    have hrest : ∀ d ∈ checkTextItems path (index + 1) vs, Points document d :=
      ih fun i w hw => by simpa [Nat.add_assoc, Nat.add_comm 1 i] using h (i + 1) w (by simpa)
    have hv : document.resolve? (item path index) = some v := h 0 v rfl
    cases v with
    | text s => exact hrest
    | null | bool | int | float | list | object =>
      exact List.forall_mem_cons.2 ⟨points_mismatch hv rfl, hrest⟩

theorem points_checkForm (form : FieldForm) (h : document.resolve? path = some v) :
    ∀ d ∈ checkForm path form v, Points document d := by
  cases form with
  | text =>
    cases v with
    | text s => exact List.forall_mem_nil _
    | null | bool | int | float | list | object =>
      exact List.forall_mem_singleton.2 (points_mismatch h rfl)
  | texts =>
    cases v with
    | list items =>
      exact points_checkTextItems fun i v hv => by
        rw [Nat.zero_add]
        exact Value.resolve?_item h hv
    | null | bool | int | float | text | object =>
      exact List.forall_mem_singleton.2 (points_mismatch h rfl)
  | port =>
    cases v with
    | int i =>
      rw [checkForm]
      split
      · rename_i hfits
        refine List.forall_mem_singleton.2 (points_mismatch h ?_)
        simpa [hasType] using hfits
      · split
        · exact List.forall_mem_nil _
        · rename_i hrange
          exact List.forall_mem_singleton.2 ⟨path, _, _, rfl, h, .port hrange⟩
    | null | bool | float | text | list | object =>
      exact List.forall_mem_singleton.2 (points_mismatch h rfl)
  | binding =>
    cases v with
    | text s =>
      rw [checkForm]
      split
      · exact List.forall_mem_nil _
      · rename_i hform
        exact List.forall_mem_singleton.2
          ⟨path, _, _, rfl, h, .binding (Bool.eq_false_iff.2 hform)⟩
    | null | bool | int | float | list | object =>
      exact List.forall_mem_singleton.2 (points_mismatch h rfl)

theorem points_checkRule (r : FieldRule) (h : document.resolve? path = some (.object fields)) :
    ∀ d ∈ checkRule path fields r, Points document d := by
  unfold checkRule
  split
  · rename_i hlacks
    split
    · exact List.forall_mem_singleton.2 (points_missing h hlacks)
    · exact List.forall_mem_nil _
  · rename_i v hv
    exact points_checkForm r.form (Value.resolve?_child h hv)

theorem points_checkFields (k : Kind) (h : document.resolve? path = some (.object fields)) :
    ∀ d ∈ checkFields path k fields, Points document d := by
  refine List.forall_mem_append.2 ⟨points_additional h, fun d hd => ?_⟩
  obtain ⟨r, _, hd⟩ := List.mem_flatMap.1 hd
  exact points_checkRule r h d hd

/-! ## Texts that have to be there -/

/-- Violations by a field that has to be there and to be a text, with what more is wrong with that.
-/
def requiredText (path key : String) (wrong : String → Option String) :
    Option Value → List Diagnostic
  | none => [missing path key]
  | some (.text s) => ((wrong s).map (.schemaViolation (child path key))).toList
  | some v => [mismatch (child path key) "string" v]

theorem points_requiredText {wrong : String → Option String}
    (h : document.resolve? path = some (.object fields))
    (hwrong : ∀ {s message}, wrong s = some message →
      Objection document (child path key) (.text s) message) :
    ∀ d ∈ requiredText path key wrong (findEntry key fields), Points document d := by
  unfold requiredText
  split
  · rename_i hlacks
    exact List.forall_mem_singleton.2 (points_missing h hlacks)
  · rename_i s hs
    intro d hd
    obtain ⟨message, hmessage, rfl⟩ := Option.map_eq_some_iff.1 (Option.mem_toList.1 hd)
    exact ⟨_, _, _, rfl, Value.resolve?_child h hs, hwrong hmessage⟩
  · rename_i v htext hv
    exact List.forall_mem_singleton.2
      (points_mismatch (Value.resolve?_child h hv) (hasType_string htext))

/-- What is wrong with a text as an ID. -/
def wrongId (s : String) : Option String :=
  if isId s then none else some ("'" ++ s ++ "' does not match pattern '" ++ idForm ++ "'")

theorem wrongId_eq_some {s message : String} : wrongId s = some message ↔
    isId s = false ∧ "'" ++ s ++ "' does not match pattern '" ++ idForm ++ "'" = message := by
  simp [wrongId]

theorem checkId_eq (path : String) (v : Option Value) :
    checkId path v = requiredText path "id" wrongId v := by
  cases v with
  | none => rfl
  | some v =>
    cases v with
    | text s =>
      rw [checkId, requiredText, wrongId]
      split <;> rfl
    | null | bool | int | float | list | object => rfl

/-- What is wrong with a text as a kind. -/
def wrongKind (s : String) : Option String :=
  match Kind.ofText? s with
  | some _ => none
  | none => some ("value must be one of " ++ String.intercalate ", " Kind.spellings ++
      ", got '" ++ s ++ "'")

theorem wrongKind_eq_some {s message : String} : wrongKind s = some message ↔
    Kind.ofText? s = none ∧ "value must be one of " ++ String.intercalate ", " Kind.spellings ++
      ", got '" ++ s ++ "'" = message := by
  rw [wrongKind]
  cases Kind.ofText? s <;> simp

theorem checkKind_eq (path : String) (v : Option Value) :
    checkKind path v = requiredText path "kind" wrongKind v := by
  cases v with
  | none => rfl
  | some v =>
    cases v with
    | text s =>
      rw [checkKind, requiredText, wrongKind]
      cases Kind.ofText? s <;> rfl
    | null | bool | int | float | list | object => rfl

/-- What is wrong with a text as a version. -/
def wrongVersion (s : String) : Option String :=
  if Version.isValid s then none else some ("'" ++ s ++ "' is not a valid semantic version")

theorem wrongVersion_eq_some {s message : String} : wrongVersion s = some message ↔
    Version.isValid s = false ∧ "'" ++ s ++ "' is not a valid semantic version" = message := by
  simp [wrongVersion]

theorem checkVersion_eq (v : Option Value) :
    checkVersion v = requiredText "" "version" wrongVersion v := by
  have hchild : child "" "version" = "/version" := by decide +kernel
  unfold requiredText
  rw [hchild]
  cases v with
  | none => rfl
  | some v =>
    cases v with
    | text s =>
      simp only [checkVersion, wrongVersion]
      split <;> rfl
    | null | bool | int | float | list | object => rfl

/-- What is wrong with a text as a name. -/
def wrongName (s : String) : Option String :=
  if s.isEmpty then some "name must not be empty" else none

theorem wrongName_eq_some {s message : String} : wrongName s = some message ↔
    s = "" ∧ "name must not be empty" = message := by
  simp [wrongName]

theorem checkName_eq (v : Option Value) : checkName v = requiredText "" "name" wrongName v := by
  have hchild : child "" "name" = "/name" := by decide +kernel
  unfold requiredText
  rw [hchild]
  cases v with
  | none => rfl
  | some v =>
    cases v with
    | text s =>
      simp only [checkName, wrongName]
      split <;> rfl
    | null | bool | int | float | list | object => rfl

/-! ## Components -/

theorem points_checkId (h : document.resolve? path = some (.object fields)) :
    ∀ d ∈ checkId path (findEntry "id" fields), Points document d := by
  rw [checkId_eq]
  refine points_requiredText h fun hwrong => ?_
  obtain ⟨hform, rfl⟩ := wrongId_eq_some.1 hwrong
  exact .id hform

theorem points_checkKind (h : document.resolve? path = some (.object fields)) :
    ∀ d ∈ checkKind path (findEntry "kind" fields), Points document d := by
  rw [checkKind_eq]
  refine points_requiredText h fun hwrong => ?_
  obtain ⟨hkind, rfl⟩ := wrongKind_eq_some.1 hwrong
  exact .kind hkind

theorem points_checkSpec (k : Option Kind) (h : document.resolve? path = some (.object fields)) :
    ∀ d ∈ checkSpec path k (findEntry "spec" fields), Points document d := by
  unfold checkSpec
  split
  · rename_i hlacks
    exact List.forall_mem_singleton.2 (points_missing h hlacks)
  · rename_i spec hspec
    split
    · exact List.forall_mem_nil _
    · rename_i k
      exact points_checkFields k (Value.resolve?_child h hspec)
  · rename_i v hobject hv
    exact List.forall_mem_singleton.2
      (points_mismatch (Value.resolve?_child h hv) (hasType_object hobject))

theorem points_checkComponent (h : document.resolve? path = some v) :
    ∀ d ∈ checkComponent path v, Points document d := by
  cases v with
  | object fields =>
    simp only [checkComponent, List.forall_mem_append]
    exact ⟨⟨⟨points_additional h, points_checkId h⟩, points_checkKind h⟩, points_checkSpec _ h⟩
  | null | bool | int | float | text | list =>
    exact List.forall_mem_singleton.2 (points_mismatch h rfl)

theorem points_checkComponents {index : Nat}
    (h : ∀ i v, vs[i]? = some v → document.resolve? (item path (index + i)) = some v) :
    ∀ d ∈ checkComponents path index vs, Points document d := by
  induction vs generalizing index with
  | nil => exact List.forall_mem_nil _
  | cons v vs ih =>
    rw [checkComponents, List.forall_mem_append]
    refine ⟨points_checkComponent (h 0 v rfl), ih fun i w hw => ?_⟩
    simpa [Nat.add_assoc, Nat.add_comm 1 i] using h (i + 1) w (by simpa)

/-! ## Documents -/

theorem points_checkVersion (h : document.resolve? "" = some (.object fields)) :
    ∀ d ∈ checkVersion (findEntry "version" fields), Points document d := by
  rw [checkVersion_eq]
  refine points_requiredText h fun hwrong => ?_
  obtain ⟨hform, rfl⟩ := wrongVersion_eq_some.1 hwrong
  exact .version hform

theorem points_checkName (h : document.resolve? "" = some (.object fields)) :
    ∀ d ∈ checkName (findEntry "name" fields), Points document d := by
  rw [checkName_eq]
  refine points_requiredText h fun hwrong => ?_
  obtain ⟨rfl, rfl⟩ := wrongName_eq_some.1 hwrong
  exact .name

theorem points_checkDescription (h : document.resolve? "" = some (.object fields)) :
    ∀ d ∈ checkDescription (findEntry "description" fields), Points document d := by
  have hchild : child "" "description" = "/description" := by decide +kernel
  unfold checkDescription
  split
  · exact List.forall_mem_nil _
  · exact List.forall_mem_nil _
  · rename_i v htext hv
    exact List.forall_mem_singleton.2
      (points_mismatch (hchild ▸ Value.resolve?_child h hv) (hasType_string htext))

theorem points_checkComponentList (h : document.resolve? "" = some (.object fields)) :
    ∀ d ∈ checkComponentList (findEntry "components" fields), Points document d := by
  have hchild : child "" "components" = "/components" := by decide +kernel
  unfold checkComponentList
  split
  · rename_i hlacks
    exact List.forall_mem_singleton.2 (points_missing h hlacks)
  · rename_i items hitems
    refine points_checkComponents fun i v hv => ?_
    rw [Nat.zero_add, ← hchild]
    exact Value.resolve?_item (Value.resolve?_child h hitems) hv
  · rename_i v hlist hv
    exact List.forall_mem_singleton.2
      (points_mismatch (hchild ▸ Value.resolve?_child h hv) (hasType_array hlist))

/-- **Every violation of an object points into it.** -/
theorem points_of_mem_check (fields : List (String × Value)) :
    ∀ d ∈ check (.object fields), Points (.object fields) d := by
  have h := Value.resolve?_root (.object fields)
  simp only [check, List.forall_mem_append]
  exact ⟨⟨⟨⟨points_additional h, points_checkVersion h⟩, points_checkName h⟩,
    points_checkDescription h⟩, points_checkComponentList h⟩

end Schema

end ArchSpec
