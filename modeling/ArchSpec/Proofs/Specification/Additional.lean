import Mathlib.Data.List.Nodup
import ArchSpec.Proofs.Specification.Violation

/-!
# Properties that are not allowed

An object has one field under each key, and a pointer tells the object and the key. So of all
properties that a document should not have, no two are reported at one path: those of one object
differ in their keys, and those of different objects in the tokens before.

* `Value.WellKeyed` — objects with one field under each key.
* `Schema.additionalPaths` — where properties are reported that are not allowed.
* `Schema.nodup_additionalPaths_check` — no two of these paths are the same.
* `Schema.check_points` — what the pointers of all violations say.
-/

namespace ArchSpec

/-- No object in a value has two fields with one key. -/
inductive Value.WellKeyed : Value → Prop where
  | null : WellKeyed .null
  | bool (b : Bool) : WellKeyed (.bool b)
  | int (i : Int) : WellKeyed (.int i)
  | float (x : Binary64) : WellKeyed (.float x)
  | text (s : String) : WellKeyed (.text s)
  | list {items : List Value} (members : ∀ v ∈ items, WellKeyed v) : WellKeyed (.list items)
  | object {fields : List (String × Value)} (distinct : (fields.map (·.1)).Nodup)
    (members : ∀ f ∈ fields, WellKeyed f.2) : WellKeyed (.object fields)

namespace Schema

variable {v : Value} {path key message : String} {fields : List (String × Value)}
  {vs : List Value} {allowed ts : List String}

/-! ## Reports -/

/-- The path of a violation whose message is about a property that is not allowed. -/
def additionalPath? : Diagnostic → Option String
  | .schemaViolation path message =>
    if Text.beginsWith "additional property '" message then some path else none
  | _ => none

/-- The paths of all properties that are reported as not allowed. -/
def additionalPaths (ds : List Diagnostic) : List String := ds.filterMap additionalPath?

theorem additionalPaths_append (ds es : List Diagnostic) :
    additionalPaths (ds ++ es) = additionalPaths ds ++ additionalPaths es :=
  List.filterMap_append

theorem additionalPath?_eq_none (h : message.toList.head? ≠ some 'a') :
    additionalPath? (.schemaViolation path message) = none := by
  rw [additionalPath?, if_neg]
  rw [Text.beginsWith_iff]
  rintro ⟨rest, rfl⟩
  exact h (by simp)

theorem additionalPath?_missing (path key : String) :
    additionalPath? (missing path key) = none :=
  additionalPath?_eq_none (by simp)

theorem additionalPath?_mismatch (path expected : String) (v : Value) :
    additionalPath? (mismatch path expected v) = none :=
  additionalPath?_eq_none (by simp)

theorem additionalPaths_additional (path : String) (allowed : List String) (context : String)
    (fields : List (String × Value)) : additionalPaths (additional path allowed context fields) =
      ((fields.filter fun f => !allowed.contains f.1).map (·.1)).map (child path) := by
  rw [additionalPaths, additional, List.filterMap_map, List.map_map, ← List.filterMap_eq_map]
  congr 1
  funext f
  have hbegins : Text.beginsWith "additional property '"
      ("additional property '" ++ f.1 ++ "' not allowed" ++ context) = true :=
    Text.beginsWith_iff.2 ⟨f.1 ++ "' not allowed" ++ context, by simp only [String.append_assoc]⟩
  simp only [Function.comp_apply, additionalPath?, hbegins, if_true]

theorem additionalPaths_eq_nil {ds : List Diagnostic} (h : ∀ d ∈ ds, additionalPath? d = none) :
    additionalPaths ds = [] := List.filterMap_eq_nil_iff.2 h

theorem additionalPaths_missing (path key : String) :
    additionalPaths [missing path key] = [] :=
  List.filterMap_cons_none (additionalPath?_missing path key)

theorem additionalPaths_mismatch (path expected : String) (v : Value) :
    additionalPaths [mismatch path expected v] = [] :=
  List.filterMap_cons_none (additionalPath?_mismatch path expected v)

theorem nodup_of_eq_nil {ds : List Diagnostic} {P : String → Prop} (h : additionalPaths ds = []) :
    (additionalPaths ds).Nodup ∧ ∀ p ∈ additionalPaths ds, P p := by
  rw [h]
  exact ⟨List.nodup_nil, List.forall_mem_nil P⟩

theorem additionalPaths_checkTextItems (path : String) (index : Nat) (vs : List Value) :
    additionalPaths (checkTextItems path index vs) = [] := by
  induction vs generalizing index with
  | nil => rfl
  | cons v vs ih =>
    cases v with
    | text s => exact ih (index + 1)
    | null | bool | int | float | list | object =>
      exact (List.filterMap_cons_none (additionalPath?_mismatch ..)).trans (ih (index + 1))

theorem additionalPaths_checkForm (path : String) (form : FieldForm) (v : Value) :
    additionalPaths (checkForm path form v) = [] := by
  cases form with
  | text =>
    cases v with
    | text s => rfl
    | null | bool | int | float | list | object => exact additionalPaths_mismatch ..
  | texts =>
    cases v with
    | list items => exact additionalPaths_checkTextItems path 0 items
    | null | bool | int | float | text | object => exact additionalPaths_mismatch ..
  | port =>
    cases v with
    | int i =>
      rw [checkForm]
      split
      · exact additionalPaths_mismatch ..
      · split
        · rfl
        · exact additionalPaths_eq_nil (by simp [additionalPath?_eq_none])
    | null | bool | float | text | list | object => exact additionalPaths_mismatch ..
  | binding =>
    cases v with
    | text s =>
      rw [checkForm]
      split
      · rfl
      · exact additionalPaths_eq_nil (by simp [additionalPath?_eq_none])
    | null | bool | int | float | list | object => exact additionalPaths_mismatch ..

theorem additionalPaths_checkRule (path : String) (fields : List (String × Value))
    (r : FieldRule) : additionalPaths (checkRule path fields r) = [] := by
  unfold checkRule
  split
  · split
    · exact additionalPaths_missing ..
    · rfl
  · exact additionalPaths_checkForm ..

theorem additionalPaths_checkFields (path : String) (k : Kind) (fields : List (String × Value)) :
    additionalPaths (checkFields path k fields) = additionalPaths
      (additional path (k.rules.map (·.name)) (" for " ++ k.text) fields) := by
  have hrules : additionalPaths (k.rules.flatMap (checkRule path fields)) = [] := by
    refine additionalPaths_eq_nil fun d hd => ?_
    obtain ⟨r, _, hd⟩ := List.mem_flatMap.1 hd
    exact List.filterMap_eq_nil_iff.1 (additionalPaths_checkRule path fields r) d hd
  rw [checkFields, additionalPaths_append, hrules, List.append_nil]

theorem additionalPaths_requiredText {wrong : String → Option String} (v : Option Value)
    (hwrong : ∀ {s message}, wrong s = some message → message.toList.head? ≠ some 'a') :
    additionalPaths (requiredText path key wrong v) = [] := by
  refine additionalPaths_eq_nil ?_
  unfold requiredText
  split
  · exact List.forall_mem_singleton.2 (additionalPath?_missing path key)
  · intro d hd
    obtain ⟨message, hmessage, rfl⟩ := Option.map_eq_some_iff.1 (Option.mem_toList.1 hd)
    exact additionalPath?_eq_none (hwrong hmessage)
  · exact List.forall_mem_singleton.2 (additionalPath?_mismatch ..)

theorem additionalPaths_checkId (path : String) (v : Option Value) :
    additionalPaths (checkId path v) = [] := by
  rw [checkId_eq]
  refine additionalPaths_requiredText v fun hwrong => ?_
  obtain ⟨_, rfl⟩ := wrongId_eq_some.1 hwrong
  simp

theorem additionalPaths_checkKind (path : String) (v : Option Value) :
    additionalPaths (checkKind path v) = [] := by
  rw [checkKind_eq]
  refine additionalPaths_requiredText v fun hwrong => ?_
  obtain ⟨_, rfl⟩ := wrongKind_eq_some.1 hwrong
  simp

theorem additionalPaths_checkVersion (v : Option Value) :
    additionalPaths (checkVersion v) = [] := by
  rw [checkVersion_eq]
  refine additionalPaths_requiredText v fun hwrong => ?_
  obtain ⟨_, rfl⟩ := wrongVersion_eq_some.1 hwrong
  simp

theorem additionalPaths_checkName (v : Option Value) : additionalPaths (checkName v) = [] := by
  rw [checkName_eq]
  refine additionalPaths_requiredText v fun hwrong => ?_
  obtain ⟨_, rfl⟩ := wrongName_eq_some.1 hwrong
  decide

theorem additionalPaths_checkDescription (v : Option Value) :
    additionalPaths (checkDescription v) = [] := by
  unfold checkDescription
  split
  · rfl
  · rfl
  · exact additionalPaths_mismatch ..

theorem additionalPaths_checkComponents_cons (path : String) (index : Nat) (v : Value)
    (vs : List Value) : additionalPaths (checkComponents path index (v :: vs)) =
      additionalPaths (checkComponent (item path index) v) ++
        additionalPaths (checkComponents path (index + 1) vs) := by
  rw [checkComponents, additionalPaths_append]

/-! ## Each is reported once -/

theorem nodup_additional {context : String} (h : (fields.map (·.1)).Nodup) :
    (additionalPaths (additional path allowed context fields)).Nodup := by
  rw [additionalPaths_additional]
  exact (h.sublist (List.filter_sublist.map _)).map fun _ _ => Pointer.child_inj

/-- A property that is not allowed is pointed to by its key. -/
theorem tokens?_additional (h : Pointer.tokens? path = some ts) {p : String}
    (hp : p ∈ additionalPaths (additional path allowed context fields)) :
    ∃ key, Pointer.tokens? p = some (ts ++ [key]) := by
  rw [additionalPaths_additional] at hp
  obtain ⟨key, _, rfl⟩ := List.mem_map.1 hp
  exact ⟨key, Pointer.tokens?_child h key⟩

/-- Of the fields of a component, those that are not allowed are reported once each. -/
theorem additional_checkSpec {k : Option Kind} {spec : Option Value}
    (h : Pointer.tokens? path = some ts) (hspec : ∀ v ∈ spec, v.WellKeyed) :
    (additionalPaths (checkSpec path k spec)).Nodup ∧
      ∀ p ∈ additionalPaths (checkSpec path k spec),
        ∃ key, Pointer.tokens? p = some (ts ++ ["spec", key]) := by
  unfold checkSpec
  split
  · exact nodup_of_eq_nil (additionalPaths_missing ..)
  · rename_i fields
    split
    · exact nodup_of_eq_nil rfl
    · rename_i k
      rw [additionalPaths_checkFields]
      cases hspec _ rfl with
      | object hdistinct _ =>
        refine ⟨nodup_additional hdistinct, fun p hp => ?_⟩
        obtain ⟨key, hkey⟩ := tokens?_additional (Pointer.tokens?_child h "spec") hp
        exact ⟨key, by rw [hkey, List.append_assoc]; rfl⟩
  · exact nodup_of_eq_nil (additionalPaths_mismatch ..)

theorem wellKeyed_of_findEntry (h : ∀ f ∈ fields, f.2.WellKeyed)
    (hv : findEntry key fields = some v) : v.WellKeyed :=
  h _ (mem_of_findEntry hv)

/-- Of a component, the properties that are not allowed are reported once each, below it. -/
theorem additional_checkComponent (h : Pointer.tokens? path = some ts) (hv : v.WellKeyed) :
    (additionalPaths (checkComponent path v)).Nodup ∧
      ∀ p ∈ additionalPaths (checkComponent path v),
        ∃ below, Pointer.tokens? p = some (ts ++ below) := by
  cases hv with
  | object hdistinct hmembers =>
    rename_i fields
    obtain ⟨hnodup, hbelow⟩ := @additional_checkSpec path ts
      (kindOf? (findEntry "kind" fields)) (findEntry "spec" fields) h
      fun v hv => wellKeyed_of_findEntry hmembers hv
    rw [checkComponent, additionalPaths_append, additionalPaths_append, additionalPaths_append,
      additionalPaths_checkId, additionalPaths_checkKind, List.append_nil, List.append_nil]
    refine ⟨List.nodup_append.2 ⟨nodup_additional hdistinct, hnodup, ?_⟩, ?_⟩
    · -- a property of the component has one token below it, and one of its fields two
      rintro p hp q hq rfl
      obtain ⟨key, hkey⟩ := tokens?_additional h hp
      obtain ⟨key', hkey'⟩ := hbelow p hq
      rw [hkey, Option.some.injEq, List.append_right_inj] at hkey'
      cases hkey'
    · intro p hp
      rcases List.mem_append.1 hp with hp | hp
      · obtain ⟨key, hkey⟩ := tokens?_additional h hp
        exact ⟨_, hkey⟩
      · obtain ⟨key, hkey⟩ := hbelow p hp
        exact ⟨_, hkey⟩
  | null | bool | int | float | text | list =>
    exact nodup_of_eq_nil (additionalPaths_mismatch ..)

/-- Of a list of components, the properties that are not allowed are reported once each, below the
component that has them. -/
theorem additional_checkComponents {index : Nat} (h : Pointer.tokens? path = some ts)
    (hvs : ∀ v ∈ vs, v.WellKeyed) :
    (additionalPaths (checkComponents path index vs)).Nodup ∧
      ∀ p ∈ additionalPaths (checkComponents path index vs),
        ∃ n below, index ≤ n ∧ Pointer.tokens? p = some (ts ++ toString n :: below) := by
  induction vs generalizing index with
  | nil => exact ⟨List.nodup_nil, List.forall_mem_nil _⟩
  | cons v vs ih =>
    obtain ⟨hv, hvs⟩ := List.forall_mem_cons.1 hvs
    obtain ⟨hfirst, hbelow⟩ := additional_checkComponent (Pointer.tokens?_item h index) hv
    obtain ⟨hrest, hlater⟩ := @ih (index + 1) hvs
    rw [additionalPaths_checkComponents_cons]
    refine ⟨List.nodup_append.2 ⟨hfirst, hrest, ?_⟩, fun p hp => ?_⟩
    · rintro p hp q hq rfl
      obtain ⟨below, hp⟩ := hbelow p hp
      obtain ⟨n, later, hn, hq⟩ := hlater p hq
      rw [hp, Option.some.injEq, List.append_assoc, List.append_right_inj] at hq
      have := Pointer.toString_inj (List.cons.inj hq).1
      omega
    · rcases List.mem_append.1 hp with hp | hp
      · obtain ⟨below, hp⟩ := hbelow p hp
        exact ⟨index, below, Nat.le_refl index, by rw [hp, List.append_assoc]; rfl⟩
      · obtain ⟨n, below, hn, hp⟩ := hlater p hp
        exact ⟨n, below, by omega, hp⟩

theorem additional_checkComponentList {components : Option Value}
    (h : ∀ v ∈ components, v.WellKeyed) :
    (additionalPaths (checkComponentList components)).Nodup ∧
      ∀ p ∈ additionalPaths (checkComponentList components),
        ∃ token token' below, Pointer.tokens? p = some (token :: token' :: below) := by
  unfold checkComponentList
  split
  · exact nodup_of_eq_nil (additionalPaths_missing ..)
  · rename_i items
    have htokens : Pointer.tokens? "/components" = some ["components"] := by decide +kernel
    cases h _ rfl with
    | list hmembers =>
      obtain ⟨hnodup, hbelow⟩ := @additional_checkComponents "/components" _ _ 0 htokens hmembers
      refine ⟨hnodup, fun p hp => ?_⟩
      obtain ⟨n, below, _, hp⟩ := hbelow p hp
      exact ⟨_, _, _, hp⟩
  · exact nodup_of_eq_nil (additionalPaths_mismatch ..)

/-- **No two properties that are not allowed are reported at one path.** -/
theorem nodup_additionalPaths_check (h : (Value.object fields).WellKeyed) :
    (additionalPaths (check (.object fields))).Nodup := by
  cases h with
  | object hdistinct hmembers =>
    obtain ⟨hnodup, hbelow⟩ := @additional_checkComponentList (findEntry "components" fields)
      fun v hv => wellKeyed_of_findEntry hmembers hv
    rw [check, additionalPaths_append, additionalPaths_append, additionalPaths_append,
      additionalPaths_append, additionalPaths_checkVersion, additionalPaths_checkName,
      additionalPaths_checkDescription, List.append_nil, List.append_nil, List.append_nil]
    refine List.nodup_append.2 ⟨nodup_additional hdistinct, hnodup, ?_⟩
    rintro p hp q hq rfl
    have hroot : Pointer.tokens? "" = some [] := rfl
    obtain ⟨key, hp⟩ := tokens?_additional hroot hp
    obtain ⟨token, token', below, hq⟩ := hbelow p hq
    rw [hp] at hq
    cases hq

/-- **Violations point into the document.** The pointer of each leads to a value of the document:
for a property that is missing to the object that lacks it, for one that is not allowed to its
value, and otherwise to the value whose type or form is wrong. If no object has two fields with one
key, then no two properties that are not allowed are reported at one path. -/
theorem check_points (fields : List (String × Value)) :
    (∀ d ∈ check (.object fields), Points (.object fields) d) ∧
    ((Value.object fields).WellKeyed → (additionalPaths (check (.object fields))).Nodup) :=
  ⟨points_of_mem_check fields, nodup_additionalPaths_check⟩

/-- A document whose keys look like pointers and like what is written for slashes and tildes. -/
def crookedFields : List (String × Value) :=
  [("/a", .null), ("components", .list [.object [("id/", .null), ("kind", .text "server"),
    ("spec", .object [("~", .null), ("~0", .null), ("~1", .null)])]]), ("~1a", .null)]

theorem wellKeyed_crooked : (Value.object crookedFields).WellKeyed := by
  have hspec : (Value.object [("~", .null), ("~0", .null), ("~1", .null)]).WellKeyed :=
    .object (by decide) (by simp [Value.WellKeyed.null])
  have hcomponent : (Value.object [("id/", .null), ("kind", .text "server"),
      ("spec", .object [("~", .null), ("~0", .null), ("~1", .null)])]).WellKeyed :=
    .object (by decide) (by simp [Value.WellKeyed.null, Value.WellKeyed.text, hspec])
  have hcomponents := Value.WellKeyed.list (List.forall_mem_singleton.2 hcomponent)
  exact .object (by decide) (by simp [crookedFields, Value.WellKeyed.null, hcomponents])

/-- The properties of this document are reported once each. -/
theorem check_points_crooked : (Value.object crookedFields).WellKeyed ∧
    additionalPaths (check (.object crookedFields)) =
      ["/~1a", "/~01a", "/components/0/id~1", "/components/0/spec/~0", "/components/0/spec/~00",
        "/components/0/spec/~01"] ∧
    (∀ d ∈ check (.object crookedFields), Points (.object crookedFields) d) ∧
    (additionalPaths (check (.object crookedFields))).Nodup := by
  obtain ⟨hpoints, hnodup⟩ := check_points crookedFields
  exact ⟨wellKeyed_crooked, by decide +kernel, hpoints, hnodup wellKeyed_crooked⟩

end Schema

end ArchSpec
