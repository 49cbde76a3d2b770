import ArchSpec.OpenApi.Contract

/-!
# Schemas of contracts

A contract keeps the schemas of its document. A schema that is written is a tree, in which one steps
to a property or to the items, and what it becomes can be followed along the same steps. References
are not followed: a schema with a reference becomes nothing but the reference, and what is written
below it is cut off. So the two trees go together as far as no reference has been passed.

* `Schema.at?`, `OpenApi.SchemaNode.at?` — what lies at the end of a path of steps.
* `OpenApi.SchemaNode.OpenBefore` — that no reference lies on a path before its end.
* `OpenApi.SchemaNode.at?_schema` — where this is so, to follow the path and to convert commute.
* `OpenApi.SchemaNode.at?_schema_of_not_openBefore` — elsewhere there is nothing.
* `OpenApi.Tells` — what a schema is, of the one that is written.
* `OpenApi.schema_follows` — this is so at every place of every schema.
-/

namespace ArchSpec

/-- A step into a schema. -/
inductive SchemaStep where
  | property (name : String)
  | items
  deriving DecidableEq, Repr

namespace Schema

/-- The schema one step down. -/
def step? (s : Schema) : SchemaStep → Option Schema
  | .property name => findEntry name s.properties
  | .items => s.items

/-- The schema at the end of a path. -/
def at? (s : Schema) : List SchemaStep → Option Schema
  | [] => some s
  | step :: path => (s.step? step).bind fun child => child.at? path

end Schema

namespace OpenApi

namespace SchemaNode

def head : SchemaNode → SchemaHead
  | .mk h _ _ => h

def properties : SchemaNode → List (String × SchemaNode)
  | .mk _ ps _ => ps

def items : SchemaNode → Option SchemaNode
  | .mk _ _ i => i

/-- The schema one step down, as it is written. -/
def step? (n : SchemaNode) : SchemaStep → Option SchemaNode
  | .property name => findEntry name n.properties
  | .items => n.items

/-- The schema at the end of a path, as it is written. -/
def at? (n : SchemaNode) : List SchemaStep → Option SchemaNode
  | [] => some n
  | step :: path => (n.step? step).bind fun child => child.at? path

variable {n m : SchemaNode} {r : String} {step : SchemaStep} {path : List SchemaStep}

/-! ## One schema -/

theorem propertySchemas_eq (ps : List (String × SchemaNode)) :
    propertySchemas ps = ps.map fun e => (e.1, e.2.schema) := by
  induction ps with
  | nil => rfl
  | cons e ps ih => simp [propertySchemas, ih]

theorem schema_of_reference (h : n.head.reference = some r) : n.schema = referenceSchema r := by
  obtain ⟨head, ps, i⟩ := n
  change head.reference = some r at h
  cases i <;> simp only [schema, h]

theorem schema_of_open (h : n.head.reference = none) : n.schema =
    .mk n.head.shape (n.properties.map fun e => (e.1, e.2.schema)) (n.items.map schema) := by
  obtain ⟨head, ps, i⟩ := n
  change head.reference = none at h
  cases i <;> simp only [schema, h, propertySchemas_eq] <;> rfl

/-- Below a schema without a reference, what is written is converted. -/
theorem step?_schema (h : n.head.reference = none) (step : SchemaStep) :
    n.schema.step? step = (n.step? step).map schema := by
  rw [schema_of_open h]
  cases step with
  | property name => exact findEntry_map (fun _ s => s.schema) name n.properties
  | items => rfl

/-- Nothing is left below a reference. -/
theorem step?_schema_of_reference (h : n.head.reference = some r) (step : SchemaStep) :
    n.schema.step? step = none := by
  rw [schema_of_reference h]
  cases step <;> rfl

/-! ## Along a path -/

/-- No schema with a reference lies on a path before its end. -/
def OpenBefore (n : SchemaNode) (path : List SchemaStep) : Prop :=
  ∀ before step after, path = before ++ step :: after →
    ∀ m, n.at? before = some m → m.head.reference = none

theorem openBefore_nil (n : SchemaNode) : n.OpenBefore [] := by
  intro before step after h
  cases before <;> cases h

theorem openBefore_cons : n.OpenBefore (step :: path) ↔
    n.head.reference = none ∧ ∀ m, n.step? step = some m → m.OpenBefore path := by
  constructor
  · intro h
    refine ⟨h [] step path rfl n rfl, fun m hm before step' after hpath o ho => ?_⟩
    refine h (step :: before) step' after (by rw [hpath]; rfl) o ?_
    rw [at?, hm]
    exact ho
  · rintro ⟨hopen, hbelow⟩ before step' after hpath o ho
    cases before with
    | nil =>
      cases ho
      exact hopen
    | cons first before =>
      obtain ⟨rfl, hrest⟩ := List.cons.inj hpath
      obtain ⟨m, hm, ho⟩ := Option.bind_eq_some_iff.1 ho
      exact hbelow m hm before step' after hrest o ho

/-- **To follow a path and to convert commute** as far as no reference has been passed. -/
theorem at?_schema (h : n.OpenBefore path) : n.schema.at? path = (n.at? path).map schema := by
  induction path generalizing n with
  | nil => rfl
  | cons step path ih =>
    obtain ⟨hopen, hbelow⟩ := openBefore_cons.1 h
    rw [Schema.at?, at?, step?_schema hopen]
    cases hm : n.step? step with
    | none => rfl
    | some m => exact ih (hbelow m hm)

/-- **A path that passes a reference leads nowhere** in what is converted. -/
theorem at?_schema_of_not_openBefore (h : ¬n.OpenBefore path) : n.schema.at? path = none := by
  induction path generalizing n with
  | nil => exact absurd (openBefore_nil n) h
  | cons step path ih =>
    rw [Schema.at?]
    cases href : n.head.reference with
    | some r => rw [step?_schema_of_reference href, Option.bind_none]
    | none =>
      rw [step?_schema href]
      cases hm : n.step? step with
      | none => rfl
      | some m =>
        refine ih fun hbelow => h (openBefore_cons.2 ⟨href, fun o ho => ?_⟩)
        cases hm.symm.trans ho
        exact hbelow

end SchemaNode

/-! ## What a schema tells -/

/-- A type is the first one of a list that is not null. -/
structure FirstType (ts : List String) (t : String) : Prop where
  not_null : t ≠ "null"
  first : ∃ nulls rest, ts = nulls ++ t :: rest ∧ ∀ n ∈ nulls, n = "null"

theorem find?_eq_some_iff_firstType {ts : List String} {t : String} :
    ts.find? (· ≠ "null") = some t ↔ FirstType ts t := by
  rw [List.find?_eq_some_iff_append]
  constructor
  · rintro ⟨hnull, nulls, rest, rfl, hnulls⟩
    exact ⟨by simpa using hnull, nulls, rest, rfl, fun n hn => by simpa using hnulls n hn⟩
  · rintro ⟨hnull, nulls, rest, rfl, hnulls⟩
    exact ⟨by simpa using hnull, nulls, rest, rfl, fun n hn => by simpa using hnulls n hn⟩

/-- What the values of a schema without a reference are, of what is written. -/
structure Shaped (h : SchemaHead) (s : Shape) : Prop where
  reference : s.reference = none
  untyped : h.type = none → s.type = none
  single : ∀ t, h.type = some (.single t) → s.type = some t
  /-- Of several types the first one that is not null counts; there may be none. -/
  several : ∀ ts, h.type = some (.several ts) → ∀ t, s.type = some t ↔ FirstType ts t
  nullable : s.nullable = true ↔
    h.nullable = true ∨ ∃ ts, h.type = some (.several ts) ∧ "null" ∈ ts
  format : s.format = h.format
  required : s.required = h.required
  choices : s.choices = h.choices

theorem shaped_shape (h : SchemaHead) : Shaped h h.shape where
  reference := rfl
  untyped ht := by simp [SchemaHead.shape, ht, TypeName.resolve]
  single t ht := by simp [SchemaHead.shape, ht, TypeName.resolve]
  several ts ht t := by
    simp only [SchemaHead.shape, ht, TypeName.resolve]
    exact find?_eq_some_iff_firstType
  nullable := by
    cases ht : h.type with
    | none => simp [SchemaHead.shape, ht, TypeName.resolve]
    | some type => cases type <;> simp [SchemaHead.shape, ht, TypeName.resolve]
  format := rfl
  required := rfl
  choices := rfl

/-- What a schema is, of the one that is written: a reference and nothing else, or its values, with
the same properties. -/
inductive Tells (m : SchemaNode) : Schema → Prop
  | reference (r : String) (h : m.head.reference = some r) :
    Tells m (.mk ⟨none, none, some r, [], [], false⟩ [] none)
  | shape (h : m.head.reference = none) (s : Shape) (hs : Shaped m.head s)
    (properties : List (String × Schema))
    (hkeys : properties.map (·.1) = m.properties.map (·.1)) (items : Option Schema)
    (hitems : items.isSome = m.items.isSome) : Tells m (.mk s properties items)

theorem tells_schema (m : SchemaNode) : Tells m m.schema := by
  cases h : m.head.reference with
  | some r =>
    rw [SchemaNode.schema_of_reference h]
    exact .reference r h
  | none =>
    rw [SchemaNode.schema_of_open h]
    refine .shape h _ (shaped_shape m.head) _ ?_ _ Option.isSome_map
    rw [List.map_map]
    rfl

/-- **A converted schema follows the one that is written**, whatever path is taken: what lies at its
end is converted, unless the path passes a reference; then nothing is there. Whatever is there tells
what is written at its place. -/
theorem schema_follows (n : SchemaNode) (path : List SchemaStep) :
    (n.OpenBefore path → n.schema.at? path = (n.at? path).map SchemaNode.schema) ∧
    (¬n.OpenBefore path → n.schema.at? path = none) ∧
    ∀ s, n.schema.at? path = some s → ∃ m, n.at? path = some m ∧ Tells m s := by
  refine ⟨SchemaNode.at?_schema, SchemaNode.at?_schema_of_not_openBefore, fun s hs => ?_⟩
  by_cases hopen : n.OpenBefore path
  · rw [SchemaNode.at?_schema hopen] at hs
    obtain ⟨m, hm, rfl⟩ := Option.map_eq_some_iff.1 hs
    exact ⟨m, hm, tells_schema m⟩
  · rw [SchemaNode.at?_schema_of_not_openBefore hopen] at hs
    cases hs

/-- A schema that says nothing but its type. -/
def typed (type : TypeName) : SchemaNode := .mk ⟨some type, none, none, [], [], false⟩ [] none

/-- A user by reference, with more written beside and below it. -/
def owner : SchemaNode :=
  .mk ⟨some (.single "object"), none, some "#/components/schemas/User", ["id"], [], true⟩
    [("id", typed (.single "integer"))] none

/-- A list of pets, which have a name or null, and an owner. -/
def pets : SchemaNode :=
  .mk ⟨some (.single "array"), none, none, [], [], false⟩ []
    (some (.mk ⟨some (.single "object"), none, none, ["name"], [], false⟩
      [("name", typed (.several ["null", "string"])), ("owner", owner)] none))

theorem openBefore_pets (name : String) : pets.OpenBefore [.items, .property name] := by
  refine SchemaNode.openBefore_cons.2 ⟨rfl, fun m hm => ?_⟩
  cases hm
  exact SchemaNode.openBefore_cons.2 ⟨rfl, fun m _ => SchemaNode.openBefore_nil m⟩

/-- The name of a pet is a text or null; its owner is the reference, and has no identifier. -/
theorem schema_follows_pets :
    pets.OpenBefore [.items, .property "name"] ∧
    ¬pets.OpenBefore [.items, .property "owner", .property "id"] ∧
    (∃ s, pets.schema.at? [.items, .property "name"] = some s ∧
      s.shape.type = some "string" ∧ s.shape.nullable = true) ∧
    pets.schema.at? [.items, .property "owner"] =
      some (referenceSchema "#/components/schemas/User") ∧
    pets.schema.at? [.items, .property "owner", .property "id"] = none ∧
    ∃ m, pets.at? [.items, .property "owner", .property "id"] = some m := by
  have hid : ¬pets.OpenBefore [.items, .property "owner", .property "id"] := by
    intro h
    cases h [.items, .property "owner"] (.property "id") [] rfl owner (by rfl)
  have hname := (schema_follows pets [.items, .property "name"]).1 (openBefore_pets "name")
  have howner := (schema_follows pets [.items, .property "owner"]).1 (openBefore_pets "owner")
  have hcut := (schema_follows pets [.items, .property "owner", .property "id"]).2.1 hid
  exact ⟨openBefore_pets "name", hid, ⟨_, hname, by rfl, by rfl⟩, howner, hcut, _, by rfl⟩

end OpenApi

end ArchSpec
