import ArchSpec.Proofs.Value

/-!
# Contracts as document values

What is empty is left out of the document value of a contract, and can be told from what is left
out: no two contracts have the same value, however deep their schemas are. The value has no numbers
but those among the values that its schemas allow.

* `Schema.toValue_inj`, `Operation.toValue_injective`, `Contract.toValue_injective` — values tell
  what they are of.
* `Schema.allowed`, `Contract.allowed` — the values that schemas allow.
* `Operation.whole_toValue`, `Contract.whole_toValue` — what has to be known of them.
-/

namespace ArchSpec

open Json (Whole)
open Value (ofRecord listUnlessNil textUnlessNil textUnlessEmpty_eq listUnlessEmpty_eq)

/-! ## Schemas -/

namespace Schema

/-- The properties of a schema, unless there are none. -/
def propertiesUnlessNil (ps : List (String × Schema)) : Option Value :=
  if ps.isEmpty then none else some (.object (propertyValues ps))

/-- The fields of a schema. -/
def record (s : Schema) : List (String × Option Value) :=
  [("type", s.shape.type.map .text), ("format", s.shape.format.map .text),
    ("$ref", s.shape.reference.map .text),
    ("required", listUnlessNil (s.shape.required.map .text)),
    ("enum", listUnlessNil s.shape.choices),
    ("nullable", if s.shape.nullable then some (.bool true) else none),
    ("properties", propertiesUnlessNil s.properties), ("items", s.items.map toValue)]

theorem toValue_eq (s : Schema) : s.toValue = ofRecord s.record := by
  obtain ⟨⟨type, format, reference, required, choices, nullable⟩, properties, items⟩ := s
  unfold toValue Shape.fields
  simp only [listUnlessEmpty_eq, record, ofRecord, propertiesUnlessNil,
    Schema.shape, Schema.properties, Schema.items, List.flatMap_cons, List.flatMap_nil]
  cases nullable <;> cases properties <;> cases items <;> simp [optionalField]

/-! No two schemas have the same value, by induction on the schema. -/

theorem propertyValues_eq {ps qs : List (String × Schema)}
    (h : propertiesUnlessNil ps = propertiesUnlessNil qs) :
    propertyValues ps = propertyValues qs := by
  unfold propertiesUnlessNil at h
  cases ps <;> cases qs <;> simp_all [propertyValues]

/-- The type of a schema is told by its fields. -/
theorem shape_eq_of_record {s s' : Schema} (h : s.record = s'.record) : s.shape = s'.shape := by
  obtain ⟨⟨type, format, reference, required, choices, nullable⟩, properties, items⟩ := s
  obtain ⟨⟨type', format', reference', required', choices', nullable'⟩, properties', items'⟩ := s'
  simp only [record, List.cons.injEq, Prod.mk.injEq, true_and, and_true, Schema.shape] at h
  obtain ⟨htype, hformat, hreference, hrequired, hchoices, hnullable, _⟩ := h
  have htype := Option.map_injective Value.text_injective htype
  have hformat := Option.map_injective Value.text_injective hformat
  have hreference := Option.map_injective Value.text_injective hreference
  have hrequired := List.map_injective_iff.2 Value.text_injective
    (Value.listUnlessNil_inj hrequired)
  have hchoices := Value.listUnlessNil_inj hchoices
  have hnullable : nullable = nullable' := by
    cases nullable <;> cases nullable' <;> simp at hnullable <;> rfl
  simp only [Schema.shape, htype, hformat, hreference, hrequired, hchoices, hnullable]

mutual

/-- **The document value of a schema tells the schema.** -/
theorem toValue_inj : ∀ {s s' : Schema}, s.toValue = s'.toValue → s = s'
  | .mk shape properties items, .mk shape' properties' items', h => by
    rw [toValue_eq, toValue_eq] at h
    have hrecord := Value.ofRecord_inj h rfl (by simp [record])
    have hshape := shape_eq_of_record hrecord
    simp only [record, List.cons.injEq, Prod.mk.injEq, true_and, and_true] at hrecord
    obtain ⟨_, _, _, _, _, _, hproperties, hitems⟩ := hrecord
    have hproperties := propertyValues_inj (propertyValues_eq hproperties)
    have hitems : items = items' := by
      cases items with
      | none =>
        cases items' with
        | none => rfl
        | some i' => cases hitems
      | some i =>
        cases items' with
        | none => cases hitems
        | some i' => rw [toValue_inj (Option.some.inj hitems)]
    simp only [Schema.shape, Schema.properties] at hshape hproperties
    rw [hshape, hproperties, hitems]

/-- The document values of the properties of a schema tell the properties. -/
theorem propertyValues_inj : ∀ {ps qs : List (String × Schema)},
    propertyValues ps = propertyValues qs → ps = qs
  | [], [], _ => rfl
  | (k, s) :: ps, (k', s') :: qs, h => by
    rw [propertyValues, propertyValues, List.cons.injEq, Prod.mk.injEq] at h
    rw [h.1.1, toValue_inj h.1.2, propertyValues_inj h.2]
  | [], _ :: _, h => by rw [propertyValues, propertyValues.eq_def] at h; cases h
  | _ :: _, [], h => by rw [propertyValues.eq_def, propertyValues] at h; cases h

end

theorem toValue_injective : Function.Injective toValue := fun _ _ => toValue_inj

end Schema

theorem schemaValue_injective : Function.Injective schemaValue := by
  have hnull : ∀ s : Schema, s.toValue ≠ .null := by
    intro s h
    rw [s.toValue_eq] at h
    cases h
  intro s s' h
  cases s with
  | none =>
    cases s' with
    | none => rfl
    | some s' => exact absurd h.symm (hnull s')
  | some s =>
    cases s' with
    | none => exact absurd h (hnull s)
    | some s' => exact congrArg some (Schema.toValue_inj h)

/-! ## Operations -/

theorem Parameter.toValue_eq (p : Parameter) : p.toValue = ofRecord [("name", some (.text p.name)),
    ("location", some (.text p.location)), ("required", some (.bool p.required)),
    ("schema", p.schema.map Schema.toValue)] := by
  cases h : p.schema <;> simp [toValue, ofRecord, optionalField, h]

theorem Parameter.toValue_injective : Function.Injective toValue := by
  intro p p' h
  obtain ⟨name, location, required, schema⟩ := p
  obtain ⟨name', location', required', schema'⟩ := p'
  rw [toValue_eq, toValue_eq] at h
  have hrecord := Value.ofRecord_inj h rfl (by simp)
  simp at hrecord
  obtain ⟨rfl, rfl, rfl, hschema⟩ := hrecord
  rw [Option.map_injective Schema.toValue_injective hschema]

theorem RequestBody.toValue_eq (b : RequestBody) : b.toValue = ofRecord [
    ("required", some (.bool b.required)), ("content", some (b.content.toValue schemaValue))] :=
  rfl

theorem RequestBody.toValue_injective : Function.Injective toValue := by
  intro b b' h
  obtain ⟨required, content⟩ := b
  obtain ⟨required', content'⟩ := b'
  rw [toValue_eq, toValue_eq] at h
  have hrecord := Value.ofRecord_inj h rfl (by simp)
  simp at hrecord
  rw [hrecord.1, SortedMap.toValue_injective schemaValue_injective hrecord.2]

theorem Response.toValue_eq (r : Response) : r.toValue = ofRecord [
    ("description", some (.text r.description)),
    ("content", some (r.content.toValue schemaValue))] :=
  rfl

theorem Response.toValue_injective : Function.Injective toValue := by
  intro r r' h
  obtain ⟨description, content⟩ := r
  obtain ⟨description', content'⟩ := r'
  rw [toValue_eq, toValue_eq] at h
  have hrecord := Value.ofRecord_inj h rfl (by simp)
  simp at hrecord
  rw [hrecord.1, SortedMap.toValue_injective schemaValue_injective hrecord.2]

theorem Operation.toValue_eq (o : Operation) : o.toValue = ofRecord [
    ("operation_id", o.id.map .text), ("method", some (.text o.method.text)),
    ("path", some (.text o.path)), ("summary", textUnlessNil o.summary),
    ("description", textUnlessNil o.description),
    ("parameters", listUnlessNil (o.parameters.map Parameter.toValue)),
    ("request_body", o.requestBody.map RequestBody.toValue),
    ("responses", some (o.responses.toValue Response.toValue)),
    ("tags", listUnlessNil (o.tags.map .text))] := by
  unfold toValue
  rw [textUnlessEmpty_eq, textUnlessEmpty_eq, listUnlessEmpty_eq, listUnlessEmpty_eq]
  simp [ofRecord, optionalField]

/-- **The document value of an operation tells the operation.** -/
theorem Operation.toValue_injective : Function.Injective toValue := by
  intro o o' h
  obtain ⟨id, method, path, summary, description, parameters, requestBody, responses, tags⟩ := o
  obtain ⟨id', method', path', summary', description', parameters', requestBody', responses',
    tags'⟩ := o'
  rw [toValue_eq, toValue_eq] at h
  have hrecord := Value.ofRecord_inj h rfl (by simp)
  simp only [List.cons.injEq, Prod.mk.injEq, true_and, and_true, Option.some.injEq,
    Value.text.injEq] at hrecord
  obtain ⟨hid, hmethod, hpath, hsummary, hdescription, hparameters, hrequestBody, hresponses,
    htags⟩ := hrecord
  have hmethod := congrArg Method.ofText? hmethod
  rw [Method.ofText?_text, Method.ofText?_text, Option.some.injEq] at hmethod
  rw [Option.map_injective Value.text_injective hid, hmethod, hpath,
    Value.textUnlessNil_inj hsummary, Value.textUnlessNil_inj hdescription,
    List.map_injective_iff.2 Parameter.toValue_injective (Value.listUnlessNil_inj hparameters),
    Option.map_injective RequestBody.toValue_injective hrequestBody,
    SortedMap.toValue_injective Response.toValue_injective hresponses,
    List.map_injective_iff.2 Value.text_injective (Value.listUnlessNil_inj htags)]

theorem Contract.toValue_eq (k : Contract) : k.toValue = ofRecord [
    ("title", some (.text k.title)), ("version", some (.text k.version)),
    ("operations", some (k.operations.toValue Operation.toValue))] :=
  rfl

/-- **The document value of a contract tells the contract.** -/
theorem Contract.toValue_injective : Function.Injective toValue := by
  intro k k' h
  obtain ⟨title, version, operations⟩ := k
  obtain ⟨title', version', operations'⟩ := k'
  rw [toValue_eq, toValue_eq] at h
  have hrecord := Value.ofRecord_inj h rfl (by simp)
  simp at hrecord
  rw [hrecord.1, hrecord.2.1,
    SortedMap.toValue_injective Operation.toValue_injective hrecord.2.2]

/-! ## Values that schemas allow -/

mutual

/-- The values that a schema and its parts allow, where they list them. -/
def Schema.allowed : Schema → List Value
  | .mk shape properties items =>
    shape.choices ++ Schema.allowedOfProperties properties ++
      (match items with
        | none => []
        | some i => i.allowed)

/-- The values that the properties of a schema allow. -/
def Schema.allowedOfProperties : List (String × Schema) → List Value
  | [] => []
  | (_, s) :: rest => s.allowed ++ Schema.allowedOfProperties rest

end

/-- The schemas of a body. -/
def Content.schemas (c : Content) : List Schema := c.values.filterMap id

/-- The schemas of an operation, without those inside of others. -/
def Operation.schemas (o : Operation) : List Schema :=
  o.parameters.filterMap (·.schema) ++ (o.requestBody.map (·.content.schemas)).getD [] ++
    o.responses.values.flatMap (·.content.schemas)

/-- The values that the schemas of an operation allow. -/
def Operation.allowed (o : Operation) : List Value := o.schemas.flatMap Schema.allowed

/-- The values that the schemas of a contract allow. -/
def Contract.allowed (k : Contract) : List Value := k.operations.values.flatMap Operation.allowed

mutual

theorem Schema.whole_toValue : ∀ {s : Schema}, (∀ v ∈ s.allowed, Whole v) → Whole s.toValue
  | .mk shape properties items, h => by
    unfold allowed at h
    rw [List.forall_mem_append, List.forall_mem_append] at h
    obtain ⟨⟨hchoices, hproperties⟩, hitems⟩ := h
    rw [toValue_eq]
    refine .ofRecord ?_
    simp only [record, Schema.shape, Schema.properties, Schema.items, List.forall_mem_cons]
    refine ⟨Json.wholeField_text _, Json.wholeField_text _, Json.wholeField_text _,
      Json.wholeField_texts _, Json.wholeField_listUnlessNil hchoices,
      Json.wholeField_flag _, ?_, ?_, nofun⟩
    · unfold propertiesUnlessNil
      split
      · nofun
      · exact (Whole.object (whole_propertyValues hproperties)).field
    · cases items with
      | none => nofun
      | some i => exact (whole_toValue hitems).field

theorem Schema.whole_propertyValues : ∀ {ps : List (String × Schema)},
    (∀ v ∈ allowedOfProperties ps, Whole v) → ∀ f ∈ propertyValues ps, Whole f.2
  | [], _ => nofun
  | (k, s) :: ps, h => by
    rw [allowedOfProperties, List.forall_mem_append] at h
    rw [propertyValues, List.forall_mem_cons]
    exact ⟨whole_toValue h.1, whole_propertyValues h.2⟩

end

theorem Content.whole_toValue {c : Content} (h : ∀ s ∈ c.schemas, ∀ v ∈ s.allowed, Whole v) :
    Whole (c.toValue schemaValue) := by
  refine .ofMap fun s hs => ?_
  cases s with
  | none => exact .null
  | some s => exact Schema.whole_toValue (h s (List.mem_filterMap.2 ⟨some s, hs, rfl⟩))

/-- An operation has no numbers but those among the values that its schemas allow. -/
theorem Operation.whole_toValue {o : Operation} (h : ∀ v ∈ o.allowed, Whole v) :
    Whole o.toValue := by
  have hschema : ∀ s ∈ o.schemas, ∀ v ∈ s.allowed, Whole v := fun s hs v hv =>
    h v (List.mem_flatMap.2 ⟨s, hs, hv⟩)
  rw [schemas, List.forall_mem_append, List.forall_mem_append] at hschema
  obtain ⟨⟨hparameters, hrequestBody⟩, hresponses⟩ := hschema
  rw [toValue_eq]
  refine .ofRecord ?_
  simp only [List.forall_mem_cons]
  refine ⟨Json.wholeField_text _, (Whole.text _).field, (Whole.text _).field,
    Json.wholeField_textUnlessNil _, Json.wholeField_textUnlessNil _,
    Json.wholeField_listUnlessNil fun v hv => ?_, Json.wholeField_map fun b hb => ?_,
    Whole.field (.ofMap fun r hr => ?_), Json.wholeField_texts _, nofun⟩
  · obtain ⟨p, hp, rfl⟩ := List.mem_map.1 hv
    rw [Parameter.toValue_eq]
    refine .ofRecord ?_
    simp only [List.forall_mem_cons]
    refine ⟨(Whole.text _).field, (Whole.text _).field, (Whole.bool _).field,
      Json.wholeField_map fun s hs => ?_, nofun⟩
    exact Schema.whole_toValue (hparameters s (List.mem_filterMap.2 ⟨p, hp, hs⟩))
  · rw [Option.mem_def.1 hb] at hrequestBody
    rw [RequestBody.toValue_eq]
    refine .ofRecord ?_
    simp only [List.forall_mem_cons]
    exact ⟨(Whole.bool _).field, (Content.whole_toValue hrequestBody).field, nofun⟩
  · rw [Response.toValue_eq]
    refine .ofRecord ?_
    simp only [List.forall_mem_cons]
    refine ⟨(Whole.text _).field, (Content.whole_toValue fun s hs => ?_).field, nofun⟩
    exact hresponses s (List.mem_flatMap.2 ⟨r, hr, hs⟩)

/-- A contract has no numbers but those among the values that its schemas allow. -/
theorem Contract.whole_toValue {k : Contract} (h : ∀ v ∈ k.allowed, Whole v) :
    Whole k.toValue := by
  rw [toValue_eq]
  refine .ofRecord ?_
  simp only [List.forall_mem_cons]
  refine ⟨(Whole.text _).field, (Whole.text _).field, Whole.field (.ofMap fun o ho => ?_), nofun⟩
  exact Operation.whole_toValue fun v hv => h v (List.mem_flatMap.2 ⟨o, ho, hv⟩)

end ArchSpec
