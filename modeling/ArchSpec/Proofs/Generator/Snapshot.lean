import ArchSpec.Generator.Builtin
import ArchSpec.Proofs.Contract.Written
import ArchSpec.Proofs.Json.Blanks
import ArchSpec.Proofs.Model.Attached

/-!
# The snapshot loses nothing

The snapshot of a model tells its data, its components and its edges, so two models with one
snapshot differ at most in where their components are declared. It is read back as a value that
lists the components in the order of their IDs. Both hold as long as the contracts that are attached
to the model allow no numbers of double precision, of which some are all written as null.

* `Component.unplaced` — a component without the place of its declaration.
* `Component.toValue_inj`, `Model.toValue_inj` — what the document values tell.
* `Model.AllowsWhole`, `Model.whole_toValue` — what has to be known of the contracts.
* `Snapshot.content_spec` — what snapshots tell.
-/

namespace ArchSpec

open Json (Whole)
open Value (ofRecord)

/-! ## Components -/

theorem optionalTexts_injective : Function.Injective optionalTexts := by
  intro xs ys h
  cases xs <;> cases ys
  · rfl
  · cases h
  · cases h
  · exact congrArg some (Value.texts_injective h)

theorem whole_optionalTexts (xs : Option (List String)) : Whole (optionalTexts xs) := by
  cases xs with
  | none => exact .null
  | some xs => exact .texts xs

namespace Binding

theorem toValue_eq (b : Binding) : b.toValue = ofRecord [("server_id", some (.text b.server)),
    ("method", some (.text b.method.text)), ("path", some (.text b.path)),
    ("operation", b.operation.map Operation.toValue)] := by
  simp [toValue, ofRecord, optionalField]

theorem toValue_injective : Function.Injective toValue := by
  intro b b' h
  obtain ⟨server, method, path, operation⟩ := b
  obtain ⟨server', method', path', operation'⟩ := b'
  rw [toValue_eq, toValue_eq] at h
  have hrecord := Value.ofRecord_inj h rfl (by simp)
  simp at hrecord
  obtain ⟨rfl, hmethod, rfl, hoperation⟩ := hrecord
  have hmethod := congrArg Method.ofText? hmethod
  rw [Method.ofText?_text, Method.ofText?_text, Option.some.injEq] at hmethod
  rw [hmethod, Option.map_injective Operation.toValue_injective hoperation]

theorem whole_toValue {b : Binding} (h : ∀ o ∈ b.operation, ∀ v ∈ o.allowed, Whole v) :
    Whole b.toValue := by
  rw [toValue_eq]
  refine .ofRecord ?_
  simp only [List.forall_mem_cons]
  exact ⟨(Whole.text _).field, (Whole.text _).field, (Whole.text _).field,
    Json.wholeField_map fun o ho => Operation.whole_toValue (h o ho), List.forall_mem_nil _⟩

end Binding

namespace Body

/-- The fields of what a component says. -/
def record : Body → List (String × Option Value)
  | server s => [("framework", some (.text s.framework)), ("port", some (.int s.port)),
      ("openapi", some (.text s.openapi)), ("middleware", some (optionalTexts s.middleware)),
      ("depends_on", some (optionalTexts s.dependsOn)),
      ("contract", s.contract.map Contract.toValue)]
  | middleware m => [("provider", some (.text m.provider)), ("config", some (.text m.config)),
      ("model", some (.text m.model)), ("policy", some (.text m.policy)),
      ("depends_on", some (optionalTexts m.dependsOn))]
  | database d => [("provider", some (.text d.provider)), ("schema", some (.text d.schema))]
  | usecase u => [("binds_to", some (.text u.bindsTo)), ("goal", some (.text u.goal)),
      ("actor", some (.text u.actor)), ("middleware", some (optionalTexts u.middleware)),
      ("preconditions", some (optionalTexts u.preconditions)),
      ("acceptance_criteria", some (optionalTexts u.acceptanceCriteria)),
      ("postconditions", some (optionalTexts u.postconditions)),
      ("binding", u.binding.map Binding.toValue)]

theorem toValue_eq (b : Body) : b.toValue = ofRecord b.record := by
  cases b <;> simp [toValue, record, ofRecord, optionalField]

/-- **The document value of what a component says tells what it says**, if its kind is known. -/
theorem toValue_inj {b b' : Body} (hkind : b.kind = b'.kind) (h : b.toValue = b'.toValue) :
    b = b' := by
  rw [toValue_eq, toValue_eq] at h
  have hsame : b'.record.map (·.1) = b.record.map (·.1) := by
    cases b <;> cases b' <;> first
      | rfl
      | cases hkind
  have hrecord := Value.ofRecord_inj h hsame (by cases b <;> simp [record])
  cases b with
  | server s =>
    cases b' with
    | server s' =>
      obtain ⟨framework, port, openapi, middleware, dependsOn, contract⟩ := s
      obtain ⟨framework', port', openapi', middleware', dependsOn', contract'⟩ := s'
      simp [record] at hrecord
      obtain ⟨rfl, rfl, rfl, hmiddleware, hdependsOn, hcontract⟩ := hrecord
      rw [optionalTexts_injective hmiddleware, optionalTexts_injective hdependsOn,
        Option.map_injective Contract.toValue_injective hcontract]
    | _ => cases hkind
  | middleware m =>
    cases b' with
    | middleware m' =>
      obtain ⟨provider, config, model, policy, dependsOn⟩ := m
      obtain ⟨provider', config', model', policy', dependsOn'⟩ := m'
      simp [record] at hrecord
      obtain ⟨rfl, rfl, rfl, rfl, hdependsOn⟩ := hrecord
      rw [optionalTexts_injective hdependsOn]
    | _ => cases hkind
  | database d =>
    cases b' with
    | database d' =>
      obtain ⟨provider, schema⟩ := d
      obtain ⟨provider', schema'⟩ := d'
      simp [record] at hrecord
      obtain ⟨rfl, rfl⟩ := hrecord
      rfl
    | _ => cases hkind
  | usecase u =>
    cases b' with
    | usecase u' =>
      obtain ⟨bindsTo, goal, actor, middleware, preconditions, criteria, postconditions,
        binding⟩ := u
      obtain ⟨bindsTo', goal', actor', middleware', preconditions', criteria', postconditions',
        binding'⟩ := u'
      simp [record] at hrecord
      obtain ⟨rfl, rfl, rfl, hmiddleware, hpreconditions, hcriteria, hpostconditions,
        hbinding⟩ := hrecord
      rw [optionalTexts_injective hmiddleware, optionalTexts_injective hpreconditions,
        optionalTexts_injective hcriteria, optionalTexts_injective hpostconditions,
        Option.map_injective Binding.toValue_injective hbinding]
    | _ => cases hkind

end Body

namespace Component

/-- A component without the place of its declaration. -/
def unplaced (c : Component) : Component := { c with position := none }

theorem toValue_eq (c : Component) : c.toValue = ofRecord [("id", some (.text c.id)),
    ("kind", some (.text c.kind.text)), ("spec", some c.body.toValue),
    ("dependencies", some (.texts c.dependencies)),
    ("dependents", some (.texts c.dependents))] :=
  rfl

/-- **The document value of a component tells the component**, but for its place. -/
theorem toValue_inj {c c' : Component} (h : c.toValue = c'.toValue) : c.unplaced = c'.unplaced := by
  rw [toValue_eq, toValue_eq] at h
  have hrecord := Value.ofRecord_inj h rfl (by simp)
  simp only [List.cons.injEq, Prod.mk.injEq, true_and, and_true, Option.some.injEq,
    Value.text.injEq] at hrecord
  obtain ⟨hid, hkind, hbody, hdependencies, hdependents⟩ := hrecord
  have hkind := congrArg Kind.ofText? hkind
  rw [Kind.ofText?_text, Kind.ofText?_text, Option.some.injEq] at hkind
  simp only [unplaced, hid, Body.toValue_inj hkind hbody, Value.texts_injective hdependencies,
    Value.texts_injective hdependents]

/-- A component has no numbers but its port and what its contract or its operation allows. -/
theorem whole_toValue {c : Component}
    (hport : ∀ s, c.server? = some s →
      Binary64.minInteger ≤ s.port ∧ s.port ≤ Binary64.maxInteger)
    (hcontract : ∀ s, c.server? = some s → ∀ k, s.contract = some k → ∀ v ∈ k.allowed, Whole v)
    (hbinding : ∀ u, c.usecase? = some u → ∀ b, u.binding = some b → ∀ o, b.operation = some o →
      ∀ v ∈ o.allowed, Whole v) : Whole c.toValue := by
  obtain ⟨id, position, body, dependencies, dependents⟩ := c
  have hbody : Whole body.toValue := by
    rw [Body.toValue_eq]
    refine .ofRecord ?_
    cases body with
    | server s =>
      have hword : -Nat.pow 2 63 ≤ Binary64.minInteger ∧ Binary64.maxInteger ≤ Json.maxWord := by
        decide
      obtain ⟨hlow, hhigh⟩ := hport s rfl
      simp only [Body.record, List.forall_mem_cons]
      exact ⟨(Whole.text _).field,
        (Whole.int (Int.le_trans hword.1 hlow) (Int.le_trans hhigh hword.2)).field,
        (Whole.text _).field, (whole_optionalTexts _).field, (whole_optionalTexts _).field,
        Json.wholeField_map fun k hk => Contract.whole_toValue (hcontract s rfl k hk),
          List.forall_mem_nil _⟩
    | middleware m =>
      simp only [Body.record, List.forall_mem_cons]
      exact ⟨(Whole.text _).field, (Whole.text _).field, (Whole.text _).field,
        (Whole.text _).field, (whole_optionalTexts _).field, List.forall_mem_nil _⟩
    | database d =>
      simp only [Body.record, List.forall_mem_cons]
      exact ⟨(Whole.text _).field, (Whole.text _).field, List.forall_mem_nil _⟩
    | usecase u =>
      simp only [Body.record, List.forall_mem_cons]
      exact ⟨(Whole.text _).field, (Whole.text _).field, (Whole.text _).field,
        (whole_optionalTexts _).field, (whole_optionalTexts _).field,
        (whole_optionalTexts _).field, (whole_optionalTexts _).field,
        Json.wholeField_map fun b hb => Binding.whole_toValue (hbinding u rfl b hb),
          List.forall_mem_nil _⟩
  rw [toValue_eq]
  refine .ofRecord ?_
  simp only [List.forall_mem_cons]
  exact ⟨(Whole.text _).field, (Whole.text _).field, hbody.field, (Whole.texts _).field,
    (Whole.texts _).field, List.forall_mem_nil _⟩

end Component

/-! ## Models -/

theorem Metadata.toValue_eq (d : Metadata) : d.toValue = ofRecord [
    ("version", some (.text d.version)), ("name", some (.text d.name)),
    ("description", Value.textUnlessNil d.description)] := by
  unfold toValue
  rw [Value.textUnlessEmpty_eq]
  simp [ofRecord, optionalField]

theorem Metadata.toValue_injective : Function.Injective toValue := by
  intro d d' h
  obtain ⟨version, name, description⟩ := d
  obtain ⟨version', name', description'⟩ := d'
  rw [toValue_eq, toValue_eq] at h
  have hrecord := Value.ofRecord_inj h rfl (by simp)
  simp at hrecord
  obtain ⟨rfl, rfl, hdescription⟩ := hrecord
  rw [Value.textUnlessNil_inj hdescription]

theorem Edge.toValue_eq (e : Edge) : e.toValue = ofRecord [("from", some (.text e.source)),
    ("to", some (.text e.target)), ("type", some (.text e.relation.text))] :=
  rfl

theorem Relation.text_injective : Function.Injective text := by
  intro r r' h
  cases r <;> cases r' <;> first
    | rfl
    | exact absurd h (by decide)

theorem Edge.toValue_injective : Function.Injective toValue := by
  intro e e' h
  obtain ⟨source, target, relation⟩ := e
  obtain ⟨source', target', relation'⟩ := e'
  rw [toValue_eq, toValue_eq] at h
  have hrecord := Value.ofRecord_inj h rfl (by simp)
  simp at hrecord
  obtain ⟨rfl, rfl, hrelation⟩ := hrecord
  rw [Relation.text_injective hrelation]

namespace Model

variable {m m' : Model}

theorem toValue_eq (m : Model) : m.toValue = ofRecord [("metadata", some m.metadata.toValue),
    ("components", some (.list (m.components.values.map Component.toValue))),
    ("edges", some (.list (m.edges.map Edge.toValue)))] :=
  rfl

/-- Two models say the same, but for where their components are declared. -/
structure Same (m m' : Model) : Prop where
  metadata : m.metadata = m'.metadata
  components : ∀ id, (m.get? id).map Component.unplaced = (m'.get? id).map Component.unplaced
  edges : m.edges = m'.edges

/-- The entries of the components of a model can be told from its components. -/
theorem WellFormed.entries_eq (h : m.WellFormed) :
    m.components.entries = m.components.values.map fun c => (c.id, c) := by
  rw [SortedMap.values, List.map_map]
  refine (List.map_id _).symm.trans (List.map_congr_left fun e he => ?_)
  have hid := h.id_eq ((m.components.mem_entries_iff e.1 e.2).1 he)
  exact Prod.ext hid.symm rfl

theorem WellFormed.map_get? (h : m.WellFormed) (id : String) :
    (m.get? id).map Component.unplaced =
      findEntry id ((m.components.values.map Component.unplaced).map fun c => (c.id, c)) := by
  rw [Model.get?, SortedMap.get?, ← findEntry_map (fun _ c => Component.unplaced c), h.entries_eq,
    List.map_map, List.map_map]
  rfl

/-- **The document value of a model tells the model**, but for where its components are declared. -/
theorem toValue_inj (hm : m.WellFormed) (hm' : m'.WellFormed) (h : m.toValue = m'.toValue) :
    Same m m' := by
  rw [toValue_eq, toValue_eq] at h
  have hrecord := Value.ofRecord_inj h rfl (by simp)
  simp only [List.cons.injEq, Prod.mk.injEq, true_and, and_true, Option.some.injEq,
    Value.list.injEq] at hrecord
  obtain ⟨hmetadata, hcomponents, hedges⟩ := hrecord
  refine ⟨Metadata.toValue_injective hmetadata, fun id => ?_,
    List.map_injective_iff.2 Edge.toValue_injective hedges⟩
  have hvalues : m.components.values.map Component.unplaced =
      m'.components.values.map Component.unplaced := by
    rw [← List.forall₂_eq_eq_eq, List.forall₂_map_left_iff, List.forall₂_map_right_iff]
    rw [← List.forall₂_eq_eq_eq, List.forall₂_map_left_iff, List.forall₂_map_right_iff]
      at hcomponents
    exact hcomponents.imp fun _ _ => Component.toValue_inj
  rw [hm.map_get?, hm'.map_get?, hvalues]

/-! ## Whole numbers -/

/-- The contracts that are attached allow no values with numbers but integers of 64 bits. -/
def AllowsWhole (m : Model) : Prop :=
  ∀ id k, m.contractOf? id = some k → ∀ v ∈ k.allowed, Whole v

/-- What is attached allows no other values than what is read. -/
theorem allowsWhole_build {s : Specification} {base : Path} {read : Path → Except Failure Contract}
    (h : ∀ path k, read path = .ok k → ∀ v ∈ k.allowed, Whole v) :
    (build s base read).1.AllowsWhole := by
  intro id k hk
  obtain ⟨path, hread⟩ := contract_build hk
  exact h path k hread

/-- **A model that is built has no numbers** but its ports and what its contracts allow. -/
theorem whole_build {s : Specification} {base : Path} {read : Path → Except Failure Contract}
    (h : (build s base read).1.AllowsWhole) : Whole (build s base read).1.toValue := by
  have hcomponent : ∀ c ∈ (build s base read).1.components.values, Whole c.toValue := by
    intro c hc
    obtain ⟨id, hid⟩ := ((build s base read).1.components.mem_values_iff c).1 hc
    refine Component.whole_toValue (fun server hserver => ?_) (fun server hserver k hk => ?_)
      fun u hu b hb o ho v hv => ?_
    · exact port_build (Option.bind_eq_some_iff.2 ⟨c, hid, hserver⟩)
    · refine h id k ?_
      rw [contractOf?, Model.get?, hid, Option.bind_some, hserver, Option.bind_some, hk]
    · have hbinding : (build s base read).1.bindingOf? id = some b := by
        rw [bindingOf?, Model.get?, hid, Option.bind_some, hu, Option.bind_some, hb]
      obtain ⟨k, hk, hmem⟩ := operation_build hbinding ho
      exact h b.server k hk v (List.mem_flatMap.2 ⟨o, hmem, hv⟩)
  rw [toValue_eq]
  refine .ofRecord ?_
  simp only [List.forall_mem_cons]
  refine ⟨Whole.field ?_, Whole.field (.list fun v hv => ?_), Whole.field (.list fun v hv => ?_),
    List.forall_mem_nil _⟩
  · rw [Metadata.toValue_eq]
    refine .ofRecord ?_
    simp only [List.forall_mem_cons]
    exact ⟨(Whole.text _).field, (Whole.text _).field, Json.wholeField_textUnlessNil _,
      List.forall_mem_nil _⟩
  · obtain ⟨c, hc, rfl⟩ := List.mem_map.1 hv
    exact hcomponent c hc
  · obtain ⟨e, _, rfl⟩ := List.mem_map.1 hv
    rw [Edge.toValue_eq]
    refine .ofRecord ?_
    simp only [List.forall_mem_cons]
    exact ⟨(Whole.text _).field, (Whole.text _).field, (Whole.text _).field, List.forall_mem_nil _⟩

end Model

/-! ## Reading a snapshot back -/

/-- The fields of a record that is read back are those of the record, read back. -/
theorem field?_inOrder {fields : List (String × Option Value)} {k : String} {v : Option Value}
    (hnames : (fields.map (·.1)).Nodup) (hmem : (k, v) ∈ fields) :
    (Json.inOrder (ofRecord fields)).field? k = v.map Json.inOrder := by
  have hfield := Value.field?_ofRecord hnames hmem
  rw [ofRecord, Value.ofFields, ← SortedMap.entries_ofList] at hfield ⊢
  generalize SortedMap.ofList (fields.flatMap fun f => optionalField f.1 f.2) = es at hfield ⊢
  have hincreasing : KeysIncrease ([] ++ es.entries.map fun e => (e.1, Json.inOrder e.2)) :=
    List.pairwise_map.2 es.increasing
  rw [Json.inOrder, Json.fieldsInOrder_eq, Value.ofFields, foldl_insertEntry hincreasing,
    List.nil_append, Value.field?, findEntry_map (fun _ v => Json.inOrder v)]
  exact congrArg (Option.map Json.inOrder) hfield

/-- A component that is read back has its ID. -/
theorem Component.id_inOrder (c : Component) :
    (Json.inOrder c.toValue).textField "id" = c.id := by
  rw [toValue_eq, Value.textField, field?_inOrder (by simp) List.mem_cons_self, Option.map_some,
    Json.inOrder_text]
  rfl

namespace Snapshot

/-- **A snapshot that is read back lists the components** in the order of their IDs. -/
theorem components_inOrder {m : Model} (hm : m.WellFormed) : ∃ items,
    (Json.inOrder m.toValue).field? "components" = some (.list items) ∧
      items.map (Value.textField "id") = m.ids := by
  refine ⟨(m.components.values.map Component.toValue).map Json.inOrder, ?_, ?_⟩
  · rw [m.toValue_eq, field?_inOrder (by simp) (List.mem_cons_of_mem _ List.mem_cons_self),
      Option.map_some, Json.inOrder, Json.itemsInOrder_eq]
  · rw [List.map_map, List.map_map, Model.ids, SortedMap.keys, hm.entries_eq, List.map_map]
    refine List.map_congr_left fun c _ => ?_
    simp only [Function.comp_apply, c.id_inOrder]

/-- **What snapshots tell**: two models that are built, from any documents and any contracts, say
the same if they have one snapshot. A snapshot is read back as a value that lists the components in
the order of their IDs, by every reader that lets lists and objects nest as deep as they do there;
one that does not refuses it, and so does the reader of documents beyond its own limit. -/
theorem content_spec (s s' : Specification) (base base' : Path)
    (read read' : Path → Except Failure Contract)
    (h : (Model.build s base read).1.AllowsWhole)
    (h' : (Model.build s' base' read').1.AllowsWhole) :
    (content (Model.build s base read).1 = content (Model.build s' base' read').1 →
      (Model.build s base read).1.Same (Model.build s' base' read').1) ∧
    ∃ v items, (∀ depth, Json.readAt depth (content (Model.build s base read).1) =
        if Json.nesting (Model.build s base read).1.toValue ≤ depth then .ok v
        else .error .tooDeep) ∧
      (Json.read (content (Model.build s base read).1) =
        if Json.nesting (Model.build s base read).1.toValue ≤ Json.maxDepth then .ok v
        else .error .tooDeep) ∧
      v.field? "components" = some (.list items) ∧
      items.map (Value.textField "id") = (Model.build s base read).1.ids ∧
      (Model.build s base read).1.ids.Pairwise (· < ·) := by
  have hm := Model.WellFormed.build s base read
  have hm' := Model.WellFormed.build s' base' read'
  have hwhole := Model.whole_build h
  have hwhole' := Model.whole_build h'
  refine ⟨fun hcontent => ?_, ?_⟩
  · have hpretty := String.append_left_inj ("\n") |>.1 hcontent
    exact Model.toValue_inj hm hm' (Json.pretty_inj hwhole.exact hwhole'.exact hpretty)
  · obtain ⟨items, hfield, hids⟩ := components_inOrder hm
    have hread := Json.readAt_pretty hwhole
    refine ⟨_, items, hread, (Json.read_eq_readAt _).trans (hread Json.maxDepth), hfield, hids, ?_⟩
    exact List.pairwise_map.2 (Model.build s base read).1.components.increasing

/-- A server and a use-case of it, declared somewhere in a file. -/
def desk (line : Nat) : Specification :=
  ⟨"1.0.0", "desk", "", "", [⟨"web", "server", [("openapi", .text "web.yaml"), ("port", .int 80),
      ("middleware", .texts [])], some ⟨"desk.yaml", line, 3⟩⟩,
    ⟨"ask", "usecase", [("binds_to", .text "web:GET:/")], none⟩], .null⟩

/-- Lists of lists, to some depth, of what a parameter may be. -/
def listed : Nat → Schema
  | 0 => .mk ⟨some "string", none, none, [], [.text "open", .int 3], true⟩ [] none
  | n + 1 => .mk ⟨some "array", none, none, [], [], false⟩ [] (some (listed n))

/-- A contract with a parameter of such lists. -/
def deskContract (depth : Nat) : Contract :=
  Contract.empty.insert ⟨some "ask", .get, "/", "", "",
    [⟨"state", "query", false, some (listed depth)⟩], none, .empty, ["desk"]⟩

/-- The model of that specification. -/
def deskModel (line : Nat) (base : Path) (depth : Nat) : Model :=
  (Model.build (desk line) base fun _ => .ok (deskContract depth)).1

theorem content_spec_desk : (deskModel 4 "a" 0).AllowsWhole ∧ (deskModel 9 "b" 0).AllowsWhole ∧
    (deskModel 4 "a" 120).AllowsWhole ∧
    ((deskModel 4 "a" 0).contractOf? "web").isSome = true ∧
    (deskModel 4 "a" 0).Same (deskModel 9 "b" 0) ∧
    (∃ v items, Json.read (content (deskModel 4 "a" 0)) = .ok v ∧
      v.field? "components" = some (.list items) ∧
      items.map (Value.textField "id") = ["ask", "web"]) ∧
    Json.read (content (deskModel 4 "a" 120)) = .error .tooDeep := by
  have hallowed : ∀ depth, (deskContract depth).allowed = [.text "open", .int 3] := by
    intro depth
    induction depth with
    | zero => rfl
    | succ depth ih => exact ih
  have hwhole : ∀ line base depth, (deskModel line base depth).AllowsWhole := by
    intro line base depth
    refine Model.allowsWhole_build fun path k hk => ?_
    rw [← Except.ok.inj hk, hallowed]
    simp only [List.forall_mem_cons]
    exact ⟨.text _, .int (by decide) (by decide), List.forall_mem_nil _⟩
  obtain ⟨hsame, v, items, _, hread, hfield, hids, _⟩ :=
    content_spec (desk 4) (desk 9) "a" "b" (fun _ => .ok (deskContract 0))
      (fun _ => .ok (deskContract 0)) (hwhole 4 "a" 0) (hwhole 9 "b" 0)
  obtain ⟨_, _, _, _, hdeep, _⟩ :=
    content_spec (desk 4) (desk 4) "a" "a" (fun _ => .ok (deskContract 120))
      (fun _ => .ok (deskContract 120)) (hwhole 4 "a" 120) (hwhole 4 "a" 120)
  have hvalue : (deskModel 4 "a" 0).toValue = (deskModel 9 "b" 0).toValue := rfl
  have hcontent : content (deskModel 4 "a" 0) = content (deskModel 9 "b" 0) :=
    congrArg (fun v => Json.pretty v ++ "\n") hvalue
  rw [if_pos (by decide +kernel)] at hread
  rw [if_neg (by decide +kernel)] at hdeep
  refine ⟨hwhole 4 "a" 0, hwhole 9 "b" 0, hwhole 4 "a" 120, by decide +kernel, hsame hcontent,
    ⟨v, items, hread, hfield, ?_⟩, hdeep⟩
  rw [hids]
  decide +kernel

end Snapshot

end ArchSpec
