import ArchSpec.Proofs.Diagnostic
import ArchSpec.Proofs.Model.Build
import ArchSpec.Proofs.Specification.Schema
import ArchSpec.Specification.Semantic

/-!
# Accepted documents are typed without loss

Reading a document and typing its components are lenient: what has the wrong type counts as empty.
For a document that the schema accepts nothing is lost by this: every item is a declaration, and
every field of a declaration is in the typed component as it is written.

* `Body.Records` — a body says what fields say, and no more.
* `Body.records_ofFields` — typing records the fields that fit a kind.
* `declarations_of_fits` — every item of a list that fits is declared, in order.
* `nodup_of_duplicates`, `declare_complete` — distinct declarations of known kinds are all typed.
* `typed_of_check` — accepted documents are typed without problems and without loss.
-/

namespace ArchSpec

/-! ## What a body says -/

namespace Body

/-- The texts of a body, by the names of their fields. -/
def texts : Body → List (String × String)
  | server s => [("framework", s.framework), ("openapi", s.openapi)]
  | middleware w =>
    [("provider", w.provider), ("config", w.config), ("model", w.model), ("policy", w.policy)]
  | database d => [("provider", d.provider), ("schema", d.schema)]
  | usecase u => [("binds_to", u.bindsTo), ("goal", u.goal), ("actor", u.actor)]

/-- The numbers of a body. -/
def numbers : Body → List (String × Int)
  | server s => [("port", s.port)]
  | _ => []

/-- The lists of a body, which may be absent. -/
def lists : Body → List (String × Option (List String))
  | server s => [("middleware", s.middleware), ("depends_on", s.dependsOn)]
  | middleware w => [("depends_on", w.dependsOn)]
  | database _ => []
  | usecase u =>
    [("middleware", u.middleware), ("preconditions", u.preconditions),
      ("acceptance_criteria", u.acceptanceCriteria), ("postconditions", u.postconditions)]

/-- A body says what fields say: a text or a list is there as it is written, a text that is left
out is empty, a list that is left out is absent, and there is nothing else. -/
structure Records (b : Body) (fields : List (String × Value)) : Prop where
  known : ∀ f ∈ fields, f.1 ∈ b.texts.map (·.1) ++ b.numbers.map (·.1) ++ b.lists.map (·.1)
  text : ∀ e ∈ b.texts, findEntry e.1 fields = some (.text e.2) ∨
    findEntry e.1 fields = none ∧ e.2 = ""
  number : ∀ e ∈ b.numbers, findEntry e.1 fields = some (.int e.2)
  list : ∀ e ∈ b.lists, findEntry e.1 fields = e.2.map Value.texts
  contract : ∀ s, b = .server s → s.contract = none
  binding : ∀ u, b = .usecase u → u.binding = none

end Body

section

variable {k : Kind} {fields : List (String × Value)} {r : FieldRule}

/-- The fields that are typed as texts are those whose rules ask for texts. -/
theorem texts_ofFields (k : Kind) (fields : List (String × Value)) :
    (Body.ofFields k fields).texts =
      (k.rules.filter fun r => r.form = .text ∨ r.form = .binding).map fun r =>
        (r.name, textOf fields r.name) := by
  cases k <;> rfl

theorem numbers_ofFields (k : Kind) (fields : List (String × Value)) :
    (Body.ofFields k fields).numbers =
      (k.rules.filter (·.form = .port)).map fun r => (r.name, portOf fields) := by
  cases k <;> rfl

theorem lists_ofFields (k : Kind) (fields : List (String × Value)) :
    (Body.ofFields k fields).lists =
      (k.rules.filter (·.form = .texts)).map fun r => (r.name, textsOf fields r.name) := by
  cases k <;> rfl

theorem textOf_of_fits (h : Schema.FieldsFit k fields) (hr : r ∈ k.rules)
    (hform : r.form = .text ∨ r.form = .binding) :
    findEntry r.name fields = some (.text (textOf fields r.name)) ∨
      findEntry r.name fields = none ∧ textOf fields r.name = "" := by
  unfold textOf
  cases hv : findEntry r.name fields with
  | none => exact .inr ⟨rfl, rfl⟩
  | some v =>
    have htext : ∃ s, v = .text s := by
      have hholds := h.form hr hv
      rcases hform with hform | hform <;> rw [hform] at hholds
      · exact hholds
      · obtain ⟨s, rfl, _⟩ := hholds
        exact ⟨s, rfl⟩
    obtain ⟨s, rfl⟩ := htext
    exact .inl rfl

theorem textsOf_of_fits (h : Schema.FieldsFit k fields) (hr : r ∈ k.rules)
    (hform : r.form = .texts) :
    findEntry r.name fields = (textsOf fields r.name).map Value.texts := by
  unfold textsOf
  cases hv : findEntry r.name fields with
  | none => rfl
  | some v =>
    have hholds := h.form hr hv
    rw [hform] at hholds
    obtain ⟨xs, rfl⟩ := hholds
    have htexts : (xs.map Value.text).filterMap Value.text? = xs := by
      rw [List.filterMap_map]
      exact List.filterMap_some
    simp [Value.texts, Value.list?, htexts]

/-- Only servers have a port, and they have to have one. -/
theorem portOf_of_fits (h : Schema.FieldsFit k fields) (hr : r ∈ k.rules)
    (hform : r.form = .port) : findEntry r.name fields = some (.int (portOf fields)) := by
  have hport : r.name = "port" ∧ r.required = true := by
    cases k <;> simp only [Kind.rules, List.mem_cons, List.not_mem_nil, or_false] at hr <;>
      rcases hr with rfl | rfl | rfl | rfl | rfl | rfl | rfl <;> simp_all
  obtain ⟨v, hv⟩ := Option.isSome_iff_exists.1 (h.required hr hport.2)
  have hholds := h.form hr hv
  rw [hform] at hholds
  obtain ⟨i, rfl, hmin, hmax⟩ := hholds
  rw [hport.1] at hv ⊢
  simp [portOf, hv, Schema.fitsSigned_of_port hmin hmax]

/-- **Typing records fields that fit a kind.** -/
theorem Body.records_ofFields (h : Schema.FieldsFit k fields) :
    (Body.ofFields k fields).Records fields := by
  refine ⟨?_, ?_, ?_, ?_, ?_, ?_⟩
  · -- a field that is allowed is typed as its rule asks
    intro f hf
    obtain ⟨r, hr, hname⟩ := List.mem_map.1 (h.known f hf)
    rw [texts_ofFields, numbers_ofFields, lists_ofFields]
    simp only [List.map_map, List.mem_append, List.mem_map, List.mem_filter, Function.comp_apply,
      decide_eq_true_eq]
    cases hform : r.form with
    | text => exact .inl (.inl ⟨r, ⟨hr, .inl hform⟩, hname⟩)
    | binding => exact .inl (.inl ⟨r, ⟨hr, .inr hform⟩, hname⟩)
    | port => exact .inl (.inr ⟨r, ⟨hr, hform⟩, hname⟩)
    | texts => exact .inr ⟨r, ⟨hr, hform⟩, hname⟩
  · intro e he
    rw [texts_ofFields] at he
    obtain ⟨r, hr, rfl⟩ := List.mem_map.1 he
    obtain ⟨hr, hform⟩ := List.mem_filter.1 hr
    exact textOf_of_fits h hr (of_decide_eq_true hform)
  · intro e he
    rw [numbers_ofFields] at he
    obtain ⟨r, hr, rfl⟩ := List.mem_map.1 he
    obtain ⟨hr, hform⟩ := List.mem_filter.1 hr
    exact portOf_of_fits h hr (of_decide_eq_true hform)
  · intro e he
    rw [lists_ofFields] at he
    obtain ⟨r, hr, rfl⟩ := List.mem_map.1 he
    obtain ⟨hr, hform⟩ := List.mem_filter.1 hr
    exact textsOf_of_fits h hr (of_decide_eq_true hform)
  · intro s hs
    cases k <;> simp only [Body.ofFields, Body.server.injEq, reduceCtorEq] at hs
    rw [← hs]
  · intro u hu
    cases k <;> simp only [Body.ofFields, Body.usecase.injEq, reduceCtorEq] at hu
    rw [← hu]

end

/-! ## Declarations -/

/-- A declaration says what an item of a document says. -/
def Declares (item : Value) (d : Declaration) : Prop :=
  ∃ fields, item = .object fields ∧ findEntry "id" fields = some (.text d.id) ∧
    findEntry "kind" fields = some (.text d.kind) ∧ findEntry "spec" fields = some (.object d.spec)

/-- The kind of a declaration is known, and its fields fit it. -/
def Declaration.Fits (d : Declaration) : Prop :=
  ∃ k, Kind.ofText? d.kind = some k ∧ Schema.FieldsFit k d.spec

/-- An item that fits is a declaration. -/
theorem ofValue?_of_fits {fields spec : List (String × Value)} {id kind : String} {k : Kind}
    (h : Schema.ComponentFits fields id kind k spec) :
    Declaration.ofValue? (.object fields) = some ⟨id, kind, spec, none⟩ := by
  simp [Declaration.ofValue?, Value.textField, Value.field?, h.idField, h.kindField, h.specField,
    Value.text?, Value.fields?]

/-- **Every item of a list that fits is declared, in order.** -/
theorem declarations_of_fits : ∀ {items : List Value},
    (∀ item ∈ items, Schema.IsComponent item) →
    List.Forall₂ (fun item d => d.Fits ∧ Declares item d) items
      (items.filterMap Declaration.ofValue?)
  | [], _ => .nil
  | item :: rest, h => by
    obtain ⟨fields, id, kind, k, spec, rfl, hfits⟩ := h item List.mem_cons_self
    have hrest := declarations_of_fits fun i hi => h i (List.mem_cons_of_mem _ hi)
    rw [List.filterMap_cons_some (ofValue?_of_fits hfits)]
    exact .cons ⟨⟨k, Kind.ofText?_eq_some_iff.2 hfits.kindKnown, hfits.specFits⟩,
      fields, rfl, hfits.idField, hfits.kindField, hfits.specField⟩ hrest

theorem Locate.length_pair : ∀ (found : List (String × Position)) (ids : List String),
    (pair found ids).length = ids.length
  | _, [] => rfl
  | found, id :: ids => by
    rw [pair, List.length_cons, List.length_cons, length_pair _ ids]

/-- Places say nothing about what declarations say. -/
theorem forall₂_zipWith_position {r : Value → Declaration → Prop}
    (hr : ∀ {item d} p, r item d → r item { d with position := p }) :
    ∀ {items : List Value} {ds : List Declaration} {ps : List (Option Position)},
      List.Forall₂ r items ds → ps.length = ds.length →
      List.Forall₂ r items (ds.zipWith (fun d p => { d with position := p }) ps)
  | _, _, [], .nil, _ => .nil
  | _, _, p :: _, .cons h hrest, hl =>
    .cons (hr p h) (forall₂_zipWith_position hr hrest (Nat.succ.inj hl))

/-- An accepted document is a specification whose declarations are the items of the document. -/
theorem ofValue_of_check {v : Value} (h : Schema.check v = []) (file : String)
    (source : Option String) :
    ∃ items s, (v.field? "components").bind Value.list? = some items ∧
      Specification.ofValue v file source = .ok s ∧
      List.Forall₂ (fun item d => d.Fits ∧ Declares item d) items s.declarations := by
  obtain ⟨fields, items, rfl, hitems, hfits⟩ := Schema.components_of_check h
  have hcomponents : ((Value.object fields).field? "components").bind Value.list? = some items := by
    rw [Value.field?, hitems]
    rfl
  have hdeclared := declarations_of_fits hfits
  have hds : Specification.declarationsOf (.object fields) =
      items.filterMap Declaration.ofValue? := by
    rw [Specification.declarationsOf, hcomponents, Option.getD_some]
  rw [← hds] at hdeclared
  refine ⟨items, _, hcomponents, rfl, ?_⟩
  cases source with
  | none => exact hdeclared
  | some source =>
    refine forall₂_zipWith_position ?_ hdeclared ?_
    · intro item d p hd
      exact hd
    · rw [Locate.locate, Locate.length_pair, List.length_map]

/-! ## Typing -/

/-- **Declarations without duplicates have distinct IDs**, which were not declared before. -/
theorem nodup_of_duplicates : ∀ {ds : List Declaration} {seen : List (String × String)},
    Specification.duplicates seen ds = [] →
    (ds.map (·.id)).Nodup ∧ ∀ d ∈ ds, seen.lookup d.id = none
  | [], _, _ => ⟨List.nodup_nil, nofun⟩
  | d :: rest, seen, h => by
    unfold Specification.duplicates at h
    split at h
    · cases h
    · rename_i hd
      obtain ⟨hn, hrest⟩ := nodup_of_duplicates h
      have hnew : ∀ e ∈ rest, e.id ≠ d.id ∧ seen.lookup e.id = none := by
        intro e he
        have hlookup := hrest e he
        rw [List.lookup_cons] at hlookup
        split at hlookup
        · cases hlookup
        · rename_i hne
          exact ⟨by simpa using hne, hlookup⟩
      rw [List.map_cons, List.nodup_cons]
      refine ⟨⟨?_, hn⟩, ?_⟩
      · intro hmem
        obtain ⟨e, he, heq⟩ := List.mem_map.1 hmem
        exact (hnew e he).1 heq
      · rw [List.forall_mem_cons]
        exact ⟨hd, fun e he => (hnew e he).2⟩

namespace Model

/-- **Distinct declarations of known kinds are all typed.** -/
theorem declare_complete : ∀ {ds : List Declaration} {m : Model},
    (∀ d ∈ ds, ∃ k, Kind.ofText? d.kind = some k) → (ds.map (·.id)).Nodup →
    (∀ d ∈ ds, m.symbols.get? d.id = none) →
    (m.declare ds).2 = [] ∧
    (∀ id, id ∉ ds.map (·.id) → (m.declare ds).1.get? id = m.get? id) ∧
    ∀ d ∈ ds, ∃ k, Kind.ofText? d.kind = some k ∧
      (m.declare ds).1.get? d.id = some (.ofDeclaration d k)
  | [], _, _, _, _ => ⟨rfl, fun _ _ => rfl, nofun⟩
  | d :: rest, m, hkinds, hn, hnew => by
    rw [List.map_cons, List.nodup_cons] at hn
    obtain ⟨k, hk⟩ := hkinds d List.mem_cons_self
    have hadd : m.addDeclaration d = .ok (m.enter d k) := by
      rw [addDeclaration_eq, hk, hnew d List.mem_cons_self]
    have hnew' : ∀ e ∈ rest, (m.enter d k).symbols.get? e.id = none := by
      intro e he
      have hne : d.id ≠ e.id := fun heq => hn.1 (heq ▸ List.mem_map.2 ⟨e, he, rfl⟩)
      rw [symbol_enter, if_neg hne]
      exact hnew e (List.mem_cons_of_mem _ he)
    obtain ⟨herrors, hother, hthere⟩ := declare_complete
      (fun e he => hkinds e (List.mem_cons_of_mem _ he)) hn.2 hnew'
    have hdeclare : m.declare (d :: rest) = (m.enter d k).declare rest := by
      rw [declare, hadd]
    rw [hdeclare]
    refine ⟨herrors, ?_, ?_⟩
    · intro id hid
      rw [List.map_cons, List.mem_cons, not_or] at hid
      rw [hother id hid.2, get?_enter, if_neg (Ne.symm hid.1)]
    · rw [List.forall_mem_cons]
      refine ⟨⟨k, hk, ?_⟩, hthere⟩
      rw [hother d.id hn.1, get?_enter, if_pos rfl]

end Model

/-- **Accepted documents are typed without problems and without loss.** Every item is declared, in
order; if the specification as a whole is fine too, there is one component for every declaration,
which records its fields and nothing else. -/
theorem typed_of_check {v : Value} (h : Schema.check v = []) (file : String)
    (source : Option String) :
    ∃ items s, (v.field? "components").bind Value.list? = some items ∧
      Specification.ofValue v file source = .ok s ∧ List.Forall₂ Declares items s.declarations ∧
      (s.checkSemantics = [] → (Model.typed s).2 = [] ∧
        (Model.typed s).1.ids.Perm (s.declarations.map (·.id)) ∧
        ∀ d ∈ s.declarations, ∃ c, (Model.typed s).1.get? d.id = some c ∧ c.id = d.id ∧
          c.position = d.position ∧ Kind.ofText? d.kind = some c.kind ∧ c.body.Records d.spec ∧
          c.dependencies = [] ∧ c.dependents = []) := by
  obtain ⟨items, s, hitems, hs, hall⟩ := ofValue_of_check h file source
  obtain ⟨hfits, _⟩ := (List.forall₂_and_left _ _).1 hall.flip
  refine ⟨items, s, hitems, hs, hall.imp fun _ _ h => h.2, fun hsemantics => ?_⟩
  obtain ⟨hdistinct, _⟩ := List.append_eq_nil_iff.1
    (List.append_eq_nil_iff.1 (Diagnostic.sort_eq_nil_iff.1 hsemantics)).1
  have hn : (s.declarations.map (·.id)).Nodup := (nodup_of_duplicates hdistinct).1
  obtain ⟨herrors, hother, hthere⟩ := Model.declare_complete (m := Model.empty (Model.metadataOf s))
    (fun d hd => (hfits d hd).imp fun _ hk => hk.1) hn fun _ _ => rfl
  refine ⟨herrors, ?_, ?_⟩
  · refine (List.perm_ext_iff_of_nodup (Model.nodup_ids _) hn).2 fun id => ?_
    rw [Model.mem_ids_iff, Model.contains_iff]
    constructor
    · rintro ⟨c, hc⟩
      by_contra hid
      rw [Model.typed, hother id hid] at hc
      cases hc
    · intro hid
      obtain ⟨d, hd, rfl⟩ := List.mem_map.1 hid
      obtain ⟨k, _, hget⟩ := hthere d hd
      exact ⟨_, hget⟩
  · intro d hd
    obtain ⟨k, hk, hget⟩ := hthere d hd
    obtain ⟨k', hk', hspec⟩ := hfits d hd
    rw [hk, Option.some.injEq] at hk'
    subst hk'
    refine ⟨_, hget, rfl, rfl, ?_, Body.records_ofFields hspec, rfl, rfl⟩
    rw [hk, Model.kind_ofDeclaration]

/-- A document with a server, its middleware, and a use-case whose lists are partly empty. -/
def gallery : Value :=
  .ofFields [("version", .text "1.0.0"), ("name", .text "gallery"), ("components", .list [
    .ofFields [("id", .text "s.web"), ("kind", .text "server"), ("spec", .ofFields
      [("framework", .text "axum"), ("port", .int 80), ("middleware", .texts ["m.log", "m.log"])])],
    .ofFields [("id", .text "m.log"), ("kind", .text "middleware"), ("spec", .ofFields
      [("provider", .text "log")])],
    .ofFields [("id", .text "u.see"), ("kind", .text "usecase"), ("spec", .ofFields
      [("binds_to", .text "s.web:GET:/"), ("goal", .text "see"), ("middleware", .list [])])]])]

theorem typed_of_check_gallery : Schema.check gallery = [] ∧
    ∃ items s, (gallery.field? "components").bind Value.list? = some items ∧
      Specification.ofValue gallery "gallery.yaml" none = .ok s ∧
      List.Forall₂ Declares items s.declarations ∧ (Model.typed s).2 = [] ∧
      (Model.typed s).1.ids.Perm ["s.web", "m.log", "u.see"] ∧
      ∃ c, (Model.typed s).1.get? "u.see" = some c ∧ c.body.Records
        [("binds_to", .text "s.web:GET:/"), ("goal", .text "see"), ("middleware", .list [])] := by
  have hcheck : Schema.check gallery = [] := by decide +kernel
  obtain ⟨items, s, hitems, hs, hall, htyped⟩ := typed_of_check hcheck "gallery.yaml" none
  cases hs
  obtain ⟨herrors, hids, hcomponents⟩ := htyped (by decide +kernel)
  obtain ⟨c, hc, _, _, _, hrecords, _⟩ := hcomponents
    ⟨"u.see", "usecase", [("binds_to", .text "s.web:GET:/"), ("goal", .text "see"),
      ("middleware", .list [])], none⟩ (List.mem_of_getElem? (i := 2) rfl)
  exact ⟨hcheck, items, _, hitems, rfl, hall, herrors, hids, c, hc, hrecords⟩

end ArchSpec
