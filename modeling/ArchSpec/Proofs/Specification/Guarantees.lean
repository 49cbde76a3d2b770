import ArchSpec.Proofs.Model.Accounting
import ArchSpec.Proofs.Model.Rules
import ArchSpec.Proofs.Specification.Typing

/-!
# What the schema guarantees to later steps

Some things are looked at more than once: kinds, ports and bindings by the schema, by the steps that
build a model, and by the rules for models. For a document that the schema accepts the later looks
find nothing that it should have found, although they are written differently.

* `Schema.FieldsFit.port`, `Schema.FieldsFit.bindsTo` — what the typed fields satisfy.
* `category_of_mem_build` — what building may report.
* `Model.Remains` — what the rules may report, if building reports nothing.
* `guarantees_of_check` — the schema guarantees that there is nothing else.
-/

namespace ArchSpec

/-! ## Typed fields -/

namespace Schema.FieldsFit

variable {k : Kind} {fields : List (String × Value)} {name text : String}

/-- A typed text is what its field says, in the form that its rule asks for; only if the rule does
not require it, it may be left out. -/
theorem exists_rule (h : FieldsFit k fields)
    (hmem : (name, text) ∈ (Body.ofFields k fields).texts) :
    ∃ r ∈ k.rules, r.name = name ∧
      (findEntry name fields = some (.text text) ∧ r.form.Holds (.text text) ∨
        findEntry name fields = none ∧ r.required = false) := by
  rw [texts_ofFields] at hmem
  obtain ⟨r, hr, heq⟩ := List.mem_map.1 hmem
  obtain ⟨hr, hform⟩ := List.mem_filter.1 hr
  have hform := of_decide_eq_true hform
  cases heq
  refine ⟨r, hr, rfl, ?_⟩
  rcases textOf_of_fits h hr hform with hfound | ⟨hnone, _⟩
  · exact .inl ⟨hfound, h.form hr hfound⟩
  · refine .inr ⟨hnone, Bool.eq_false_iff.2 fun hrequired => ?_⟩
    have hsome := h.required hr hrequired
    rw [hnone] at hsome
    cases hsome

/-- The binding of a use-case has the form of bindings. -/
theorem bindsTo (h : FieldsFit k fields)
    (hmem : ("binds_to", text) ∈ (Body.ofFields k fields).texts) : HasBindingForm text := by
  obtain ⟨r, hr, hname, hfound⟩ := h.exists_rule hmem
  have hrule : ∀ r ∈ k.rules, r.name = "binds_to" → r.form = .binding ∧ r.required = true := by
    cases k <;> decide
  obtain ⟨hform, hrequired⟩ := hrule r hr hname
  rcases hfound with ⟨_, hholds⟩ | ⟨_, hoptional⟩
  · rw [hform] at hholds
    obtain ⟨s, heq, hbinding⟩ := hholds
    cases heq
    exact hbinding
  · rw [hrequired] at hoptional
    cases hoptional

/-- The port of a server is in its range. -/
theorem port (h : FieldsFit k fields) {i : Int}
    (hmem : (name, i) ∈ (Body.ofFields k fields).numbers) : 1 ≤ i ∧ i ≤ 65535 := by
  rw [numbers_ofFields] at hmem
  obtain ⟨r, hr, heq⟩ := List.mem_map.1 hmem
  obtain ⟨hr, hform⟩ := List.mem_filter.1 hr
  have hform : r.form = .port := of_decide_eq_true hform
  cases heq
  have hholds := h.form hr (portOf_of_fits h hr hform)
  rw [hform] at hholds
  obtain ⟨i, heq, hrange⟩ := hholds
  cases heq
  exact hrange

end Schema.FieldsFit

@[simp] theorem Body.texts_unbound (b : Body) : b.unbound.texts = b.texts := by
  cases b <;> rfl

@[simp] theorem Body.numbers_unbound (b : Body) : b.unbound.numbers = b.numbers := by
  cases b <;> rfl

/-! ## Building -/

namespace Model

variable {s : Specification} {base : Path} {read : Path → Except Failure Contract}
  {m m₁ m₂ : Model}

/-- If all kinds are known, only names are objected to that are there already. -/
theorem category_of_mem_declare : ∀ {ds : List Declaration} {m : Model},
    (∀ d ∈ ds, ∃ k, Kind.ofText? d.kind = some k) →
    ∀ x ∈ (m.declare ds).2, x.category = .duplicateSymbol
  | [], _, _ => by simp [declare]
  | d :: rest, m, hkinds => by
    obtain ⟨⟨k, hk⟩, hrest⟩ := List.forall_mem_cons.1 hkinds
    unfold declare
    rw [addDeclaration_eq, hk]
    cases m.symbols.get? d.id with
    | none => exact category_of_mem_declare hrest
    | some s => exact List.forall_mem_cons.2 ⟨rfl, category_of_mem_declare hrest⟩

/-- Fields that fit some kind fit the kind that is spelled. -/
theorem fieldsFit_of_fits {d : Declaration} (h : d.Fits) {k : Kind}
    (hk : Kind.ofText? d.kind = some k) : Schema.FieldsFit k d.spec := by
  obtain ⟨k', hk', hfits⟩ := h
  cases hk.symm.trans hk'
  exact hfits

theorem mem_numbers_of_server {c : Component} {s : Server} (hs : c.body = .server s) :
    ("port", s.port) ∈ c.body.numbers := by
  rw [hs]
  exact List.mem_cons_self

theorem mem_texts_of_usecase {c : Component} {u : Usecase} (hu : c.body = .usecase u) :
    ("binds_to", u.bindsTo) ∈ c.body.texts := by
  rw [hu]
  exact List.mem_cons_self

/-- The binding of a typed use-case has the form of bindings. -/
theorem hasBindingForm_of_typed (hfits : ∀ d ∈ s.declarations, d.Fits) {id : String} {c : Component}
    {u : Usecase} (hc : (typed s).1.get? id = some c) (hu : c.body = .usecase u) :
    Schema.HasBindingForm u.bindsTo := by
  obtain ⟨d, hd, k, hk, rfl, rfl⟩ := exists_of_typed hc
  exact (fieldsFit_of_fits (hfits d hd) hk).bindsTo (mem_texts_of_usecase hu)

theorem category_of_unread? {c : Component} {x : Diagnostic} (h : unread? base read c = some x) :
    x.category = .contract := by
  unfold unread? at h
  split at h
  · split at h
    · cases h
    · split at h <;> cases h
      rfl
  · cases h

theorem category_of_diagnostic? {e : Ending} {id : String} {p : Option Position} {x : Diagnostic}
    (h : e.diagnostic? id p = some x) (hread : ∀ f, e ≠ .malformed f) :
    x.category ∈ [.duplicateSymbol, .contract, .unresolvedReference, .typeMismatch] := by
  cases e with
  | malformed f => exact absurd rfl (hread f)
  | bound => cases h
  | undefined | mismatched | notOffered =>
    cases h
    simp [Diagnostic.category]

theorem ending?_eq_some {t : Model} {c : Component} {e : Ending}
    (h : t.ending? base read c = some e) :
    ∃ u, c.body = .usecase u ∧ t.ending base read u.bindsTo = e := by
  unfold ending? at h
  split at h
  · rename_i u hu
    split at h
    · cases h
    · exact ⟨u, hu, Option.some.inj h⟩
  · cases h

/-- **Building reports no form and no kind**, if the declarations fit. -/
theorem category_of_mem_build (hfits : ∀ d ∈ s.declarations, d.Fits) (base : Path)
    (read : Path → Except Failure Contract) :
    ∀ x ∈ (build s base read).2,
      x.category ∈ [.duplicateSymbol, .contract, .unresolvedReference, .typeMismatch] := by
  by_cases htyped : (typed s).2 = []
  · rw [diagnostics_build htyped]
    simp only [List.forall_mem_append]
    refine ⟨⟨?_, ?_⟩, ?_⟩
    · intro x hx
      obtain ⟨c, _, hx⟩ := List.mem_filterMap.1 hx
      rw [category_of_unread? hx]
      decide
    · intro x hx
      obtain ⟨c, _, hx⟩ := List.mem_flatMap.1 hx
      obtain ⟨e, _, rfl⟩ := List.mem_map.1 hx
      simp [Diagnostic.category]
    · intro x hx
      obtain ⟨c, hc, hx⟩ := List.mem_filterMap.1 hx
      obtain ⟨id, hc⟩ := ((typed s).1.components.mem_values_iff c).1 hc
      obtain ⟨e, hend, hx⟩ := Option.bind_eq_some_iff.1 hx
      obtain ⟨u, hu, he⟩ := ending?_eq_some hend
      obtain ⟨b, hparse⟩ := (hasBindingForm_of_typed hfits hc hu).parse
      refine category_of_diagnostic? hx fun f hf => ?_
      cases (ends_iff _ base read u.bindsTo (.malformed f)).2 (hf.symm.trans he.symm) with
      | malformed hf =>
        rw [hparse] at hf
        cases hf
  · rw [build_of_typed_errors htyped]
    intro x hx
    rw [category_of_mem_declare (fun d hd => (hfits d hd).imp fun _ hk => hk.1) x hx]
    decide

/-! ## Rules for models -/

/-- What may still be wrong with a model, if the schema and building report nothing. -/
inductive Remains (s : Specification) (m : Model) : Diagnostic → Prop where
  | cycle {ids : List String} (h : ids ∈ m.detectCycles) : Remains s m (.cycle ids)
  | listed {c other : Component} {id r : String} (hc : m.get? id = some c)
    (hr : (r, .middleware) ∈ c.body.entries) (hother : m.get? r = some other)
    (hkind : other.kind ≠ .middleware) :
    Remains s m (.typeMismatch id "middleware" r .middleware other.kind c.position)
  | together {id message : String} : Remains s m (.crossComponent id message)
  /-- A text that is there and empty, or left out where that is allowed. -/
  | empty {d : Declaration} {c : Component} {field : String} {requiredBy : Option String}
    (hd : d ∈ s.declarations) (hc : m.get? d.id = some c) (htext : (field, "") ∈ c.body.texts)
    (hfield : field ∈ ["framework", "provider", "schema", "goal", "config", "model", "policy"])
    (hwritten : findEntry field d.spec = some (.text "") ∨
      findEntry field d.spec = none ∧ field ∈ ["config", "model", "policy"]) :
    Remains s m (.missingField d.id field requiredBy c.position)

/-- A contract adds nothing to what a component says itself. -/
theorem said_attachContract (base : Path) (read : Path → Except Failure Contract)
    (c : Component) : (attachContract base read c).1.body.texts = c.body.texts ∧
      (attachContract base read c).1.body.numbers = c.body.numbers := by
  unfold attachContract
  split
  · rename_i s hs
    split
    · exact ⟨rfl, rfl⟩
    · split
      · rw [hs]
        exact ⟨rfl, rfl⟩
      · exact ⟨rfl, rfl⟩
  · exact ⟨rfl, rfl⟩

/-- What the components of a built model say is what declarations say. -/
theorem Built.exists_declaration (h : Built s base read m₁ m₂ m) {id : String} {c : Component}
    (hc : m.get? id = some c) : ∃ d ∈ s.declarations, ∃ k, Kind.ofText? d.kind = some k ∧
      d.id = id ∧ c.body.texts = (Body.ofFields k d.spec).texts ∧
      c.body.numbers = (Body.ofFields k d.spec).numbers := by
  obtain ⟨c₀, hc₀, hdeclared⟩ := h.attached hc
  obtain ⟨d, hd, k, hk, hid, rfl⟩ := exists_of_typed hc₀
  have hbody : c.body.unbound = (attachContract base read (.ofDeclaration d k)).1.body.unbound :=
    congrArg Component.body hdeclared
  obtain ⟨htexts, hnumbers⟩ := said_attachContract base read (.ofDeclaration d k)
  refine ⟨d, hd, k, hk, hid, ?_, ?_⟩
  · rw [← c.body.texts_unbound, hbody, Body.texts_unbound, htexts]
    rfl
  · rw [← c.body.numbers_unbound, hbody, Body.numbers_unbound, hnumbers]
    rfl

/-- What a use-case is bound to is a server, since it could be bound. -/
theorem Built.kind_of_bound (h : Built s base read m₁ m₂ m) {id server rest : String}
    {c other : Component} {u : Usecase} (hc : m.get? id = some c) (hu : c.body = .usecase u)
    (htext : u.bindsTo = server ++ ":" ++ rest) (hne : server ≠ "") (hcolon : ':' ∉ server.toList)
    (hother : m.get? server = some other) : other.kind = .server := by
  obtain ⟨b, -, hresolves⟩ := h.resolves hc (Component.usecase?_eq_some_iff.2 hu)
    (by simp [htext])
  have hsame : b.server = server := by
    have hserver := (Binding.spells_of_parse hresolves.parse).serverOf?
    rw [Binding.serverOf?_eq_some_iff.2 ⟨hne, hcolon, rest, htext⟩] at hserver
    exact (Option.some.inj hserver).symm
  obtain ⟨symbol, hsymbol, hkind⟩ := hresolves.server
  have hserver := h.wellFormed_references.symbol_kind hsymbol
  rw [← h.frame_bindings.kindOf?, hsame, kindOf?, hother, hkind] at hserver
  exact Option.some.inj hserver

theorem mem_texts_of_required {b : Body} {field text : String} {requiredBy : Option String}
    (h : (field, text, requiredBy) ∈ b.required) : (field, text) ∈ b.texts ∧ field ∈
      ["framework", "provider", "schema", "goal", "config", "model", "policy", "binds_to"] := by
  cases b <;> grind [Body.required, Body.texts]

/-- A text that a rule for models asks for and that is empty is not the text of a binding. It is
written as an empty text or, where that is allowed, left out. -/
theorem written_of_required {k : Kind} {fields : List (String × Value)} {b : Body} {field : String}
    {requiredBy : Option String} (hfits : Schema.FieldsFit k fields)
    (htexts : b.texts = (Body.ofFields k fields).texts)
    (h : (field, "", requiredBy) ∈ b.required) :
    field ∈ ["framework", "provider", "schema", "goal", "config", "model", "policy"] ∧
    (findEntry field fields = some (.text "") ∨
      findEntry field fields = none ∧ field ∈ ["config", "model", "policy"]) := by
  obtain ⟨hmem, hfield⟩ := mem_texts_of_required h
  rw [htexts] at hmem
  have hnot : field ≠ "binds_to" := by
    rintro rfl
    exact (hfits.bindsTo hmem).ne_empty rfl
  obtain ⟨r, hr, rfl, hfound⟩ := hfits.exists_rule hmem
  have hoptional : ∀ r ∈ k.rules, r.required = false → r.name ∈
      ["framework", "provider", "schema", "goal", "config", "model", "policy", "binds_to"] →
      r.name ∈ ["config", "model", "policy"] := by
    cases k <;> decide
  refine ⟨by simpa [hnot] using hfield, ?_⟩
  rcases hfound with ⟨hfound, _⟩ | ⟨hnone, hrequired⟩
  · exact .inl hfound
  · exact .inr ⟨hnone, hoptional r hr hrequired hfield⟩

/-- **What the rules may report** of a model that is built without problems from declarations that
fit. -/
theorem remains_of_mem_check (hfits : ∀ d ∈ s.declarations, d.Fits)
    (hbuild : (build s base read).2 = []) :
    ∀ x ∈ (build s base read).1.check, Remains s (build s base read).1 x := by
  have hm := WellFormed.build s base read
  obtain ⟨m₁, m₂, h⟩ := Built.of_build hbuild
  intro x hx
  rcases hm.mem_check_iff.1 hx with ⟨ids, hids, rfl⟩ | ⟨rule, hbreaks⟩
  · exact .cycle hids
  · cases hbreaks with
    | noServer => exact .together
    | noTables => exact .together
    | component hc hbreaks =>
      have hid := hm.id_eq hc
      obtain ⟨d, hd, k, hk, rfl, htexts, hnumbers⟩ := h.exists_declaration hc
      have hspec := fieldsFit_of_fits (hfits d hd) hk
      cases hbreaks with
      | empty hempty =>
        obtain ⟨hfield, hwritten⟩ := written_of_required hspec htexts hempty
        rw [hid]
        exact .empty hd hc (mem_texts_of_required hempty).1 hfield hwritten
      | noPort hs hport =>
        have hrange := hspec.port (hnumbers ▸ mem_numbers_of_server hs)
        omega
      | portRange hs hport hrange =>
        exact absurd (hspec.port (hnumbers ▸ mem_numbers_of_server hs)) hrange
      | malformed hu hne hparse =>
        obtain ⟨b, hb⟩ := (hspec.bindsTo (htexts ▸ mem_texts_of_usecase hu)).parse
        rw [hb] at hparse
        cases hparse
      | elsewhere hu htext hne hcolon hother hkind =>
        exact absurd (h.kind_of_bound hc hu htext hne hcolon hother) hkind
      | listed hindex hother hkind =>
        rw [hid]
        exact .listed hc (List.mem_of_getElem? hindex) hother hkind

end Model

/-- **What the schema guarantees is not reported again.** Of an accepted document, building reports
no malformed text and no unknown kind; if it reports nothing, the rules for models find nothing but
what the schema leaves open, whether or not the document has been checked as a whole. -/
theorem guarantees_of_check {v : Value} (h : Schema.check v = []) (file : String)
    (source : Option String) :
    ∃ s, Specification.ofValue v file source = .ok s ∧
      ∀ (base : Path) (read : Path → Except Failure Contract),
        let built := Model.build s base read
        (∀ x ∈ built.2, x.category ≠ .format ∧ x.category ≠ .unknownKind) ∧
        (built.2 = [] → ∀ x ∈ built.1.check, Model.Remains s built.1 x) := by
  obtain ⟨items, s, -, hs, hall⟩ := ofValue_of_check h file source
  have hfits : ∀ d ∈ s.declarations, d.Fits := ((List.forall₂_and_left _ _).1 hall.flip).1
  refine ⟨s, hs, fun base read => ⟨fun x hx => ?_, Model.remains_of_mem_check hfits⟩⟩
  have hcategory := Model.category_of_mem_build hfits base read x hx
  constructor <;> intro heq <;> simp [heq] at hcategory

/-- A document that is accepted and built, with everything wrong that may still be wrong. -/
def stall : Value :=
  .ofFields [("version", .text "1.0.0"), ("name", .text "stall"), ("components", .list [
    .ofFields [("id", .text "s.web"), ("kind", .text "server"), ("spec", .ofFields
      [("framework", .text ""), ("port", .int 80), ("middleware", .texts ["m.auth", "d.main"]),
        ("depends_on", .texts ["s.web"])])],
    .ofFields [("id", .text "m.auth"), ("kind", .text "middleware"), ("spec", .ofFields
      [("provider", .text "better-auth")])],
    .ofFields [("id", .text "d.main"), ("kind", .text "postgres"), ("spec", .ofFields
      [("provider", .text "sqlx"), ("schema", .text "")])],
    .ofFields [("id", .text "u.buy"), ("kind", .text "usecase"), ("spec", .ofFields
      [("binds_to", .text "s.web:GET:/"), ("goal", .text "buy")])]])]

theorem guarantees_of_check_stall : Schema.check stall = [] ∧
    ∃ s, Specification.ofValue stall "stall.yaml" none = .ok s ∧
      (Model.build s "" fun _ => .ok .empty).2 = [] ∧
      (Model.build s "" fun _ => .ok .empty).1.check.Perm
        [.cycle ["s.web"],
          .missingField "d.main" "schema" none none,
          .missingField "m.auth" "config" (some "better-auth provider") none,
          .missingField "s.web" "framework" none none,
          .typeMismatch "s.web" "middleware" "d.main" .middleware .database none,
          .crossComponent "m.auth"
            "better-auth middleware requires a postgres component with provider \"drizzle\""] ∧
      ∀ x ∈ (Model.build s "" fun _ => .ok .empty).1.check,
        Model.Remains s (Model.build s "" fun _ => .ok .empty).1 x := by
  have hcheck : Schema.check stall = [] := by decide +kernel
  obtain ⟨s, hs, h⟩ := guarantees_of_check hcheck "stall.yaml" none
  cases hs
  have hremains := (h "" fun _ => .ok .empty).2 (by decide +kernel)
  exact ⟨hcheck, _, rfl, by decide +kernel,
    (Diagnostic.sort_perm _).trans (.of_eq (by decide +kernel)), hremains⟩

end ArchSpec
