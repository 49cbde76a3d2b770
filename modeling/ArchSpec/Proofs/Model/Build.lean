import ArchSpec.Proofs.Model.WellFormed

/-!
# Every model that is built is well-formed

Typing adds components and their names together. The later steps replace components by ones with
the same links, or add edges between components; each use-case is bound at most once, as it asks
for one binding only. So a model is well-formed after every step, also if there are problems.

* `Unlinked` — a model after typing.
* `WellFormed.attachContracts`, `WellFormed.addEdges`, `WellFormed.bindAll` — the later steps.
* `build_wellFormed` — every model that is built is well-formed; one whose components could not
  all be typed has no edges, contracts and bindings.
-/

namespace ArchSpec.Model

variable {m m' : Model}

/-! ## Typing -/

theorem kind_ofDeclaration (d : Declaration) (k : Kind) :
    (Component.ofDeclaration d k).kind = k := by
  cases k <;> rfl

/-- A model of typed components that nothing has been added to. -/
structure Unlinked (m : Model) : Prop where
  edges : m.edges = []
  component : ∀ {id c}, m.get? id = some c → ∃ d k, c = .ofDeclaration d k ∧ d.id = id
  symbol : ∀ name, m.symbols.get? name = (m.get? name).map fun c => ⟨name, c.kind, name⟩

theorem Unlinked.empty (metadata : Metadata) : (empty metadata).Unlinked := by
  refine ⟨rfl, ?_, fun _ => rfl⟩
  intro id c hc
  cases hc

/-- A model with a declaration entered as a component of a kind, under its name. -/
def enter (m : Model) (d : Declaration) (k : Kind) : Model :=
  { m with
    symbols := ⟨m.symbols.symbols.insert d.id ⟨d.id, k, d.id⟩⟩
    components := m.components.insert d.id (.ofDeclaration d k) }

theorem get?_enter (m : Model) (d : Declaration) (k : Kind) (id : String) :
    (m.enter d k).get? id = if d.id = id then some (.ofDeclaration d k) else m.get? id :=
  m.components.get?_insert d.id id _

theorem symbol_enter (m : Model) (d : Declaration) (k : Kind) (name : String) :
    (m.enter d k).symbols.get? name =
      if d.id = name then some ⟨d.id, k, d.id⟩ else m.symbols.get? name :=
  m.symbols.symbols.get?_insert d.id name _

/-- A declaration is refused for its kind, or for its name, or entered. -/
theorem addDeclaration_eq (m : Model) (d : Declaration) : m.addDeclaration d =
    match Kind.ofText? d.kind with
    | none => .error (.unknownKind d.id d.kind d.position)
    | some k =>
      match m.symbols.get? d.id with
      | some s => .error (.duplicateSymbol d.id s.kind.text d.position)
      | none => .ok (m.enter d k) := by
  unfold addDeclaration SymbolTable.define
  cases Kind.ofText? d.kind with
  | none => rfl
  | some k => cases m.symbols.get? d.id <;> rfl

theorem addDeclaration_ok {d : Declaration} (h : m.addDeclaration d = .ok m') :
    ∃ k, Kind.ofText? d.kind = some k ∧ m' = m.enter d k := by
  rw [addDeclaration_eq] at h
  split at h
  · cases h
  · rename_i k hk
    split at h
    · cases h
    · cases h
      exact ⟨k, hk, rfl⟩

theorem Unlinked.addDeclaration (h : m.Unlinked) {d : Declaration}
    (hd : m.addDeclaration d = .ok m') : m'.Unlinked := by
  obtain ⟨k, _, rfl⟩ := addDeclaration_ok hd
  refine ⟨h.edges, ?_, ?_⟩
  · intro id c hc
    rw [get?_enter] at hc
    split at hc
    · rename_i e
      cases hc
      exact ⟨d, k, rfl, e⟩
    · exact h.component hc
  · intro name
    rw [symbol_enter, get?_enter]
    split
    · rename_i e
      rw [← e, Option.map_some, kind_ofDeclaration]
    · exact h.symbol name

theorem Unlinked.declare : ∀ (ds : List Declaration) {m : Model}, m.Unlinked →
    (m.declare ds).1.Unlinked
  | [], _, h => h
  | d :: rest, m, h => by
    unfold Model.declare
    split
    · rename_i m₁ hm
      exact Unlinked.declare rest (h.addDeclaration hm)
    · exact Unlinked.declare rest h

theorem typed_unlinked (s : Specification) : (typed s).1.Unlinked :=
  Unlinked.declare s.declarations (Unlinked.empty _)

/-- A component that is typed comes from a declaration of its ID and its kind. -/
theorem exists_of_declare : ∀ {ds : List Declaration} {m : Model} {id : String} {c : Component},
    (m.declare ds).1.get? id = some c → m.get? id = some c ∨
      ∃ d ∈ ds, ∃ k, Kind.ofText? d.kind = some k ∧ d.id = id ∧ c = .ofDeclaration d k
  | [], _, _, _, h => .inl h
  | d :: rest, m, id, c, h => by
    have hlater : ∀ {n : Model}, (n.declare rest).1.get? id = some c → n.get? id = some c ∨
        ∃ e ∈ d :: rest, ∃ k, Kind.ofText? e.kind = some k ∧ e.id = id ∧ c = .ofDeclaration e k :=
      fun hc => (exists_of_declare hc).imp_right fun ⟨e, he, hk⟩ =>
        ⟨e, List.mem_cons_of_mem _ he, hk⟩
    unfold declare at h
    split at h
    · rename_i m' hm
      obtain ⟨k, hk, rfl⟩ := addDeclaration_ok hm
      refine (hlater h).elim (fun hc => ?_) .inr
      rw [get?_enter] at hc
      split at hc
      · rename_i hid
        cases hc
        exact .inr ⟨d, List.mem_cons_self, k, hk, hid, rfl⟩
      · exact .inl hc
    · exact hlater h

theorem exists_of_typed {s : Specification} {id : String} {c : Component}
    (hc : (typed s).1.get? id = some c) :
    ∃ d ∈ s.declarations, ∃ k, Kind.ofText? d.kind = some k ∧ d.id = id ∧
      c = .ofDeclaration d k :=
  (exists_of_declare hc).resolve_left nofun

theorem Unlinked.contract (h : m.Unlinked) {id : String} {c : Component} {s : Server}
    (hc : m.get? id = some c) (hs : c.server? = some s) : s.contract = none := by
  obtain ⟨d, k, rfl, _⟩ := h.component hc
  cases k <;> cases hs
  rfl

theorem Unlinked.binding (h : m.Unlinked) {id : String} {c : Component} {u : Usecase}
    (hc : m.get? id = some c) (hu : c.usecase? = some u) : u.binding = none := by
  obtain ⟨d, k, rfl, _⟩ := h.component hc
  cases k <;> cases hu
  rfl

theorem Unlinked.wellFormed (h : m.Unlinked) : m.WellFormed := by
  refine ⟨?_, h.symbol, ?_, ?_, ?_, ?_, ?_⟩
  · intro id c hc
    obtain ⟨d, k, rfl, e⟩ := h.component hc
    exact e
  · intro e he
    rw [h.edges] at he
    cases he
  · intro id c hc
    obtain ⟨d, k, rfl, _⟩ := h.component hc
    simp only [edgesFrom, h.edges]
    rfl
  · intro id c hc
    obtain ⟨d, k, rfl, _⟩ := h.component hc
    simp only [edgesTo, h.edges]
    rfl
  · intro id
    rw [bindingEdges_of_edges_eq_nil h.edges]
    exact Nat.zero_le 1
  · intro id c u b hc hu hb
    rw [h.binding hc hu] at hb
    cases hb

/-! ## Contracts -/

theorem sameLinks_attachContract (base : Path) (read : Path → Except Failure Contract)
    (c : Component) : c.SameLinks (attachContract base read c).1 := by
  have hsame : c.SameLinks c := ⟨rfl, rfl, rfl, rfl⟩
  unfold attachContract
  split
  · rename_i s hs
    split
    · exact hsame
    · split
      · refine ⟨rfl, ?_, rfl, rfl⟩
        simp only [Component.kind, hs, Body.kind]
      · exact hsame
  · exact hsame

theorem usecase?_attachContract (base : Path) (read : Path → Except Failure Contract)
    (c : Component) : (attachContract base read c).1.usecase? = c.usecase? := by
  unfold attachContract
  split
  · rename_i s hs
    split
    · rfl
    · split
      · simp only [Component.usecase?, hs]
      · rfl
  · rfl

theorem WellFormed.attachContracts (h : m.WellFormed) (base : Path)
    (read : Path → Except Failure Contract) : (m.attachContracts base read).1.WellFormed := by
  rw [attachContracts_eq]
  refine h.revise (fun _ c => sameLinks_attachContract base read c) ?_
  intro id c u b hc hu hb
  rw [usecase?_attachContract] at hu
  exact h.bound hc hu hb

/-! ## References -/

/-- A component asks for the edges of its entries. -/
theorem references_eq (c : Component) : references c = c.entries := by
  simp [references, Component.entries, c.entries_eq, Function.comp_def]

theorem mem_references_iff {c : Component} {e : Edge} :
    e ∈ references c ↔ e.source = c.id ∧ (e.target, e.relation) ∈ c.body.entries := by
  rw [references_eq, Component.entries, List.mem_map]
  constructor
  · rintro ⟨entry, hentry, rfl⟩
    exact ⟨rfl, hentry⟩
  · rintro ⟨hsource, hentry⟩
    exact ⟨_, hentry, by rw [← hsource]⟩

/-- What a component of each kind lists. -/
theorem kind_of_mem_entries {c : Component} {name : String} {r : Relation}
    (h : (name, r) ∈ c.body.entries) :
    r = .middleware ∧ (c.kind = .server ∨ c.kind = .usecase) ∨
      r = .dependency ∧ (c.kind = .server ∨ c.kind = .middleware) := by
  obtain ⟨_, _, body, _, _⟩ := c
  cases body with
  | server s =>
    rcases List.mem_append.1 h with h | h <;> obtain ⟨_, _, heq⟩ := List.mem_map.1 h <;> cases heq
    · exact .inl ⟨rfl, .inl rfl⟩
    · exact .inr ⟨rfl, .inl rfl⟩
  | middleware w =>
    obtain ⟨_, _, heq⟩ := List.mem_map.1 h
    cases heq
    exact .inr ⟨rfl, .inr rfl⟩
  | database d => cases h
  | usecase u =>
    obtain ⟨_, _, heq⟩ := List.mem_map.1 h
    cases heq
    exact .inl ⟨rfl, .inr rfl⟩

theorem relation_of_mem_references {c : Component} {e : Edge} (he : e ∈ references c) :
    e.relation ≠ .binding := by
  intro hb
  rcases kind_of_mem_entries (mem_references_iff.1 he).2 with ⟨hr, _⟩ | ⟨hr, _⟩ <;>
    cases hb.symm.trans hr

/-- A model permits the references between its components. -/
theorem WellFormed.permits_reference (h : m.WellFormed) {id : String} {c : Component} {e : Edge}
    (hc : m.get? id = some c) (he : e ∈ references c) (ht : m.contains e.target = true) :
    m.Permits e := by
  obtain ⟨hsource, hentry⟩ := mem_references_iff.1 he
  have hlist := kind_of_mem_entries hentry
  have hkind : m.kindOf? e.source = some c.kind := by
    unfold kindOf?
    rw [hsource, h.id_eq hc, hc]
    rfl
  have hcontains : m.contains e.source = true := by
    rw [← isSome_kindOf?, hkind]
    rfl
  refine ⟨hcontains, ht, ?_, ?_, fun hb => absurd hb (relation_of_mem_references he)⟩
  · intro hr
    rw [hkind]
    rcases hlist with ⟨_, hlister⟩ | ⟨hother, _⟩
    · exact hlister.imp (congrArg some) (congrArg some)
    · cases hr.symm.trans hother
  · intro hr
    rw [hkind]
    rcases hlist with ⟨hother, _⟩ | ⟨_, hlister⟩
    · cases hr.symm.trans hother
    · exact hlister.imp (congrArg some) (congrArg some)

theorem WellFormed.addEdges : ∀ (es : List Edge) {m : Model}, m.WellFormed →
    (∀ e ∈ es, e.relation ≠ .binding ∧ (m.contains e.target = true → m.Permits e)) →
    (m.addEdges es).1.WellFormed
  | [], _, h, _ => h
  | e :: rest, m, h, hes => by
    have hrest : ∀ a ∈ rest, a.relation ≠ .binding ∧ (m.contains a.target = true → m.Permits a) :=
      fun a ha => hes a (List.mem_cons_of_mem _ ha)
    obtain ⟨hrel, hpermits⟩ := hes e List.mem_cons_self
    unfold Model.addEdges
    split
    · rename_i s hs
      -- an edge changes neither which components there are nor their kinds, so what the model
      -- permits for the rest is the same after it
      have hframe : Frame m (m.connect e) := Frame.connect m e
      refine WellFormed.addEdges rest
        (h.connect (hpermits (h.contains_of_symbol hs)) fun hb => absurd hb hrel) ?_
      intro a ha
      refine ⟨(hrest a ha).1, fun hc => ((hrest a ha).2 ?_).of_kindOf? hframe.kindOf?⟩
      rwa [← isSome_kindOf?, hframe.kindOf?, isSome_kindOf?] at hc
    · exact WellFormed.addEdges rest h hrest

theorem WellFormed.resolveReferences (h : m.WellFormed) : m.resolveReferences.1.WellFormed := by
  refine WellFormed.addEdges _ h ?_
  intro e he
  obtain ⟨c, hc, he⟩ := List.mem_flatMap.1 he
  obtain ⟨id, hc⟩ := (m.components.mem_values_iff c).1 hc
  exact ⟨relation_of_mem_references he, h.permits_reference hc he⟩

theorem bindingEdges_addEdges : ∀ (es : List Edge) (m : Model), (∀ e ∈ es, e.relation ≠ .binding) →
    ∀ id, (m.addEdges es).1.bindingEdges id = m.bindingEdges id
  | [], _, _, _ => rfl
  | e :: rest, m, hes, id => by
    have hrest : ∀ a ∈ rest, a.relation ≠ .binding := fun a ha => hes a (List.mem_cons_of_mem _ ha)
    unfold addEdges
    split
    · rw [bindingEdges_addEdges rest _ hrest]
      exact bindingEdges_connect_of_ne m fun _ => hes e List.mem_cons_self
    · exact bindingEdges_addEdges rest m hrest id

theorem bindingEdges_resolveReferences (m : Model) (id : String) :
    m.resolveReferences.1.bindingEdges id = m.bindingEdges id := by
  refine bindingEdges_addEdges _ m ?_ id
  intro e he
  obtain ⟨c, _, he⟩ := List.mem_flatMap.1 he
  exact relation_of_mem_references he

/-! ## Bindings -/

theorem sameLinks_attachBinding (b : Binding) (c : Component) :
    c.SameLinks (attachBinding b c) := by
  unfold attachBinding
  split
  · rename_i u hu
    refine ⟨rfl, ?_, rfl, rfl⟩
    simp only [Component.kind, hu, Body.kind]
  · exact ⟨rfl, rfl, rfl, rfl⟩

theorem usecase?_attachBinding (b : Binding) (c : Component) :
    (attachBinding b c).usecase? = c.usecase?.map fun u => { u with binding := some b } := by
  obtain ⟨_, _, body, _, _⟩ := c
  cases body <;> rfl

/-- **What becomes of the binding of a use-case keeps a model well-formed**, if the use-case is not
bound yet. -/
theorem WellFormed.applyResolution (h : m.WellFormed) {id : String} {r : Resolution}
    (hid : m.kindOf? id = some .usecase) (hfree : m.bindingEdges id = [])
    (hr : ∀ server, r.server? = some server → m.kindOf? server = some .server) :
    (m.applyResolution id r).1.WellFormed := by
  have hconnect : ∀ server, r.server? = some server →
      (m.connect ⟨id, server, .binding⟩).WellFormed := by
    intro server hs
    refine h.connect ⟨?_, ?_, nofun, nofun, fun _ => ⟨hid, hr server hs⟩⟩ fun _ => hfree
    · rw [← isSome_kindOf?, hid]
      rfl
    · rw [← isSome_kindOf?, hr server hs]
      rfl
  cases r with
  | refused d => exact h
  | notOffered server d => exact hconnect server rfl
  | bound b =>
    -- the edge is there before the binding is attached
    rw [applyResolution_bound]
    refine (hconnect b.server rfl).revise ?_ ?_
    · intro key c
      split
      · exact sameLinks_attachBinding b c
      · exact ⟨rfl, rfl, rfl, rfl⟩
    · intro key c u b' hc hu hb
      split at hu
      · rename_i e
        rw [usecase?_attachBinding, Option.map_eq_some_iff] at hu
        obtain ⟨_, _, rfl⟩ := hu
        cases hb
        rw [e]
        exact List.mem_append_right _ (List.mem_singleton.2 rfl)
      · exact (hconnect b.server rfl).bound hc hu hb

theorem bindingEdges_applyResolution (m : Model) {id other : String} (r : Resolution)
    (h : id ≠ other) : (m.applyResolution id r).1.bindingEdges other = m.bindingEdges other := by
  cases r with
  | refused d => rfl
  | notOffered server d => exact bindingEdges_connect_of_ne m fun e => absurd e h
  | bound b =>
    rw [applyResolution_bound]
    exact bindingEdges_connect_of_ne m (e := ⟨id, b.server, .binding⟩) fun e => absurd e h

/-- **Bindings keep a model well-formed**, if each use-case asks for one once and has none yet. -/
theorem WellFormed.bindAll : ∀ (qs : List (String × String)) {m : Model}, m.WellFormed →
    (qs.map (·.1)).Nodup → (∀ q ∈ qs, m.kindOf? q.1 = some .usecase) →
    (∀ q ∈ qs, m.bindingEdges q.1 = []) → (m.bindAll qs).1.WellFormed
  | [], _, h, _, _, _ => h
  | (id, text) :: rest, m, h, hn, hkind, hfree => by
    rw [List.map_cons, List.nodup_cons] at hn
    have hstep : (m.applyResolution id
        (m.resolveBinding id text (m.positionOf id))).1.WellFormed := by
      refine h.applyResolution (hkind _ List.mem_cons_self) (hfree _ List.mem_cons_self) ?_
      intro server hs
      obtain ⟨s, hs, hserver⟩ := resolveBinding_server? hs
      rw [h.symbol_kind hs, hserver]
    refine WellFormed.bindAll rest hstep hn.2 ?_ ?_
    · intro q hq
      rw [(Frame.applyResolution m id _).kindOf?]
      exact hkind q (List.mem_cons_of_mem _ hq)
    · -- only the use-case itself is bound by this step, and it does not ask again
      intro q hq
      rw [bindingEdges_applyResolution]
      · exact hfree q (List.mem_cons_of_mem _ hq)
      · rintro rfl
        exact hn.1 (List.mem_map.2 ⟨q, hq, rfl⟩)

theorem mem_bindingRequests_iff {q : String × String} : q ∈ m.bindingRequests ↔
    ∃ id c u, m.get? id = some c ∧ c.usecase? = some u ∧ u.bindsTo.isEmpty = false ∧
      q = (c.id, u.bindsTo) := by
  unfold bindingRequests
  rw [List.mem_filterMap]
  constructor
  · rintro ⟨c, hc, hq⟩
    obtain ⟨id, hc⟩ := (m.components.mem_values_iff c).1 hc
    split at hq
    · cases hq
    · rename_i u hu
      split at hq
      · cases hq
      · rename_i hne
        cases hq
        exact ⟨id, c, u, hc, hu, Bool.eq_false_iff.2 hne, rfl⟩
  · rintro ⟨id, c, u, hc, hu, hne, rfl⟩
    refine ⟨c, (m.components.mem_values_iff c).2 ⟨id, hc⟩, ?_⟩
    simp [hu, hne]

theorem kind_of_usecase? {c : Component} {u : Usecase} (hu : c.usecase? = some u) :
    c.kind = .usecase := by
  obtain ⟨_, _, body, _, _⟩ := c
  cases body <;> cases hu
  rfl

theorem WellFormed.nodup_bindingRequests (h : m.WellFormed) :
    (m.bindingRequests.map (·.1)).Nodup := by
  refine List.Nodup.sublist ?_ m.nodup_ids
  rw [← h.map_id_values]
  unfold bindingRequests
  induction m.components.values with
  | nil => exact List.Sublist.slnil
  | cons c rest ih =>
    rw [List.filterMap_cons, List.map_cons]
    split
    · exact ih.cons c.id
    · rename_i q hq
      split at hq
      · cases hq
      · split at hq
        · cases hq
        · cases hq
          exact ih.cons_cons c.id

theorem WellFormed.resolveBindings (h : m.WellFormed) (hfree : ∀ id, m.bindingEdges id = []) :
    m.resolveBindings.1.WellFormed := by
  refine WellFormed.bindAll _ h h.nodup_bindingRequests ?_ fun q _ => hfree q.1
  intro q hq
  obtain ⟨id, c, u, hc, hu, _, rfl⟩ := mem_bindingRequests_iff.1 hq
  unfold kindOf?
  rw [h.id_eq hc, hc, Option.map_some, kind_of_usecase? hu]

/-! ## All steps -/

theorem build_of_typed_errors {s : Specification} (h : (typed s).2 ≠ []) (base : Path)
    (read : Path → Except Failure Contract) : build s base read = typed s := by
  have : (typed s).2.isEmpty = false := by simpa using h
  simp [build, this]

theorem build_of_typed {s : Specification} (h : (typed s).2 = []) (base : Path)
    (read : Path → Except Failure Contract) :
    build s base read =
      let contracts := (typed s).1.attachContracts base read
      let references := contracts.1.resolveReferences
      let bindings := references.1.resolveBindings
      (bindings.1, contracts.2 ++ references.2 ++ bindings.2) := by
  simp [build, h]

/-- Every model that is built is well-formed. -/
theorem WellFormed.build (s : Specification) (base : Path)
    (read : Path → Except Failure Contract) : (build s base read).1.WellFormed := by
  have htyped := (typed_unlinked s).wellFormed
  by_cases h : (typed s).2 = []
  · rw [build_of_typed h]
    refine ((htyped.attachContracts base read).resolveReferences).resolveBindings ?_
    intro id
    rw [bindingEdges_resolveReferences, attachContracts_eq]
    exact bindingEdges_of_edges_eq_nil (typed_unlinked s).edges id
  · rw [build_of_typed_errors h]
    exact htyped

/-- **What is built is well-formed**, from every specification and with every way to read contracts,
also if there are problems. If a component could not be typed, there are no edges, no contracts and
no bindings. -/
theorem build_wellFormed (s : Specification) (base : Path)
    (read : Path → Except Failure Contract) :
    (build s base read).1.WellFormed ∧
    ((typed s).2 ≠ [] →
      (build s base read).1.edges = [] ∧
      (∀ id c server, (build s base read).1.get? id = some c → c.server? = some server →
        server.contract = none) ∧
      ∀ id c u, (build s base read).1.get? id = some c → c.usecase? = some u →
        u.binding = none) := by
  refine ⟨WellFormed.build s base read, fun h => ?_⟩
  have hbare := typed_unlinked s
  rw [build_of_typed_errors h]
  exact ⟨hbare.edges, fun _ _ _ => hbare.contract, fun _ _ _ => hbare.binding⟩

/-- A server with a contract and a use-case of it, and a component of no kind. -/
def untypable : Specification :=
  ⟨"1.0.0", "untypable", "", "", [⟨"web", "server", [("openapi", .text "web.yaml")], none⟩,
    ⟨"visit", "usecase", [("binds_to", .text "web:GET:/")], none⟩, ⟨"queue", "kafka", [], none⟩],
    .null⟩

theorem build_wellFormed_untypable :
    (typed untypable).2 ≠ [] ∧ (build untypable "" fun _ => .ok .empty).1.WellFormed ∧
    (build untypable "" fun _ => .ok .empty).1.ids = ["visit", "web"] ∧
    (build untypable "" fun _ => .ok .empty).1.edges = [] := by
  have herrors : (typed untypable).2 ≠ [] := by decide
  have h := build_wellFormed untypable "" fun _ => .ok .empty
  exact ⟨herrors, h.1, by decide, (h.2 herrors).1⟩

end ArchSpec.Model
