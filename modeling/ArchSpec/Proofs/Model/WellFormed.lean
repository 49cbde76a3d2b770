import ArchSpec.Proofs.Model.Steps

/-!
# Well-formed models

A model keeps the same facts in several places: names are keys and symbols, edges are a list and
are recorded at both of their ends, and a binding is an edge and a field of its use-case.

* `WellFormed` — these places are in accord.
* `WellFormed.revise`, `WellFormed.connect` — the two kinds of change that keep them in accord.
-/

namespace ArchSpec

/-- Two components with the same ID, kind and links. -/
structure Component.SameLinks (c c' : Component) : Prop where
  id : c'.id = c.id
  kind : c'.kind = c.kind
  dependencies : c'.dependencies = c.dependencies
  dependents : c'.dependents = c.dependents

namespace Model

variable {m m' : Model}

/-! ## Well-formed models -/

/-- The edges that lead to a component, in the order in which they were added. -/
def edgesTo (m : Model) (id : String) : List Edge := m.edges.filter (·.target = id)

/-- The edges that bind a use-case. -/
def bindingEdges (m : Model) (id : String) : List Edge :=
  (m.edgesFrom id).filter (·.relation = .binding)

/-- An edge between components of a model, from and to kinds that its relation is for. -/
structure Permits (m : Model) (e : Edge) : Prop where
  source : m.contains e.source = true
  target : m.contains e.target = true
  middleware : e.relation = .middleware →
    m.kindOf? e.source = some .server ∨ m.kindOf? e.source = some .usecase
  dependency : e.relation = .dependency →
    m.kindOf? e.source = some .server ∨ m.kindOf? e.source = some .middleware
  binding : e.relation = .binding →
    m.kindOf? e.source = some .usecase ∧ m.kindOf? e.target = some .server

/-- The places in which a model keeps the same facts are in accord. -/
structure WellFormed (m : Model) : Prop where
  /-- A component is stored under its own ID. -/
  id_eq : ∀ {id c}, m.get? id = some c → c.id = id
  /-- The symbols are the components, each with its kind. -/
  symbol : ∀ name, m.symbols.get? name = (m.get? name).map fun c => ⟨name, c.kind, name⟩
  permitted : ∀ e ∈ m.edges, m.Permits e
  /-- A component records its edges, in their order. -/
  dependencies : ∀ {id c}, m.get? id = some c → c.dependencies = (m.edgesFrom id).map (·.target)
  dependents : ∀ {id c}, m.get? id = some c → c.dependents = (m.edgesTo id).map (·.source)
  /-- A use-case is bound at most once. -/
  binding_unique : ∀ id, (m.bindingEdges id).length ≤ 1
  /-- A binding that a use-case has is also an edge. -/
  bound : ∀ {id c u b}, m.get? id = some c → c.usecase? = some u → u.binding = some b →
    ⟨id, b.server, .binding⟩ ∈ m.edges

theorem bindingEdges_of_edges_eq_nil (h : m.edges = []) (id : String) :
    m.bindingEdges id = [] := by
  simp only [bindingEdges, edgesFrom, h]
  rfl

theorem isSome_kindOf? (m : Model) (id : String) : (m.kindOf? id).isSome = m.contains id := by
  unfold kindOf?
  rw [Option.isSome_map]
  rfl

/-- Whether a model permits an edge is a matter of the kinds of components only. -/
theorem Permits.of_kindOf? {e : Edge} (h : m.Permits e)
    (hk : ∀ id, m'.kindOf? id = m.kindOf? id) : m'.Permits e := by
  refine ⟨?_, ?_, ?_, ?_, ?_⟩
  · rw [← isSome_kindOf?, hk, isSome_kindOf?]
    exact h.source
  · rw [← isSome_kindOf?, hk, isSome_kindOf?]
    exact h.target
  · rw [hk]
    exact h.middleware
  · rw [hk]
    exact h.dependency
  · rw [hk, hk]
    exact h.binding

theorem server?_of_kind {c : Component} (h : c.kind = .server) : ∃ s, c.server? = some s := by
  obtain ⟨_, _, body, _, _⟩ := c
  cases body <;> cases h
  exact ⟨_, rfl⟩

theorem middleware?_of_kind {c : Component} (h : c.kind = .middleware) :
    ∃ w, c.middleware? = some w := by
  obtain ⟨_, _, body, _, _⟩ := c
  cases body <;> cases h
  exact ⟨_, rfl⟩

theorem WellFormed.symbol_kind (h : m.WellFormed) {name : String} {s : Symbol}
    (hs : m.symbols.get? name = some s) : m.kindOf? name = some s.kind := by
  rw [h.symbol, Option.map_eq_some_iff] at hs
  obtain ⟨c, hc, rfl⟩ := hs
  unfold kindOf?
  rw [hc]
  rfl

theorem WellFormed.contains_of_symbol (h : m.WellFormed) {name : String} {s : Symbol}
    (hs : m.symbols.get? name = some s) : m.contains name = true := by
  rw [← isSome_kindOf?, h.symbol_kind hs]
  rfl

theorem WellFormed.map_id_values (h : m.WellFormed) : m.components.values.map (·.id) = m.ids := by
  unfold SortedMap.values ids SortedMap.keys
  rw [List.map_map]
  refine List.map_congr_left fun e he => ?_
  exact h.id_eq ((m.components.mem_entries_iff e.1 e.2).1 he)

/-! ## Changes that keep models well-formed -/

/-- **Components may be replaced by ones with the same links**, if every binding is an edge. -/
theorem WellFormed.revise (h : m.WellFormed) {f : String → Component → Component}
    (hlinks : ∀ id (c : Component), c.SameLinks (f id c))
    (hbound : ∀ {id} {c : Component} {u b}, m.get? id = some c → (f id c).usecase? = some u →
      u.binding = some b → ⟨id, b.server, .binding⟩ ∈ m.edges) :
    (m.revise f).WellFormed := by
  have hold : ∀ {id c'}, (m.revise f).get? id = some c' →
      ∃ c, m.get? id = some c ∧ f id c = c' := by
    intro id c' hc
    rwa [get?_revise, Option.map_eq_some_iff] at hc
  have hkind : ∀ id, (m.revise f).kindOf? id = m.kindOf? id := by
    intro id
    unfold kindOf?
    rw [get?_revise, Option.map_map]
    exact congrArg (fun g => (m.get? id).map g) (funext fun c => (hlinks id c).kind)
  refine ⟨?_, ?_, ?_, ?_, ?_, h.binding_unique, ?_⟩
  · intro id c' hc'
    obtain ⟨c, hc, rfl⟩ := hold hc'
    rw [(hlinks id c).id, h.id_eq hc]
  · intro name
    rw [get?_revise, Option.map_map]
    refine (h.symbol name).trans ?_
    refine congrArg (fun g => (m.get? name).map g) (funext fun c => ?_)
    simp only [Function.comp_apply, (hlinks name c).kind]
  · intro e he
    exact (h.permitted e he).of_kindOf? hkind
  · intro id c' hc'
    obtain ⟨c, hc, rfl⟩ := hold hc'
    exact (hlinks id c).dependencies.trans (h.dependencies hc)
  · intro id c' hc'
    obtain ⟨c, hc, rfl⟩ := hold hc'
    exact (hlinks id c).dependents.trans (h.dependents hc)
  · intro id c' u b hc' hu hb
    obtain ⟨c, hc, rfl⟩ := hold hc'
    exact hbound hc hu hb

theorem edgesFrom_connect (m : Model) (e : Edge) (id : String) :
    (m.connect e).edgesFrom id = m.edgesFrom id ++ if e.source = id then [e] else [] := by
  by_cases h : e.source = id <;> simp [edgesFrom, connect, h]

theorem edgesTo_connect (m : Model) (e : Edge) (id : String) :
    (m.connect e).edgesTo id = m.edgesTo id ++ if e.target = id then [e] else [] := by
  by_cases h : e.target = id <;> simp [edgesTo, connect, h]

theorem bindingEdges_connect_of_ne (m : Model) {e : Edge} {id : String}
    (h : e.source = id → e.relation ≠ .binding) :
    (m.connect e).bindingEdges id = m.bindingEdges id := by
  unfold bindingEdges
  rw [edgesFrom_connect, List.filter_append]
  split
  · rename_i hs
    simp [h hs]
  · simp

/-- **An edge may be added that the model permits**, if it does not bind a use-case that is bound
already. -/
theorem WellFormed.connect (h : m.WellFormed) {e : Edge} (he : m.Permits e)
    (hnew : e.relation = .binding → m.bindingEdges e.source = []) : (m.connect e).WellFormed := by
  have hframe : Frame m (m.connect e) := Frame.connect m e
  have hold : ∀ {id c'}, (m.connect e).get? id = some c' →
      ∃ c, m.get? id = some c ∧ c.record e id = c' := by
    intro id c' hc
    rwa [get?_connect, Option.map_eq_some_iff] at hc
  refine ⟨?_, ?_, ?_, ?_, ?_, ?_, ?_⟩
  · intro id c' hc'
    obtain ⟨c, hc, rfl⟩ := hold hc'
    show c.id = id
    exact h.id_eq hc
  · intro name
    rw [get?_connect, Option.map_map]
    exact h.symbol name
  · intro a ha
    rcases List.mem_append.1 ha with ha | ha
    · exact (h.permitted a ha).of_kindOf? hframe.kindOf?
    · rw [List.mem_singleton.1 ha]
      exact he.of_kindOf? hframe.kindOf?
  · -- the edge goes to the end of the list of edges, and its target to the end of the record
    intro id c' hc'
    obtain ⟨c, hc, rfl⟩ := hold hc'
    rw [edgesFrom_connect, List.map_append, ← h.dependencies hc]
    simp only [Component.record]
    split <;> simp
  · intro id c' hc'
    obtain ⟨c, hc, rfl⟩ := hold hc'
    rw [edgesTo_connect, List.map_append, ← h.dependents hc]
    simp only [Component.record]
    split <;> simp
  · intro id
    by_cases hb : e.source = id ∧ e.relation = .binding
    · -- the new edge is the only one that binds its source
      obtain ⟨rfl, hb⟩ := hb
      have hnone := hnew hb
      unfold bindingEdges at hnone ⊢
      rw [edgesFrom_connect, List.filter_append, hnone]
      simp [hb]
    · rw [bindingEdges_connect_of_ne m fun hs hr => hb ⟨hs, hr⟩]
      exact h.binding_unique id
  · intro id c' u b hc' hu hb
    obtain ⟨c, hc, rfl⟩ := hold hc'
    exact List.mem_append_left _ (h.bound hc hu hb)

end Model

end ArchSpec
