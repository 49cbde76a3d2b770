import ArchSpec.Model.Build
import ArchSpec.Proofs.Binding
import ArchSpec.Proofs.Model.Dependency

/-!
# The steps of building a model

What each step of building changes in a model, and what it leaves as it is. Once the components are
typed, the steps never add one or take one away: edges are recorded at their ends, contracts are
put into servers and bindings into use-cases.

* `get?_revise` — the components of a model all of which are replaced.
* `connect_eq`, `attachContracts_eq`, `applyResolution_bound` — the steps as such replacements.
* `Frame` — all that references and bindings leave as it is: symbols, and what components declare.
* `resolveBinding_bound` — what a resolved binding guarantees.
-/

namespace ArchSpec

/-! ## Components -/

/-- A body without its binding. -/
def Body.unbound : Body → Body
  | .usecase u => .usecase { u with binding := none }
  | b => b

/-- The entries of the lists of a component in order, each with what it asks for. A list that is
left out has none. -/
def Body.entries : Body → List (String × Relation)
  | .server s => (s.middleware.getD []).map (·, .middleware) ++
    (s.dependsOn.getD []).map (·, .dependency)
  | .middleware w => (w.dependsOn.getD []).map (·, .dependency)
  | .database _ => []
  | .usecase u => (u.middleware.getD []).map (·, .middleware)

@[simp] theorem Body.entries_unbound (b : Body) : b.unbound.entries = b.entries := by
  cases b <;> rfl

namespace Component

/-- A component without what references and bindings add to it. -/
def declared (c : Component) : Component :=
  { c with body := c.body.unbound, dependencies := [], dependents := [] }

/-- The component of an ID with an edge recorded, if it is at one of its ends. -/
def record (c : Component) (e : Edge) (id : String) : Component :=
  { c with
    dependencies := if e.source = id then c.dependencies ++ [e.target] else c.dependencies
    dependents := if e.target = id then c.dependents ++ [e.source] else c.dependents }

@[simp] theorem position_declared (c : Component) : c.declared.position = c.position := rfl

@[simp] theorem kind_declared (c : Component) : c.declared.kind = c.kind := by
  unfold kind declared Body.unbound
  cases c.body <;> rfl

@[simp] theorem server?_declared (c : Component) : c.declared.server? = c.server? := by
  unfold server? declared Body.unbound
  cases c.body <;> rfl

theorem server?_eq_some_iff {c : Component} {s : Server} :
    c.server? = some s ↔ c.body = .server s := by
  unfold server?
  cases c.body <;> simp

theorem middleware?_eq_some_iff {c : Component} {w : Middleware} :
    c.middleware? = some w ↔ c.body = .middleware w := by
  unfold middleware?
  cases c.body <;> simp

theorem database?_eq_some_iff {c : Component} {d : Database} :
    c.database? = some d ↔ c.body = .database d := by
  unfold database?
  cases c.body <;> simp

theorem usecase?_eq_some_iff {c : Component} {u : Usecase} :
    c.usecase? = some u ↔ c.body = .usecase u := by
  unfold usecase?
  cases c.body <;> simp

/-- The entries of the lists of a component, as edges to what they name. -/
def entries (c : Component) : List Edge := c.body.entries.map fun e => ⟨c.id, e.1, e.2⟩

/-- The middleware that a component lists comes before what it depends on. -/
theorem entries_eq (c : Component) : c.body.entries =
    c.middlewareList.map (·, .middleware) ++ c.dependsOnList.map (·, .dependency) := by
  unfold middlewareList dependsOnList Body.entries
  cases c.body <;> simp

@[simp] theorem declared_record (c : Component) (e : Edge) (id : String) :
    (c.record e id).declared = c.declared := rfl

end Component

namespace Model

variable {m m' m'' : Model}

@[simp] theorem declared_attachBinding (b : Binding) (c : Component) :
    (attachBinding b c).declared = c.declared := by
  unfold attachBinding
  split
  · rename_i u hu
    simp only [Component.declared, hu, Body.unbound]
  · rfl

/-! ## Replacing components -/

/-- A model with each component replaced. -/
def revise (m : Model) (f : String → Component → Component) : Model :=
  { m with components := m.components.mapValues f }

@[simp] theorem get?_revise (m : Model) (f : String → Component → Component) (id : String) :
    (m.revise f).get? id = (m.get? id).map (f id) :=
  m.components.get?_mapValues f id

/-- A model with the component of one ID replaced. -/
theorem modify_eq_revise (m : Model) (id : String) (f : Component → Component) :
    { m with components := m.components.modify id f } =
      m.revise fun key c => if key = id then f c else c := by
  have hcomponents : m.components.modify id f =
      m.components.mapValues fun key c => if key = id then f c else c := by
    refine SortedMap.ext_get? fun key => ?_
    rw [SortedMap.get?_modify, SortedMap.get?_mapValues]
    split
    · rename_i e
      subst e
      simp
    · rename_i e
      simp [Ne.symm e]
  simp only [revise, hcomponents]

/-- An edge is added to the list of edges, and its ends record it. -/
theorem connect_eq (m : Model) (e : Edge) :
    m.connect e = { m.revise (fun id c => c.record e id) with edges := m.edges ++ [e] } := by
  have hcomponents : (m.connect e).components =
      m.components.mapValues fun id c => c.record e id := by
    refine SortedMap.ext_get? fun id => ?_
    simp only [connect, SortedMap.get?_modify, SortedMap.get?_mapValues]
    by_cases hs : e.source = id <;> by_cases ht : e.target = id <;>
      cases hc : m.components.get? id <;> simp_all [Component.record]
  simp only [revise, ← hcomponents, connect]

@[simp] theorem get?_connect (m : Model) (e : Edge) (id : String) :
    (m.connect e).get? id = (m.get? id).map fun c => c.record e id := by
  rw [connect_eq]
  exact m.get?_revise (fun id c => c.record e id) id

/-- The contracts are put into the servers. -/
theorem attachContracts_eq (m : Model) (base : Path) (read : Path → Except Failure Contract) :
    (m.attachContracts base read).1 = m.revise fun _ c => (attachContract base read c).1 := by
  have hcomponents : (m.attachContracts base read).1.components =
      m.components.mapValues fun _ c => (attachContract base read c).1 := by
    refine SortedMap.ext_get? fun id => ?_
    simp only [attachContracts, SortedMap.get?_mapValues, Option.map_map]
    rfl
  simp only [revise, ← hcomponents, attachContracts]

/-- A resolved binding adds an edge and is put into its use-case. -/
theorem applyResolution_bound (m : Model) (id : String) (b : Binding) :
    m.applyResolution id (.bound b) = ((m.connect ⟨id, b.server, .binding⟩).revise
      fun key c => if key = id then attachBinding b c else c, []) := by
  simp only [applyResolution, modify_eq_revise]

/-! ## What stays as it is -/

/-- The kind of the component of an ID. -/
def kindOf? (m : Model) (id : String) : Option Kind := (m.get? id).map Component.kind

/-- Two models with the same symbols, and with components that declare the same. -/
structure Frame (m m' : Model) : Prop where
  symbols : m'.symbols = m.symbols
  declared : ∀ id, (m'.get? id).map Component.declared = (m.get? id).map Component.declared

theorem Frame.refl (m : Model) : Frame m m := ⟨rfl, fun _ => rfl⟩

theorem Frame.trans (h : Frame m m') (h' : Frame m' m'') : Frame m m'' :=
  ⟨h'.symbols.trans h.symbols, fun id => (h'.declared id).trans (h.declared id)⟩

theorem Frame.revise (m : Model) {f : String → Component → Component}
    (hf : ∀ id c, (f id c).declared = c.declared) : Frame m (m.revise f) := by
  refine ⟨rfl, fun id => ?_⟩
  rw [get?_revise, Option.map_map]
  exact congrArg (fun g => (m.get? id).map g) (funext (hf id))

theorem Frame.connect (m : Model) (e : Edge) : Frame m (m.connect e) := by
  rw [connect_eq]
  have h := Frame.revise m fun id c => Component.declared_record c e id
  exact ⟨h.symbols, h.declared⟩

theorem Frame.applyResolution (m : Model) (id : String) (r : Resolution) :
    Frame m (m.applyResolution id r).1 := by
  cases r with
  | refused d => exact Frame.refl m
  | notOffered server d => exact Frame.connect m _
  | bound b =>
    rw [applyResolution_bound]
    refine (Frame.connect m _).trans (Frame.revise _ ?_)
    intro key c
    split
    · exact declared_attachBinding b c
    · rfl

theorem Frame.addEdges : ∀ (es : List Edge) (m : Model), Frame m (m.addEdges es).1
  | [], m => Frame.refl m
  | e :: rest, m => by
    unfold Model.addEdges
    split
    · exact (Frame.connect m e).trans (Frame.addEdges rest _)
    · exact Frame.addEdges rest m

theorem Frame.bindAll : ∀ (qs : List (String × String)) (m : Model), Frame m (m.bindAll qs).1
  | [], m => Frame.refl m
  | _ :: rest, m => (Frame.applyResolution m _ _).trans (Frame.bindAll rest _)

/-- What can be told from the declared part of a component is the same in both models. -/
theorem Frame.map_get? (h : Frame m m') {β : Type} {f : Component → β}
    (hf : ∀ c, f c.declared = f c) (id : String) : (m'.get? id).map f = (m.get? id).map f := by
  have hd : f ∘ Component.declared = f := funext hf
  have := congrArg (Option.map f) (h.declared id)
  rwa [Option.map_map, Option.map_map, hd] at this

theorem Frame.get? (h : Frame m m') {id : String} {c' : Component} (hc : m'.get? id = some c') :
    ∃ c, m.get? id = some c ∧ c'.declared = c.declared := by
  have hd := h.declared id
  rw [hc, Option.map_some, eq_comm, Option.map_eq_some_iff] at hd
  obtain ⟨c, hc, e⟩ := hd
  exact ⟨c, hc, e.symm⟩

theorem Frame.kindOf? (h : Frame m m') (id : String) : m'.kindOf? id = m.kindOf? id :=
  h.map_get? Component.kind_declared id

theorem Frame.bind_get? (h : Frame m m') {β : Type} {f : Component → Option β}
    (hf : ∀ c, f c.declared = f c) (id : String) : (m'.get? id).bind f = (m.get? id).bind f := by
  have := congrArg Option.join (h.map_get? hf id)
  rwa [← Option.bind_id_eq_join, ← Option.bind_id_eq_join, Option.bind_map, Option.bind_map] at this

theorem Frame.positionOf (h : Frame m m') (id : String) : m'.positionOf id = m.positionOf id :=
  h.bind_get? Component.position_declared id

theorem Frame.contractOf? (h : Frame m m') (id : String) :
    m'.contractOf? id = m.contractOf? id := by
  unfold Model.contractOf?
  rw [h.bind_get? Component.server?_declared]

/-! ## Resolved bindings -/

/-- What becomes of a binding is the same in both models. -/
theorem Frame.resolveBinding (h : Frame m m') (id text : String) (p : Option Position) :
    m'.resolveBinding id text p = m.resolveBinding id text p := by
  simp only [Model.resolveBinding, h.symbols, h.contractOf?]

/-- The server that an edge is added to. -/
def Resolution.server? : Resolution → Option String
  | .refused _ => none
  | .notOffered server _ => some server
  | .bound b => some b.server

/-- What the text of a binding is resolved to by the symbols and the contracts of a model. -/
structure Resolves (m : Model) (text : String) (b : Binding) : Prop where
  parse : Binding.parse text = .ok { b with operation := none }
  server : ∃ s, m.symbols.get? b.server = some s ∧ s.kind = .server
  operation : ∀ k, m.contractOf? b.server = some k →
    ∃ o, k.find? b.method b.path = some o ∧ b.operation = some o
  unknown : m.contractOf? b.server = none → b.operation = none

theorem Frame.resolves (h : Frame m m') {text : String} {b : Binding} (hr : m.Resolves text b) :
    m'.Resolves text b where
  parse := hr.parse
  server := h.symbols.symm ▸ hr.server
  operation k hk := hr.operation k ((h.contractOf? b.server).symm.trans hk)
  unknown hk := hr.unknown ((h.contractOf? b.server).symm.trans hk)

/-- What can become of a binding: it is refused, or it is well written and at a server, and then the
contract of the server decides. -/
theorem resolveBinding_cases (m : Model) (id text : String) (p : Option Position) :
    (∃ d, m.resolveBinding id text p = .refused d) ∨
    ∃ b s, Binding.parse text = .ok b ∧ m.symbols.get? b.server = some s ∧ s.kind = .server ∧
      ((m.contractOf? b.server = none ∧ m.resolveBinding id text p = .bound b) ∨
        ∃ k, m.contractOf? b.server = some k ∧
          ((∃ o, k.find? b.method b.path = some o ∧
              m.resolveBinding id text p = .bound { b with operation := some o }) ∨
            ∃ d, m.resolveBinding id text p = .notOffered b.server d)) := by
  generalize hr : m.resolveBinding id text p = r
  unfold resolveBinding at hr
  split at hr
  · exact .inl ⟨_, hr.symm⟩
  · rename_i b hb
    split at hr
    · exact .inl ⟨_, hr.symm⟩
    · rename_i s hs
      split at hr
      · exact .inl ⟨_, hr.symm⟩
      · rename_i hkind
        refine .inr ⟨b, s, hb, hs, Decidable.not_not.1 hkind, ?_⟩
        split at hr
        · rename_i hk
          exact .inl ⟨hk, hr.symm⟩
        · rename_i k hk
          refine .inr ⟨k, hk, ?_⟩
          split at hr
          · rename_i o ho
            exact .inl ⟨o, ho, hr.symm⟩
          · exact .inr ⟨_, hr.symm⟩

/-- **A resolved binding is what its text says, at a server, with the operation of the contract.**
-/
theorem resolveBinding_bound {id text : String} {p : Option Position} {b : Binding}
    (h : m.resolveBinding id text p = .bound b) : m.Resolves text b := by
  obtain ⟨d, hr⟩ | ⟨b₀, s, hparse, hs, hkind, hcase⟩ := m.resolveBinding_cases id text p
  · rw [hr] at h
    cases h
  · have hnone : { b₀ with operation := none } = b₀ := by
      rw [← Binding.operation_of_parse hparse]
    rcases hcase with ⟨hc, hr⟩ | ⟨k, hk, ⟨o, ho, hr⟩ | ⟨d, hr⟩⟩ <;> rw [hr] at h <;> cases h
    · refine ⟨by rw [hnone, hparse], ⟨s, hs, hkind⟩, ?_, fun _ => Binding.operation_of_parse hparse⟩
      intro k hk
      rw [hc] at hk
      cases hk
    · refine ⟨by rw [hparse, ← hnone], ⟨s, hs, hkind⟩, ?_, ?_⟩
      · intro k' hk'
        rw [hk] at hk'
        cases hk'
        exact ⟨o, ho, rfl⟩
      · intro hc
        rw [hk] at hc
        cases hc

/-- An edge for a binding leads to a server. -/
theorem resolveBinding_server? {id text server : String} {p : Option Position}
    (h : (m.resolveBinding id text p).server? = some server) :
    ∃ s, m.symbols.get? server = some s ∧ s.kind = .server := by
  obtain ⟨d, hr⟩ | ⟨b₀, s, _, hs, hkind, hcase⟩ := m.resolveBinding_cases id text p
  · rw [hr] at h
    cases h
  · have hserver : b₀.server = server := by
      rcases hcase with ⟨_, hr⟩ | ⟨_, _, ⟨_, _, hr⟩ | ⟨_, hr⟩⟩ <;> rw [hr] at h <;>
        exact Option.some.inj h
    exact ⟨s, hserver ▸ hs, hkind⟩

end Model

end ArchSpec
