import ArchSpec.Proofs.Contract
import ArchSpec.Proofs.Model.Order
import ArchSpec.Proofs.Model.Rules

/-!
# What generators may rely on

A model that is built without problems, from contracts that keep operations under their keys, and
that breaks no rule, is resolved: whatever its components name is there and is what it is named as.

* `Resolved` — what generators rely on.
* `attachContract_server` — a server has the contract that it names, and none if it names none.
* `addEdges_resolved` — references that are not reported lead to components.
* `bindAll_bindingOf?`, `bindAll_complete` — use-cases are bound to what their texts are resolved
  to, and all of them are if no problem is reported.
* `resolved_of_build` — every such model is resolved.
-/

namespace ArchSpec.Model

variable {m m' : Model}

/-! ## Resolved models -/

/-- A binding carries the one operation that the contract of its server has for its method and its
path, and none if the server names no contract. -/
structure Offers (server : Server) (b : Binding) : Prop where
  operation : server.openapi ≠ "" → ∃ k, server.contract = some k ∧ b.operation.isSome = true ∧
    ∀ o, b.operation = some o ↔ o ∈ k.operations.values ∧ o.method = b.method ∧ o.path = b.path
  unknown : server.openapi = "" → b.operation = none

/-- What generators rely on. -/
structure Resolved (m : Model) : Prop where
  /-- Every use-case has the binding that its text writes, at a server. -/
  bound : ∀ {id c u}, m.get? id = some c → c.body = .usecase u →
    ∃ b c' server, u.binding = some b ∧ b.Spells u.bindsTo ∧ m.get? b.server = some c' ∧
      c'.body = .server server ∧ Offers server b
  contract : ∀ {id c s}, m.get? id = some c → c.body = .server s → s.openapi ≠ "" →
    s.contract.isSome = true
  middleware : ∀ {id c r}, m.get? id = some c → (r, .middleware) ∈ c.body.entries →
    ∃ c' w, m.get? r = some c' ∧ c'.body = .middleware w
  dependsOn : ∀ {id c r}, m.get? id = some c → (r, .dependency) ∈ c.body.entries →
    m.contains r = true
  /-- Authentication that is listed has a server and a database for its tables. -/
  authentication : ∀ {id c r c' w}, m.get? id = some c → (r, .middleware) ∈ c.body.entries →
    m.get? r = some c' → c'.body = .middleware w → w.provider = "better-auth" →
    (∃ id c s, m.get? id = some c ∧ c.body = .server s) ∧
    ∃ id c d, m.get? id = some c ∧ c.body = .database d ∧ d.provider = "drizzle"
  ordered : ∃ order, m.topologicalOrder = .ok order

/-! ## Contracts -/

/-- **A server has the contract that it names**, if that could be read, and none if it names none.
-/
theorem attachContract_server {base : Path} {read : Path → Except Failure Contract} {c : Component}
    {s : Server} (hnone : ∀ s, c.server? = some s → s.contract = none)
    (h : (attachContract base read c).2 = [])
    (hs : (attachContract base read c).1.server? = some s) :
    (s.openapi = "" → s.contract = none) ∧
      (s.openapi ≠ "" → ∃ k, read (Path.join base s.openapi) = .ok k ∧ s.contract = some k) := by
  obtain ⟨id, p, body, dependencies, dependents⟩ := c
  cases body with
  | server s₀ =>
    simp only [attachContract] at h hs
    split at h
    · rename_i hempty
      rw [if_pos hempty] at hs
      cases hs
      exact ⟨fun _ => hnone s rfl, fun hne => absurd (String.isEmpty_iff.1 hempty) hne⟩
    · rename_i hempty
      rw [if_neg hempty] at hs
      split at h
      · rename_i k hk
        rw [hk] at hs
        cases hs
        exact ⟨fun he => absurd (String.isEmpty_iff.2 he) hempty, fun _ => ⟨k, hk, rfl⟩⟩
      · cases h
  | middleware w => cases hs
  | database d => cases hs
  | usecase u => cases hs

theorem attachContracts_eq_nil {base : Path} {read : Path → Except Failure Contract}
    (h : (m.attachContracts base read).2 = []) {id : String} {c : Component}
    (hc : m.get? id = some c) : (attachContract base read c).2 = [] := by
  unfold attachContracts at h
  refine List.flatMap_eq_nil_iff.1 h (attachContract base read c) ?_
  refine (SortedMap.mem_values_iff _ _).2 ⟨id, ?_⟩
  rw [SortedMap.get?_mapValues]
  exact congrArg (Option.map _) hc

/-! ## References -/

/-- **References that are not reported lead to components.** -/
theorem addEdges_resolved : ∀ (es : List Edge) (m : Model), (m.addEdges es).2 = [] →
    ∀ e ∈ es, ∃ s, m.symbols.get? e.target = some s
  | [], _, _ => nofun
  | e :: rest, m, h => by
    intro a ha
    unfold addEdges at h
    split at h
    · rename_i s hs
      rcases List.mem_cons.1 ha with rfl | ha
      · exact ⟨s, hs⟩
      · exact addEdges_resolved rest _ h a ha
    · cases h

/-- All that a component lists is defined, if no reference is reported. -/
theorem symbol_of_listed (h : m.resolveReferences.2 = []) {id : String} {c : Component}
    (hc : m.get? id = some c) {name : String} {r : Relation} (hr : (name, r) ∈ c.body.entries) :
    ∃ s, m.symbols.get? name = some s :=
  addEdges_resolved _ m h ⟨c.id, name, r⟩ (List.mem_flatMap.2
    ⟨c, (m.components.mem_values_iff c).2 ⟨id, hc⟩, mem_references_iff.2 ⟨rfl, hr⟩⟩)

/-! ## Bindings -/

/-- The text of the binding of a use-case. -/
def bindsToOf? (m : Model) (id : String) : Option String :=
  (m.get? id).bind fun c => c.usecase?.map Usecase.bindsTo

/-- The binding of a use-case. -/
def bindingOf? (m : Model) (id : String) : Option Binding :=
  (m.get? id).bind fun c => c.usecase?.bind Usecase.binding

theorem Frame.bindsToOf? (h : Frame m m') (id : String) : m'.bindsToOf? id = m.bindsToOf? id := by
  refine h.bind_get? (fun c => ?_) id
  obtain ⟨_, _, body, _, _⟩ := c
  cases body <;> rfl

theorem WellFormed.bindsToOf?_of_mem (h : m.WellFormed) {q : String × String}
    (hq : q ∈ m.bindingRequests) : m.bindsToOf? q.1 = some q.2 := by
  obtain ⟨id, c, u, hc, hu, _, rfl⟩ := mem_bindingRequests_iff.1 hq
  simp only [bindsToOf?, h.id_eq hc, hc, Option.bind_some, hu, Option.map_some]

/-- A use-case with a text asks for a binding. -/
theorem WellFormed.mem_bindingRequests (h : m.WellFormed) {id text : String}
    (htext : m.bindsToOf? id = some text) (hne : text.isEmpty = false) :
    (id, text) ∈ m.bindingRequests := by
  obtain ⟨c, hc, hmap⟩ := Option.bind_eq_some_iff.1 htext
  obtain ⟨u, hu, rfl⟩ := Option.map_eq_some_iff.1 hmap
  refine mem_bindingRequests_iff.2 ⟨id, c, u, hc, hu, hne, ?_⟩
  rw [h.id_eq hc]

theorem bindingOf?_connect (m : Model) (e : Edge) (id : String) :
    (m.connect e).bindingOf? id = m.bindingOf? id := by
  unfold bindingOf?
  rw [get?_connect, Option.bind_map]
  rfl

theorem bindingOf?_addEdges : ∀ (es : List Edge) (m : Model) (id : String),
    (m.addEdges es).1.bindingOf? id = m.bindingOf? id
  | [], _, _ => rfl
  | e :: rest, m, id => by
    unfold addEdges
    split
    · rw [bindingOf?_addEdges rest, bindingOf?_connect]
    · exact bindingOf?_addEdges rest m id

theorem bindingOf?_attachContracts (m : Model) (base : Path)
    (read : Path → Except Failure Contract) (id : String) :
    (m.attachContracts base read).1.bindingOf? id = m.bindingOf? id := by
  rw [attachContracts_eq]
  unfold bindingOf?
  rw [get?_revise, Option.bind_map]
  refine congrArg _ (funext fun c => ?_)
  simp only [Function.comp_apply, usecase?_attachContract]

theorem Unlinked.bindingOf? (h : m.Unlinked) (id : String) : m.bindingOf? id = none := by
  refine Option.bind_eq_none_iff.2 fun c hc => Option.bind_eq_none_iff.2 fun u hu => ?_
  exact h.binding hc hu

/-- What becomes of the binding of one use-case leaves the others as they are. -/
theorem bindingOf?_applyResolution_of_ne (m : Model) {id other : String} (r : Resolution)
    (h : other ≠ id) : (m.applyResolution id r).1.bindingOf? other = m.bindingOf? other := by
  cases r with
  | refused d => rfl
  | notOffered server d => exact bindingOf?_connect m _ other
  | bound b =>
    rw [applyResolution_bound, ← bindingOf?_connect m ⟨id, b.server, .binding⟩ other]
    unfold bindingOf?
    rw [get?_revise, Option.bind_map]
    refine congrArg _ (funext fun c => ?_)
    simp only [Function.comp_apply, if_neg h]

theorem bindingOf?_applyResolution_bound {id text : String} (b : Binding)
    (h : m.bindsToOf? id = some text) :
    (m.applyResolution id (.bound b)).1.bindingOf? id = some b := by
  obtain ⟨c, hc, hu⟩ := Option.bind_eq_some_iff.1 h
  obtain ⟨u, hu, _⟩ := Option.map_eq_some_iff.1 hu
  rw [applyResolution_bound]
  unfold bindingOf?
  rw [get?_revise, get?_connect, hc]
  simp only [Option.map_some, Option.bind_some, if_pos]
  rw [usecase?_attachBinding, show (c.record _ id).usecase? = some u from hu]
  rfl

/-- A use-case is bound to what its text is resolved to, or as it was before. -/
theorem bindingOf?_applyResolution {id other text : String} {r : Resolution} {b : Binding}
    (htext : m.bindsToOf? id = some text)
    (h : (m.applyResolution id r).1.bindingOf? other = some b) :
    m.bindingOf? other = some b ∨ (other = id ∧ r = .bound b) := by
  by_cases ho : other = id
  · subst ho
    cases r with
    | refused d => exact .inl h
    | notOffered server d =>
      rw [← bindingOf?_connect m ⟨other, server, .binding⟩]
      exact .inl h
    | bound b' =>
      rw [bindingOf?_applyResolution_bound b' htext] at h
      cases h
      exact .inr ⟨rfl, rfl⟩
  · rw [bindingOf?_applyResolution_of_ne m r ho] at h
    exact .inl h

/-- **Use-cases are bound to what their texts are resolved to** by the model before. -/
theorem bindAll_bindingOf? {m₀ : Model} : ∀ (qs : List (String × String)) {m : Model}, Frame m₀ m →
    (∀ q ∈ qs, m₀.bindsToOf? q.1 = some q.2) → ∀ id b,
    (m.bindAll qs).1.bindingOf? id = some b →
    m.bindingOf? id = some b ∨ ∃ text, m₀.bindsToOf? id = some text ∧ m₀.Resolves text b
  | [], _, _, _ => fun _ _ => .inl
  | (key, text) :: rest, m, hframe, hqs => by
    intro id b h
    have hrest : ∀ q ∈ rest, m₀.bindsToOf? q.1 = some q.2 :=
      fun q hq => hqs q (List.mem_cons_of_mem _ hq)
    have hkey : m₀.bindsToOf? key = some text := hqs _ List.mem_cons_self
    rcases bindAll_bindingOf? rest (hframe.trans (Frame.applyResolution m key _)) hrest id b h
      with h | h
    · rcases bindingOf?_applyResolution ((hframe.bindsToOf? key).trans hkey) h with h | ⟨rfl, hb⟩
      · exact .inl h
      · -- bindings are resolved by what a frame keeps, so the steps so far make no difference
        rw [hframe.resolveBinding] at hb
        exact .inr ⟨text, hkey, resolveBinding_bound hb⟩
    · exact .inr h

/-- **All use-cases are bound**, if no problem is reported. -/
theorem bindAll_complete : ∀ (qs : List (String × String)) {m : Model},
    (∀ q ∈ qs, m.bindsToOf? q.1 = some q.2) → (m.bindAll qs).2 = [] → ∀ id,
    id ∈ qs.map (·.1) ∨ (∃ b, m.bindingOf? id = some b) →
    ∃ b, (m.bindAll qs).1.bindingOf? id = some b
  | [], _, _, _, _, h => h.resolve_left List.not_mem_nil
  | (key, text) :: rest, m, hqs, hnil, id, h => by
    obtain ⟨hstep, hothers⟩ := List.append_eq_nil_iff.1 hnil
    have hkey : m.bindsToOf? key = some text := hqs _ List.mem_cons_self
    refine bindAll_complete rest (fun q hq => ?_) hothers id ?_
    · rw [(Frame.applyResolution m key _).bindsToOf?]
      exact hqs q (List.mem_cons_of_mem _ hq)
    · cases hr : m.resolveBinding key text (m.positionOf key) with
      | refused d =>
        rw [hr] at hstep
        cases hstep
      | notOffered server d =>
        rw [hr] at hstep
        cases hstep
      | bound b =>
        by_cases he : id = key
        · rw [he]
          exact .inr ⟨b, bindingOf?_applyResolution_bound b hkey⟩
        · rw [bindingOf?_applyResolution_of_ne m _ he]
          rcases h with h | h
          · exact .inl ((List.mem_cons.1 h).resolve_left he)
          · exact .inr h

/-- A resolved binding carries what the contract of its server offers. -/
theorem Resolves.offers {text : String} {b : Binding} {server : Server} (h : m.Resolves text b)
    (hk : m.contractOf? b.server = server.contract)
    (hnone : server.openapi = "" → server.contract = none)
    (hsome : server.openapi ≠ "" → ∃ k, server.contract = some k ∧ k.WellKeyed) :
    Offers server b := by
  refine ⟨?_, fun he => h.unknown (hk.trans (hnone he))⟩
  intro hne
  obtain ⟨k, hcontract, hkeyed⟩ := hsome hne
  obtain ⟨o, ho, hop⟩ := h.operation k (hk.trans hcontract)
  refine ⟨k, hcontract, by rw [hop]; rfl, fun o' => ?_⟩
  rw [← hkeyed.find?_eq_some, ho, hop]

/-! ## All steps -/

/-- The steps of building a model, each of them without problems: the model with contracts, the one
with references, and the last one. -/
structure Built (s : Specification) (base : Path) (read : Path → Except Failure Contract)
    (m₁ m₂ m : Model) : Prop where
  contracts : (typed s).1.attachContracts base read = (m₁, [])
  references : m₁.resolveReferences = (m₂, [])
  bindings : m₂.resolveBindings = (m, [])

namespace Built

variable {s : Specification} {base : Path} {read : Path → Except Failure Contract} {m₁ m₂ : Model}

/-- A model that is built without problems comes from steps without problems. -/
theorem of_build (h : (build s base read).2 = []) :
    ∃ m₁ m₂, Built s base read m₁ m₂ (build s base read).1 := by
  have htyped : (typed s).2 = [] := by
    by_contra hne
    rw [build_of_typed_errors hne] at h
    exact hne h
  rw [build_of_typed htyped] at h ⊢
  obtain ⟨h, hbindings⟩ := List.append_eq_nil_iff.1 h
  obtain ⟨hcontracts, hreferences⟩ := List.append_eq_nil_iff.1 h
  exact ⟨_, _, Prod.ext rfl hcontracts, Prod.ext rfl hreferences, Prod.ext rfl hbindings⟩

theorem frame_bindings (h : Built s base read m₁ m₂ m) : Frame m₂ m := by
  have := Frame.bindAll m₂.bindingRequests m₂
  rwa [show m₂.bindAll m₂.bindingRequests = (m, []) from h.bindings] at this

theorem frame (h : Built s base read m₁ m₂ m) : Frame m₁ m := by
  have := Frame.addEdges (m₁.components.values.flatMap Model.references) m₁
  rw [show m₁.addEdges _ = (m₂, []) from h.references] at this
  exact this.trans h.frame_bindings

theorem wellFormed_references (h : Built s base read m₁ m₂ m) : m₂.WellFormed := by
  have := ((typed_unlinked s).wellFormed.attachContracts base read).resolveReferences
  rwa [h.contracts, h.references] at this

/-- No use-case is bound before the last step. -/
theorem bindingOf?_references (h : Built s base read m₁ m₂ m) (id : String) :
    m₂.bindingOf? id = none := by
  have h₂ := bindingOf?_addEdges (m₁.components.values.flatMap Model.references) m₁ id
  rw [show m₁.addEdges _ = (m₂, []) from h.references] at h₂
  have h₁ := bindingOf?_attachContracts (typed s).1 base read id
  rw [h.contracts] at h₁
  exact h₂.trans (h₁.trans ((typed_unlinked s).bindingOf? id))

/-- A component is a typed one with its contract, but for what references and bindings add to it. -/
theorem attached (h : Built s base read m₁ m₂ m) {id : String} {c : Component}
    (hc : m.get? id = some c) : ∃ c₀, (typed s).1.get? id = some c₀ ∧
      c.declared = (attachContract base read c₀).1.declared := by
  obtain ⟨c₁, hc₁, hd⟩ := h.frame.get? hc
  have heq : m₁ = (typed s).1.revise fun _ c => (attachContract base read c).1 := by
    rw [← attachContracts_eq, h.contracts]
  rw [heq, get?_revise, Option.map_eq_some_iff] at hc₁
  obtain ⟨c₀, hc₀, rfl⟩ := hc₁
  exact ⟨c₀, hc₀, hd⟩

/-- A server has the contract that it names, and none if it names none. -/
theorem server (h : Built s base read m₁ m₂ m) {id : String} {c : Component} {server : Server}
    (hc : m.get? id = some c) (hs : c.server? = some server) :
    (server.openapi = "" → server.contract = none) ∧
      (server.openapi ≠ "" →
        ∃ k, read (Path.join base server.openapi) = .ok k ∧ server.contract = some k) := by
  obtain ⟨c₀, hc₀, hd⟩ := h.attached hc
  have hs₁ : (attachContract base read c₀).1.server? = some server := by
    rw [← Component.server?_declared, ← hd, c.server?_declared, hs]
  have hnil : (attachContract base read c₀).2 = [] :=
    attachContracts_eq_nil (by rw [h.contracts]) hc₀
  exact attachContract_server (fun _ => (typed_unlinked s).contract hc₀) hnil hs₁

/-- What a component lists is defined. -/
theorem symbol (h : Built s base read m₁ m₂ m) {id : String} {c : Component}
    (hc : m.get? id = some c) {name : String} {r : Relation} (hr : (name, r) ∈ c.body.entries) :
    ∃ s, m.symbols.get? name = some s := by
  obtain ⟨c₁, hc₁, hd⟩ := h.frame.get? hc
  have hentries : c₁.body.entries = c.body.entries := by
    rw [← c.body.entries_unbound, ← c₁.body.entries_unbound]
    exact congrArg Body.entries (congrArg Component.body hd).symm
  rw [h.frame.symbols]
  exact symbol_of_listed (by rw [h.references]) hc₁ (hentries ▸ hr)

/-- A use-case with a text is bound to what the text is resolved to. -/
theorem resolves (h : Built s base read m₁ m₂ m) {id : String} {c : Component} {u : Usecase}
    (hc : m.get? id = some c) (hu : c.usecase? = some u) (hne : u.bindsTo.isEmpty = false) :
    ∃ b, u.binding = some b ∧ m₂.Resolves u.bindsTo b := by
  have hm := h.wellFormed_references
  have hframe := h.frame_bindings
  have htext : m.bindsToOf? id = some u.bindsTo := by
    simp only [bindsToOf?, hc, Option.bind_some, hu, Option.map_some]
  have hbinding : m.bindingOf? id = u.binding := by
    simp only [bindingOf?, hc, Option.bind_some, hu]
  have hrequests : ∀ q ∈ m₂.bindingRequests, m₂.bindsToOf? q.1 = some q.2 :=
    fun q hq => hm.bindsToOf?_of_mem hq
  have hasked : (id, u.bindsTo) ∈ m₂.bindingRequests :=
    hm.mem_bindingRequests (hframe.bindsToOf? id ▸ htext) hne
  have hfinal : (m₂.bindAll m₂.bindingRequests).1 = m := congrArg Prod.fst h.bindings
  -- the use-case is bound in the end, and was not before the last step
  obtain ⟨b, hb⟩ := bindAll_complete m₂.bindingRequests hrequests (congrArg Prod.snd h.bindings) id
    (.inl (List.mem_map.2 ⟨_, hasked, rfl⟩))
  rcases bindAll_bindingOf? m₂.bindingRequests (Frame.refl m₂) hrequests id b hb with h' | h'
  · rw [h.bindingOf?_references] at h'
    cases h'
  · obtain ⟨text, ht, hr⟩ := h'
    rw [hfinal, hbinding] at hb
    rw [← hframe.bindsToOf?, htext] at ht
    cases ht
    exact ⟨b, hb, hr⟩

/-- A use-case with a text has the binding that the text writes, at a server. -/
theorem bound (h : Built s base read m₁ m₂ m)
    (hread : ∀ path k, read path = .ok k → k.WellKeyed) {id : String} {c : Component} {u : Usecase}
    (hc : m.get? id = some c) (hu : c.usecase? = some u) (hne : u.bindsTo.isEmpty = false) :
    ∃ b server, u.binding = some b ∧ b.Spells u.bindsTo ∧
      (m.get? b.server).bind Component.server? = some server ∧ Offers server b := by
  obtain ⟨b, hb, hr⟩ := h.resolves hc hu hne
  obtain ⟨symbol, hsymbol, hserver⟩ := hr.server
  have hkind : m.kindOf? b.server = some .server := by
    rw [h.frame_bindings.kindOf?, h.wellFormed_references.symbol_kind hsymbol, hserver]
  obtain ⟨c', hc', hkind⟩ := Option.map_eq_some_iff.1 hkind
  obtain ⟨server, hs⟩ := server?_of_kind hkind
  have hget : (m.get? b.server).bind Component.server? = some server := by
    rw [hc', Option.bind_some, hs]
  have hspells := Binding.spells_of_parse hr.parse
  obtain ⟨hnone, hsome⟩ := h.server hc' hs
  refine ⟨b, server, hb, ⟨hspells.server, hspells.colon, hspells.path, hspells.text⟩, hget, ?_⟩
  refine hr.offers ?_ hnone fun hne => ?_
  · rw [← h.frame_bindings.contractOf?, contractOf?, hget, Option.bind_some]
  · obtain ⟨k, hk, hcontract⟩ := hsome hne
    exact ⟨k, hcontract, hread _ k hk⟩

end Built

/-- **A model that is built without problems and breaks no rule is resolved**, if its contracts keep
operations under their keys. -/
theorem resolved_of_build {s : Specification} {base : Path}
    {read : Path → Except Failure Contract}
    (hread : ∀ path k, read path = .ok k → k.WellKeyed) (hbuild : (build s base read).2 = [])
    (hcheck : (build s base read).1.check = []) : (build s base read).1.Resolved := by
  have hm := WellFormed.build s base read
  obtain ⟨m₁, m₂, h⟩ := Built.of_build hbuild
  obtain ⟨hcycles, hunbroken⟩ := hm.check_eq_nil_iff.1 hcheck
  refine ⟨?_, ?_, ?_, ?_, ?_, ?_⟩
  · intro id c u hc hu
    obtain ⟨b, server, hb, hspells, hget, hoffers⟩ := h.bound hread hc
      (Component.usecase?_eq_some_iff.2 hu) (by simpa using bindsTo_of_unbroken hunbroken hc hu)
    obtain ⟨c', hc', hs⟩ := Option.bind_eq_some_iff.1 hget
    exact ⟨b, c', server, hb, hspells, hc', Component.server?_eq_some_iff.1 hs, hoffers⟩
  · intro id c server hc hs hne
    obtain ⟨k, _, hk⟩ := (h.server hc (Component.server?_eq_some_iff.2 hs)).2 hne
    rw [hk]
    rfl
  · intro id c r hc hr
    obtain ⟨s, hs⟩ := h.symbol hc hr
    obtain ⟨c', hc', _⟩ := Option.map_eq_some_iff.1 (hm.symbol_kind hs)
    obtain ⟨w, hw⟩ := middleware?_of_kind (kind_of_unbroken hunbroken hc hr hc')
    exact ⟨c', w, hc', Component.middleware?_eq_some_iff.1 hw⟩
  · intro id c r hc hr
    obtain ⟨s, hs⟩ := h.symbol hc hr
    exact hm.contains_of_symbol hs
  · intro id c r c' w hc hr hc' hw hp
    exact authentication_of_unbroken hunbroken ⟨⟨id, c, hc, hr⟩, c', w, hc', hw, hp⟩
  · exact ⟨_, topologicalOrder_of_acyclic (detectCycles_eq_nil_iff _ |>.1 hcycles)⟩

end ArchSpec.Model
