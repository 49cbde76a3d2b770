import ArchSpec.Proofs.Model.Ending
import ArchSpec.Proofs.Model.Resolved

/-!
# What becomes of every item

If all components of a specification could be typed, everything that they ask for is settled once:
a contract is attached or reported, a reference becomes an edge or is reported, and a text that
asks for a binding ends in one of five ways. Nothing else is added to the model or reported.

* `Accounts` — the edges, contracts, bindings and problems that are expected, with their order.
* `addEdges_eq`, `bindAll_eq` — what the steps add, in order.
* `Unlinked.resolveBinding_eq` — what the steps make of a text is how it ends.
* `build_accounts` — what is built accounts for everything.
-/

namespace ArchSpec.Model

variable {m m' t : Model} {base : Path} {read : Path → Except Failure Contract}

/-! ## What is expected -/

/-- The problem of a server that names a contract which cannot be read. -/
def unread? (base : Path) (read : Path → Except Failure Contract) (c : Component) :
    Option Diagnostic :=
  match c.body with
  | .server s =>
    if s.openapi = "" then none
    else match read (Path.join base s.openapi) with
      | .ok _ => none
      | .error e => some (.contractParse c.id s.openapi e.fullMessage c.position)
  | _ => none

/-- The problems of a component that lists names which are not defined, one for each entry. -/
def unresolved (t : Model) (c : Component) : List Diagnostic :=
  (c.entries.filter fun e => !t.contains e.target).map fun e =>
    .unresolvedReference c.id e.target c.position

/-- How the text of a component ends, if it is a use-case with a text. -/
def ending? (t : Model) (base : Path) (read : Path → Except Failure Contract) (c : Component) :
    Option Ending :=
  match c.body with
  | .usecase u => if u.bindsTo = "" then none else some (ending t base read u.bindsTo)
  | _ => none

/-- What a model and the reported problems have to be by the typed components. -/
structure Accounts (t : Model) (base : Path) (read : Path → Except Failure Contract) (m : Model)
    (ds : List Diagnostic) : Prop where
  /-- A server has the contract that it names, whatever becomes of other servers. -/
  contract : ∀ {id c s}, t.get? id = some c → c.body = .server s → ∃ c', m.get? id = some c' ∧
    c'.body = .server { s with contract := contractIn base read s }
  /-- Of a server that names a contract, the contract is there or one problem, and not both. -/
  either : ∀ {id c s}, t.get? id = some c → c.body = .server s → s.openapi ≠ "" →
    (unread? base read c).isSome = (contractIn base read s).isNone
  /-- A text that asks for a binding ends in exactly one way. -/
  ends : ∀ text e, Ends t base read text e ↔ e = t.ending base read text
  /-- A use-case has the binding in which its text ends, and none if the text is empty or does not
  end in one. -/
  binding : ∀ {id c u}, t.get? id = some c → c.body = .usecase u → ∃ c', m.get? id = some c' ∧
    c'.body = .usecase { u with binding := (t.ending? base read c).bind Ending.binding? }
  /-- Entries of lists whose names are defined are edges, and then those of the bindings follow. -/
  edges : m.edges =
    (t.components.values.flatMap Component.entries).filter (fun e => t.contains e.target) ++
    t.components.values.filterMap fun c => (t.ending? base read c).bind (Ending.edge? c.id)
  /-- What is reported of contracts comes first, and what is reported of bindings last. -/
  diagnostics : ds = t.components.values.filterMap (unread? base read) ++
    t.components.values.flatMap t.unresolved ++
    t.components.values.filterMap fun c =>
      (t.ending? base read c).bind (Ending.diagnostic? c.id c.position)

/-! ## Components in order -/

theorem values_revise (m : Model) (f : Component → Component) :
    (m.revise fun _ => f).components.values = m.components.values.map f := by
  simp [revise, SortedMap.values, SortedMap.mapValues]

/-- What can be told from the declared parts of components is the same list in both models. -/
theorem Frame.map_values (h : Frame m m') {β : Type} {f : Component → β}
    (hf : ∀ c, f c.declared = f c) : m'.components.values.map f = m.components.values.map f := by
  have hmap : m'.components.mapValues (fun _ => f) = m.components.mapValues fun _ => f := by
    refine SortedMap.ext_get? fun id => ?_
    rw [SortedMap.get?_mapValues, SortedMap.get?_mapValues]
    exact h.map_get? hf id
  have := congrArg SortedMap.values hmap
  simpa [SortedMap.values, SortedMap.mapValues, Function.comp_def] using this

/-! ## Contracts -/

theorem attachContracts_diagnostics (m : Model) (base : Path)
    (read : Path → Except Failure Contract) :
    (m.attachContracts base read).2 = m.components.values.filterMap (unread? base read) := by
  have hone : ∀ c : Component,
      (attachContract base read c).2 = (unread? base read c).toList := by
    intro c
    obtain ⟨id, p, body, dependencies, dependents⟩ := c
    cases body with
    | server s =>
      by_cases he : s.openapi = ""
      · simp [attachContract, unread?, he]
      · cases hr : read (Path.join base s.openapi) <;> simp [attachContract, unread?, he, hr]
    | middleware w => rfl
    | database d => rfl
    | usecase u => rfl
  rw [List.filterMap_eq_flatMap_toList]
  simp only [attachContracts, SortedMap.values, SortedMap.mapValues, List.map_map,
    List.flatMap_map, Function.comp_apply, hone]

theorem isSome_unread? {c : Component} {s : Server} (hs : c.body = .server s)
    (hne : s.openapi ≠ "") :
    (unread? base read c).isSome = (contractIn base read s).isNone := by
  unfold unread? contractIn
  rw [hs]
  cases hr : read (Path.join base s.openapi) <;> simp [hne, hr]

/-- A server that has no contract yet has the one that it names afterwards. -/
theorem server?_attachContract {c : Component}
    (hnone : ∀ s, c.server? = some s → s.contract = none) :
    (attachContract base read c).1.server? =
      c.server?.map fun s => { s with contract := contractIn base read s } := by
  obtain ⟨id, p, body, dependencies, dependents⟩ := c
  cases body with
  | server s =>
    obtain ⟨framework, port, openapi, middleware, dependsOn, contract⟩ := s
    have hs : contract = none := hnone _ rfl
    subst hs
    by_cases he : openapi = ""
    · simp [attachContract, contractIn, Component.server?, he]
    · cases hr : read (Path.join base openapi) <;>
        simp [attachContract, contractIn, Component.server?, he, hr]
  | middleware w => rfl
  | database d => rfl
  | usecase u => rfl

/-! ## References -/

/-- **References become edges if their targets are defined, and are reported otherwise**, in their
order. -/
theorem addEdges_eq : ∀ (es : List Edge) (m : Model),
    (m.addEdges es).1.edges =
      m.edges ++ es.filter (fun e => (m.symbols.get? e.target).isSome) ∧
    (m.addEdges es).2 = (es.filter fun e => (m.symbols.get? e.target).isNone).map fun e =>
      .unresolvedReference e.source e.target (m.positionOf e.source)
  | [], m => by simp [addEdges]
  | e :: rest, m => by
    unfold addEdges
    split
    · rename_i s hs
      obtain ⟨hedges, hdiagnostics⟩ := addEdges_eq rest (m.connect e)
      have hframe := Frame.connect m e
      simp only [hframe.symbols, hframe.positionOf] at hedges hdiagnostics
      refine ⟨?_, ?_⟩
      · rw [hedges]
        simp [connect, hs]
      · rw [hdiagnostics]
        simp [hs]
    · rename_i hs
      obtain ⟨hedges, hdiagnostics⟩ := addEdges_eq rest m
      refine ⟨?_, ?_⟩
      · rw [hedges]
        simp [hs]
      · simp only [hdiagnostics]
        simp [hs]

/-! ## Bindings -/

namespace Resolution

def diagnostic? : Resolution → Option Diagnostic
  | refused d => some d
  | notOffered _ d => some d
  | bound _ => none

def binding? : Resolution → Option Binding
  | bound b => some b
  | _ => none

/-- The edge of the use-case of an ID. -/
def edge? (id : String) (r : Resolution) : Option Edge := r.server?.map (⟨id, ·, .binding⟩)

end Resolution

theorem edges_applyResolution (m : Model) (id : String) (r : Resolution) :
    (m.applyResolution id r).1.edges = m.edges ++ (r.edge? id).toList := by
  cases r <;> simp [applyResolution, Resolution.edge?, Resolution.server?, connect]

theorem diagnostics_applyResolution (m : Model) (id : String) (r : Resolution) :
    (m.applyResolution id r).2 = r.diagnostic?.toList := by
  cases r <;> rfl

/-- **Bindings add their edges and problems in order**, as the model before them resolves them. -/
theorem bindAll_eq {m₀ : Model} : ∀ (qs : List (String × String)) {m : Model}, Frame m₀ m →
    (m.bindAll qs).1.edges = m.edges ++ qs.filterMap (fun q =>
      (m₀.resolveBinding q.1 q.2 (m₀.positionOf q.1)).edge? q.1) ∧
    (m.bindAll qs).2 = qs.filterMap fun q =>
      (m₀.resolveBinding q.1 q.2 (m₀.positionOf q.1)).diagnostic?
  | [], m, _ => by simp [bindAll]
  | (id, text) :: rest, m, h => by
    have hr : m.resolveBinding id text (m.positionOf id) =
        m₀.resolveBinding id text (m₀.positionOf id) := by
      rw [h.resolveBinding, h.positionOf]
    obtain ⟨hedges, hdiagnostics⟩ := bindAll_eq rest
      (h.trans (Frame.applyResolution m id (m₀.resolveBinding id text (m₀.positionOf id))))
    simp only [bindAll, hr, List.filterMap_cons]
    refine ⟨?_, ?_⟩
    · rw [hedges, edges_applyResolution, List.append_assoc]
      congr 1
      cases Resolution.edge? id _ <;> rfl
    · rw [hdiagnostics, diagnostics_applyResolution]
      cases Resolution.diagnostic? _ <;> rfl

/-- **A use-case that asks once is bound to what its text is resolved to.** -/
theorem bindingOf?_bindAll {m₀ : Model} : ∀ (qs : List (String × String)) {m : Model}, Frame m₀ m →
    (qs.map (·.1)).Nodup → (∀ q ∈ qs, m₀.bindsToOf? q.1 = some q.2) → ∀ id,
    (id ∉ qs.map (·.1) → (m.bindAll qs).1.bindingOf? id = m.bindingOf? id) ∧
    ∀ text, (id, text) ∈ qs → m.bindingOf? id = none → (m.bindAll qs).1.bindingOf? id =
      (m₀.resolveBinding id text (m₀.positionOf id)).binding?
  | [], _, _, _, _, _ => ⟨fun _ => rfl, nofun⟩
  | (key, text) :: rest, m, h, hn, hqs, id => by
    rw [List.map_cons, List.nodup_cons] at hn
    have hkey : m.bindsToOf? key = some text :=
      (h.bindsToOf? key).trans (hqs _ List.mem_cons_self)
    have hr : m.resolveBinding key text (m.positionOf key) =
        m₀.resolveBinding key text (m₀.positionOf key) := by
      rw [h.resolveBinding, h.positionOf]
    obtain ⟨hother, hasked⟩ := bindingOf?_bindAll rest
      (h.trans (Frame.applyResolution m key (m₀.resolveBinding key text (m₀.positionOf key))))
      hn.2 (fun q hq => hqs q (List.mem_cons_of_mem _ hq)) id
    simp only [bindAll, hr]
    refine ⟨?_, ?_⟩
    · intro hid
      rw [List.map_cons, List.mem_cons, not_or] at hid
      rw [hother hid.2, bindingOf?_applyResolution_of_ne m _ hid.1]
    · intro text' hmem hnone
      rcases List.mem_cons.1 hmem with heq | hrest
      · cases heq
        rw [hother hn.1]
        cases m₀.resolveBinding key text (m₀.positionOf key) with
        | refused d => exact hnone
        | notOffered server d => exact (bindingOf?_connect m _ key).trans hnone
        | bound b => exact bindingOf?_applyResolution_bound b hkey
      · have hne : id ≠ key := by
          rintro rfl
          exact hn.1 (List.mem_map.2 ⟨_, hrest, rfl⟩)
        refine hasked text' hrest ?_
        rw [bindingOf?_applyResolution_of_ne m _ hne, hnone]

/-! ## All steps -/

section

variable (ht : t.Unlinked) (h : Frame (t.attachContracts base read).1 m)

include ht

theorem Unlinked.get?_attachContracts (id : String) :
    ((t.attachContracts base read).1.get? id).bind Component.server? =
      ((t.get? id).bind Component.server?).map fun s =>
        { s with contract := contractIn base read s } := by
  rw [attachContracts_eq, get?_revise]
  cases hc : t.get? id with
  | none => rfl
  | some c => exact server?_attachContract fun s hs => ht.contract hc hs

include h

theorem Unlinked.contractOf?_eq (id : String) : m.contractOf? id =
    ((t.get? id).bind Component.server?).bind (contractIn base read) := by
  rw [h.contractOf?, contractOf?, ht.get?_attachContracts]
  cases (t.get? id).bind Component.server? <;> rfl

theorem Unlinked.symbol_eq (name : String) :
    m.symbols.get? name = (t.get? name).map fun c => ⟨name, c.kind, name⟩ := by
  rw [h.symbols, attachContracts_eq]
  exact ht.symbol name

/-- A server is found by its name, with the contract that it names. -/
theorem Unlinked.server_eq {name : String} {c : Component} {s : Server}
    (hc : t.get? name = some c) (hs : c.body = .server s) :
    m.symbols.get? name = some ⟨name, .server, name⟩ ∧
      m.contractOf? name = contractIn base read s := by
  rw [ht.symbol_eq h, ht.contractOf?_eq h, hc, Option.map_some, Option.bind_some, kind_of_server hs,
    Component.server?_eq_some_iff.2 hs, Option.bind_some]
  exact ⟨rfl, rfl⟩

/-- **What the steps make of a text is how it ends.** -/
theorem Unlinked.resolveBinding_eq (id text : String) (p : Option Position) :
    (m.resolveBinding id text p).diagnostic? = (t.ending base read text).diagnostic? id p ∧
    (m.resolveBinding id text p).edge? id = (t.ending base read text).edge? id ∧
    (m.resolveBinding id text p).binding? = (t.ending base read text).binding? := by
  have hends := (ends_iff t base read text _).2 rfl
  generalize t.ending base read text = e at hends
  have hsymbol : ∀ name, m.symbols.get? name = _ := ht.symbol_eq h
  cases hends with
  | malformed hparse =>
    simp only [resolveBinding, hparse]
    exact ⟨rfl, rfl, rfl⟩
  | undefined hparse hc =>
    simp only [resolveBinding, hparse, hsymbol, hc, Option.map_none]
    exact ⟨rfl, rfl, rfl⟩
  | mismatched hparse hc hs =>
    simp only [resolveBinding, hparse, hsymbol, hc, Option.map_some, if_pos hs]
    exact ⟨rfl, rfl, rfl⟩
  | notOffered hparse hc hs hk ho =>
    obtain ⟨hserver, hcontract⟩ := ht.server_eq h hc hs
    simp only [resolveBinding, hparse, hserver, hcontract, hk, ho, ne_eq, not_true_eq_false,
      if_false]
    exact ⟨rfl, rfl, rfl⟩
  | offered hparse hc hs hk ho =>
    obtain ⟨hserver, hcontract⟩ := ht.server_eq h hc hs
    simp only [resolveBinding, hparse, hserver, hcontract, hk, ho, ne_eq, not_true_eq_false,
      if_false]
    exact ⟨rfl, rfl, rfl⟩
  | unknown hparse hc hs hk =>
    obtain ⟨hserver, hcontract⟩ := ht.server_eq h hc hs
    simp only [resolveBinding, hparse, hserver, hcontract, hk, ne_eq, not_true_eq_false, if_false]
    exact ⟨rfl, rfl, rfl⟩

end

/-- A contract leaves the lists of a component as they are. -/
theorem entries_attachContract (c : Component) :
    (attachContract base read c).1.entries = c.entries := by
  obtain ⟨id, p, body, dependencies, dependents⟩ := c
  cases body with
  | server s =>
    by_cases he : s.openapi = ""
    · simp [attachContract, he]
    · cases hr : read (Path.join base s.openapi) <;>
        simp [attachContract, he, hr, Component.entries, Body.entries]
  | middleware w => rfl
  | database d => rfl
  | usecase u => rfl

/-- Components ask for the edges of their entries, whatever their contracts are. -/
theorem references_attachContracts (m : Model) (base : Path)
    (read : Path → Except Failure Contract) :
    (m.attachContracts base read).1.components.values.flatMap references =
      m.components.values.flatMap Component.entries := by
  rw [attachContracts_eq, values_revise, List.flatMap_map]
  refine List.flatMap_congr fun c _ => ?_
  rw [references_eq, entries_attachContract]

/-- What a component asks for as a use-case. -/
def request? (c : Component) : Option (String × String) :=
  match c.usecase? with
  | none => none
  | some u => if u.bindsTo.isEmpty then none else some (c.id, u.bindsTo)

theorem bindingRequests_eq (m : Model) :
    m.bindingRequests = (m.components.values.map request?).filterMap id := by
  rw [List.filterMap_map]
  rfl

theorem request?_attachContract (c : Component) :
    request? (attachContract base read c).1 = request? c := by
  simp only [request?, usecase?_attachContract, (sameLinks_attachContract base read c).id]

theorem request?_declared (c : Component) : request? c.declared = request? c := by
  obtain ⟨id, p, body, dependencies, dependents⟩ := c
  cases body <;> rfl

/-- Use-cases ask for the same after the steps as before. -/
theorem bindingRequests_of_frame (h : Frame (t.attachContracts base read).1 m) :
    m.bindingRequests = t.bindingRequests := by
  rw [bindingRequests_eq, bindingRequests_eq, h.map_values request?_declared, attachContracts_eq,
    values_revise, List.map_map]
  congr 1
  exact List.map_congr_left fun c _ => request?_attachContract c

theorem positionOf_attachContracts (m : Model) (base : Path)
    (read : Path → Except Failure Contract) (id : String) :
    (m.attachContracts base read).1.positionOf id = m.positionOf id := by
  have hposition : ∀ c : Component, (attachContract base read c).1.position = c.position := by
    intro c
    unfold attachContract
    split
    · split
      · rfl
      · split <;> rfl
    · rfl
  unfold positionOf
  rw [attachContracts_eq, get?_revise, Option.bind_map]
  exact congrArg _ (funext hposition)

theorem Unlinked.positionOf_eq (ht : t.Unlinked) {c : Component} (hc : c ∈ t.components.values) :
    t.positionOf c.id = c.position := by
  obtain ⟨id, hc⟩ := (t.components.mem_values_iff c).1 hc
  have hid : t.get? id = some c := hc
  rw [← ht.wellFormed.id_eq hid] at hid
  rw [positionOf, hid, Option.bind_some]

/-- **Entries of lists are edges if their names are those of components, and are reported
otherwise**, component by component. -/
theorem Unlinked.resolveReferences_eq (ht : t.Unlinked) (base : Path)
    (read : Path → Except Failure Contract) :
    (t.attachContracts base read).1.resolveReferences.1.edges =
      (t.components.values.flatMap Component.entries).filter (fun e => t.contains e.target) ∧
    (t.attachContracts base read).1.resolveReferences.2 =
      t.components.values.flatMap t.unresolved := by
  have hdefined : ∀ name, ((t.attachContracts base read).1.symbols.get? name).isSome =
      t.contains name := by
    intro name
    rw [ht.symbol_eq (Frame.refl _), Option.isSome_map]
    rfl
  have hnone : ∀ name, ((t.attachContracts base read).1.symbols.get? name).isNone =
      !t.contains name := by
    intro name
    rw [← hdefined, Option.not_isSome]
  have hedges : (t.attachContracts base read).1.edges = [] := by
    rw [attachContracts_eq]
    exact ht.edges
  obtain ⟨h₁, h₂⟩ := addEdges_eq (t.components.values.flatMap Component.entries)
    (t.attachContracts base read).1
  unfold resolveReferences
  rw [references_attachContracts]
  refine ⟨?_, ?_⟩
  · rw [h₁, hedges, List.nil_append]
    simp only [hdefined]
  · rw [h₂, List.filter_flatMap, List.map_flatMap]
    refine List.flatMap_congr fun c hc => ?_
    simp only [hnone, unresolved]
    refine List.map_congr_left fun e he => ?_
    obtain ⟨_, _, rfl⟩ := List.mem_map.1 (List.mem_filter.1 he).1
    rw [positionOf_attachContracts, ht.positionOf_eq hc]

/-- How the texts of use-cases end, component by component. -/
theorem Unlinked.filterMap_bindingRequests {β : Type} (ht : t.Unlinked)
    (f : String → Option Position → Ending → Option β) :
    (t.bindingRequests.filterMap fun q => f q.1 (t.positionOf q.1) (t.ending base read q.2)) =
      t.components.values.filterMap fun c =>
        (t.ending? base read c).bind (f c.id c.position) := by
  rw [bindingRequests_eq, List.filterMap_filterMap, List.filterMap_map]
  refine List.filterMap_congr fun c hc => ?_
  simp only [Function.comp_apply, id_eq, request?, ending?, String.isEmpty_iff,
    Component.usecase?]
  cases c.body with
  | usecase u =>
    by_cases he : u.bindsTo = ""
    · simp [he]
    · simp [he, ht.positionOf_eq hc]
  | _ => rfl

/-- **Texts that ask for bindings give the edges and the problems in which they end**, component by
component. -/
theorem Unlinked.resolveBindings_eq (ht : t.Unlinked)
    (h : Frame (t.attachContracts base read).1 m) :
    m.resolveBindings.1.edges = m.edges ++ t.components.values.filterMap (fun c =>
      (t.ending? base read c).bind (Ending.edge? c.id)) ∧
    m.resolveBindings.2 = t.components.values.filterMap fun c =>
      (t.ending? base read c).bind (Ending.diagnostic? c.id c.position) := by
  have hposition : ∀ id, m.positionOf id = t.positionOf id := fun id =>
    (h.positionOf id).trans (positionOf_attachContracts t base read id)
  obtain ⟨hedges, hdiagnostics⟩ := bindAll_eq m.bindingRequests (Frame.refl m)
  unfold resolveBindings
  rw [hedges, hdiagnostics, bindingRequests_of_frame h]
  refine ⟨?_, ?_⟩
  · rw [← ht.filterMap_bindingRequests fun id _ e => e.edge? id]
    simp only [(ht.resolveBinding_eq h _ _ _).2.1]
  · rw [← ht.filterMap_bindingRequests fun id p e => e.diagnostic? id p]
    simp only [(ht.resolveBinding_eq h _ _ _).1, hposition]

/-- A use-case with its binding, by what it declares and by what it is bound to. -/
theorem body_eq_of_declared {c c' : Component} {u : Usecase} (hd : c'.declared = c.declared)
    (hu : c.body = .usecase u) :
    c'.body = .usecase { u with binding := c'.usecase?.bind Usecase.binding } := by
  obtain ⟨id, p, body, dependencies, dependents⟩ := c
  obtain ⟨id', p', body', dependencies', dependents'⟩ := c'
  cases body <;> cases hu
  have hbody : body'.unbound = (Body.usecase u).unbound := congrArg Component.body hd
  cases body' with
  | usecase u' =>
    simp only [Body.unbound, Body.usecase.injEq] at hbody
    simp only [Component.usecase?, Option.bind_some, Body.usecase.injEq]
    obtain ⟨_, _, _, _, _, _, _, _⟩ := u
    obtain ⟨_, _, _, _, _, _, _, _⟩ := u'
    cases hbody
    rfl
  | server s => cases hbody
  | middleware w => cases hbody
  | database d => cases hbody

/-- A use-case declares in the last model what it did when it was typed, and has the binding that
this model knows of it. -/
theorem usecase_resolveBindings (h : Frame (t.attachContracts base read).1 m) {id : String}
    {c : Component} {u : Usecase} (hc : t.get? id = some c) (hu : c.body = .usecase u) :
    ∃ c', m.resolveBindings.1.get? id = some c' ∧
      c'.body = .usecase { u with binding := m.resolveBindings.1.bindingOf? id } := by
  have hlast : Frame m m.resolveBindings.1 := Frame.bindAll m.bindingRequests m
  have hcontracts : (t.attachContracts base read).1.get? id =
      some (attachContract base read c).1 := by
    rw [attachContracts_eq, get?_revise, hc]
    rfl
  have hd := (h.trans hlast).declared id
  rw [hcontracts, Option.map_some, Option.map_eq_some_iff] at hd
  obtain ⟨c', hc', hd⟩ := hd
  have hattached : (attachContract base read c).1.body = .usecase u := by
    rw [← Component.usecase?_eq_some_iff, usecase?_attachContract]
    exact Component.usecase?_eq_some_iff.2 hu
  have hbinding : m.resolveBindings.1.bindingOf? id = c'.usecase?.bind Usecase.binding := by
    simp only [Model.bindingOf?, hc', Option.bind_some]
  rw [hbinding]
  exact ⟨c', hc', body_eq_of_declared hd hattached⟩

/-- What a use-case is bound to in the last model is what its text ends in. -/
theorem Unlinked.bindingOf?_resolveBindings (ht : t.Unlinked)
    (h : Frame (t.attachContracts base read).1 m) (hm : m.WellFormed)
    (hnone : ∀ id, m.bindingOf? id = none) {id : String} {c : Component} {u : Usecase}
    (hc : t.get? id = some c) (hu : c.body = .usecase u) :
    m.resolveBindings.1.bindingOf? id = (t.ending? base read c).bind Ending.binding? := by
  have hid : c.id = id := ht.wellFormed.id_eq hc
  have husecase := Component.usecase?_eq_some_iff.2 hu
  obtain ⟨hother, hasked⟩ := bindingOf?_bindAll m.bindingRequests (Frame.refl m)
    hm.nodup_bindingRequests (fun q hq => hm.bindsToOf?_of_mem hq) id
  unfold resolveBindings
  by_cases he : u.bindsTo = ""
  · have hend : t.ending? base read c = none := by simp [ending?, hu, he]
    rw [hend, Option.bind_none, hother, hnone]
    -- a use-case without a text asks for nothing
    intro hmem
    obtain ⟨q, hq, hqid⟩ := List.mem_map.1 hmem
    rw [bindingRequests_of_frame h] at hq
    obtain ⟨key, c₁, u₁, hc₁, hu₁, hne, rfl⟩ := mem_bindingRequests_iff.1 hq
    rw [ht.wellFormed.id_eq hc₁] at hqid
    subst hqid
    rw [hc] at hc₁
    cases hc₁
    cases husecase.symm.trans hu₁
    simp [he] at hne
  · have hend : t.ending? base read c = some (t.ending base read u.bindsTo) := by
      simp [ending?, hu, he]
    have hmem : (id, u.bindsTo) ∈ m.bindingRequests := by
      rw [bindingRequests_of_frame h]
      exact mem_bindingRequests_iff.2 ⟨id, c, u, hc, husecase, by simpa using he, by rw [hid]⟩
    rw [hend, Option.bind_some, hasked _ hmem (hnone id), (ht.resolveBinding_eq h _ _ _).2.2]

/-- **A use-case has the binding in which its text ends.** -/
theorem Unlinked.body_resolveBindings (ht : t.Unlinked)
    (h : Frame (t.attachContracts base read).1 m) (hm : m.WellFormed)
    (hnone : ∀ id, m.bindingOf? id = none) {id : String} {c : Component} {u : Usecase}
    (hc : t.get? id = some c) (hu : c.body = .usecase u) :
    ∃ c', m.resolveBindings.1.get? id = some c' ∧
      c'.body = .usecase { u with binding := (t.ending? base read c).bind Ending.binding? } := by
  rw [← ht.bindingOf?_resolveBindings h hm hnone hc hu]
  exact usecase_resolveBindings h hc hu

/-- What is reported when all components could be typed. -/
theorem diagnostics_build {s : Specification} (h : (typed s).2 = []) (base : Path)
    (read : Path → Except Failure Contract) :
    let t := (typed s).1
    (build s base read).2 = t.components.values.filterMap (unread? base read) ++
      t.components.values.flatMap t.unresolved ++
      t.components.values.filterMap fun c =>
        (t.ending? base read c).bind (Ending.diagnostic? c.id c.position) := by
  have ht := typed_unlinked s
  have hframe : Frame ((typed s).1.attachContracts base read).1
      ((typed s).1.attachContracts base read).1.resolveReferences.1 := Frame.addEdges _ _
  rw [build_of_typed h]
  simp only [attachContracts_diagnostics, (ht.resolveReferences_eq base read).2,
    (ht.resolveBindings_eq hframe).2]

/-- **What is built accounts for everything that the typed components ask for**, if all components
could be typed: whatever the contracts are, and whatever goes wrong with some of the items. -/
theorem build_accounts {s : Specification} (h : (typed s).2 = []) (base : Path)
    (read : Path → Except Failure Contract) :
    Accounts (typed s).1 base read (build s base read).1 (build s base read).2 := by
  have ht := typed_unlinked s
  rw [build_of_typed h]
  generalize (typed s).1 = t at ht
  simp only
  -- the models after the contracts and after the references
  generalize hm₁ : (t.attachContracts base read).1 = m₁
  generalize hm₂ : m₁.resolveReferences.1 = m₂
  have hframe : Frame (t.attachContracts base read).1 m₂ := by
    rw [hm₁, ← hm₂]
    exact Frame.addEdges _ m₁
  have hwell : m₂.WellFormed := by
    rw [← hm₂, ← hm₁]
    exact (ht.wellFormed.attachContracts base read).resolveReferences
  have hnone : ∀ id, m₂.bindingOf? id = none := by
    intro id
    rw [← hm₂, ← hm₁]
    exact (bindingOf?_addEdges _ _ id).trans
      ((bindingOf?_attachContracts t base read id).trans (ht.bindingOf? id))
  obtain ⟨hedges, hunresolved⟩ := ht.resolveReferences_eq base read
  obtain ⟨hbindings, hunbound⟩ := ht.resolveBindings_eq hframe
  rw [hm₁, hm₂] at hedges
  rw [hm₁] at hunresolved
  refine ⟨?_, fun _ => isSome_unread?, ends_iff t base read,
    ht.body_resolveBindings hframe hwell hnone, ?_, ?_⟩
  · intro id c server hc hs
    have hlast : Frame m₂ m₂.resolveBindings.1 := Frame.bindAll m₂.bindingRequests m₂
    have hserver : (m₂.resolveBindings.1.get? id).bind Component.server? =
        some { server with contract := contractIn base read server } := by
      rw [(hframe.trans hlast).bind_get? Component.server?_declared, ht.get?_attachContracts, hc,
        Option.bind_some, Component.server?_eq_some_iff.2 hs]
      rfl
    obtain ⟨c', hc', hs'⟩ := Option.bind_eq_some_iff.1 hserver
    exact ⟨c', hc', Component.server?_eq_some_iff.1 hs'⟩
  · rw [hbindings, hedges]
  · rw [attachContracts_diagnostics, hunresolved, hunbound]

/-- Servers with and without a contract that can be read, lists with names that are defined and
names that are not, and a use-case for every way to end. -/
def market : Specification :=
  ⟨"1.0.0", "market", "", "",
    [⟨"api", "server", [("openapi", .text "api.yaml"), ("middleware", .texts ["log", "log", "x"]),
        ("depends_on", .texts ["web", "z", "web"])], none⟩,
      ⟨"web", "server", [("openapi", .text "web.yaml")], none⟩,
      ⟨"log", "middleware", [("depends_on", .texts ["gone", "api"])], none⟩,
      ⟨"a", "usecase", [("binds_to", .text "api:GET:/"), ("middleware", .texts ["y"])], none⟩,
      ⟨"b", "usecase", [("binds_to", .text "web:GET:/")], none⟩,
      ⟨"c", "usecase", [("binds_to", .text "web:PUT:/")], none⟩,
      ⟨"d", "usecase", [("binds_to", .text "log:GET:/")], none⟩,
      ⟨"e", "usecase", [("binds_to", .text "x:GET:/")], none⟩,
      ⟨"f", "usecase", [("binds_to", .text "web")], none⟩], .null⟩

/-- Only one contract can be read, and it offers one route. -/
def marketContract (path : Path) : Except Failure Contract :=
  if path = "web.yaml" then
    .ok (Contract.empty.insert ⟨none, .get, "/", "", "", [], none, .empty, []⟩)
  else .error (.plain "gone")

theorem build_accounts_market : (typed market).2 = [] ∧
    Accounts (typed market).1 "" marketContract (build market "" marketContract).1
      (build market "" marketContract).2 ∧
    (build market "" marketContract).1.edges =
      [⟨"api", "log", .middleware⟩, ⟨"api", "log", .middleware⟩, ⟨"api", "web", .dependency⟩,
        ⟨"api", "web", .dependency⟩, ⟨"log", "api", .dependency⟩, ⟨"a", "api", .binding⟩,
        ⟨"b", "web", .binding⟩, ⟨"c", "web", .binding⟩] ∧
    (build market "" marketContract).2 =
      [.contractParse "api" "api.yaml" "gone" none, .unresolvedReference "a" "y" none,
        .unresolvedReference "api" "x" none, .unresolvedReference "api" "z" none,
        .unresolvedReference "log" "gone" none, .operationNotFound "c" "web" "PUT" "/" none,
        .typeMismatch "d" "binds_to" "log" .server .middleware none,
        .unresolvedReference "e" "x" none,
        .format "f" ("invalid binds_to: " ++ (Binding.Fault.malformed "web").message) none] :=
  have h : (typed market).2 = [] := by decide
  ⟨h, build_accounts h "" marketContract, by decide, by decide⟩

end ArchSpec.Model
