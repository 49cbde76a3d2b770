import ArchSpec.Proofs.Model.Accounting

/-!
# What models that are built have

Ports and operations come from the outside: from the documents and from the contracts. Whatever
these are, the port of a server in a model that is built is an integer of 64 bits, and the operation
of a binding is one of a contract that is attached to the model.

* `frame_build` — what references and bindings leave as it is.
* `portOf_fits`, `port_build` — ports.
* `resolves_build` — bindings.
* `contract_build`, `operation_build` — contracts and operations.
-/

namespace ArchSpec.Model

variable {s : Specification} {base : Path} {read : Path → Except Failure Contract}

/-- References and bindings leave as it is what is declared and attached. -/
theorem frame_build (h : (typed s).2 = []) (base : Path) (read : Path → Except Failure Contract) :
    Frame ((typed s).1.attachContracts base read).1 (build s base read).1 := by
  rw [build_of_typed h]
  exact (Frame.addEdges _ _).trans (Frame.bindAll _ _)

theorem portOf_fits (fields : List (String × Value)) :
    Binary64.minInteger ≤ portOf fields ∧ portOf fields ≤ Binary64.maxInteger := by
  have horder : Binary64.minInteger ≤ 0 ∧ 0 ≤ Binary64.maxInteger := by decide
  have htruncate : ∀ x : Binary64,
      Binary64.minInteger ≤ x.truncate ∧ x.truncate ≤ Binary64.maxInteger := by
    intro x
    unfold Binary64.truncate
    split
    · dsimp only
      omega
    · split
      · exact horder
      · split <;> omega
  unfold portOf
  split
  · split
    · rename_i hfits
      simpa [Value.fitsSigned] using hfits
    · exact htruncate _
  · exact htruncate _
  · exact horder

/-- The port of a server is an integer of 64 bits. -/
theorem port_build {id : String} {server : Server}
    (h : ((build s base read).1.get? id).bind Component.server? = some server) :
    Binary64.minInteger ≤ server.port ∧ server.port ≤ Binary64.maxInteger := by
  have htyped : ∀ {server : Server}, ((typed s).1.get? id).bind Component.server? = some server →
      ∃ fields, server.port = portOf fields := by
    intro server hserver
    obtain ⟨c, hc, hserver⟩ := Option.bind_eq_some_iff.1 hserver
    obtain ⟨d, k, rfl, _⟩ := (typed_unlinked s).component hc
    cases k <;> cases hserver
    exact ⟨d.spec, rfl⟩
  suffices hport : ∃ fields, server.port = portOf fields by
    obtain ⟨fields, hport⟩ := hport
    rw [hport]
    exact portOf_fits fields
  by_cases herrors : (typed s).2 = []
  · rw [(frame_build herrors base read).bind_get? Component.server?_declared,
      (typed_unlinked s).get?_attachContracts, Option.map_eq_some_iff] at h
    obtain ⟨before, hbefore, rfl⟩ := h
    obtain ⟨fields, hport⟩ := htyped hbefore
    exact ⟨fields, hport⟩
  · rw [build_of_typed_errors herrors] at h
    exact htyped h

/-- A contract that is attached has been read. -/
theorem contract_build {id : String} {k : Contract}
    (h : (build s base read).1.contractOf? id = some k) : ∃ path, read path = .ok k := by
  by_cases herrors : (typed s).2 = []
  · rw [(typed_unlinked s).contractOf?_eq (frame_build herrors base read)] at h
    obtain ⟨server, _, hk⟩ := Option.bind_eq_some_iff.1 h
    unfold contractIn at hk
    split at hk
    · cases hk
    · split at hk
      · rename_i hread
        cases hk
        exact ⟨_, hread⟩
      · cases hk
  · rw [build_of_typed_errors herrors, contractOf?] at h
    obtain ⟨server, hserver, hk⟩ := Option.bind_eq_some_iff.1 h
    obtain ⟨c, hc, hserver⟩ := Option.bind_eq_some_iff.1 hserver
    rw [(typed_unlinked s).contract hc hserver] at hk
    cases hk

/-- **A use-case has no binding but the one to which its text is resolved.** -/
theorem resolves_build {id : String} {b : Binding}
    (hb : (build s base read).1.bindingOf? id = some b) :
    ∃ text, (build s base read).1.bindsToOf? id = some text ∧
      (build s base read).1.Resolves text b := by
  by_cases herrors : (typed s).2 = []
  · rw [build_of_typed herrors] at hb ⊢
    simp only at hb ⊢
    generalize hm₁ : ((typed s).1.attachContracts base read).1 = m₁ at hb ⊢
    have hwell : m₁.resolveReferences.1.WellFormed := by
      rw [← hm₁]
      exact ((typed_unlinked s).wellFormed.attachContracts base read).resolveReferences
    have hnone : m₁.resolveReferences.1.bindingOf? id = none := by
      rw [← hm₁]
      exact (bindingOf?_addEdges _ _ id).trans
        ((bindingOf?_attachContracts _ base read id).trans ((typed_unlinked s).bindingOf? id))
    generalize m₁.resolveReferences.1 = m₂ at hb hwell hnone ⊢
    have hframe : Frame m₂ m₂.resolveBindings.1 := Frame.bindAll m₂.bindingRequests m₂
    rcases bindAll_bindingOf? m₂.bindingRequests (Frame.refl m₂)
      (fun q hq => hwell.bindsToOf?_of_mem hq) id b hb with hbefore | ⟨text, htext, hresolves⟩
    · rw [hnone] at hbefore
      cases hbefore
    · exact ⟨text, (hframe.bindsToOf? id).trans htext, hframe.resolves hresolves⟩
  · rw [build_of_typed_errors herrors, (typed_unlinked s).bindingOf?] at hb
    cases hb

/-- The operation of a binding is one of a contract that is attached. -/
theorem operation_build {id : String} {b : Binding} {o : Operation}
    (hb : (build s base read).1.bindingOf? id = some b) (ho : b.operation = some o) :
    ∃ k, (build s base read).1.contractOf? b.server = some k ∧ o ∈ k.operations.values := by
  obtain ⟨text, _, hresolves⟩ := resolves_build hb
  cases hk : (build s base read).1.contractOf? b.server with
  | none =>
    rw [hresolves.unknown hk] at ho
    cases ho
  | some k =>
    obtain ⟨o', hfind, hop⟩ := hresolves.operation k hk
    rw [ho, Option.some.injEq] at hop
    exact ⟨k, rfl, (k.operations.mem_values_iff o).2 ⟨_, hop ▸ hfind⟩⟩

end ArchSpec.Model
