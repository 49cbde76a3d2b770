import ArchSpec.OpenApi.Contract
import ArchSpec.Proofs.Binding

/-!
# Operations of contracts

Contracts that are read keep every operation under its own key. A look-up by method and path then
finds the one operation of that method and path.

* `Contract.WellKeyed` — every operation is under its own key.
* `Contract.WellKeyed.find?_eq_some` — what a look-up finds.
* `OpenApi.contract_wellKeyed` — contracts that are read are well-keyed.
-/

namespace ArchSpec

namespace Contract

/-- Every operation is kept under its own key. -/
def WellKeyed (k : Contract) : Prop := ∀ key o, k.operations.get? key = some o → o.key = key

theorem WellKeyed.insert {k : Contract} (h : k.WellKeyed) (o : Operation) :
    (k.insert o).WellKeyed := by
  intro key o' ho
  unfold Contract.insert at ho
  rw [SortedMap.get?_insert] at ho
  split at ho
  · rename_i e
    cases ho
    exact e
  · exact h key o' ho

theorem WellKeyed.foldl_insert : ∀ (os : List Operation) {k : Contract}, k.WellKeyed →
    (os.foldl Contract.insert k).WellKeyed
  | [], _, h => h
  | o :: rest, _, h => WellKeyed.foldl_insert rest (h.insert o)

/-- **A look-up finds the operation of the method and the path**, and there is no other one. -/
theorem WellKeyed.find?_eq_some {k : Contract} (h : k.WellKeyed) {m : Method} {path : String}
    {o : Operation} : k.find? m path = some o ↔
      o ∈ k.operations.values ∧ o.method = m ∧ o.path = path := by
  unfold find?
  constructor
  · intro ho
    obtain ⟨hm, hp⟩ := Method.key_inj.1 (h _ o ho)
    exact ⟨(k.operations.mem_values_iff o).2 ⟨_, ho⟩, hm, hp⟩
  · rintro ⟨ho, rfl, rfl⟩
    obtain ⟨key, hkey⟩ := (k.operations.mem_values_iff o).1 ho
    rw [← h key o hkey] at hkey
    exact hkey

end Contract

/-- **Contracts that are read are well-keyed.** -/
theorem OpenApi.contract_wellKeyed {s : String} {k : Contract} (h : contract s = .ok k) :
    k.WellKeyed := by
  unfold contract at h
  split at h
  · cases h
  · rename_i d _
    split at h
    · cases h
      unfold Document.contract
      refine Contract.WellKeyed.foldl_insert _ ?_
      intro key o ho
      cases hinfo : d.info <;> rw [hinfo] at ho <;> cases ho
    · cases h

end ArchSpec
