import ArchSpec.Model.Cycle
import Mathlib.Data.List.Chain
import Mathlib.Data.List.Nodup
import Mathlib.Data.List.Perm.Subperm

/-!
# Dependencies as relations

The relations between components that searches, orders and rules are about, and what can be said
of any relation between names.

* `Cyclic`, `IsCycle` — that a way leads back to its start, and the list of names on such a way.
* `transGen_self_iff` — what reaches itself is what is on a cycle.
* `Settled` — a list in which names are related to later ones only; what is on it is on no cycle
  (`Settled.not_cyclic`).
* `Model.DependsOn` — the dependencies that components record.
* `Model.HasEdge` — the dependencies that edges give.
-/

namespace ArchSpec

section

variable {α : Type} {r : α → α → Prop}

/-- Some way along the relation leads back to where it starts. -/
def Cyclic (r : α → α → Prop) : Prop := ∃ a, Relation.TransGen r a a

/-- A cycle: distinct elements, each related to the next one and the last one to the first. -/
structure IsCycle (r : α → α → Prop) (c : List α) : Prop where
  nodup : c.Nodup
  chain : c.IsChain r
  closed : ∃ first last, c.head? = some first ∧ c.getLast? = some last ∧ r last first

theorem IsCycle.ne_nil {c : List α} (h : IsCycle r c) : c ≠ [] := by
  obtain ⟨first, _, hf, _⟩ := h.closed
  intro e
  rw [e] at hf
  cases hf

/-- The elements of a cycle reach themselves. -/
theorem IsCycle.cyclic {c : List α} (h : IsCycle r c) : Cyclic r := by
  obtain ⟨first, last, hf, hl, hclose⟩ := h.closed
  cases c with
  | nil => cases hf
  | cons a rest =>
    cases hf
    have hreach : Relation.ReflTransGen r first last := by
      refine List.relationReflTransGen_of_exists_isChain_cons rest h.chain ?_
      rw [List.getLast?_eq_getLast_of_ne_nil (List.cons_ne_nil _ _)] at hl
      exact Option.some.inj hl
    exact ⟨first, Relation.TransGen.tail' hreach hclose⟩

/-- Every element of a cycle reaches itself. -/
theorem IsCycle.transGen_self {c : List α} (h : IsCycle r c) {a : α} (ha : a ∈ c) :
    Relation.TransGen r a a := by
  obtain ⟨first, last, hfirst, hlast, hclose⟩ := h.closed
  obtain ⟨before, after, rfl⟩ := List.append_of_mem ha
  -- along a cycle, every element reaches all that come later
  have hlater : (before ++ a :: after).Pairwise (Relation.TransGen r) :=
    List.isChain_iff_pairwise.1 (h.chain.imp fun _ _ => .single)
  have hfrom : Relation.ReflTransGen r first a := by
    cases before with
    | nil =>
      cases hfirst
      exact .refl
    | cons b before =>
      cases hfirst
      exact ((List.pairwise_append.1 hlater).2.2 _ List.mem_cons_self _
        List.mem_cons_self).to_reflTransGen
  have hto : Relation.ReflTransGen r a last := by
    rw [List.getLast?_append_cons] at hlast
    rcases List.mem_cons.1 (List.mem_of_getLast? hlast) with rfl | hmem
    · exact .refl
    · have hrest := List.pairwise_cons.1 (List.pairwise_append.1 hlater).2.1
      exact (hrest.1 last hmem).to_reflTransGen
  exact (Relation.TransGen.tail' hto hclose).trans_left hfrom

/-- **What reaches another element reaches it by a way on which nothing comes twice.** -/
theorem exists_nodup_chain {a b : α} (h : Relation.ReflTransGen r a b) :
    ∃ way : List α, way.Nodup ∧ way.IsChain r ∧ way.head? = some a ∧ way.getLast? = some b := by
  induction h using Relation.ReflTransGen.head_induction_on with
  | refl => exact ⟨[b], List.nodup_singleton b, List.isChain_singleton b, rfl, rfl⟩
  | @head a c hac _ ih =>
    obtain ⟨way, hnodup, hchain, hhead, hlast⟩ := ih
    by_cases ha : a ∈ way
    · -- the way comes through `a` again, so it may begin there
      obtain ⟨before, after, rfl⟩ := List.append_of_mem ha
      refine ⟨a :: after, hnodup.of_append_right, hchain.right_of_append, rfl, ?_⟩
      rwa [List.getLast?_append_cons] at hlast
    · cases way with
      | nil => cases hhead
      | cons c' rest =>
        cases hhead
        exact ⟨a :: c :: rest, List.nodup_cons.2 ⟨ha, hnodup⟩,
          List.isChain_cons_cons.2 ⟨hac, hchain⟩, rfl, by rwa [List.getLast?_cons_cons]⟩

/-- **What reaches itself is on a cycle**, and conversely. -/
theorem transGen_self_iff {a : α} :
    Relation.TransGen r a a ↔ ∃ c, IsCycle r c ∧ a ∈ c := by
  constructor
  · intro h
    obtain ⟨b, hab, hba⟩ := Relation.TransGen.head'_iff.1 h
    obtain ⟨way, hnodup, hchain, hhead, hlast⟩ := exists_nodup_chain hba
    exact ⟨way, ⟨hnodup, hchain, b, a, hhead, hlast, hab⟩, List.mem_of_getLast? hlast⟩
  · rintro ⟨c, hc, ha⟩
    exact hc.transGen_self ha

/-! ## Settled lists -/

/-- Every element of a list is related to later elements only. -/
def Settled (r : α → α → Prop) : List α → Prop
  | [] => True
  | a :: rest => (∀ b, r a b → b ∈ rest) ∧ Settled r rest

/-- From what is on a settled list every way ends. -/
theorem Settled.acc {l : List α} (h : Settled r l) :
    ∀ a ∈ l, Acc (fun b a => r a b) a := by
  induction l with
  | nil =>
    intro a ha
    cases ha
  | cons x rest ih =>
    intro a ha
    rcases List.mem_cons.1 ha with rfl | ha
    · exact Acc.intro a fun b hab => ih h.2 b (h.1 b hab)
    · exact ih h.2 a ha

theorem not_transGen_of_acc {a : α} (h : Acc (fun b a => r a b) a) : ¬ Relation.TransGen r a a := by
  induction h with
  | intro a _ ih =>
    intro hcycle
    obtain ⟨b, hab, hba⟩ := Relation.TransGen.head'_iff.1 hcycle
    exact ih b hab (Relation.TransGen.tail' hba hab)

/-- **What is on a settled list is on no cycle.** -/
theorem Settled.not_cyclic {l : List α} (h : Settled r l) (hall : ∀ a b, r a b → a ∈ l) :
    ¬ Cyclic r := by
  rintro ⟨a, ha⟩
  obtain ⟨b, hab, _⟩ := Relation.TransGen.head'_iff.1 ha
  exact not_transGen_of_acc (h.acc a (hall a b hab)) ha

end

namespace Model

variable {m : Model}

/-! ## Components -/

theorem contains_iff {id : String} : m.contains id = true ↔ ∃ c, m.get? id = some c :=
  Option.isSome_iff_exists

theorem mem_ids_iff {id : String} : id ∈ m.ids ↔ m.contains id = true :=
  m.components.mem_keys_iff id

theorem length_ids (m : Model) : m.ids.length = m.components.size := m.components.length_keys

theorem nodup_ids (m : Model) : m.ids.Nodup := m.components.nodup_keys

/-- Distinct components are no more than there are components. -/
theorem length_le_size {l : List String} (hn : l.Nodup) (hc : ∀ id ∈ l, m.contains id = true) :
    l.length ≤ m.components.size := by
  rw [← m.length_ids]
  refine (List.subperm_of_subset hn ?_).length_le
  intro id hid
  exact mem_ids_iff.2 (hc id hid)

/-! ## Dependencies -/

/-- A component records another one as what it depends on. -/
def DependsOn (m : Model) (a b : String) : Prop :=
  b ∈ m.dependencies a ∧ m.contains b = true

/-- An edge leads from one name to another. -/
def HasEdge (m : Model) (a b : String) : Prop := ∃ e ∈ m.edges, e.source = a ∧ e.target = b

theorem dependencies_of_get? {id : String} {c : Component} (h : m.get? id = some c) :
    m.dependencies id = c.dependencies := by
  simp only [dependencies, h]

theorem contains_of_mem_dependencies {a b : String} (h : b ∈ m.dependencies a) :
    m.contains a = true := by
  unfold dependencies at h
  split at h
  · cases h
  · rename_i c hc
    exact contains_iff.2 ⟨c, hc⟩

theorem DependsOn.contains_left {a b : String} (h : m.DependsOn a b) : m.contains a = true :=
  contains_of_mem_dependencies h.1

theorem mem_successors_iff {a b : String} :
    b ∈ m.successors a ↔ m.HasEdge a b ∧ m.contains b = true := by
  simp only [successors, edgesFrom, HasEdge, List.mem_filter, List.mem_map, decide_eq_true_eq]
  constructor
  · rintro ⟨⟨e, ⟨he, hs⟩, ht⟩, hb⟩
    exact ⟨⟨e, he, hs, ht⟩, hb⟩
  · rintro ⟨⟨e, he, hs, ht⟩, hb⟩
    exact ⟨⟨e, ⟨he, hs⟩, ht⟩, hb⟩

end Model

end ArchSpec
