import ArchSpec.Model.Order
import ArchSpec.Proofs.Model.Build
import ArchSpec.Proofs.Model.Cycle
import ArchSpec.Proofs.Model.PostOrder

/-!
# Components in dependency order

Cycles are looked for in the dependencies that components record, and the order is made along the
list of edges. In a well-formed model the two agree, so that the order is only made where there are
no cycles; it is then a depth-first post-order, in which every component stands behind what it
needs.

* `WellFormed.dependsOn_iff` — recorded dependencies and edges agree.
* `finish_postOrder` — a component is finished in post-order, and the bound on the depth is enough.
* `topologicalOrder_spec` — the order of every model that is built.
-/

namespace ArchSpec.Model

variable {m : Model}

/-- The components that a component needs, in the order in which the first edges to them were
added. -/
def neighbours (m : Model) (id : String) : List String := (m.successors id).eraseDups

/-! ## Dependencies and edges -/

theorem WellFormed.contains_target (h : m.WellFormed) {a b : String} (hab : m.HasEdge a b) :
    m.contains b = true := by
  obtain ⟨e, he, _, rfl⟩ := hab
  exact (h.permitted e he).target

theorem WellFormed.mem_successors_iff (h : m.WellFormed) {a b : String} :
    b ∈ m.successors a ↔ m.HasEdge a b := by
  rw [Model.mem_successors_iff]
  exact and_iff_left_of_imp h.contains_target

/-- **What components record as their dependencies is what the edges say.** -/
theorem WellFormed.dependsOn_iff (h : m.WellFormed) {a b : String} :
    m.DependsOn a b ↔ m.HasEdge a b := by
  constructor
  · rintro ⟨hb, _⟩
    obtain ⟨c, hc⟩ := contains_iff.1 (contains_of_mem_dependencies hb)
    rw [dependencies_of_get? hc, h.dependencies hc] at hb
    obtain ⟨e, he, ht⟩ := List.mem_map.1 hb
    obtain ⟨he, hs⟩ := List.mem_filter.1 he
    exact ⟨e, he, of_decide_eq_true hs, ht⟩
  · rintro ⟨e, he, rfl, rfl⟩
    have hpermits := h.permitted e he
    obtain ⟨c, hc⟩ := contains_iff.1 hpermits.source
    refine ⟨?_, hpermits.target⟩
    rw [dependencies_of_get? hc, h.dependencies hc]
    exact List.mem_map.2 ⟨e, List.mem_filter.2 ⟨he, decide_eq_true rfl⟩, rfl⟩

theorem WellFormed.dependsOn_eq (h : m.WellFormed) : m.DependsOn = m.HasEdge :=
  funext fun _ => funext fun _ => propext h.dependsOn_iff

/-! ## The search -/

/-- Searches from several starts, each of which gives a post-order, give one together. -/
theorem foldl_postOrder {next : String → List String} (visit : String → List String → List String)
    (trail : List String) : ∀ (starts order : List String),
    (∀ id ∈ starts, ∀ order, ∃ out, visit id order = order ++ out ∧
      PostOrder next (trail ++ order) [id] out) →
    ∃ out, starts.foldl (fun order id => visit id order) order = order ++ out ∧
      PostOrder next (trail ++ order) starts out
  | [], order, _ => ⟨[], (List.append_nil order).symm, .nil⟩
  | id :: rest, order, h => by
    obtain ⟨first, hfirst, hp⟩ := h id List.mem_cons_self order
    obtain ⟨others, hothers, hq⟩ := foldl_postOrder visit trail rest (order ++ first)
      fun a ha => h a (List.mem_cons_of_mem _ ha)
    refine ⟨first ++ others, ?_, hp.append (hq.congr_seen fun a => ?_)⟩
    · rw [List.foldl_cons, hfirst, hothers, List.append_assoc]
    · simp only [List.mem_append, or_assoc, or_comm]

/-- **A component is finished in post-order**, if there are no cycles and the bound lets the trail
that leads to it grow to the number of components. Then nothing on the trail is met again. -/
theorem finish_postOrder (hm : m.WellFormed) (hacyclic : ¬ Cyclic m.DependsOn) :
    ∀ (fuel : Nat) (trail : List String) (id : String), Trail m (id :: trail) →
    m.components.size ≤ fuel + trail.length → ∀ order,
    ∃ out, m.finish fuel id order = order ++ out ∧
      PostOrder m.successors (trail ++ order) [id] out
  | 0, trail, id, hT, hfuel, _ => by
    have := hT.length_le
    simp only [List.length_cons] at this
    omega
  | fuel + 1, trail, id, hT, hfuel, order => by
    have hid : id ∉ trail := (List.nodup_cons.1 hT.nodup).1
    unfold finish
    split
    · rename_i hdone
      refine ⟨[], (List.append_nil order).symm, .skip ?_ .nil⟩
      exact List.mem_append_right _ (List.contains_iff_mem.1 hdone)
    · rename_i hnew
      have hnew' : id ∉ order := fun h => hnew (List.contains_iff_mem.2 h)
      -- a step back to the trail would close a cycle
      have hnext : ∀ next ∈ m.successors id, Trail m (next :: id :: trail) := by
        intro next hn
        have hd : m.DependsOn id next := hm.dependsOn_iff.2 (hm.mem_successors_iff.1 hn)
        refine hT.push (fun hon => ?_) hd
        exact hacyclic (hT.isCycle_cycleAt hon hd).cyclic
      obtain ⟨below, hbelow, hp⟩ := foldl_postOrder (m.finish fuel) (id :: trail)
        (m.successors id) order
        fun next hn => finish_postOrder hm hacyclic fuel (id :: trail) next (hnext next hn)
          (by simp only [List.length_cons]; omega)
      refine ⟨below ++ [id], ?_, .visit ?_ hp .nil⟩
      · rw [hbelow, List.append_assoc]
      · intro h
        exact (List.mem_append.1 h).elim hid hnew'

/-- Without cycles, the order of the components is a post-order. -/
theorem order_postOrder (hm : m.WellFormed) (hacyclic : ¬ Cyclic m.DependsOn) :
    PostOrder m.neighbours [] m.ids m.order := by
  obtain ⟨out, hout, hp⟩ := foldl_postOrder (m.finish m.components.size) [] m.ids []
    fun id hid => finish_postOrder hm hacyclic _ [] id (Trail.start (mem_ids_iff.1 hid))
      (Nat.le_refl _)
  unfold order
  rw [hout]
  exact hp.eraseDups_next

/-- All components come in the order, each once. -/
theorem order_perm (hm : m.WellFormed) (hp : PostOrder m.neighbours [] m.ids m.order) :
    m.order.Perm m.ids := by
  refine (List.perm_ext_iff_of_nodup hp.nodup m.nodup_ids).2 fun id => ?_
  constructor
  · intro hid
    obtain ⟨s, hs, hr⟩ := hp.reached id hid
    cases hr.cases_tail with
    | inl e => exact e ▸ hs
    | inr hlast =>
      obtain ⟨a, _, ha⟩ := hlast
      have hedge : m.HasEdge a id := hm.mem_successors_iff.1 (List.mem_eraseDups.1 ha)
      exact mem_ids_iff.2 (hm.contains_target hedge)
  · intro hid
    exact (hp.mem_of_mem_starts id hid).resolve_left List.not_mem_nil

/-- Every component stands behind what it needs. -/
theorem order_before (hm : m.WellFormed) (hacyclic : ¬ Cyclic m.HasEdge)
    (hp : PostOrder m.neighbours [] m.ids m.order) {e : Edge} (he : e ∈ m.edges) :
    [e.target, e.source].Sublist m.order := by
  have hnext : ∀ a b, b ∈ m.neighbours a ↔ m.HasEdge a b := fun a b =>
    List.mem_eraseDups.trans hm.mem_successors_iff
  have hsource : e.source ∈ m.order :=
    (order_perm hm hp).mem_iff.2 (mem_ids_iff.2 (hm.permitted e he).source)
  have hacyclic' : ¬ Cyclic fun a b => b ∈ m.neighbours a := by
    simpa only [hnext] using hacyclic
  have htarget : e.target ∈ m.neighbours e.source := (hnext _ _).2 ⟨e, he, rfl, rfl⟩
  exact (hp.before hacyclic' e.source hsource e.target htarget).resolve_left List.not_mem_nil

theorem topologicalOrder_of_cyclic (h : Cyclic m.DependsOn) :
    m.topologicalOrder = .error m.detectCycles := by
  have hne : m.detectCycles.isEmpty = false := by
    cases hc : m.detectCycles with
    | nil => exact absurd h (m.detectCycles_eq_nil_iff.1 hc)
    | cons c rest => rfl
  simp [topologicalOrder, hne]

theorem topologicalOrder_of_acyclic (h : ¬ Cyclic m.DependsOn) :
    m.topologicalOrder = .ok m.order := by
  simp [topologicalOrder, m.detectCycles_eq_nil_iff.2 h]

/-- **The order of every model that is built.** There is none exactly if the edges have a cycle, and
cycles are then reported, at least one of them and nothing but cycles. Otherwise every component
comes once and behind all that edges lead to from it, and the order is the only depth-first
post-order that starts at the components in the order of their IDs and follows edges in the order in
which they were first added. -/
theorem topologicalOrder_spec (s : Specification) (base : Path)
    (read : Path → Except Failure Contract) :
    let m := (build s base read).1
    ((∃ cycles, m.topologicalOrder = .error cycles) ↔ Cyclic m.HasEdge) ∧
    (∀ cycles, m.topologicalOrder = .error cycles →
      cycles ≠ [] ∧ ∀ c ∈ cycles, IsCycle m.HasEdge c) ∧
    ∀ order, m.topologicalOrder = .ok order →
      order.Nodup ∧ (∀ id, id ∈ order ↔ m.contains id = true) ∧
      (∀ e ∈ m.edges, [e.target, e.source].Sublist order) ∧
      ∀ out, PostOrder m.neighbours [] m.ids out ↔ out = order := by
  intro m
  have hm : m.WellFormed := WellFormed.build s base read
  rw [← hm.dependsOn_eq]
  by_cases h : Cyclic m.DependsOn
  · rw [topologicalOrder_of_cyclic h]
    refine ⟨iff_of_true ⟨_, rfl⟩ h, ?_, nofun⟩
    intro cycles hc
    cases hc
    exact ⟨fun hnil => m.detectCycles_eq_nil_iff.1 hnil h, m.detectCycles_report.isCycle⟩
  · rw [topologicalOrder_of_acyclic h]
    refine ⟨iff_of_false nofun h, nofun, ?_⟩
    intro order ho
    cases ho
    have hp := order_postOrder hm h
    refine ⟨hp.nodup, fun id => (order_perm hm hp).mem_iff.trans mem_ids_iff, ?_, fun out => ?_⟩
    · intro e he
      exact order_before hm (hm.dependsOn_eq ▸ h) hp he
    · exact ⟨hp.unique, fun e => e ▸ hp⟩

/-- Middleware `a` that needs `c` and `b`, which needs `c`, and what `c` needs. -/
def layered (needs : List String) : Specification :=
  ⟨"1.0.0", "layered", "", "", [⟨"a", "middleware", [("depends_on", .texts ["c", "b", "c"])], none⟩,
    ⟨"b", "middleware", [("depends_on", .texts ["c"])], none⟩,
    ⟨"c", "middleware", [("depends_on", .texts needs)], none⟩], .null⟩

theorem topologicalOrder_spec_layered :
    (let m := (build (layered []) "" fun _ => .error default).1
    m.topologicalOrder = .ok ["c", "b", "a"] ∧ PostOrder m.neighbours [] m.ids ["c", "b", "a"]) ∧
    let m := (build (layered ["a"]) "" fun _ => .error default).1
    m.topologicalOrder = .error [["a", "c"]] ∧ IsCycle m.HasEdge ["a", "c"] := by
  obtain ⟨_, _, hok⟩ := topologicalOrder_spec (layered []) "" fun _ => .error default
  obtain ⟨_, herror, _⟩ := topologicalOrder_spec (layered ["a"]) "" fun _ => .error default
  have horder : (build (layered []) "" fun _ => .error default).1.topologicalOrder =
      .ok ["c", "b", "a"] := by rfl
  have hcycle : (build (layered ["a"]) "" fun _ => .error default).1.topologicalOrder =
      .error [["a", "c"]] := by rfl
  exact ⟨⟨horder, ((hok _ horder).2.2.2 _).2 rfl⟩, hcycle,
    (herror _ hcycle).2 _ (List.mem_singleton.2 rfl)⟩

end ArchSpec.Model
