import ArchSpec.Proofs.Model.Order
import ArchSpec.Proofs.Text

/-!
# All that a component needs

What a component needs is found by looking at one component after another and noting what edges lead
to from it, unless that has been noted before. The component itself is not noted at first, so it
comes out only if something that it needs needs it.

* `Spreading` — what holds while components are looked at: `Spreading.step` for one of them,
  `Spreading.run` for all.
* `spread_eq_of_le` — a bound that is not less than the number of components is none.
* `mem_reachable_iff` — what is found is what a way of one or more steps leads to.
* `transitiveDependencies_spec` — of every model that is built.
-/

namespace ArchSpec.Model

variable {m : Model}

/-! ## Lists without repetitions -/

theorem mem_addNew {a : String} : ∀ (ids found : List String),
    a ∈ addNew found ids ↔ a ∈ found ∨ a ∈ ids
  | [], found => by simp [addNew]
  | id :: rest, found => by
    rw [addNew, mem_addNew rest, List.mem_cons, ← or_assoc]
    refine or_congr_left ?_
    split
    · rename_i hid
      refine (or_iff_left_of_imp ?_).symm
      rintro rfl
      exact List.contains_iff_mem.1 hid
    · rw [List.mem_append, List.mem_singleton]

theorem nodup_addNew : ∀ (ids : List String) {found : List String},
    found.Nodup → (addNew found ids).Nodup
  | [], _, h => h
  | id :: rest, found, h => by
    rw [addNew]
    refine nodup_addNew rest ?_
    split
    · exact h
    · rename_i hid
      refine List.nodup_append.2 ⟨h, List.nodup_singleton id, ?_⟩
      rintro a ha b hb rfl
      exact hid (List.contains_iff_mem.2 (List.mem_singleton.1 hb ▸ ha))

/-- What is there keeps its position. -/
theorem getElem?_addNew {i : Nat} {a : String} : ∀ (ids : List String) {found : List String},
    found[i]? = some a → (addNew found ids)[i]? = some a
  | [], _, h => h
  | id :: rest, found, h => by
    rw [addNew]
    refine getElem?_addNew rest ?_
    split
    · exact h
    · rw [List.getElem?_append_left (List.getElem?_eq_some_iff.1 h).1]
      exact h

/-! ## Looking at components -/

/-- One component needs another one. -/
def Leads (m : Model) (a b : String) : Prop := b ∈ m.successors a

theorem contains_of_mem_successors {a b : String} (h : b ∈ m.successors a) :
    m.contains b = true := (Model.mem_successors_iff.1 h).2

/-- What holds of the components that are found from `starts`, when those before the number `next`
have been looked at. -/
structure Spreading (m : Model) (starts : List String) (next : Nat) (found : List String) :
    Prop where
  nodup : found.Nodup
  component : ∀ a ∈ found, m.contains a = true
  begun : starts ⊆ found
  reached : ∀ a ∈ found, ∃ s ∈ starts, Relation.ReflTransGen m.Leads s a
  looked : ∀ i < next, ∀ a, found[i]? = some a → m.successors a ⊆ found

namespace Spreading

variable {starts found : List String} {next : Nat}

theorem start (h : ∀ s ∈ starts, m.contains s = true) :
    Spreading m starts 0 (addNew [] starts) := by
  have hmem : ∀ a, a ∈ addNew [] starts ↔ a ∈ starts := by
    intro a
    rw [mem_addNew]
    exact or_iff_right List.not_mem_nil
  refine ⟨nodup_addNew starts List.nodup_nil, ?_, ?_, ?_, ?_⟩
  · exact fun a ha => h a ((hmem a).1 ha)
  · exact fun a ha => (hmem a).2 ha
  · exact fun a ha => ⟨a, (hmem a).1 ha, .refl⟩
  · exact fun i hi => absurd hi (Nat.not_lt_zero i)

theorem length_le (h : Spreading m starts next found) : found.length ≤ m.components.size :=
  length_le_size h.nodup h.component

/-- **One more component is looked at.** -/
theorem step (h : Spreading m starts next found) {id : String} (hid : found[next]? = some id) :
    Spreading m starts (next + 1) (addNew found (m.successors id)) := by
  have hmem : ∀ a, a ∈ addNew found (m.successors id) ↔ a ∈ found ∨ a ∈ m.successors id :=
    fun a => mem_addNew _ _
  refine ⟨nodup_addNew _ h.nodup, ?_, ?_, ?_, ?_⟩
  · intro a ha
    rcases (hmem a).1 ha with ha | ha
    · exact h.component a ha
    · exact contains_of_mem_successors ha
  · exact fun a ha => (hmem a).2 (.inl (h.begun ha))
  · intro a ha
    rcases (hmem a).1 ha with ha | ha
    · exact h.reached a ha
    · obtain ⟨s, hs, hreach⟩ := h.reached id (List.mem_of_getElem? hid)
      exact ⟨s, hs, hreach.tail ha⟩
  · intro i hi a ha b hb
    rcases Nat.lt_succ_iff_lt_or_eq.1 hi with hlt | rfl
    · -- it was looked at before, and has kept its position
      have hbound : i < found.length :=
        Nat.lt_trans hlt (List.getElem?_eq_some_iff.1 hid).1
      have hold := getElem?_addNew (m.successors id) (List.getElem?_eq_getElem hbound)
      rw [ha, Option.some.injEq] at hold
      rw [hold] at hb
      exact (hmem b).2 (.inl (h.looked i hlt _ (List.getElem?_eq_getElem hbound) hb))
    · rw [getElem?_addNew (m.successors id) hid, Option.some.injEq] at ha
      exact (hmem b).2 (.inr (ha ▸ hb))

/-- When all have been looked at, what is found is all that the starts lead to. -/
theorem mem_iff (h : Spreading m starts next found) (hall : found[next]? = none) {b : String} :
    b ∈ found ↔ ∃ s ∈ starts, Relation.ReflTransGen m.Leads s b := by
  refine ⟨h.reached b, ?_⟩
  rintro ⟨s, hs, hreach⟩
  induction hreach with
  | refl => exact h.begun hs
  | tail _ hlead ih =>
    obtain ⟨i, hi⟩ := List.mem_iff_getElem?.1 ih
    have hlt : i < found.length := (List.getElem?_eq_some_iff.1 hi).1
    have hle : found.length ≤ next := List.getElem?_eq_none_iff.1 hall
    exact h.looked i (Nat.lt_of_lt_of_le hlt hle) _ hi hlead

/-- As many steps as there are components are enough to look at all. -/
theorem getElem?_eq_none (h : Spreading m starts next found) (hnext : m.components.size ≤ next) :
    found[next]? = none :=
  List.getElem?_eq_none_iff.2 (Nat.le_trans h.length_le hnext)

end Spreading

theorem spread_of_none {next : Nat} {found : List String} (h : found[next]? = none) (fuel : Nat) :
    m.spread fuel next found = found := by
  cases fuel with
  | zero => rfl
  | succ fuel => simp only [spread, h]

/-- **All components that are found are looked at**, if the bound is not less than the number of
those that may be left. -/
theorem Spreading.run {starts : List String} : ∀ (fuel next : Nat) (found : List String),
    Spreading m starts next found → m.components.size ≤ fuel + next →
    ∃ next', Spreading m starts next' (m.spread fuel next found) ∧
      (m.spread fuel next found)[next']? = none
  | 0, next, found, h, hfuel => ⟨next, h, h.getElem?_eq_none (by omega)⟩
  | fuel + 1, next, found, h, hfuel => by
    cases hid : found[next]? with
    | none =>
      rw [spread_of_none hid]
      exact ⟨next, h, hid⟩
    | some id =>
      simp only [spread, hid]
      exact Spreading.run fuel (next + 1) _ (h.step hid) (by omega)

/-- **The bound is none**: with any two bounds that are not less than the number of those that may
be left, the same components are found. -/
theorem spread_eq_of_le {starts : List String} : ∀ (fuel fuel' next : Nat) (found : List String),
    Spreading m starts next found → m.components.size ≤ fuel + next →
    m.components.size ≤ fuel' + next → m.spread fuel next found = m.spread fuel' next found
  | 0, fuel', next, found, h, hfuel, _ =>
    (spread_of_none (h.getElem?_eq_none (by omega)) fuel').symm
  | fuel, 0, next, found, h, _, hfuel' => spread_of_none (h.getElem?_eq_none (by omega)) fuel
  | fuel + 1, fuel' + 1, next, found, h, hfuel, hfuel' => by
    cases hid : found[next]? with
    | none => rw [spread_of_none hid, spread_of_none hid]
    | some id =>
      simp only [spread, hid]
      exact spread_eq_of_le fuel fuel' (next + 1) _ (h.step hid) (by omega) (by omega)

/-! ## What is found -/

theorem spreading_start (m : Model) (id : String) :
    Spreading m (m.successors id) 0 (addNew [] (m.successors id)) :=
  Spreading.start fun _ hs => contains_of_mem_successors hs

/-- **What is found is what a way of one or more steps leads to.** -/
theorem mem_reachable_iff {a b : String} : b ∈ m.reachable a ↔ Relation.TransGen m.Leads a b := by
  obtain ⟨next, h, hall⟩ :=
    Spreading.run m.components.size 0 _ (m.spreading_start a) (Nat.le_refl _)
  rw [Relation.TransGen.head'_iff]
  exact (sortedTexts_perm _).mem_iff.trans (h.mem_iff hall)

/-- It is listed in the order of IDs, each component once. -/
theorem pairwise_reachable (m : Model) (id : String) : (m.reachable id).Pairwise (· < ·) := by
  obtain ⟨_, h, _⟩ := Spreading.run m.components.size 0 _ (m.spreading_start id) (Nat.le_refl _)
  have hnodup : (m.reachable id).Nodup := (sortedTexts_perm _).nodup_iff.2 h.nodup
  refine (pairwise_sortedTexts _).imp₂ (fun a b hle hne => ?_) hnodup
  exact String.not_le.1 fun hge => hne (String.le_antisymm hle hge)

theorem WellFormed.leads_eq (h : m.WellFormed) : m.Leads = m.HasEdge :=
  funext fun _ => funext fun _ => propext h.mem_successors_iff

theorem transitiveDependencies_eq {id : String} (h : m.contains id = true) :
    m.transitiveDependencies id = .ok (m.reachable id) := by
  obtain ⟨c, hc⟩ := contains_iff.1 h
  simp only [transitiveDependencies, require, hc]
  rfl

theorem transitiveDependencies_eq_error {id : String} (h : m.contains id = false) :
    m.transitiveDependencies id = .error (.componentNotFound id) := by
  have hc : m.get? id = none := Option.isNone_iff_eq_none.1 (Option.isSome_eq_false_iff.1 h)
  simp only [transitiveDependencies, require, hc]
  rfl

/-- **All that a component needs**, in every model that is built, with cycles or without. An ID that
no component has is reported. For a component, the search ends with the components that a way of one
or more edges leads to, in the order of IDs and each once, and with no others; it is among them
exactly if it is on a cycle. So cycles are detected exactly if some component needs itself. The
search ends by itself: a bound on its steps that is higher than the number of components changes
nothing. -/
theorem transitiveDependencies_spec (s : Specification) (base : Path)
    (read : Path → Except Failure Contract) :
    let m := (build s base read).1
    (∀ id, m.transitiveDependencies id = .error (.componentNotFound id) ↔ m.contains id = false) ∧
    (∀ id, m.contains id = true → ∃ found, m.transitiveDependencies id = .ok found ∧
      found.Pairwise (· < ·) ∧
      (∀ b, b ∈ found ↔ m.contains b = true ∧ Relation.TransGen m.HasEdge id b) ∧
      (id ∈ found ↔ ∃ c, IsCycle m.HasEdge c ∧ id ∈ c)) ∧
    (m.detectCycles ≠ [] ↔ ∃ id found, m.transitiveDependencies id = .ok found ∧ id ∈ found) ∧
    ∀ fuel, m.components.size ≤ fuel → ∀ id,
      m.spread fuel 0 (addNew [] (m.successors id)) =
        m.spread m.components.size 0 (addNew [] (m.successors id)) := by
  intro m
  have hm : m.WellFormed := WellFormed.build s base read
  have hreach : ∀ {a b}, b ∈ m.reachable a ↔ Relation.TransGen m.HasEdge a b := by
    intro a b
    rw [mem_reachable_iff, hm.leads_eq]
  refine ⟨fun id => ?_, fun id hid => ?_, ?_, fun fuel hfuel id => ?_⟩
  · cases hid : m.contains id with
    | false => exact iff_of_true (transitiveDependencies_eq_error hid) rfl
    | true =>
      rw [transitiveDependencies_eq hid]
      exact iff_of_false nofun nofun
  · refine ⟨m.reachable id, transitiveDependencies_eq hid, m.pairwise_reachable id, fun b => ?_, ?_⟩
    · rw [hreach]
      refine (and_iff_right_of_imp fun h => ?_).symm
      obtain ⟨a, _, hab⟩ := Relation.TransGen.tail'_iff.1 h
      exact hm.contains_target hab
    · exact hreach.trans transGen_self_iff
  · rw [Ne, m.detectCycles_eq_nil_iff, not_not, hm.dependsOn_eq]
    constructor
    · rintro ⟨id, hcycle⟩
      obtain ⟨a, _, hlast⟩ := Relation.TransGen.tail'_iff.1 hcycle
      exact ⟨id, _, transitiveDependencies_eq (hm.contains_target hlast), hreach.2 hcycle⟩
    · rintro ⟨id, found, hfound, hmem⟩
      cases hid : m.contains id with
      | false =>
        rw [transitiveDependencies_eq_error hid] at hfound
        cases hfound
      | true =>
        rw [transitiveDependencies_eq hid] at hfound
        cases hfound
        exact ⟨id, hreach.1 hmem⟩
  · exact spread_eq_of_le fuel _ 0 _ (m.spreading_start id) hfuel (Nat.le_refl _)

/-- Middleware `a` and `b` that need each other, and `c` that needs `a`, which it lists twice. -/
def trailing : Specification :=
  ⟨"1.0.0", "trailing", "", "",
    [⟨"c", "middleware", [("depends_on", .texts ["a", "a"])], none⟩,
      ⟨"b", "middleware", [("depends_on", .texts ["a"])], none⟩,
      ⟨"a", "middleware", [("depends_on", .texts ["b"])], none⟩], .null⟩

/-- What is on a cycle needs itself, and what only leads to one does not. -/
theorem transitiveDependencies_spec_trailing :
    let m := (build trailing "" fun _ => .error default).1
    m.transitiveDependencies "d" = .error (.componentNotFound "d") ∧
    m.contains "a" = true ∧ m.transitiveDependencies "a" = .ok ["a", "b"] ∧
    (∃ c, IsCycle m.HasEdge c ∧ "a" ∈ c) ∧
    m.contains "c" = true ∧ m.transitiveDependencies "c" = .ok ["a", "b"] ∧
    Relation.TransGen m.HasEdge "c" "b" ∧ (¬ ∃ c, IsCycle m.HasEdge c ∧ "c" ∈ c) ∧
    m.detectCycles ≠ [] ∧ m.components.size ≤ 7 ∧
    m.spread 7 0 (addNew [] (m.successors "c")) =
      m.spread m.components.size 0 (addNew [] (m.successors "c")) := by
  obtain ⟨hunknown, hknown, hcycles, hbound⟩ :=
    transitiveDependencies_spec trailing "" fun _ => .error default
  generalize hm : (build trailing "" fun _ => .error default).1 = m at *
  have ha : m.contains "a" = true := by subst hm; decide
  have hc : m.contains "c" = true := by subst hm; decide
  have hd : m.contains "d" = false := by subst hm; decide
  have hsize : m.components.size ≤ 7 := by subst hm; decide
  have hspread : m.spread m.components.size 0 (addNew [] (m.successors "a")) = ["b", "a"] := by
    subst hm
    decide +kernel
  have hspread' : m.spread m.components.size 0 (addNew [] (m.successors "c")) = ["a", "b"] := by
    subst hm
    decide +kernel
  have hsorted : ∀ ids : List String, ids.Perm ["a", "b"] → sortedTexts ids = ["a", "b"] :=
    fun ids hids => ((sortedTexts_perm ids).trans hids).eq_of_pairwise
      (fun _ _ _ _ => String.le_antisymm) (pairwise_sortedTexts ids) (by decide)
  have hneeds : m.transitiveDependencies "a" = .ok ["a", "b"] := by
    rw [transitiveDependencies_eq ha, reachable, hspread]
    exact congrArg _ (hsorted _ (by decide))
  have hneeds' : m.transitiveDependencies "c" = .ok ["a", "b"] := by
    rw [transitiveDependencies_eq hc, reachable, hspread']
    exact congrArg _ (hsorted _ (by decide))
  obtain ⟨found, hfound, _, _, hself⟩ := hknown "a" ha
  obtain ⟨found', hfound', _, hmem, hself'⟩ := hknown "c" hc
  rw [hneeds] at hfound
  rw [hneeds'] at hfound'
  cases hfound
  cases hfound'
  exact ⟨(hunknown "d").2 hd, ha, hneeds, hself.1 (by decide), hc, hneeds',
    ((hmem "b").1 (by decide)).2, fun h => absurd (hself'.2 h) (by decide),
    hcycles.2 ⟨"a", _, hneeds, by decide⟩, hsize, hbound 7 hsize "c"⟩

end ArchSpec.Model
