import ArchSpec.Model.Build
import ArchSpec.Proofs.Model.Dependency
import Mathlib.Data.List.Nodup

/-!
# The search for cycles is sound and complete

The search goes along a trail, on which every component depends on the one after it, and keeps a
list of what is done. The two are disjoint at every moment; that holds also when a search stops at
a cycle, since the whole trail then counts as done.

* `Trail` — what holds of the way from the start of a search to the place where it is.
* `Outcome` — what a search guarantees when it ends: `Finished` or `Found`.
* `visit_sound` — the search from one component keeps these guarantees.
* `visit_eq_of_le` — a bound that is not less than the number of components is none.
* `detectCycles_spec` — no cycle is found exactly if there is none, and those that are found are
  cycles without common components.
-/

namespace ArchSpec.Model

variable {m : Model}

/-! ## Trails -/

/-- The way of a search, the last component first: each one depends on the one before it in the
list. -/
structure Trail (m : Model) (trail : List String) : Prop where
  nodup : trail.Nodup
  component : ∀ id ∈ trail, m.contains id = true
  chain : trail.IsChain (fun a b => m.DependsOn b a)

theorem Trail.start {id : String} (h : m.contains id = true) : Trail m [id] :=
  ⟨List.nodup_singleton id, fun _ ha => List.mem_singleton.1 ha ▸ h, List.isChain_singleton id⟩

theorem Trail.push {current id : String} {trail : List String} (h : Trail m (current :: trail))
    (hid : id ∉ current :: trail) (hd : m.DependsOn current id) :
    Trail m (id :: current :: trail) := by
  refine ⟨List.nodup_cons.2 ⟨hid, h.nodup⟩, ?_, List.isChain_cons_cons.2 ⟨hd, h.chain⟩⟩
  intro a ha
  rcases List.mem_cons.1 ha with rfl | ha
  · exact hd.2
  · exact h.component a ha

theorem Trail.length_le {trail : List String} (h : Trail m trail) :
    trail.length ≤ m.components.size :=
  length_le_size h.nodup h.component

/-- The cycle that a component of a trail closes is the trail down to that component. -/
theorem cycleAt_append {before rest : List String} {id : String} (h : id ∉ before) :
    cycleAt (before ++ id :: rest) id = (before ++ [id]).reverse := by
  have hall : ∀ a ∈ before, decide (a ≠ id) = true := by
    intro a ha
    exact decide_eq_true fun e => h (e ▸ ha)
  unfold cycleAt
  rw [List.takeWhile_append_of_pos hall, List.takeWhile_cons_of_neg (by simp), List.append_nil]

theorem mem_of_mem_cycleAt {trail : List String} {id a : String} (hid : id ∈ trail)
    (ha : a ∈ cycleAt trail id) : a ∈ trail := by
  obtain ⟨before, rest, rfl, hb⟩ := List.eq_append_cons_of_mem hid
  rw [cycleAt_append hb, List.mem_reverse] at ha
  rcases List.mem_append.1 ha with ha | ha
  · exact List.mem_append_left _ ha
  · rw [List.mem_singleton.1 ha]
    exact hid

/-- A step from the end of a trail back to it closes a cycle. -/
theorem Trail.isCycle_cycleAt {current id : String} {trail : List String}
    (h : Trail m (current :: trail)) (hid : id ∈ current :: trail) (hd : m.DependsOn current id) :
    IsCycle m.DependsOn (cycleAt (current :: trail) id) := by
  obtain ⟨before, rest, hsplit, hb⟩ := List.eq_append_cons_of_mem hid
  have hpart : before ++ id :: rest = (before ++ [id]) ++ rest := by simp
  have hnodup := h.nodup
  have hchain := h.chain
  rw [hsplit, hpart] at hnodup hchain
  rw [hsplit, cycleAt_append hb]
  refine ⟨List.nodup_reverse.2 hnodup.of_append_left,
    List.isChain_reverse.2 hchain.left_of_append, id, current, by simp, ?_, hd⟩
  rw [List.getLast?_reverse]
  cases before with
  | nil =>
    rw [List.nil_append, List.cons.injEq] at hsplit
    rw [hsplit.1]
    rfl
  | cons b before =>
    rw [List.cons_append, List.cons.injEq] at hsplit
    rw [hsplit.1]
    rfl

/-! ## What a search guarantees -/

/-- A search from `starts` that has found no cycle: the starts are done, nothing on the trail is,
and what is done stays settled. -/
structure Finished (m : Model) (trail starts done done' : List String) : Prop where
  grows : done ⊆ done'
  fresh : ∀ id ∈ trail, id ∉ done'
  reached : ∀ id ∈ starts, m.contains id = true → id ∈ done'
  settled : Settled m.DependsOn done → Settled m.DependsOn done'

/-- A search that has found a cycle: it is one, of components that were not done before. -/
structure Found (m : Model) (done cycle done' : List String) : Prop where
  grows : done ⊆ done'
  isCycle : IsCycle m.DependsOn cycle
  component : ∀ id ∈ cycle, m.contains id = true
  fresh : ∀ id ∈ cycle, id ∉ done
  retired : ∀ id ∈ cycle, id ∈ done'

/-- What the end of a search guarantees. -/
def Outcome (m : Model) (trail starts done : List String) : Search → Prop
  | .finished done' => Finished m trail starts done done'
  | .found cycle done' => Found m done cycle done'

/-- A search ends at once if its starts are done. -/
theorem Finished.of_done {trail starts done : List String} (hfresh : ∀ id ∈ trail, id ∉ done)
    (hdone : ∀ id ∈ starts, m.contains id = true → id ∈ done) :
    Finished m trail starts done done :=
  ⟨fun _ ha => ha, hfresh, hdone, fun hs => hs⟩

/-- A step from the end of a trail back to it ends the search: the whole trail is done. -/
theorem Trail.found_cycleAt {current id : String} {trail done : List String}
    (hT : Trail m (current :: trail)) (hid : id ∈ current :: trail)
    (hd : m.DependsOn current id) (hfresh : ∀ a ∈ current :: trail, a ∉ done) :
    Found m done (cycleAt (current :: trail) id) (current :: trail ++ done) where
  grows _ ha := List.mem_append_right _ ha
  isCycle := hT.isCycle_cycleAt hid hd
  component a ha := hT.component a (mem_of_mem_cycleAt hid ha)
  fresh a ha := hfresh a (mem_of_mem_cycleAt hid ha)
  retired _ ha := List.mem_append_left _ (mem_of_mem_cycleAt hid ha)

theorem Found.of_grows {done done₁ cycle done' : List String} (h : Found m done₁ cycle done')
    (hg : done ⊆ done₁) : Found m done cycle done' :=
  ⟨fun _ ha => h.grows (hg ha), h.isCycle, h.component, fun id hid hd => h.fresh id hid (hg hd),
    h.retired⟩

/-- A search from some starts after one from others. -/
theorem Outcome.after {trail first starts done done₁ : List String} {s : Search}
    (h₁ : Finished m trail first done done₁) (h : Outcome m trail starts done₁ s) :
    Outcome m trail (first ++ starts) done s := by
  cases s with
  | found cycle done' => exact Found.of_grows h h₁.grows
  | finished done' =>
    refine ⟨fun _ ha => h.grows (h₁.grows ha), h.fresh, ?_, fun hs => h.settled (h₁.settled hs)⟩
    intro id hid hc
    rcases List.mem_append.1 hid with hid | hid
    · exact h.grows (h₁.reached id hid hc)
    · exact h.reached id hid hc

/-! ## The search -/

/-- **The search through the dependencies of the end of a trail**, if the search from each of them
keeps the guarantees. -/
theorem visitAll_sound {current : String} {trail : List String} (hT : Trail m (current :: trail))
    (visit : String → List String → Search)
    (hvisit : ∀ id done, Trail m (id :: current :: trail) →
      (∀ a ∈ id :: current :: trail, a ∉ done) →
      Outcome m (current :: trail) [id] done (visit id done)) :
    ∀ (starts done : List String), (∀ id ∈ starts, id ∈ m.dependencies current) →
      (∀ a ∈ current :: trail, a ∉ done) →
      Outcome m (current :: trail) starts done
        (m.visitAll (current :: trail) visit starts done) := by
  intro starts
  induction starts with
  | nil =>
    intro done _ hfresh
    exact Finished.of_done hfresh (List.forall_mem_nil _)
  | cons id rest ih =>
    intro done hdep hfresh
    have hrest : ∀ a ∈ rest, a ∈ m.dependencies current :=
      fun a ha => hdep a (List.mem_cons_of_mem _ ha)
    unfold visitAll
    split
    · -- the component is on the trail
      rename_i hon
      have hid : id ∈ current :: trail := List.contains_iff_mem.1 hon
      exact hT.found_cycleAt hid ⟨hdep id List.mem_cons_self, hT.component id hid⟩ hfresh
    · rename_i hoff
      have hid : id ∉ current :: trail := fun h => hoff (List.contains_iff_mem.2 h)
      split
      · -- it is done, or no component
        rename_i hskip
        have hone : Finished m (current :: trail) [id] done done := by
          refine .of_done hfresh fun a ha hc => ?_
          rw [List.mem_singleton.1 ha] at hc ⊢
          rw [hc] at hskip
          simpa using hskip
        exact Outcome.after hone (ih done hrest hfresh)
      · -- the search goes on from it, with the trail one longer
        rename_i hnew
        have hnew' : id ∉ done ∧ m.contains id = true := by simpa using hnew
        have hd : m.DependsOn current id := ⟨hdep id List.mem_cons_self, hnew'.2⟩
        have hout : Outcome m (current :: trail) [id] done (visit id done) := by
          refine hvisit id done (hT.push hid hd) ?_
          intro a ha
          rcases List.mem_cons.1 ha with rfl | ha
          · exact hnew'.1
          · exact hfresh a ha
        split
        · rename_i done₁ hv
          rw [hv] at hout
          exact Outcome.after hout (ih done₁ hrest hout.fresh)
        · rename_i cycle done₁ hv
          rw [hv] at hout
          exact hout

/-- **The search from a component keeps the guarantees**, if the bound lets the trail grow to the
number of components. -/
theorem visit_sound : ∀ (fuel : Nat) (trail : List String) (id : String) (done : List String),
    Trail m (id :: trail) → m.components.size ≤ fuel + trail.length →
    (∀ a ∈ id :: trail, a ∉ done) → Outcome m trail [id] done (m.visit fuel trail id done)
  | 0, trail, id, done, hT, hfuel, _ => by
    -- the trail would have more components than there are
    have := hT.length_le
    simp only [List.length_cons] at this
    omega
  | fuel + 1, trail, id, done, hT, hfuel, hfresh => by
    have hall := visitAll_sound hT (m.visit fuel (id :: trail))
      (fun next done hT' hfresh' => visit_sound fuel (id :: trail) next done hT'
        (by simp only [List.length_cons]; omega) hfresh')
      (m.dependencies id) done (fun _ ha => ha) hfresh
    unfold visit
    split
    · -- the component is done only now, after all that it depends on: what is done stays settled
      rename_i done' hv
      rw [hv] at hall
      refine ⟨fun a ha => List.mem_cons_of_mem _ (hall.grows ha), ?_, ?_, ?_⟩
      · intro a ha hd
        rcases List.mem_cons.1 hd with rfl | hd
        · exact (List.nodup_cons.1 hT.nodup).1 ha
        · exact hall.fresh a (List.mem_cons_of_mem _ ha) hd
      · intro a ha _
        rw [List.mem_singleton.1 ha]
        exact List.mem_cons_self
      · intro hs
        exact ⟨fun b hb => hall.reached b hb.1 hb.2, hall.settled hs⟩
    · rename_i cycle done' hv
      rw [hv] at hall
      exact hall

/-! ## The bound -/

theorem visitAll_congr {trail : List String} (visit visit' : String → List String → Search) :
    ∀ (starts : List String),
      (∀ id ∈ starts, id ∉ trail → m.contains id = true → ∀ done, visit id done = visit' id done) →
      ∀ done, m.visitAll trail visit starts done = m.visitAll trail visit' starts done
  | [], _, _ => rfl
  | id :: rest, h, done => by
    have ih := visitAll_congr visit visit' rest fun a ha => h a (List.mem_cons_of_mem _ ha)
    unfold visitAll
    split
    · rfl
    · rename_i hoff
      split
      · exact ih done
      · rename_i hnew
        have hnew' : id ∉ done ∧ m.contains id = true := by simpa using hnew
        rw [h id List.mem_cons_self (fun hm => hoff (List.contains_iff_mem.2 hm)) hnew'.2 done]
        split
        · exact ih _
        · rfl

/-- **The bound is none**: a search with any two bounds that let the trail grow to the number of
components ends in the same way. -/
theorem visit_eq_of_le : ∀ (fuel fuel' : Nat) (trail : List String) (id : String),
    Trail m (id :: trail) → m.components.size ≤ fuel + trail.length →
    m.components.size ≤ fuel' + trail.length →
    ∀ done, m.visit fuel trail id done = m.visit fuel' trail id done
  | 0, _, trail, id, hT, hfuel, _, _ => by
    have := hT.length_le
    simp only [List.length_cons] at this
    omega
  | _, 0, trail, id, hT, _, hfuel', _ => by
    have := hT.length_le
    simp only [List.length_cons] at this
    omega
  | fuel + 1, fuel' + 1, trail, id, hT, hfuel, hfuel', done => by
    have hall := visitAll_congr (m.visit fuel (id :: trail)) (m.visit fuel' (id :: trail))
      (m.dependencies id)
      (fun next hdep hoff hc => visit_eq_of_le fuel fuel' (id :: trail) next
        (hT.push hoff ⟨hdep, hc⟩) (by simp only [List.length_cons]; omega)
        (by simp only [List.length_cons]; omega)) done
    simp only [visit, hall]

/-! ## All starts -/

/-- What the cycles found from a list of starts are. -/
structure Report (m : Model) (starts done : List String) (cycles : List (List String)) : Prop where
  isCycle : ∀ c ∈ cycles, IsCycle m.DependsOn c
  component : ∀ c ∈ cycles, ∀ id ∈ c, m.contains id = true
  fresh : ∀ c ∈ cycles, ∀ id ∈ c, id ∉ done
  disjoint : cycles.Pairwise List.Disjoint
  complete : cycles = [] → Settled m.DependsOn done →
    ∃ done', done ⊆ done' ∧ starts ⊆ done' ∧ Settled m.DependsOn done'

theorem Report.nil (m : Model) (done : List String) : Report m [] done [] where
  isCycle := List.forall_mem_nil _
  component := List.forall_mem_nil _
  fresh := List.forall_mem_nil _
  disjoint := .nil
  complete _ hs := ⟨done, fun _ ha => ha, List.nil_subset _, hs⟩

/-- What is found from some starts after a search from others that has found nothing. -/
theorem Report.after {first starts done done₁ : List String} {cycles : List (List String)}
    (h : Report m starts done₁ cycles) (h₁ : Finished m [] first done done₁)
    (hfirst : ∀ id ∈ first, m.contains id = true) : Report m (first ++ starts) done cycles where
  isCycle := h.isCycle
  component := h.component
  fresh c hc a ha hd := h.fresh c hc a ha (h₁.grows hd)
  disjoint := h.disjoint
  complete hnil hs := by
    obtain ⟨done', hgrows, hstarts, hs'⟩ := h.complete hnil (h₁.settled hs)
    have hreached : first ⊆ done' := fun id hid => hgrows (h₁.reached id hid (hfirst id hid))
    exact ⟨done', fun _ ha => hgrows (h₁.grows ha), List.append_subset.2 ⟨hreached, hstarts⟩, hs'⟩

/-- What is found after a search that has found a cycle. This one is done from here on, so that
later cycles have no component of it. -/
theorem Report.cons {starts starts' cycle done done₁ : List String} {cycles : List (List String)}
    (h : Report m starts done₁ cycles) (h₁ : Found m done cycle done₁) :
    Report m starts' done (cycle :: cycles) where
  isCycle := List.forall_mem_cons.2 ⟨h₁.isCycle, h.isCycle⟩
  component := List.forall_mem_cons.2 ⟨h₁.component, h.component⟩
  fresh := List.forall_mem_cons.2
    ⟨h₁.fresh, fun c hc a ha hd => h.fresh c hc a ha (h₁.grows hd)⟩
  disjoint := List.pairwise_cons.2
    ⟨fun c hc a ha hac => h.fresh c hc a hac (h₁.retired a ha), h.disjoint⟩
  complete := nofun

theorem cyclesFrom_report : ∀ (starts : List String), (∀ id ∈ starts, m.contains id = true) →
    ∀ done, Report m starts done (m.cyclesFrom starts done)
  | [], _, done => .nil m done
  | id :: rest, hstarts, done => by
    have hid : m.contains id = true := hstarts id List.mem_cons_self
    have hfirst : ∀ a ∈ [id], m.contains a = true := fun a ha => List.mem_singleton.1 ha ▸ hid
    have ih := cyclesFrom_report rest fun a ha => hstarts a (List.mem_cons_of_mem _ ha)
    unfold cyclesFrom
    split
    · rename_i hdone
      have hone : Finished m [] [id] done done := by
        refine .of_done (List.forall_mem_nil _) fun a ha _ => ?_
        rw [List.mem_singleton.1 ha]
        exact List.contains_iff_mem.1 hdone
      exact (ih done).after hone hfirst
    · rename_i hnew
      have hout : Outcome m [] [id] done (m.visit m.components.size [] id done) := by
        refine visit_sound _ [] id done (Trail.start hid) (by simp) ?_
        intro a ha hd
        rw [List.mem_singleton.1 ha] at hd
        exact hnew (List.contains_iff_mem.2 hd)
      split
      · rename_i done₁ hv
        rw [hv] at hout
        exact (ih done₁).after hout hfirst
      · rename_i cycle done₁ hv
        rw [hv] at hout
        exact (ih done₁).cons hout

theorem detectCycles_report (m : Model) : Report m m.ids [] m.detectCycles :=
  cyclesFrom_report m.ids (fun _ hid => mem_ids_iff.1 hid) []

/-- No cycle is found exactly if the dependencies have none. -/
theorem detectCycles_eq_nil_iff (m : Model) : m.detectCycles = [] ↔ ¬ Cyclic m.DependsOn := by
  have I := m.detectCycles_report
  constructor
  · intro hnil
    obtain ⟨done, _, hall, hs⟩ := I.complete hnil trivial
    refine hs.not_cyclic ?_
    intro a b hab
    exact hall (mem_ids_iff.2 hab.contains_left)
  · intro hacyclic
    rw [List.eq_nil_iff_forall_not_mem]
    intro c hc
    exact hacyclic (I.isCycle c hc).cyclic

/-- **The search for cycles is sound and complete**, for every model. It ends by itself: a bound on
its depth that is higher than the number of components changes nothing. It finds nothing exactly
if no component depends on itself, directly or through others. What it finds are cycles of
components, and no component is on two of them. -/
theorem detectCycles_spec (m : Model) :
    (∀ fuel, m.components.size ≤ fuel → ∀ id ∈ m.ids, ∀ done,
      m.visit fuel [] id done = m.visit m.components.size [] id done) ∧
    (m.detectCycles = [] ↔ ¬ Cyclic m.DependsOn) ∧
    (∀ c ∈ m.detectCycles,
      c ≠ [] ∧ IsCycle m.DependsOn c ∧ ∀ id ∈ c, m.contains id = true) ∧
    m.detectCycles.Pairwise List.Disjoint := by
  have I := m.detectCycles_report
  refine ⟨?_, m.detectCycles_eq_nil_iff, ?_, I.disjoint⟩
  · intro fuel hfuel id hid done
    refine visit_eq_of_le fuel _ [] id (Trail.start (mem_ids_iff.1 hid)) ?_ (Nat.le_refl _) done
    exact hfuel
  · intro c hc
    exact ⟨(I.isCycle c hc).ne_nil, I.isCycle c hc, I.component c hc⟩

/-- Middleware `a` and `b` that need each other, and `c` that needs `a` and itself. -/
def looped : Model :=
  (build ⟨"1.0.0", "looped", "", "", [⟨"b", "middleware", [("depends_on", .texts ["a"])], none⟩,
    ⟨"a", "middleware", [("depends_on", .texts ["b"])], none⟩,
    ⟨"c", "middleware", [("depends_on", .texts ["a", "c"])], none⟩], .null⟩ ""
    fun _ => .error default).1

theorem detectCycles_spec_looped :
    (looped.components.size ≤ 7 ∧ "c" ∈ looped.ids ∧
      looped.visit 7 [] "c" [] = looped.visit looped.components.size [] "c" []) ∧
    ["a", "b"] ∈ looped.detectCycles ∧ ["c"] ∈ looped.detectCycles ∧
    IsCycle looped.DependsOn ["a", "b"] ∧ IsCycle looped.DependsOn ["c"] := by
  obtain ⟨hbound, _, hcycle, _⟩ := detectCycles_spec looped
  have hab : ["a", "b"] ∈ looped.detectCycles := by decide
  have hc : ["c"] ∈ looped.detectCycles := by decide
  refine ⟨⟨by decide, by decide, ?_⟩, hab, hc, (hcycle _ hab).2.1, (hcycle _ hc).2.1⟩
  exact hbound 7 (by decide) "c" (by decide) []

end ArchSpec.Model
