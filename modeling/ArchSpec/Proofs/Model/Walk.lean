import ArchSpec.Model.Tree
import ArchSpec.Proofs.Model.Order

/-!
# Walks along edges

A model may have several edges between two components, also of one relation, so a walk is a list of
edges with their numbers in the list of all edges. The numbers put walks into an order: a walk comes
before those that go on from it, and walks that part come in the order of the edges at which they
part. This is the order of lists, and of a depth-first search that takes edges as they are listed.

* `stepsFrom` — the edges from a component with their numbers, in order.
* `Walk` — walks; where an edge leads, a walk leads (`exists_walk_of_reflTransGen`).
* `Returns` — that a walk comes back to what it has passed; `exists_returns_iff` — some walk does
  exactly if a cycle is within reach.
* `simpleWalks` — the walks from a component that do not go on from a component they have passed,
  up to a length; `mem_simpleWalks_iff`, `pairwise_simpleWalks`.
-/

namespace ArchSpec.Model

variable {m : Model}

/-! ## Steps -/

/-- An edge and its number in the list of all edges. -/
abbrev Step := Edge × Nat

/-- The edges from a component with their numbers. -/
def stepsFrom (m : Model) (id : String) : List Step := m.edges.zipIdx.filter (·.1.source = id)

theorem mem_stepsFrom_iff {id : String} {s : Step} :
    s ∈ m.stepsFrom id ↔ m.edges[s.2]? = some s.1 ∧ s.1.source = id := by
  rw [stepsFrom, List.mem_filter, List.mem_zipIdx_iff_getElem?, decide_eq_true_eq]

theorem pairwise_stepsFrom (m : Model) (id : String) :
    (m.stepsFrom id).Pairwise (·.2 < ·.2) := by
  refine List.Pairwise.filter _ (List.pairwise_map.1 ?_)
  rw [List.zipIdx_map_snd]
  exact List.pairwise_lt_range' 1

/-- No later edge has the same source. -/
def isLast (m : Model) (s : Step) : Bool :=
  (m.edges.drop (s.2 + 1)).all (·.source ≠ s.1.source)

theorem edgesWithEnd_cons (e : Edge) (rest : List Edge) :
    edgesWithEnd (e :: rest) = (e, rest.isEmpty) :: edgesWithEnd rest := by
  cases rest <;> rfl

/-- The edges from a component, each with whether it is the last one. -/
theorem edgesWithEnd_edgesFrom (m : Model) (id : String) :
    edgesWithEnd (m.edgesFrom id) = (m.stepsFrom id).map fun s => (s.1, m.isLast s) := by
  suffices h : ∀ (rest before : List Edge), m.edges = before ++ rest →
      edgesWithEnd (rest.filter (·.source = id)) =
        ((rest.zipIdx before.length).filter (·.1.source = id)).map fun s => (s.1, m.isLast s) from
    h m.edges [] rfl
  intro rest
  induction rest with
  | nil => exact fun _ _ => rfl
  | cons e rest ih =>
    intro before hsplit
    have hrest := ih (before ++ [e]) (by rw [hsplit, List.append_assoc]; rfl)
    rw [List.length_append, List.length_singleton] at hrest
    rw [List.zipIdx_cons]
    by_cases he : e.source = id
    · have hlast : (rest.filter (·.source = id)).isEmpty = m.isLast (e, before.length) := by
        have hdrop : m.edges.drop (before.length + 1) = rest := by
          rw [hsplit, ← List.drop_drop, List.drop_left]
          rfl
        rw [isLast, hdrop, he, Bool.eq_iff_iff, List.isEmpty_iff, List.filter_eq_nil_iff,
          List.all_eq_true]
        simp only [decide_eq_true_eq]
      rw [List.filter_cons_of_pos (by simpa using he), List.filter_cons_of_pos (by simpa using he),
        edgesWithEnd_cons, hlast, hrest, List.map_cons]
    · rw [List.filter_cons_of_neg (by simpa using he), List.filter_cons_of_neg (by simpa using he),
        hrest]

/-! ## Walks -/

/-- A walk from one name to another. -/
inductive Walk (m : Model) : String → List Step → String → Prop
  | nil {a : String} : Walk m a [] a
  | cons {s : Step} {rest : List Step} {b : String} :
    m.edges[s.2]? = some s.1 → Walk m s.1.target rest b → Walk m s.1.source (s :: rest) b

/-- What a walk has passed before its end: the sources of its edges. -/
def passed (walk : List Step) : List String := walk.map (·.1.source)

namespace Walk

variable {a b c : String} {walk walk' : List Step} {s : Step}

theorem nil_iff : Walk m a [] b ↔ b = a := by
  constructor
  · intro h
    cases h
    rfl
  · rintro rfl
    exact .nil

theorem cons_iff : Walk m a (s :: walk) b ↔
    (m.edges[s.2]? = some s.1 ∧ s.1.source = a) ∧ Walk m s.1.target walk b := by
  constructor
  · intro h
    cases h with
    | cons he h => exact ⟨⟨he, rfl⟩, h⟩
  · rintro ⟨⟨he, rfl⟩, h⟩
    exact .cons he h

theorem append (h : Walk m a walk b) (h' : Walk m b walk' c) : Walk m a (walk ++ walk') c := by
  induction h with
  | nil => exact h'
  | cons he _ ih => exact .cons he (ih h')

/-- A walk may be left off anywhere and gone on with from there. -/
theorem split : ∀ {walk : List Step} {a : String}, Walk m a (walk ++ walk') c →
    ∃ b, Walk m a walk b ∧ Walk m b walk' c
  | [], a, h => ⟨a, .nil, h⟩
  | _ :: _, _, h => by
    obtain ⟨hs, h⟩ := cons_iff.1 h
    obtain ⟨b, hb, hc⟩ := split h
    exact ⟨b, cons_iff.2 ⟨hs, hb⟩, hc⟩

/-- The last edge of a walk leads to its end. -/
theorem last (h : Walk m a (walk ++ [s]) b) :
    Walk m a walk s.1.source ∧ m.edges[s.2]? = some s.1 ∧ b = s.1.target := by
  obtain ⟨c, hwalk, hlast⟩ := h.split
  obtain ⟨⟨he, rfl⟩, hnil⟩ := cons_iff.1 hlast
  exact ⟨hwalk, he, nil_iff.1 hnil⟩

theorem hasEdge (h : m.edges[s.2]? = some s.1) : m.HasEdge s.1.source s.1.target :=
  ⟨s.1, List.mem_of_getElem? h, rfl, rfl⟩

theorem reflTransGen (h : Walk m a walk b) : Relation.ReflTransGen m.HasEdge a b := by
  induction h with
  | nil => exact .refl
  | cons he _ ih => exact ih.head (hasEdge he)

theorem transGen (h : Walk m a walk b) (hne : walk ≠ []) : Relation.TransGen m.HasEdge a b := by
  cases h with
  | nil => exact absurd rfl hne
  | cons he h => exact Relation.TransGen.head' (hasEdge he) h.reflTransGen

/-- What a walk has passed leads to its end, and its start leads to that. -/
theorem of_mem_passed (h : Walk m a walk b) (hc : c ∈ passed walk) :
    Relation.ReflTransGen m.HasEdge a c ∧ Relation.TransGen m.HasEdge c b := by
  obtain ⟨s, hs, rfl⟩ := List.mem_map.1 hc
  obtain ⟨before, after, rfl⟩ := List.append_of_mem hs
  obtain ⟨c, hbefore, hafter⟩ := h.split
  cases hafter with
  | cons he hafter =>
    exact ⟨hbefore.reflTransGen, transGen (.cons he hafter) (List.cons_ne_nil _ _)⟩

end Walk

/-- **Where edges lead, a walk leads.** -/
theorem exists_walk_of_reflTransGen {a b : String} (h : Relation.ReflTransGen m.HasEdge a b) :
    ∃ walk, Walk m a walk b := by
  induction h with
  | refl => exact ⟨[], .nil⟩
  | tail _ hlast ih =>
    obtain ⟨walk, hwalk⟩ := ih
    obtain ⟨e, he, rfl, rfl⟩ := hlast
    obtain ⟨i, hi⟩ := List.mem_iff_getElem?.1 he
    exact ⟨walk ++ [(e, i)], hwalk.append (Walk.cons (s := (e, i)) hi .nil)⟩

/-! ## Walks that return -/

/-- A walk comes back to what it has passed. -/
def Returns (walk : List Step) : Prop :=
  ∃ before s, walk = before ++ [s] ∧ s.1.target ∈ passed walk

theorem Walk.passed_concat {a b : String} {walk : List Step} (h : Walk m a walk b) :
    passed walk ++ [b] = a :: walk.map (·.1.target) := by
  induction h with
  | nil => rfl
  | cons _ _ ih =>
    rw [passed, List.map_cons, List.cons_append, List.map_cons]
    exact congrArg _ ih

/-- What a walk of one edge or more has passed is its start and where its edges lead, but for the
last one. -/
theorem Walk.passed_eq {a b : String} {walk : List Step} (h : Walk m a walk b) (hne : walk ≠ []) :
    passed walk = a :: walk.dropLast.map (·.1.target) := by
  have := congrArg List.dropLast h.passed_concat
  rwa [List.dropLast_concat, List.dropLast_cons_of_ne_nil (by simpa using hne),
    ← List.map_dropLast] at this

/-- A walk either passes nothing twice and ends where it has not been, or begins with one that
passes nothing twice and returns. -/
theorem Walk.nodup_or_returns {a : String} (walk : List Step) : ∀ {b : String}, Walk m a walk b →
    (passed walk ++ [b]).Nodup ∨ ∃ part c, part ≠ [] ∧ Walk m a part c ∧ (passed part).Nodup ∧
      Returns part := by
  induction walk using List.reverseRecOn with
  | nil => exact fun _ => .inl (List.nodup_singleton _)
  | append_singleton walk s ih =>
    intro b h
    obtain ⟨hwalk, _, rfl⟩ := h.last
    rcases ih hwalk with hnodup | hreturns
    · have hpassed : passed (walk ++ [s]) = passed walk ++ [s.1.source] := by simp [passed]
      rw [← hpassed] at hnodup
      by_cases hback : s.1.target ∈ passed (walk ++ [s])
      · exact .inr ⟨walk ++ [s], _, by simp, h, hnodup, walk, s, rfl, hback⟩
      · refine .inl (List.nodup_append.2 ⟨hnodup, List.nodup_singleton _, ?_⟩)
        rintro c hc d hd rfl
        exact hback (List.mem_singleton.1 hd ▸ hc)
    · exact .inr hreturns

/-- **Some walk returns exactly if a cycle is within reach.** -/
theorem exists_returns_iff {root : String} :
    (∃ walk b, walk ≠ [] ∧ Walk m root walk b ∧ (passed walk).Nodup ∧ Returns walk) ↔
      ∃ cycle, IsCycle m.HasEdge cycle ∧
        ∃ a ∈ cycle, Relation.ReflTransGen m.HasEdge root a := by
  constructor
  · rintro ⟨walk, b, _, hwalk, _, before, s, rfl, hback⟩
    obtain ⟨_, _, rfl⟩ := hwalk.last
    obtain ⟨hreach, hself⟩ := hwalk.of_mem_passed hback
    obtain ⟨cycle, hcycle, ha⟩ := transGen_self_iff.1 hself
    exact ⟨cycle, hcycle, _, ha, hreach⟩
  · rintro ⟨cycle, hcycle, a, ha, hreach⟩
    -- a walk to the cycle and once around it has passed its end
    obtain ⟨b, ⟨e, he, hsource, htarget⟩, hba⟩ :=
      Relation.TransGen.head'_iff.1 (hcycle.transGen_self ha)
    obtain ⟨there, hthere⟩ := exists_walk_of_reflTransGen hreach
    obtain ⟨around, haround⟩ := exists_walk_of_reflTransGen hba
    obtain ⟨i, hi⟩ := List.mem_iff_getElem?.1 he
    have hloop : Walk m a ((e, i) :: around) a :=
      Walk.cons_iff.2 ⟨⟨hi, hsource⟩, htarget.symm ▸ haround⟩
    rcases (hthere.append hloop).nodup_or_returns with hnodup | ⟨part, c, h⟩
    · refine absurd rfl ((List.nodup_append.1 hnodup).2.2 a ?_ a (List.mem_singleton.2 rfl))
      simp [passed, hsource]
    · exact ⟨part, c, h⟩

/-! ## Walks that do not go on from what they have passed -/

/-- The walks from a component by one edge or more, each before those that go on from it. A walk
ends where it leads to what has been passed; `seen` is what has been passed so far. -/
def simpleWalks (m : Model) : Nat → List String → String → List (List Step)
  | 0, _, _ => []
  | fuel + 1, seen, id =>
    (m.stepsFrom id).flatMap fun s =>
      [s] :: if s.1.target ∈ seen then []
        else (m.simpleWalks fuel (s.1.target :: seen) s.1.target).map (s :: ·)

theorem ne_nil_of_mem_simpleWalks {fuel : Nat} {seen : List String} {id : String}
    {walk : List Step} (h : walk ∈ m.simpleWalks fuel seen id) : walk ≠ [] := by
  cases fuel with
  | zero => cases h
  | succ fuel =>
    obtain ⟨s, _, hwalk⟩ := List.mem_flatMap.1 h
    rcases List.mem_cons.1 hwalk with rfl | hwalk
    · exact List.cons_ne_nil _ _
    · split at hwalk
      · cases hwalk
      · obtain ⟨rest, _, rfl⟩ := List.mem_map.1 hwalk
        exact List.cons_ne_nil _ _

theorem cons_mem_simpleWalks_iff {fuel : Nat} {seen : List String} {id : String} {s : Step}
    {rest : List Step} : s :: rest ∈ m.simpleWalks (fuel + 1) seen id ↔ s ∈ m.stepsFrom id ∧
      (rest = [] ∨ s.1.target ∉ seen ∧
        rest ∈ m.simpleWalks fuel (s.1.target :: seen) s.1.target) := by
  rw [simpleWalks, List.mem_flatMap]
  constructor
  · rintro ⟨s', hs', hwalk⟩
    rcases List.mem_cons.1 hwalk with heq | hwalk
    · cases heq
      exact ⟨hs', .inl rfl⟩
    · split at hwalk
      · cases hwalk
      · rename_i hnew
        obtain ⟨rest', hrest', heq⟩ := List.mem_map.1 hwalk
        cases heq
        exact ⟨hs', .inr ⟨hnew, hrest'⟩⟩
  · rintro ⟨hs, rfl | ⟨hnew, hrest⟩⟩
    · exact ⟨s, hs, List.mem_cons_self⟩
    · refine ⟨s, hs, List.mem_cons_of_mem _ ?_⟩
      rw [if_neg hnew]
      exact List.mem_map.2 ⟨rest, hrest, rfl⟩

/-- **The walks that are listed**, if the bound lets them grow until they have passed all
components: those that go on only from what has not been passed before. -/
theorem mem_simpleWalks_iff (hm : m.WellFormed) : ∀ (fuel : Nat) (seen : List String) (id : String),
    seen.Nodup → (∀ a ∈ seen, m.contains a = true) → m.components.size < fuel + seen.length →
    ∀ walk, walk ∈ m.simpleWalks fuel seen id ↔ walk ≠ [] ∧ (∃ b, Walk m id walk b) ∧
      ((walk.dropLast.map (·.1.target)).reverse ++ seen).Nodup
  | 0, seen, id, hnodup, hseen, hfuel => by
    -- more would have been passed than there are components
    have := length_le_size hnodup hseen
    omega
  | fuel + 1, seen, id, hnodup, hseen, hfuel => by
    intro walk
    cases walk with
    | nil => exact iff_of_false (fun h => ne_nil_of_mem_simpleWalks h rfl) fun h => h.1 rfl
    | cons s rest =>
      simp only [cons_mem_simpleWalks_iff, mem_stepsFrom_iff, Walk.cons_iff, exists_and_left]
      rw [and_iff_right (List.cons_ne_nil s rest), and_assoc (c := List.Nodup _)]
      refine and_congr_right fun hs => ?_
      have htarget : m.contains s.1.target = true :=
        hm.contains_target (Walk.hasEdge hs.1)
      cases rest with
      | nil => exact iff_of_true (.inl rfl) ⟨⟨_, .nil⟩, hnodup⟩
      | cons s' rest =>
        rw [List.dropLast_cons_cons, List.map_cons, List.reverse_cons, List.append_assoc,
          List.singleton_append, or_iff_right (List.cons_ne_nil s' rest)]
        by_cases hnew : s.1.target ∈ seen
        · refine iff_of_false (fun h => h.1 hnew) fun h => ?_
          exact (List.nodup_cons.1 h.2.of_append_right).1 hnew
        · have ih := mem_simpleWalks_iff hm fuel (s.1.target :: seen) s.1.target
            (List.nodup_cons.2 ⟨hnew, hnodup⟩) (List.forall_mem_cons.2 ⟨htarget, hseen⟩)
            (by simp only [List.length_cons]; omega) (s' :: rest)
          rw [and_iff_right hnew, ih, and_iff_right (List.cons_ne_nil s' rest)]

/-- With the number of components as the bound, these are all walks by one edge or more that pass
nothing twice before their ends. -/
theorem mem_walks_iff (hm : m.WellFormed) {root : String} (hroot : m.contains root = true)
    {walk : List Step} : walk ∈ m.simpleWalks m.components.size [root] root ↔
      walk ≠ [] ∧ (∃ b, m.Walk root walk b) ∧ (passed walk).Nodup := by
  rw [mem_simpleWalks_iff hm _ _ _ (List.nodup_singleton root)
    (fun a ha => List.mem_singleton.1 ha ▸ hroot) (Nat.lt_succ_self _)]
  refine and_congr_right fun hne => and_congr_right ?_
  rintro ⟨b, hwalk⟩
  rw [hwalk.passed_eq hne, ← List.reverse_cons, List.nodup_reverse]

/-- **Walks come in the order of their numbers**, so none comes twice. -/
theorem pairwise_simpleWalks (m : Model) : ∀ (fuel : Nat) (seen : List String) (id : String),
    (m.simpleWalks fuel seen id).Pairwise fun v w => v.map (·.2) < w.map (·.2)
  | 0, _, _ => List.Pairwise.nil
  | fuel + 1, seen, id => by
    refine List.pairwise_flatMap.2 ⟨fun s _ => ?_, ?_⟩
    · -- a walk of one edge, then those that go on from it
      split
      · exact List.pairwise_singleton _ _
      · have ih := pairwise_simpleWalks m fuel (s.1.target :: seen) s.1.target
        refine List.pairwise_cons.2 ⟨fun walk hwalk => ?_, List.pairwise_map.2 (ih.imp fun h => ?_)⟩
        · obtain ⟨rest, hrest, rfl⟩ := List.mem_map.1 hwalk
          refine List.cons_lt_cons_iff.2 (.inr ⟨rfl, ?_⟩)
          cases rest with
          | nil => exact absurd rfl (ne_nil_of_mem_simpleWalks hrest)
          | cons s' rest => exact List.nil_lt_cons _ _
        · exact List.cons_lt_cons_iff.2 (.inr ⟨rfl, h⟩)
    · -- walks that part at the first edge
      have hfirst : ∀ {s : Step} {walk : List Step}, walk ∈ ([s] :: if s.1.target ∈ seen then []
          else (m.simpleWalks fuel (s.1.target :: seen) s.1.target).map (s :: ·)) →
          ∃ rest, walk = s :: rest := by
        intro s walk hwalk
        rcases List.mem_cons.1 hwalk with rfl | hwalk
        · exact ⟨[], rfl⟩
        · split at hwalk
          · cases hwalk
          · obtain ⟨rest, _, rfl⟩ := List.mem_map.1 hwalk
            exact ⟨rest, rfl⟩
      refine (m.pairwise_stepsFrom id).imp fun {s s'} hlt v hv w hw => ?_
      obtain ⟨rest, rfl⟩ := hfirst hv
      obtain ⟨rest', rfl⟩ := hfirst hw
      exact List.cons_lt_cons_iff.2 (.inl hlt)

end ArchSpec.Model
