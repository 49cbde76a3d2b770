import ArchSpec.Generator.Builtin
import ArchSpec.Proofs.Artifact.Plan
import ArchSpec.Proofs.Model.WellFormed

/-!
# What is always generated

The plan of the generators that are always there holds the snapshot of the model and one page for
each use-case, under paths that are all different.

* `Registry.plan_cons` — a plan is opened generator by generator.
* `UsecasePage.mem_pages`, `nodup_pages` — the pages of a model.
* `Registry.mem_builtin` — the artifacts that are planned, and no others.
-/

namespace ArchSpec

namespace Registry

variable {m : Model} {p q : Plan}

/-- A plan begins with the files of the first generator. -/
theorem planWith_cons_ok {g : Generator} {rest : List Generator}
    (h : planWith m p (g :: rest) = .ok q) : ∃ files p', g.run m = .ok files ∧
      p.addEntries g.name files.entries = (p', .ok ()) ∧ planWith m p' rest = .ok q := by
  rw [planWith] at h
  split at h
  · cases h
  · rename_i files hfiles
    split at h
    · cases h
    · rename_i p' hadd
      exact ⟨files, p', hfiles, hadd, h⟩

end Registry

/-! ## Pages of use-cases -/

namespace UsecasePage

variable {m : Model}

theorem path_injective {id id' : String} (h : path id = path id') : id = id' := by
  have hlist := congrArg String.toList h
  unfold path at hlist
  simp only [String.toList_append] at hlist
  exact String.toList_injective (List.append_cancel_left (List.append_cancel_right hlist))

/-- The page of a use-case as an artifact. -/
def artifact (m : Model) (id : String) (u : Usecase) : Artifact :=
  ⟨generator.name, path id, ⟨content m id u, .writeOnce, some id⟩⟩

theorem mem_pages (hm : m.WellFormed) {k : String} {file : GeneratedFile} :
    (k, file) ∈ pages m ↔ ∃ id c u, m.get? id = some c ∧ c.usecase? = some u ∧ k = path id ∧
      file = ⟨content m id u, .writeOnce, some id⟩ := by
  unfold pages
  rw [List.mem_filterMap]
  constructor
  · rintro ⟨c, hc, hpage⟩
    obtain ⟨id, hid⟩ := (m.components.mem_values_iff c).1 hc
    obtain ⟨u, hu, hpage⟩ := Option.map_eq_some_iff.1 hpage
    cases hpage
    have hown : c.id = id := hm.id_eq hid
    exact ⟨id, c, u, hid, hu, by rw [hown], by rw [hown]⟩
  · rintro ⟨id, c, u, hc, hu, rfl, rfl⟩
    refine ⟨c, (m.components.mem_values_iff c).2 ⟨id, hc⟩, ?_⟩
    rw [hu, hm.id_eq hc]
    rfl

/-- Pages of different use-cases have different paths. -/
theorem nodup_pages (hm : m.WellFormed) : ((pages m).map (·.1)).Nodup := by
  have hids : (m.components.values.map (·.id)).Nodup := by
    rw [hm.map_id_values]
    exact m.components.nodup_keys
  unfold pages
  rw [List.Nodup, List.pairwise_map, List.pairwise_filterMap]
  refine (List.pairwise_map.1 hids).imp fun hne page hpage page' hpage' hsame => ?_
  obtain ⟨u, _, rfl⟩ := Option.map_eq_some_iff.1 hpage
  obtain ⟨u', _, rfl⟩ := Option.map_eq_some_iff.1 hpage'
  exact hne (path_injective hsame)

/-- Where there is no use-case, there are no pages. -/
theorem pages_eq_nil (h : generator.runsFor m = false) : pages m = [] := by
  unfold pages
  rw [List.filterMap_eq_nil_iff]
  intro c hc
  cases hu : c.usecase? with
  | none => rfl
  | some u =>
    have hkind : c.kind = .usecase := by
      unfold Component.usecase? at hu
      unfold Component.kind
      cases hbody : c.body <;> rw [hbody] at hu <;> cases hu
      rfl
    have hruns : generator.runsFor m = true := by
      unfold Generator.runsFor
      rw [Bool.or_eq_true, List.any_eq_true]
      exact .inr ⟨c, hc, by rw [hkind]; rfl⟩
    rw [hruns] at h
    cases h

end UsecasePage

/-- The snapshot as an artifact. -/
def Snapshot.artifact (m : Model) : Artifact :=
  ⟨generator.name, path, ⟨content m, .overwrite, none⟩⟩

/-! ## The plan -/

namespace Registry

variable {m : Model} {plan : Plan} {a : Artifact}

/-- The generator of the snapshot always runs, that of the pages if there is a use-case. -/
theorem runningFor_builtin (m : Model) : builtin.runningFor m = Snapshot.generator ::
    if UsecasePage.generator.runsFor m then [UsecasePage.generator] else [] := by
  have hsnapshot : Snapshot.generator.runsFor m = true := rfl
  simp [runningFor, builtin, List.filter_cons, hsnapshot]

/-- What is planned under a path: a page, or the snapshot. -/
theorem get?_builtin (h : builtin.plan m = .ok plan) (k : String) : plan.byPath.get? k =
    (((SortedMap.ofList (UsecasePage.pages m)).get? k).map
        fun file => ⟨UsecasePage.generator.name, k, file⟩).or
      (if Snapshot.path = k then some (Snapshot.artifact m) else none) := by
  rw [Registry.plan, runningFor_builtin] at h
  obtain ⟨files, p, hfiles, hadd, hrest⟩ := planWith_cons_ok h
  have hsnapshot : p.byPath.get? k =
      if Snapshot.path = k then some (Snapshot.artifact m) else none := by
    cases hfiles
    rw [Plan.get?_addEntries hadd]
    by_cases hk : Snapshot.path = k
    · subst hk
      rfl
    · have hfind : findEntry k (SortedMap.empty.insert Snapshot.path
          (⟨Snapshot.content m, .overwrite, none⟩ : GeneratedFile)).entries = none := by
        have := SortedMap.get?_insert (.empty : SortedMap GeneratedFile) Snapshot.path k
          ⟨Snapshot.content m, .overwrite, none⟩
        rwa [if_neg hk] at this
      rw [hfind, if_neg hk]
      rfl
  cases hruns : UsecasePage.generator.runsFor m with
  | false =>
    rw [hruns] at hrest
    cases hrest
    rw [hsnapshot, UsecasePage.pages_eq_nil hruns]
    rfl
  | true =>
    rw [hruns] at hrest
    obtain ⟨pages, q, hpages, haddPages, hend⟩ := planWith_cons_ok hrest
    cases hpages
    cases hend
    rw [Plan.get?_addEntries haddPages, hsnapshot]
    rfl

theorem keyed_planWith {p : Plan} (hp : p.Keyed) {gs : List Generator}
    (h : planWith m p gs = .ok plan) : plan.Keyed := by
  induction gs generalizing p with
  | nil =>
    cases h
    exact hp
  | cons g gs ih =>
    obtain ⟨files, p', _, hadd, h⟩ := planWith_cons_ok h
    exact ih (hp.addEntries hadd) h

/-- The artifacts that generators plan have different paths, in order. -/
theorem keyed_plan {r : Registry} (h : r.plan m = .ok plan) : plan.Keyed :=
  keyed_planWith Plan.keyed_empty h

theorem snapshot_ne_page (id : String) : Snapshot.path ≠ UsecasePage.path id := by
  intro h
  have hhead := congrArg (fun s : String => s.toList.head?) h
  unfold UsecasePage.path Snapshot.path at hhead
  rw [String.toList_append, String.toList_append] at hhead
  cases hhead

/-- **What is planned**: the snapshot of the model and the pages of its use-cases. -/
theorem mem_builtin (hm : m.WellFormed) (h : builtin.plan m = .ok plan) : a ∈ plan.toList ↔
    a = Snapshot.artifact m ∨ ∃ id c u, m.get? id = some c ∧ c.usecase? = some u ∧
      a = UsecasePage.artifact m id u := by
  have hpage : ∀ k file, (SortedMap.ofList (UsecasePage.pages m)).get? k = some file ↔
      ∃ id c u, m.get? id = some c ∧ c.usecase? = some u ∧ k = UsecasePage.path id ∧
        file = ⟨UsecasePage.content m id u, .writeOnce, some id⟩ := by
    intro k file
    rw [SortedMap.get?_ofList_iff (UsecasePage.nodup_pages hm), UsecasePage.mem_pages hm]
  rw [(keyed_plan h).mem_toList, get?_builtin h]
  cases hget : (SortedMap.ofList (UsecasePage.pages m)).get? a.path with
  | some file =>
    obtain ⟨id, c, u, hc, hu, hpath, rfl⟩ := (hpage _ _).1 hget
    rw [Option.map_some, Option.some_or, Option.some.injEq]
    constructor
    · rintro ha
      exact .inr ⟨id, c, u, hc, hu, by rw [← ha, hpath]; rfl⟩
    · rintro (rfl | ⟨id', c', u', hc', hu', rfl⟩)
      · exact absurd hpath (snapshot_ne_page id)
      · obtain rfl := UsecasePage.path_injective hpath
        rw [hc'] at hc
        cases hc
        rw [hu'] at hu
        cases hu
        rfl
  | none =>
    rw [Option.map_none, Option.none_or]
    constructor
    · intro ha
      split at ha
      · exact .inl (Option.some.inj ha).symm
      · cases ha
    · rintro (rfl | ⟨id, c, u, hc, hu, rfl⟩)
      · exact if_pos rfl
      · have := (hpage _ _).2 ⟨id, c, u, hc, hu, rfl, rfl⟩
        rw [show UsecasePage.path id = (UsecasePage.artifact m id u).path from rfl, hget] at this
        cases this

end Registry

end ArchSpec
