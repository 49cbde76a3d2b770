import Mathlib.Data.List.Nodup
import Mathlib.Data.String.Basic
import ArchSpec.Limits
import ArchSpec.Proofs.Artifact.Outcome
import ArchSpec.Proofs.Generator.Builtin

/-!
# Where the generated files are

The snapshot is planned first and the pages follow it. All these files and that of the cache are in
places of their own, if no ID has a separator in it.

* `UsecasePage.route_path`, `plain_path` — the names of the path of a page.
* `Registry.toList_builtin` — the plan in its order; `pathsOf_builtin` — the files of a use-case.
* `Registry.separate_builtin` — the files of the plan and of the cache are kept apart.
* `Registry.Own.page_on_way` — what directory may be made where a page is.
-/

namespace ArchSpec

open FileTree (Plain Separate route lastChar?)

/-! ## Single files -/

theorem Snapshot.route_path : route path = [".bound", "ir.json"] := by decide +kernel

theorem Snapshot.plain_path : Plain path where
  relative := by decide
  noDots := by
    rw [route_path]
    decide

theorem route_defaultCacheFile : route defaultCacheFile = [".bound", "cache.json"] := by
  decide +kernel

theorem plain_defaultCacheFile : Plain defaultCacheFile where
  relative := by decide
  noDots := by
    rw [route_defaultCacheFile]
    decide

namespace UsecasePage

variable {id : String}

theorem path_eq (id : String) : path id = "docs/usecases/" ++ id ++ ".md" := rfl

/-- A page has a name of its own in the directory of pages. -/
theorem path_eq_join (h : '/' ∉ id.toList) : path id = Path.join "docs/usecases" (id ++ ".md") ∧
    Path.isAbsolute (id ++ ".md") = false := by
  have hname : '/' ∉ (id ++ ".md").toList := by simpa using h
  have hrelative : Path.isAbsolute (id ++ ".md") = false := by
    rw [Path.isAbsolute, decide_eq_false_iff_not]
    intro hhead
    exact hname (List.mem_of_mem_head? hhead)
  refine ⟨?_, hrelative⟩
  rw [Path.join, if_neg (by simp [hrelative]), if_neg (by decide), path_eq, String.append_assoc,
    String.append_assoc]
  rfl

/-- A page is found by the ID of its use-case. -/
theorem route_path (h : '/' ∉ id.toList) : route (path id) = ["docs", "usecases", id ++ ".md"] := by
  have hname : '/' ∉ (id ++ ".md").toList := by simpa using h
  have hne : id ++ ".md" ≠ "" := by simp
  obtain ⟨hjoin, hrelative⟩ := path_eq_join h
  rw [hjoin, FileTree.route_join _ hrelative, FileTree.route_of_name hname hne]
  rfl

theorem plain_path (h : '/' ∉ id.toList) : Plain (path id) := by
  refine ⟨?_, fun n hn => ?_⟩
  · rw [Path.isAbsolute, path_eq, String.toList_append, String.toList_append]
    rfl
  · rw [route_path h] at hn
    have hlong : ∀ dots : String, dots.length < 3 → id ++ ".md" ≠ dots := by
      intro dots hdots heq
      have hlength := congrArg String.length heq
      rw [String.length_append, show ".md".length = 3 from rfl] at hlength
      omega
    simp only [List.mem_cons, List.not_mem_nil, or_false] at hn
    rcases hn with rfl | rfl | rfl
    · decide
    · decide
    · exact ⟨hlong _ (by decide), hlong _ (by decide)⟩

end UsecasePage

/-! ## The plan -/

namespace Registry

variable {m : Model} {plan : Plan}

theorem page_not_before_snapshot (id : String) : ¬UsecasePage.path id < Snapshot.path := by
  intro h
  rw [String.lt_iff_toList_lt, UsecasePage.path_eq, String.toList_append,
    String.toList_append] at h
  have hhead : ¬('d' :: ("ocs/usecases/".toList ++ id.toList ++ ".md".toList) <
      Snapshot.path.toList) := by
    rw [show Snapshot.path.toList = '.' :: "bound/ir.json".toList from rfl,
      List.cons_lt_cons_iff]
    rintro (hlt | ⟨heq, _⟩)
    · exact absurd hlt (by decide)
    · exact absurd heq (by decide)
  exact hhead h

/-- **The plan in its order**: first the snapshot, then the pages. -/
theorem toList_builtin (hm : m.WellFormed) (h : builtin.plan m = .ok plan) : ∃ pages,
    plan.toList = Snapshot.artifact m :: pages ∧ ∀ a ∈ pages, ∃ id c u, m.get? id = some c ∧
      c.usecase? = some u ∧ a = UsecasePage.artifact m id u := by
  have hsnapshot := (mem_builtin hm h).2 (.inl rfl)
  have hincreasing := (keyed_plan h).increasing
  cases hlist : plan.toList with
  | nil =>
    rw [hlist] at hsnapshot
    cases hsnapshot
  | cons a pages =>
    rw [hlist, List.map_cons, List.pairwise_cons] at hincreasing
    have hmem : ∀ {b : Artifact}, b ∈ a :: pages → b = Snapshot.artifact m ∨
        ∃ id c u, m.get? id = some c ∧ c.usecase? = some u ∧ b = UsecasePage.artifact m id u :=
      fun hb => (mem_builtin hm h).1 (hlist ▸ hb)
    obtain rfl : a = Snapshot.artifact m := by
      rw [hlist] at hsnapshot
      rcases List.mem_cons.1 hsnapshot with heq | hlater
      · exact heq.symm
      · rcases hmem List.mem_cons_self with heq | ⟨id, c, u, _, _, rfl⟩
        · exact heq
        · exact absurd (hincreasing.1 _ (List.mem_map_of_mem hlater))
            (page_not_before_snapshot id)
    refine ⟨pages, rfl, fun b hb => ?_⟩
    rcases hmem (List.mem_cons_of_mem _ hb) with rfl | hpage
    · exact absurd (hincreasing.1 _ (List.mem_map_of_mem hb)) (lt_irrefl _)
    · exact hpage

/-- The paths of the plan and of the cache, by the names that they consist of. -/
def Own (p : Path) : Prop :=
  p = Snapshot.path ∨ p = defaultCacheFile ∨ ∃ id, '/' ∉ id.toList ∧ p = UsecasePage.path id

theorem Own.plain {p : Path} (h : Own p) : Plain p := by
  rcases h with rfl | rfl | ⟨id, hid, rfl⟩
  · exact Snapshot.plain_path
  · exact plain_defaultCacheFile
  · exact UsecasePage.plain_path hid

/-- The names of these files end in other ways than those of settings and of temporary files. -/
theorem Own.lastChar? {p : Path} (h : Own p) :
    FileTree.lastChar? (route p) = some 'n' ∨ FileTree.lastChar? (route p) = some 'd' := by
  rcases h with rfl | rfl | ⟨id, hid, rfl⟩
  · rw [Snapshot.route_path]
    exact .inl (by decide)
  · rw [route_defaultCacheFile]
    exact .inl (by decide)
  · rw [UsecasePage.route_path hid]
    simp [FileTree.lastChar?, List.getLast?_append]

theorem Own.length_route {p : Path} (h : Own p) : (route p).length ≤ 3 := by
  rcases h with rfl | rfl | ⟨id, hid, rfl⟩
  · rw [Snapshot.route_path]
    decide
  · rw [route_defaultCacheFile]
    decide
  · rw [UsecasePage.route_path hid]
    exact Nat.le_refl 3

/-- **The way to one of these files leads through the place of a page** only if the way to their
base does. -/
theorem Own.page_on_way {r q base : Path} (hr : Own r) (hq : (Path.join base r).parent? = some q)
    {id : String} (hid : '/' ∉ id.toList) {t : FileTree}
    (hl : t.locate (Path.join base (UsecasePage.path id)) ∈ t.way q) :
    t.locate (Path.join base (UsecasePage.path id)) ∈ t.way base := by
  rcases FileTree.mem_way_below hr.plain hq hl with hbase | ⟨names, hshort, hplace⟩
  · exact hbase
  · rw [(UsecasePage.plain_path hid).locate] at hplace
    have hlength := hr.length_route
    rw [← List.append_cancel_left hplace, UsecasePage.route_path hid] at hshort
    exact absurd (Nat.lt_of_lt_of_le hshort hlength) (Nat.lt_irrefl 3)

theorem Own.route_injective {p q : Path} (hp : Own p) (hq : Own q) (h : route p = route q) :
    p = q := by
  rcases hp with rfl | rfl | ⟨id, hid, rfl⟩
  · rw [Snapshot.route_path] at h
    rcases hq with rfl | rfl | ⟨id', hid', rfl⟩
    · rfl
    · exact absurd (h.trans route_defaultCacheFile) (by decide)
    · exact absurd (h.trans (UsecasePage.route_path hid')) (by simp)
  · rw [route_defaultCacheFile] at h
    rcases hq with rfl | rfl | ⟨id', hid', rfl⟩
    · exact absurd (h.trans Snapshot.route_path) (by decide)
    · rfl
    · exact absurd (h.trans (UsecasePage.route_path hid')) (by simp)
  · rw [UsecasePage.route_path hid] at h
    rcases hq with rfl | rfl | ⟨id', hid', rfl⟩
    · exact absurd (h.trans Snapshot.route_path) (by simp)
    · exact absurd (h.trans route_defaultCacheFile) (by simp)
    · rw [UsecasePage.route_path hid'] at h
      have hname := congrArg String.toList (List.cons.inj (List.cons.inj (List.cons.inj h).2).2).1
      rw [String.toList_append, String.toList_append] at hname
      rw [String.toList_injective (List.append_cancel_right hname)]

theorem own_of_mem (hm : m.WellFormed) (h : builtin.plan m = .ok plan)
    (hids : ∀ id c, m.get? id = some c → '/' ∉ id.toList) {a : Artifact} (ha : a ∈ plan.toList) :
    Own a.path := by
  rcases (mem_builtin hm h).1 ha with rfl | ⟨id, c, u, hc, _, rfl⟩
  · exact .inl rfl
  · exact .inr (.inr ⟨id, hids id c hc, rfl⟩)

/-- **The files of the plan and of the cache are kept apart**, wherever they are put. -/
theorem separate_builtin (hm : m.WellFormed) (h : builtin.plan m = .ok plan)
    (hids : ∀ id c, m.get? id = some c → '/' ∉ id.toList) (t : FileTree) (base : Path) :
    Separate t ((plan.toList.map (·.path) ++ [defaultCacheFile]).map (Path.join base)) := by
  have hown : ∀ p ∈ plan.toList.map (·.path) ++ [defaultCacheFile], Own p := by
    intro p hp
    rcases List.mem_append.1 hp with hp | hp
    · obtain ⟨a, ha, rfl⟩ := List.mem_map.1 hp
      exact own_of_mem hm h hids ha
    · exact .inr (.inl (List.mem_singleton.1 hp))
  have hcache : ∀ p ∈ plan.toList.map (·.path), p ≠ defaultCacheFile := by
    intro p hp
    obtain ⟨a, ha, rfl⟩ := List.mem_map.1 hp
    rcases (mem_builtin hm h).1 ha with rfl | ⟨id, _, _, _, _, rfl⟩
    · show Snapshot.path ≠ defaultCacheFile
      decide
    · intro heq
      have hhead := congrArg (fun s : String => s.toList.head?) heq
      unfold UsecasePage.artifact defaultCacheFile at hhead
      rw [UsecasePage.path_eq, String.toList_append, String.toList_append] at hhead
      cases hhead
  refine FileTree.separate_of_routes t base (fun p hp => (hown p hp).plain) ?_ fun p hp => ?_
  · refine List.Nodup.map_on (fun p hp q hq => (hown p hp).route_injective (hown q hq)) ?_
    rw [List.nodup_append]
    refine ⟨(keyed_plan h).nodup, List.nodup_singleton _, fun p hp q hq => ?_⟩
    rw [List.mem_singleton.1 hq]
    exact hcache p hp
  · rcases (hown p hp).lastChar? with hlast | hlast <;> rw [hlast] <;> decide

/-- Of a use-case, the plan holds its page. -/
theorem pathsOf_builtin (hm : m.WellFormed) (h : builtin.plan m = .ok plan) {id : String}
    {c : Component} {u : Usecase} (hc : m.get? id = some c) (hu : c.usecase? = some u) :
    Artifact.pathsOf id plan.toList = [UsecasePage.path id] := by
  have hpage : UsecasePage.artifact m id u ∈ plan.toList :=
    (mem_builtin hm h).2 (.inr ⟨id, c, u, hc, hu, rfl⟩)
  have honly : (plan.toList.filter fun a => a.file.component = some id) =
      [UsecasePage.artifact m id u] := by
    have hnodup : plan.toList.Nodup := List.Nodup.of_map _ (keyed_plan h).nodup
    refine List.perm_singleton.1 ((List.perm_ext_iff_of_nodup (hnodup.filter _)
      (List.nodup_singleton _)).2 fun a => ?_)
    rw [List.mem_filter, List.mem_singleton, decide_eq_true_eq]
    constructor
    · rintro ⟨ha, hown⟩
      rcases (mem_builtin hm h).1 ha with rfl | ⟨id', c', u', hc', hu', rfl⟩
      · cases hown
      · obtain rfl : id' = id := Option.some.inj hown
        rw [hc', Option.some.injEq] at hc
        subst hc
        rw [hu', Option.some.injEq] at hu
        rw [hu]
    · rintro rfl
      exact ⟨hpage, rfl⟩
  rw [Artifact.pathsOf, honly]
  rfl

/-- Whether a planned file is left alone does not depend on the cache. -/
theorem steady_builtin (hm : m.WellFormed) (h : builtin.plan m = .ok plan) {a : Artifact}
    (ha : a ∈ plan.toList) : a.Steady := by
  rcases (mem_builtin hm h).1 ha with rfl | ⟨_, _, _, _, _, rfl⟩
  · exact .inr rfl
  · exact .inl rfl

end Registry

end ArchSpec
