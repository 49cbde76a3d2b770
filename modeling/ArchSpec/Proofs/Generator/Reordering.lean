import Mathlib.Data.List.Flatten
import ArchSpec.Proofs.Artifact.Calls
import ArchSpec.Proofs.Generator.Planned

/-!
# The order of generators

The files of all generators that run for a model are put into one plan. If two of them claim one
path, the first one gets it and the second one is refused, so what is reported depends on the order
in which they were registered. Whether something is refused does not, and if nothing is, neither
does what is generated.

* `Registry.Clash` — generators that cannot run together, and what is reported of them.
* `Registry.planWith_made` — the files of all generators are tried one after the other.
* `Registry.planWith_cases` — a plan is made of all files, or it fails because of a clash.
* `Registry.generate_reordered` — two orders fail both or generate the same.
-/

namespace ArchSpec

/-! ## Attempts in a row -/

/-- A file that a plan took. -/
def Attempt.taken (a : Artifact) : Attempt := ⟨a, none⟩

theorem Attempt.offers_taken (offers : List Artifact) :
    (offers.map taken).map (·.offer) = offers := by
  rw [List.map_map]
  exact List.map_id _

namespace Attempted

variable {offers more : List Artifact} {log log' : List Attempt} {result : Except Fault Unit}
  {f : Fault}

theorem append (h : Attempted offers log (.ok ())) (h' : Attempted more log' result) :
    Attempted (offers ++ more) (log ++ log') result := by
  induction offers generalizing log with
  | nil =>
    cases h
    exact h'
  | cons a offers ih =>
    cases h with
    | added h => exact .added (ih h)

/-- What comes after a refusal is not tried. -/
theorem append_of_error (h : Attempted offers log (.error f)) (more : List Artifact) :
    Attempted (offers ++ more) log (.error f) := by
  induction offers generalizing log with
  | nil => cases h
  | cons a offers ih =>
    cases h with
    | added h => exact .added (ih h)
    | refused => exact .refused

theorem log_of_ok (h : Attempted offers log (.ok ())) : log = offers.map .taken := by
  induction offers generalizing log with
  | nil =>
    cases h
    rfl
  | cons a offers ih =>
    cases h with
    | added h =>
      rw [ih h]
      rfl

theorem log_of_error (h : Attempted offers log (.error f)) : ∃ before a after,
    offers = before ++ a :: after ∧ log = before.map .taken ++ [⟨a, some f⟩] := by
  induction offers generalizing log with
  | nil => cases h
  | cons a offers ih =>
    cases h with
    | added h =>
      obtain ⟨before, b, after, rfl, rfl⟩ := ih h
      exact ⟨a :: before, b, after, rfl, rfl⟩
    | refused => exact ⟨[], a, offers, rfl, rfl⟩

end Attempted

namespace Plan.Made

variable {p : Plan} {offers : List Artifact} {log : List Attempt} {f : Fault}

/-- Files that were all taken have different paths, none of them empty, and make the plan. -/
theorem of_ok (h : Made p log) (hall : Attempted offers log (.ok ())) :
    (∀ a ∈ offers, a.path ≠ "") ∧ (offers.map (·.path)).Nodup ∧ p.toList.Perm offers := by
  obtain rfl := hall.log_of_ok
  have hreflects := h.reflects
  have hnew : ∀ (i : Nat) (a : Artifact), offers[i]? = some a →
      a.path ≠ "" ∧ a.path ∉ (offers.take i).map (·.path) := by
    intro i a ha
    have hrefusal := hreflects.refusals i (.taken a) (by rw [List.getElem?_map, ha]; rfl)
    rw [← List.map_take, Attempt.offers_taken] at hrefusal
    obtain ⟨hpath, hfirst⟩ := Artifact.refusalAfter_eq_none_iff.1 hrefusal.symm
    exact ⟨hpath, first?_eq_none_iff.1 hfirst⟩
  have hnamed : ∀ a ∈ offers, a.path ≠ "" := fun a ha => by
    obtain ⟨i, hi⟩ := List.mem_iff_getElem?.1 ha
    exact (hnew i a hi).1
  have hdistinct : (offers.map (·.path)).Nodup := by
    apply List.pairwise_map.2
    apply List.pairwise_iff_getElem.2
    intro i j hi hj hij hsame
    apply (hnew j offers[j] (List.getElem?_eq_getElem hj)).2
    refine List.mem_map.2 ⟨offers[i], ?_, hsame⟩
    exact List.mem_of_getElem? (i := i) (by simp [hij, hi])
  refine ⟨hnamed, hdistinct, ?_⟩
  apply (List.perm_ext_iff_of_nodup (List.Nodup.of_map _ hreflects.keyed.nodup)
    (List.Nodup.of_map _ hdistinct)).2
  intro a
  rw [hreflects.mem_toList, Attempt.offers_taken, first?_eq_some_iff_mem hdistinct]
  exact ⟨fun h => h.2.1, fun ha => ⟨hnamed a ha, ha, rfl⟩⟩

/-- A file that was refused has no path, or that of a file before it. -/
theorem of_error (h : Made p log) (hall : Attempted offers log (.error f)) :
    (∃ a ∈ offers, a.path = "" ∧ f = emptyPath a.owner) ∨
    ∃ a b, [a, b].Sublist offers ∧ a.path = b.path ∧
      f = .artifactConflict b.path a.owner b.owner := by
  obtain ⟨before, b, after, rfl, rfl⟩ := hall.log_of_error
  have hrefusal := h.reflects.refusals before.length ⟨b, some f⟩ (by simp)
  rw [List.take_left' (List.length_map _), Attempt.offers_taken] at hrefusal
  change some f = b.refusalAfter before at hrefusal
  unfold Artifact.refusalAfter at hrefusal
  split at hrefusal
  · rename_i hpath
    exact .inl ⟨b, by simp, hpath, Option.some.inj hrefusal⟩
  · obtain ⟨a, ha, rfl⟩ := Option.map_eq_some_iff.1 hrefusal.symm
    obtain ⟨hpath, i, hfirst⟩ := first?_eq_some_iff.1 ha
    have ha : [a].Sublist before := List.singleton_sublist.2 hfirst.mem
    have hb : [b].Sublist (b :: after) := List.singleton_sublist.2 List.mem_cons_self
    exact .inr ⟨a, b, ha.append hb, hpath, rfl⟩

end Plan.Made

/-! ## What generators make -/

/-- The files that a generator makes of a model, as artifacts of its own. -/
def Generator.artifacts (g : Generator) (m : Model) : List Artifact :=
  match g.generate m with
  | .ok files => files.entries.map fun e => ⟨g.name, e.1, e.2⟩
  | .error _ => []

namespace Registry

/-- The files that all generators make that run for a model. -/
def claimed (m : Model) (gs : List Generator) : List Artifact :=
  (gs.filter (·.runsFor m)).flatMap (·.artifacts m)

/-- A generator that runs has a file without a path, or two of them claim one path. -/
inductive Clash (m : Model) (gs : List Generator) : Fault → Prop
  | nameless {g : Generator} {a : Artifact} :
    g ∈ gs.filter (·.runsFor m) → a ∈ g.artifacts m → a.path = "" →
      Clash m gs (Plan.emptyPath g.name)
  | contested {g h : Generator} {a b : Artifact} :
    [g, h].Subperm (gs.filter (·.runsFor m)) → a ∈ g.artifacts m → b ∈ h.artifacts m →
      a.path = b.path → Clash m gs (.artifactConflict a.path g.name h.name)

/-- What comes of generators in an order: their plan, and the stage of every registry of them. -/
structure Generates (m : Model) (gs : List Generator) (result : Except Failure (List Artifact)) :
    Prop where
  planned : (planWith m .empty (gs.filter (·.runsFor m))).map Plan.toList = result
  stage : ∀ r : Registry, r.generators = gs → ∀ (p : Progress) (t : FileTree), p.model = some m →
    ((Stage.generate r : Stage (StateM FileTree)).run p).run t =
      (result.map fun artifacts => { p with artifacts := artifacts }, t)

variable {m : Model} {gs gs' : List Generator} {f : Fault}

theorem generates (m : Model) (gs : List Generator) :
    Generates m gs ((planWith m .empty (gs.filter (·.runsFor m))).map Plan.toList) := by
  refine ⟨rfl, ?_⟩
  rintro r rfl p t hm
  rw [Stage.run_generate r hm]
  show ((planWith m .empty (r.generators.filter (·.runsFor m))).map _, t) = _
  cases planWith m .empty (r.generators.filter (·.runsFor m)) <;> rfl

theorem Clash.perm (h : Clash m gs f) (hperm : gs'.Perm gs) : Clash m gs' f := by
  have hruns := hperm.filter (·.runsFor m)
  cases h with
  | nameless hg ha hpath => exact .nameless (hruns.mem_iff.2 hg) ha hpath
  | contested hgs ha hb hpath => exact .contested (hruns.subperm_left.2 hgs) ha hb hpath

theorem owner_of_mem {g : Generator} {a : Artifact} (h : a ∈ g.artifacts m) : a.owner = g.name := by
  unfold Generator.artifacts at h
  split at h
  · obtain ⟨e, _, rfl⟩ := List.mem_map.1 h
    rfl
  · cases h

/-- The paths of the files of one generator are different. -/
theorem nodup_artifacts (g : Generator) (m : Model) : ((g.artifacts m).map (·.path)).Nodup := by
  unfold Generator.artifacts
  split
  · rename_i files _
    rw [List.map_map]
    exact files.nodup_keys
  · exact List.nodup_nil

/-- Two of the elements of joined lists are in one of the lists, or in two of them. -/
theorem pair_sublist_flatMap {α β : Type} {f : α → List β} {l : List α} {a b : β}
    (h : [a, b].Sublist (l.flatMap f)) :
    (∃ x ∈ l, [a, b].Sublist (f x)) ∨
    ∃ x y, [x, y].Sublist l ∧ a ∈ f x ∧ b ∈ f y := by
  induction l with
  | nil => cases h
  | cons x l ih =>
    rw [List.flatMap_cons, List.sublist_append_iff] at h
    obtain ⟨here, there, heq, hhere, hthere⟩ := h
    rcases here with _ | ⟨c, _ | ⟨d, rest⟩⟩
    · obtain rfl : [a, b] = there := heq
      rcases ih hthere with ⟨y, hy, hpair⟩ | ⟨y, z, hpair, ha, hb⟩
      · exact .inl ⟨y, List.mem_cons_of_mem _ hy, hpair⟩
      · exact .inr ⟨y, z, hpair.cons x, ha, hb⟩
    · obtain ⟨rfl, rfl⟩ := List.cons.inj heq
      obtain ⟨y, hy, hb⟩ := List.mem_flatMap.1 (List.singleton_sublist.1 hthere)
      have hpair : [x, y].Sublist (x :: l) := (List.singleton_sublist.2 hy).cons_cons x
      exact .inr ⟨x, y, hpair, List.singleton_sublist.1 hhere, hb⟩
    · obtain ⟨rfl, rfl, rfl, _⟩ : a = c ∧ b = d ∧ rest = [] ∧ there = [] := by simpa using heq
      exact .inl ⟨x, List.mem_cons_self, hhere⟩

/-- Where there is a clash, a path is empty or not all paths are different. -/
theorem Clash.not_distinct (h : Clash m gs f) :
    (∃ a ∈ claimed m gs, a.path = "") ∨ ¬((claimed m gs).map (·.path)).Nodup := by
  cases h with
  | nameless hg ha hpath => exact .inl ⟨_, List.mem_flatMap.2 ⟨_, hg, ha⟩, hpath⟩
  | @contested g h a b hgs ha hb hpath =>
    refine .inr fun hnodup => ?_
    obtain ⟨l, hperm, hsub⟩ := hgs
    have hpair : (([g, h].flatMap (·.artifacts m)).map (·.path)).Nodup :=
      ((hperm.flatMap_right _).map _).nodup_iff.1 (((hsub.flatMap _).map _).nodup hnodup)
    rw [List.flatMap_cons, List.flatMap_singleton, List.map_append] at hpair
    exact (List.nodup_append.1 hpair).2.2 _ (List.mem_map_of_mem ha) _ (List.mem_map_of_mem hb)
      hpath

/-! ## Plans of generators -/

/-- **The files of all generators are tried** one after the other, if each of them makes some. -/
theorem planWith_made {p : Plan} {log : List Attempt} (hp : Plan.Made p log)
    (hgs : ∀ g ∈ gs, ∃ files, g.generate m = .ok files) :
    ∃ attempts result q, Attempted (gs.flatMap (·.artifacts m)) attempts result ∧
      Plan.Made q (log ++ attempts) ∧
      planWith m p gs = (result.mapError Failure.ofFault).map fun _ => q := by
  -- `log` is what the generators before have tried; a refusal ends all of it
  induction gs generalizing p log with
  | nil => exact ⟨[], .ok (), p, .done, by rwa [List.append_nil], rfl⟩
  | cons g gs ih =>
    obtain ⟨⟨files, hfiles⟩, hgs⟩ := List.forall_mem_cons.1 hgs
    have hrun : g.run m = .ok files := by rw [Generator.run, hfiles]; rfl
    have hartifacts : g.artifacts m = files.entries.map fun e => ⟨g.name, e.1, e.2⟩ := by
      rw [Generator.artifacts, hfiles]
    obtain ⟨attempts, hattempts, hmade⟩ := hp.addEntries g.name files.entries
    rw [← hartifacts] at hattempts
    rw [List.flatMap_cons]
    cases hadd : p.addEntries g.name files.entries with
    | mk q result =>
      rw [hadd] at hattempts hmade
      cases result with
      | error f =>
        refine ⟨attempts, .error f, q, hattempts.append_of_error _, hmade, ?_⟩
        have hall : p.addAll g.name files = (q, .error f) := hadd
        rw [planWith, hrun]
        simp only
        rw [hall]
        rfl
      | ok _ =>
        obtain ⟨more, result, r, hmore, hr, hplan⟩ := ih hmade hgs
        rw [List.append_assoc] at hr
        refine ⟨attempts ++ more, result, r, hattempts.append hmore, hr, ?_⟩
        rw [planWith_cons hrun hadd, hplan]

/-- **A plan is made of all files**, or it fails because of a clash. -/
theorem planWith_cases (hgs : ∀ g ∈ gs, g.runsFor m → ∃ files, g.generate m = .ok files) :
    (∃ f, Clash m gs f ∧ Generates m gs (.error (.ofFault f))) ∨
    (∀ f, ¬Clash m gs f) ∧ ∃ plan : Plan, Generates m gs (.ok plan.toList) ∧
      (plan.toList.map (·.path)).Pairwise (· < ·) ∧ plan.toList.Perm (claimed m gs) := by
  have hrunning : ∀ g ∈ gs.filter (·.runsFor m), ∃ files, g.generate m = .ok files := by
    intro g hg
    obtain ⟨hg, hruns⟩ := List.mem_filter.1 hg
    exact hgs g hg hruns
  obtain ⟨attempts, result, plan, hall, hmade, hplan⟩ := planWith_made Plan.Made.start hrunning
  have hgenerates := generates m gs
  rw [hplan] at hgenerates
  cases result with
  | ok _ =>
    obtain ⟨hnamed, hdistinct, hperm⟩ := hmade.of_ok hall
    refine .inr ⟨fun f hclash => ?_, plan, hgenerates, hmade.reflects.keyed.increasing, hperm⟩
    rcases hclash.not_distinct with ⟨a, ha, hpath⟩ | hsame
    · exact hnamed a ha hpath
    · exact hsame hdistinct
  | error f =>
    refine .inl ⟨f, ?_, hgenerates⟩
    rcases hmade.of_error hall with ⟨a, ha, hpath, rfl⟩ | ⟨a, b, hpair, hpath, rfl⟩
    · obtain ⟨g, hg, ha⟩ := List.mem_flatMap.1 ha
      rw [owner_of_mem ha]
      exact .nameless hg ha hpath
    · rcases pair_sublist_flatMap hpair with ⟨g, hg, hpair⟩ | ⟨g, h, hgs, ha, hb⟩
      · -- one generator never claims a path twice
        have hnodup := (hpair.map (·.path)).nodup (nodup_artifacts g m)
        exact absurd hpath (by simpa using hnodup)
      · rw [owner_of_mem ha, owner_of_mem hb, ← hpath]
        exact .contested hgs.subperm ha hb hpath

/-- **The order of the generators does not matter**, if each of them that runs makes some files.
Either some file has no path or two of the generators claim one, and then the stage fails in both
orders, with such a clash; or in both orders the artifacts are the same: in the order of their
paths, with each file of each generator that runs once, under the name of that generator. -/
theorem generate_reordered {m : Model} {gs gs' : List Generator} (hperm : gs'.Perm gs)
    (hgs : ∀ g ∈ gs, g.runsFor m → ∃ files, g.generate m = .ok files) :
    (∃ f f', Clash m gs f ∧ Clash m gs f' ∧ Generates m gs (.error (.ofFault f)) ∧
      Generates m gs' (.error (.ofFault f'))) ∨
    (∀ f, ¬Clash m gs f) ∧ ∃ artifacts, Generates m gs (.ok artifacts) ∧
      Generates m gs' (.ok artifacts) ∧ (artifacts.map (·.path)).Pairwise (· < ·) ∧
      artifacts.Perm (claimed m gs) := by
  have hgs' : ∀ g ∈ gs', g.runsFor m → ∃ files, g.generate m = .ok files :=
    fun g hg => hgs g (hperm.mem_iff.1 hg)
  rcases planWith_cases hgs with ⟨f, hclash, hfails⟩ | ⟨hnone, plan, hplan, hsorted, hall⟩
  · rcases planWith_cases hgs' with ⟨f', hclash', hfails'⟩ | ⟨hnone, _⟩
    · exact .inl ⟨f, f', hclash, hclash'.perm hperm.symm, hfails, hfails'⟩
    · exact absurd (hclash.perm hperm) (hnone f)
  · rcases planWith_cases hgs' with ⟨f', hclash', _⟩ | ⟨_, plan', hplan', hsorted', hall'⟩
    · exact absurd (hclash'.perm hperm.symm) (hnone f')
    · have hclaimed : (claimed m gs').Perm (claimed m gs) := (hperm.filter _).flatMap_right _
      have hsame : plan'.toList = plan.toList := by
        apply List.Perm.eq_of_pairwise ?_ (List.pairwise_map.1 hsorted')
          (List.pairwise_map.1 hsorted) ((hall'.trans hclaimed).trans hall.symm)
        intro a b _ _ hab hba
        exact absurd (String.lt_trans hab hba) (String.lt_irrefl a.path)
      rw [hsame] at hplan'
      exact .inr ⟨hnone, plan.toList, hplan, hplan', hsorted, hall⟩

/-- A generator that makes the same file of every model. -/
def pageOf (name path : String) : Generator :=
  ⟨name, [], fun _ => .ok (.ofList [(path, ⟨name, .writeOnce, none⟩)])⟩

/-- Two pages come out in the order of their paths. A page that is claimed twice is refused, in each
order to the generator that comes second. -/
theorem generate_reordered_pages :
    (∃ artifacts, Generates (.empty ⟨"1.0.0", "site", ""⟩)
        [pageOf "notes" "b.md", pageOf "index" "a.md"] (.ok artifacts) ∧
      Generates (.empty ⟨"1.0.0", "site", ""⟩)
        [pageOf "index" "a.md", pageOf "notes" "b.md"] (.ok artifacts) ∧
      artifacts.map (·.owner) = ["index", "notes"]) ∧
    Generates (.empty ⟨"1.0.0", "site", ""⟩) [pageOf "notes" "a.md", pageOf "index" "a.md"]
      (.error (.ofFault (.artifactConflict "a.md" "notes" "index"))) ∧
    Generates (.empty ⟨"1.0.0", "site", ""⟩) [pageOf "index" "a.md", pageOf "notes" "a.md"]
      (.error (.ofFault (.artifactConflict "a.md" "index" "notes"))) := by
  have hmake : ∀ name path name' path', ∀ g ∈ [pageOf name path, pageOf name' path'],
      g.runsFor (.empty ⟨"1.0.0", "site", ""⟩) →
        ∃ files, g.generate (.empty ⟨"1.0.0", "site", ""⟩) = .ok files := by
    intro name path name' path' g hg _
    rcases List.mem_pair.1 hg with rfl | rfl <;> exact ⟨_, rfl⟩
  constructor
  · rcases generate_reordered (.swap _ _ _) (hmake "notes" "b.md" "index" "a.md") with
      ⟨f, _, _, _, hfails, _⟩ | ⟨_, artifacts, h, h', _⟩
    · cases hfails.planned
    · refine ⟨artifacts, h, h', ?_⟩
      cases h.planned
      rfl
  · rcases generate_reordered (.swap _ _ _) (hmake "notes" "a.md" "index" "a.md") with
      ⟨f, f', _, _, h, h'⟩ | ⟨_, artifacts, h, _⟩
    · cases h.planned
      cases h'.planned
      exact ⟨h, h'⟩
    · cases h.planned

end Registry

end ArchSpec
