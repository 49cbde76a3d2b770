import ArchSpec.Proofs.Model.Walk
import Mathlib.Data.List.Forall2

/-!
# The trees of components

The tree of a component has a line for each walk from it that does not go on from a component it
has passed. The lines come in the order of the walks, and one that comes back to what its walk has
passed is marked.

* `Line` — the text of a walk, which is marked if the walk returns; `length_lead` — how far the line
  is indented.
* `Line.isMarked_iff` — a line is marked exactly if its walk returns.
* `branches_shows` — the branches of a tree are its walks, in order.
* `branches_eq_of_le` — a bound that is not less than the number of components is none.
* `dependencyTree_spec` — the trees of every model that is built.
-/

namespace ArchSpec.Model

variable {m : Model}

/-! ## Lines -/

/-- What stands in front of what is below the end of a walk: four characters for each edge, with a
bar if its source has more edges. -/
def bars (m : Model) (walk : List Step) : String :=
  String.join (walk.map fun s => if m.isLast s then "    " else "│   ")

/-- What stands in front of the end of a walk. -/
def lead (m : Model) (before : List Step) (s : Step) : String :=
  m.bars before ++ if m.isLast s then "└── " else "├── "

/-- The text of a walk, by its last edge and the component to which that leads. -/
inductive Line (m : Model) : List Step → String → Prop
  /-- The walk has not passed the component before. -/
  | onward {before : List Step} {s : Step} {c : Component} : m.get? s.1.target = some c →
    s.1.target ∉ passed (before ++ [s]) →
    Line m (before ++ [s]) (m.lead before s ++ s.1.target ++ " (" ++ c.kind.text ++ ") [" ++
      s.1.relation.text ++ "]\n")
  /-- The walk comes back to the component, which is marked below it. -/
  | back {before : List Step} {s : Step} {c : Component} : m.get? s.1.target = some c →
    s.1.target ∈ passed (before ++ [s]) →
    Line m (before ++ [s]) (m.lead before s ++ s.1.target ++ " (" ++ c.kind.text ++ ") [" ++
      s.1.relation.text ++ "]\n" ++ (m.bars (before ++ [s]) ++ "└── (circular reference)\n"))

theorem length_bars (m : Model) (walk : List Step) : (m.bars walk).length = 4 * walk.length := by
  have hfour : ∀ s, (if m.isLast s then "    " else "│   ").length = 4 := by
    intro s
    split <;> rfl
  unfold bars
  induction walk with
  | nil => rfl
  | cons s rest ih =>
    rw [List.map_cons, String.join_cons, String.length_append, hfour, ih, List.length_cons]
    omega

/-- **A line is indented by the length of its walk**, four characters for each edge. -/
theorem length_lead (m : Model) (before : List Step) (s : Step) :
    (m.lead before s).length = 4 * (before ++ [s]).length := by
  have hfour : (if m.isLast s then "└── " else "├── ").length = 4 := by
    split <;> rfl
  rw [lead, String.length_append, length_bars, hfour, List.length_append, List.length_singleton]
  omega

/-! ## Marks -/

/-- A line ends in the mark of walks that return. -/
def IsMarked (line : String) : Prop := ∃ front, line = front ++ "└── (circular reference)\n"

/-- What ends in a bracket is not marked, whatever comes before it. -/
theorem not_isMarked (front : String) : ¬ IsMarked (front ++ "]\n") := by
  rintro ⟨front', h⟩
  have hends := congrArg (fun line => line.toList.reverse[1]?) h
  simp [List.reverse_append] at hends

/-- **A line is marked exactly if its walk returns.** -/
theorem Line.isMarked_iff {walk : List Step} {line : String} (h : Line m walk line) :
    IsMarked line ↔ Returns walk := by
  cases h with
  | onward hc hnew =>
    refine iff_of_false (not_isMarked _) ?_
    rintro ⟨before, s, hwalk, hback⟩
    obtain ⟨rfl, hs⟩ := List.append_inj' hwalk rfl
    cases hs
    exact hnew hback
  | back hc hback =>
    rw [← String.append_assoc]
    exact iff_of_true ⟨_, rfl⟩ ⟨_, _, rfl, hback⟩

/-- Some line is marked exactly if some walk returns. -/
theorem exists_isMarked_iff {walks : List (List Step)} {lines : List String}
    (h : List.Forall₂ m.Line walks lines) :
    (∃ line ∈ lines, IsMarked line) ↔ ∃ walk ∈ walks, Returns walk := by
  induction h with
  | nil => simp
  | cons hline _ ih =>
    rw [List.exists_mem_cons_iff, List.exists_mem_cons_iff, hline.isMarked_iff, ih]

/-! ## Branches -/

/-- An edge as a branch keeps it. -/
def mark (m : Model) (s : Step) : Edge × Bool := (s.1, m.isLast s)

/-- A branch shows a walk. -/
inductive Shows (m : Model) : List Step → Branch → Prop
  | mk (before : List Step) {s : Step} {c : Component} : m.get? s.1.target = some c →
    Shows m (before ++ [s])
      ⟨(before ++ [s]).map m.mark, c.kind, decide (s.1.target ∈ passed (before ++ [s]))⟩

theorem text_of_getLast? {walk : List (Edge × Bool)} {e : Edge × Bool} {kind : Kind}
    {repeated : Bool} (h : walk.getLast? = some e) : Branch.text ⟨walk, kind, repeated⟩ =
      Branch.indent walk.dropLast ++ (if e.2 then "└── " else "├── ") ++ e.1.target ++ " (" ++
        kind.text ++ ") [" ++ e.1.relation.text ++ "]\n" ++
        (if repeated then Branch.indent walk ++ "└── (circular reference)\n" else "") := by
  simp only [Branch.text, h]

theorem indent_map_mark (m : Model) (walk : List Step) :
    Branch.indent (walk.map m.mark) = m.bars walk := by
  rw [Branch.indent, List.map_map]
  rfl

theorem Shows.line {walk : List Step} {b : Branch} (h : Shows m walk b) : Line m walk b.text := by
  obtain @⟨before, s, c, hc⟩ := h
  have hlast : ((before ++ [s]).map m.mark).getLast? = some (m.mark s) := by simp
  have hlead : Branch.indent ((before ++ [s]).map m.mark).dropLast ++
      (if (m.mark s).2 then "└── " else "├── ") = m.lead before s := by
    rw [← List.map_dropLast, List.dropLast_concat, indent_map_mark]
    rfl
  rw [text_of_getLast? hlast, hlead, indent_map_mark]
  by_cases hback : s.1.target ∈ passed (before ++ [s])
  · rw [decide_eq_true hback, if_pos rfl]
    exact .back hc hback
  · rw [decide_eq_false hback, if_neg Bool.false_ne_true, String.append_empty]
    exact .onward hc hback

theorem forall₂_flatMap {α β γ : Type} {r : β → γ → Prop} {f : α → List β} {g : α → List γ}
    {l : List α} (h : ∀ a ∈ l, List.Forall₂ r (f a) (g a)) :
    List.Forall₂ r (l.flatMap f) (l.flatMap g) := by
  rw [List.flatMap_def, List.flatMap_def]
  refine List.rel_flatten (List.forall₂_map_left_iff.2 (List.forall₂_map_right_iff.2 ?_))
  exact List.forall₂_same.2 h

/-- **The branches of a tree are its walks, in order.** -/
theorem branches_shows (hm : m.WellFormed) : ∀ (fuel : Nat) (before : List Step)
    (seen : List String) (id : String), (∀ a, a ∈ seen ↔ a ∈ passed before ∨ a = id) →
    List.Forall₂ (fun walk b => m.Shows (before ++ walk) b) (m.simpleWalks fuel seen id)
      (m.branches fuel (before.map m.mark) seen id)
  | 0, _, _, _, _ => .nil
  | fuel + 1, before, seen, id, hseen => by
    unfold simpleWalks branches
    rw [edgesWithEnd_edgesFrom, List.flatMap_map]
    refine forall₂_flatMap fun s hs => ?_
    obtain ⟨hedge, rfl⟩ := mem_stepsFrom_iff.1 hs
    obtain ⟨c, hc⟩ := contains_iff.1 (hm.contains_target (Walk.hasEdge hedge))
    have hid : c.id = s.1.target := hm.id_eq hc
    have hpassed : s.1.target ∈ seen ↔ s.1.target ∈ passed (before ++ [s]) := by
      simp [hseen, passed]
    have hmark : before.map m.mark ++ [(s.1, m.isLast s)] = (before ++ [s]).map m.mark := by
      rw [List.map_append]
      rfl
    simp only [hc, hid, hmark, List.contains_iff_mem]
    have hshows := Shows.mk before hc
    by_cases hback : s.1.target ∈ seen
    · rw [if_pos hback, if_pos hback]
      rw [decide_eq_true (hpassed.1 hback)] at hshows
      exact .cons hshows .nil
    · rw [if_neg hback, if_neg hback]
      rw [decide_eq_false (mt hpassed.2 hback)] at hshows
      refine .cons hshows (List.forall₂_map_left_iff.2 ?_)
      have ih := branches_shows hm fuel (before ++ [s]) (s.1.target :: seen) s.1.target fun a => by
        simp [hseen, passed, or_comm]
      simpa only [List.append_assoc, List.singleton_append] using ih

/-- **The bound is none**: with any two bounds that let a walk grow until it has passed all
components, the branches are the same. -/
theorem branches_eq_of_le (hm : m.WellFormed) : ∀ (fuel fuel' : Nat) (walk : List (Edge × Bool))
    (seen : List String) (id : String), seen.Nodup → (∀ a ∈ seen, m.contains a = true) →
    m.components.size < fuel + seen.length → m.components.size < fuel' + seen.length →
    m.branches fuel walk seen id = m.branches fuel' walk seen id
  | 0, _, _, seen, _, hnodup, hseen, hfuel, _ => by
    have := length_le_size hnodup hseen
    omega
  | _, 0, _, seen, _, hnodup, hseen, _, hfuel' => by
    have := length_le_size hnodup hseen
    omega
  | fuel + 1, fuel' + 1, walk, seen, id, hnodup, hseen, hfuel, hfuel' => by
    unfold branches
    refine List.flatMap_congr fun e _ => ?_
    cases hc : m.get? e.1.target with
    | none => rfl
    | some c =>
      by_cases hback : c.id ∈ seen
      · simp only [List.contains_iff_mem, if_pos hback]
      · have hcontains : m.contains c.id = true := by
          rw [hm.id_eq hc]
          exact contains_iff.2 ⟨c, hc⟩
        have ih := branches_eq_of_le hm fuel fuel' (walk ++ [e]) (c.id :: seen) c.id
          (List.nodup_cons.2 ⟨hback, hnodup⟩) (List.forall_mem_cons.2 ⟨hcontains, hseen⟩)
          (by simp only [List.length_cons]; omega) (by simp only [List.length_cons]; omega)
        simp only [List.contains_iff_mem, if_neg hback, ih]

/-! ## Trees -/

/-- **The tree of a component** of a model that is built, with cycles or without. Its lines are
those of the walks from the component by one edge or more that pass nothing twice before their last
edge: each of these has one line, in the order of a depth-first search that takes edges as they are
listed, indented by its length, and followed by a mark exactly if it ends where it has been. There
is a mark exactly if a cycle is within reach. The search ends by itself: a bound on the length of
walks that is higher than the number of components changes nothing. -/
theorem dependencyTree_spec (s : Specification) (base : Path)
    (read : Path → Except Failure Contract) :
    let m := (build s base read).1
    ∀ root c, m.get? root = some c →
      (∃ walks lines,
        walks.Pairwise (fun v w : List Step => v.map (·.2) < w.map (·.2)) ∧
        (∀ walk, walk ∈ walks ↔
          walk ≠ [] ∧ (∃ b, m.Walk root walk b) ∧ (passed walk).Nodup) ∧
        List.Forall₂ m.Line walks lines ∧
        m.dependencyTree root =
          .ok (root ++ " (" ++ c.kind.text ++ ")\n" ++ String.join lines) ∧
        ((∃ line ∈ lines, IsMarked line) ↔ ∃ cycle, IsCycle m.HasEdge cycle ∧
          ∃ a ∈ cycle, Relation.ReflTransGen m.HasEdge root a)) ∧
      (∀ before s, (m.lead before s).length = 4 * (before ++ [s]).length) ∧
      ∀ fuel, m.components.size ≤ fuel → m.branches fuel [] [root] root = m.treeOf root := by
  intro m root c hc
  have hm : m.WellFormed := WellFormed.build s base read
  have hroot : m.contains root = true := contains_iff.2 ⟨c, hc⟩
  have hseen : ∀ a ∈ [root], m.contains a = true := fun a ha => List.mem_singleton.1 ha ▸ hroot
  have hshows := branches_shows hm m.components.size [] [root] root fun a => by simp [passed]
  have hlines : List.Forall₂ m.Line (m.simpleWalks m.components.size [root] root)
      ((m.treeOf root).map Branch.text) :=
    List.forall₂_map_right_iff.2 (hshows.imp fun _ _ h => h.line)
  refine ⟨⟨_, _, m.pairwise_simpleWalks _ _ _, fun _ => mem_walks_iff hm hroot, hlines, ?_, ?_⟩,
    m.length_lead, ?_⟩
  · simp only [dependencyTree, require, hc, Except.map, hm.id_eq hc]
  · rw [exists_isMarked_iff hlines, ← exists_returns_iff]
    simp only [mem_walks_iff hm hroot]
    constructor
    · rintro ⟨walk, ⟨hne, ⟨b, hwalk⟩, hnodup⟩, hreturns⟩
      exact ⟨walk, b, hne, hwalk, hnodup, hreturns⟩
    · rintro ⟨walk, b, hne, hwalk, hnodup, hreturns⟩
      exact ⟨walk, ⟨hne, ⟨b, hwalk⟩, hnodup⟩, hreturns⟩
  · intro fuel hfuel
    exact branches_eq_of_le hm fuel _ [] [root] root (List.nodup_singleton root) hseen
      (Nat.lt_succ_of_le hfuel) (Nat.lt_succ_self _)

/-- Middleware `ping` and `pong` that need each other, and `entry`, which lists `ping` twice. -/
def doubled : Specification :=
  ⟨"1.0.0", "doubled", "", "",
    [⟨"entry", "middleware", [("depends_on", .texts ["ping", "ping"])], none⟩,
      ⟨"ping", "middleware", [("depends_on", .texts ["pong"])], none⟩,
      ⟨"pong", "middleware", [("depends_on", .texts ["ping"])], none⟩], .null⟩

/-- Both edges to `ping` have their line, and below each of them the cycle is shown once around. -/
theorem dependencyTree_spec_doubled :
    let around : List Step :=
      [(⟨"entry", "ping", .dependency⟩, 1), (⟨"ping", "pong", .dependency⟩, 2),
        (⟨"pong", "ping", .dependency⟩, 3)]
    let m := (build doubled "" fun _ => .error default).1
    (m.treeOf "entry").map (fun b => (b.walk.map (·.1.target), b.repeated)) =
      [(["ping"], false), (["ping", "pong"], false), (["ping", "pong", "ping"], true),
        (["ping"], false), (["ping", "pong"], false), (["ping", "pong", "ping"], true)] ∧
    (∃ c, m.get? "entry" = some c) ∧
    (∃ walks lines, List.Forall₂ m.Line walks lines ∧ around ∈ walks ∧
      (∃ line ∈ lines, IsMarked line) ∧
      m.dependencyTree "entry" = .ok ("entry (middleware)\n" ++ String.join lines)) ∧
    m.components.size ≤ 9 ∧ m.branches 9 [] ["entry"] "entry" = m.treeOf "entry" := by
  intro around
  have htree := dependencyTree_spec doubled "" fun _ => .error default
  generalize hm : (build doubled "" fun _ => .error default).1 = m at *
  have hsize : m.components.size ≤ 9 := by subst hm; decide
  have hkind : (m.get? "entry").map (·.kind) = some .middleware := by subst hm; decide
  have hedges : m.edges[1]? = some ⟨"entry", "ping", .dependency⟩ ∧
      m.edges[2]? = some ⟨"ping", "pong", .dependency⟩ ∧
      m.edges[3]? = some ⟨"pong", "ping", .dependency⟩ := by subst hm; decide
  obtain ⟨c, hc, hmiddleware⟩ := Option.map_eq_some_iff.1 hkind
  obtain ⟨⟨walks, lines, -, hwalks, hlines, htext, hmarks⟩, -, hbound⟩ := htree "entry" c hc
  have hwalk : m.Walk "entry" around "ping" :=
    Walk.cons_iff.2 ⟨⟨hedges.1, rfl⟩, Walk.cons_iff.2 ⟨⟨hedges.2.1, rfl⟩,
      Walk.cons_iff.2 ⟨⟨hedges.2.2, rfl⟩, .nil⟩⟩⟩
  have haround : around ∈ walks := (hwalks around).2 ⟨List.cons_ne_nil _ _, ⟨_, hwalk⟩, by decide⟩
  obtain ⟨hreach, hself⟩ := hwalk.of_mem_passed (c := "ping") (by decide)
  obtain ⟨cycle, hcycle, hmem⟩ := transGen_self_iff.1 hself
  have hmarked := hmarks.2 ⟨cycle, hcycle, "ping", hmem, hreach⟩
  rw [hmiddleware] at htext
  refine ⟨?_, ⟨c, hc⟩, ⟨walks, lines, hlines, haround, hmarked, htext⟩, hsize, hbound 9 hsize⟩
  subst hm
  decide +kernel

end ArchSpec.Model
