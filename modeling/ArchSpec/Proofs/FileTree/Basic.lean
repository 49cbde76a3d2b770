import Mathlib.Data.List.Induction
import ArchSpec.Proofs.FileStore.Action

/-!
# Where paths lead

A path that names a location names one that can be told from the path alone; what stands in the
tree only decides whether it names one at all. In a tree in which everything stands in a directory,
a change at one location is seen nowhere else.

* `FileTree.locate` — where a path leads; `resolve_eq` — no path resolves to another location.
* `FileTree.WellFormed` — everything stands in a directory.
* `find?_put`, `find?_prune` — what is where after a change.
* `WellFormed.put`, `WellFormed.prune` — the changes that keep a tree well-formed.
-/

namespace ArchSpec.FileTree

variable {t : FileTree} {l d : Location} {p : Path} {n : String}

/-! ## Locations of paths -/

/-- Where one name leads from a directory. -/
def stepTo (l : Location) (name : String) : Location :=
  if name = "." then l else if name = ".." then l.dropLast else l ++ [name]

/-- Where a path leads, if all before its end are directories. -/
def locate (t : FileTree) (p : Path) : Location :=
  (route p).foldl stepTo (if Path.isAbsolute p then [] else t.workingDirectory)

theorem locate_congr {t' : FileTree} (h : t'.workingDirectory = t.workingDirectory) (p : Path) :
    t'.locate p = t.locate p := by
  rw [locate, locate, h]

/-- A name is followed from a directory only, and leads where it says. -/
theorem follow_ok (h : t.follow l n = .ok d) :
    t.find? l = some .directory ∧ d = stepTo l n := by
  unfold follow at h
  split at h
  · cases h
  · cases h
  · rename_i hl
    refine ⟨hl, ?_⟩
    unfold stepTo
    split at h
    · rename_i hdot
      cases h
      rw [if_pos hdot]
    · rename_i hdot
      rw [if_neg hdot]
      split at h
      · rename_i hup
        cases h
        rw [if_pos hup]
      · rename_i hup
        rw [if_neg hup]
        split at h
        · cases h
        · cases h
          rfl

theorem foldlM_follow_ok {names : List String} (h : names.foldlM t.follow l = .ok d) :
    d = names.foldl stepTo l := by
  induction names generalizing l with
  | nil =>
    cases h
    rfl
  | cons n names ih =>
    rw [List.foldlM_cons] at h
    obtain ⟨m, hm, h⟩ := except_bind_ok h
    rw [List.foldl_cons, ← (follow_ok hm).2]
    exact ih h

theorem start_ok (h : t.start p = .ok l) :
    l = if Path.isAbsolute p then [] else t.workingDirectory := by
  unfold start at h
  split at h
  · cases h
  · split at h
    · cases h
    · split at h
      · cases h
      · split at h
        · rename_i habs
          cases h
          rw [if_pos habs]
        · rename_i habs
          cases h
          rw [if_neg habs]

/-- A path resolves to no other location than the one it leads to. -/
theorem resolve_eq (h : t.resolve p = .ok l) : l = t.locate p := by
  obtain ⟨m, hm, h⟩ := except_bind_ok h
  rw [locate, ← start_ok hm]
  exact foldlM_follow_ok h

/-! ## Trees in which everything stands in a directory -/

/-- Everything stands in a directory. -/
def WellFormed (t : FileTree) : Prop :=
  ∀ l n, t.find? (l ++ [n]) ≠ none → t.find? l = some .directory

@[simp] theorem find?_root (t : FileTree) : t.find? [] = some .directory := rfl

theorem WellFormed.ancestor (h : t.WellFormed) {m : Location} (hm : m ≠ [])
    (hfind : t.find? (l ++ m) ≠ none) : t.find? l = some .directory := by
  induction m using List.reverseRecOn with
  | nil => exact absurd rfl hm
  | append_singleton m n ih =>
    rw [← List.append_assoc] at hfind
    have hparent := h (l ++ m) n hfind
    cases m with
    | nil => simpa using hparent
    | cons k m =>
      refine ih (by simp) ?_
      rw [hparent]
      nofun

/-- Nothing stands below a file. -/
theorem WellFormed.below_file (h : t.WellFormed) {text : String}
    (hl : t.find? l = some (.file text)) {x : Location} (hx : l <+: x) (hne : x ≠ l) :
    t.find? x = none := by
  obtain ⟨m, rfl⟩ := hx
  by_contra hfind
  have hm : m ≠ [] := by
    rintro rfl
    simp at hne
  rw [h.ancestor hm hfind] at hl
  cases hl

/-- No directory is at or below a file. -/
theorem WellFormed.not_prefix (h : t.WellFormed) {text : String}
    (hl : t.find? l = some (.file text)) (hd : t.find? d = some .directory) : ¬l <+: d := by
  intro hpre
  by_cases hne : d = l
  · rw [hne, hl] at hd
    cases hd
  · rw [h.below_file hl hpre hne] at hd
    cases hd

/-- The directory before a directory is one. -/
theorem WellFormed.dropLast (h : t.WellFormed) (hd : t.find? d = some .directory) :
    t.find? d.dropLast = some .directory := by
  induction d using List.reverseRecOn with
  | nil => exact hd
  | append_singleton d n _ =>
    rw [List.dropLast_concat]
    refine h d n ?_
    rw [hd]
    nofun

/-! ## Changes -/

theorem lookup_filter {α β : Type} [BEq α] [LawfulBEq α] (q : α → Bool) (es : List (α × β))
    (k : α) : (es.filter fun e => q e.1).lookup k = if q k then es.lookup k else none := by
  induction es with
  | nil => simp
  | cons e es ih =>
    obtain ⟨k', v⟩ := e
    by_cases hk : k = k'
    · subst hk
      cases hq : q k <;> simp [hq, ih]
    · have hbeq : (k == k') = false := by simp [hk]
      cases hq : q k' <;> simp [hq, ih, List.lookup_cons, hbeq]

theorem find?_put (hl : l ≠ []) (e : Entry) (x : Location) :
    (t.put l e).find? x = if x = l then some e else t.find? x := by
  unfold find? put
  by_cases hx : x = l
  · subst hx
    simp [hl]
  · have hbeq : (x == l) = false := by simp [hx]
    have hfilter := lookup_filter (fun k => decide (k ≠ l)) t.entries x
    simp only [hx, ne_eq, not_false_eq_true, decide_true, if_true] at hfilter
    simp only [List.lookup_cons, hbeq, hx, if_false, ne_eq, hfilter]

theorem find?_prune (hl : l ≠ []) (x : Location) :
    (t.prune l).find? x = if l <+: x then none else t.find? x := by
  unfold find? prune
  by_cases hx : x = []
  · subst hx
    simp [hl]
  · rw [if_neg hx, if_neg hx, lookup_filter fun k => !l.isPrefixOf k]
    by_cases hpre : l <+: x
    · rw [if_pos hpre, List.isPrefixOf_iff_prefix.2 hpre]
      rfl
    · have hnot : l.isPrefixOf x = false :=
        Bool.eq_false_iff.2 fun h => hpre (List.isPrefixOf_iff_prefix.1 h)
      rw [if_neg hpre, hnot]
      rfl

/-- A file or directory may be put into a directory, unless a file takes the place of one. -/
theorem WellFormed.put (h : t.WellFormed) (hd : t.find? d = some .directory) {e : Entry}
    (he : e = .directory ∨ t.find? (d ++ [n]) ≠ some .directory) :
    (t.put (d ++ [n]) e).WellFormed := by
  intro l m hfind
  rw [find?_put (by simp)] at hfind ⊢
  by_cases hsame : l ++ [m] = d ++ [n]
  · obtain ⟨rfl, _⟩ := List.append_inj' hsame rfl
    rw [if_neg (by simp)]
    exact hd
  · rw [if_neg hsame] at hfind
    have hl := h l m hfind
    split
    · rename_i heq
      rcases he with rfl | he
      · rfl
      · rw [← heq] at he
        exact absurd hl he
    · exact hl

/-- A tree is well-formed if each of its entries stands in a directory. -/
theorem wellFormed_of_entries
    (h : ∀ e ∈ t.entries, t.find? e.1.dropLast = some .directory) : t.WellFormed := by
  intro l n hfind
  rw [find?, if_neg (by simp)] at hfind
  obtain ⟨e, he⟩ := Option.ne_none_iff_exists'.1 hfind
  obtain ⟨before, later, hentries, _⟩ := List.lookup_eq_some_iff.1 he
  have hparent := h (l ++ [n], e) (by rw [hentries]; simp)
  rwa [List.dropLast_concat] at hparent

theorem WellFormed.prune (h : t.WellFormed) (hl : l ≠ []) : (t.prune l).WellFormed := by
  intro x m hfind
  rw [find?_prune hl] at hfind ⊢
  split at hfind
  · exact absurd rfl hfind
  · rename_i hpre
    rw [if_neg fun hx => hpre (hx.trans (List.prefix_append x [m]))]
    exact h x m hfind

end ArchSpec.FileTree
