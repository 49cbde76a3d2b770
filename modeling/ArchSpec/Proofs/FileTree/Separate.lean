import ArchSpec.Proofs.FileTree.Route

/-!
# Files that are kept apart

Paths that consist of names lead to their names below a base, so different names are different
places. A temporary file has a name of a form of its own, which tells it from all other files, and
two temporary files are in one place only if their targets are.

* `FileTree.Plain` — paths of names; `Plain.locate` — where they lead.
* `FileTree.lastChar?` — what the name of a file ends in; `lastChar?_temporaryPath`.
* `FileTree.Separate` — targets that are apart from each other and from all temporary files.
-/

namespace ArchSpec.FileTree

open ArchSpec.Path (isAbsolute join)
open FileStore (temporaryPath)

variable {t u : FileTree} {p q base : Path} {ps : List Path} {l : Location}

/-! ## Paths of names -/

/-- A path that starts nowhere by itself and consists of names. -/
structure Plain (p : Path) : Prop where
  relative : isAbsolute p = false
  noDots : ∀ n ∈ route p, n ≠ "." ∧ n ≠ ".."

/-- The route of a path of names has no dot for a separator at its end. -/
theorem Plain.route_eq (h : Plain p) : route p = namesOf p := by
  have hroute := FileTree.route_eq p
  split at hroute
  · exact absurd rfl (h.noDots "." (by rw [hroute]; simp)).1
  · rw [hroute, List.append_nil]

/-- The names of a path lead where it leads. -/
theorem foldl_namesOf (t : FileTree) (p : Path) :
    (namesOf p).foldl stepTo (t.origin p) = t.locate p := by
  rw [locate_eq_route, route_eq]
  split
  · rw [List.foldl_append]
    rfl
  · rw [List.append_nil]

/-- **A path of names leads to these names** below its base. -/
theorem Plain.locate (h : Plain p) (t : FileTree) (base : Path) :
    t.locate (join base p) = t.locate base ++ route p := by
  rw [locate_eq_route, route_join base h.relative, origin_join t base h.relative,
    List.foldl_append, foldl_namesOf, foldl_stepTo_plain h.noDots]

/-- The route of a name. -/
theorem route_of_name {n : String} (hslash : '/' ∉ n.toList) (hn : n ≠ "") : route n = [n] := by
  have hsplit : Text.split '/' n = [n] := by
    rw [Text.split, Text.splitOn_of_not_mem hslash, List.map_singleton, String.ofList_toList]
  simp [route, hsplit, hn]

/-! ## Names of temporary files -/

/-- The last character of the last name of a location. -/
def lastChar? (l : Location) : Option Char := l.getLast?.bind fun n => n.toList.getLast?

theorem lastChar?_append (l : Location) {names : List String} (h : names ≠ []) :
    lastChar? (l ++ names) = lastChar? names := by
  rw [lastChar?, lastChar?, List.getLast?_append, List.getLast?_eq_some_getLast h]
  rfl

theorem Plain.lastChar? (h : Plain p) (t : FileTree) (base : Path) :
    lastChar? (t.locate (join base p)) = FileTree.lastChar? (route p) := by
  rw [h.locate, lastChar?_append _ (route_ne_nil p)]

/-- The names of all temporary files end in the same way. -/
theorem lastChar?_temporaryPath (t : FileTree) (p : Path) :
    lastChar? (t.locate (temporaryPath p)) = some 'p' := by
  have hend : ∀ n : String, lastChar? [n ++ ".tmp"] = some 'p' := by
    intro n
    simp [FileTree.lastChar?, List.getLast?_append]
  rcases t.locate_temporaryPath p with ⟨n, _, d, _, htemp⟩ | ⟨_, htemp⟩
  · rw [htemp, lastChar?_append _ (List.cons_ne_nil _ _)]
    exact hend n
  · rw [htemp, lastChar?_append _ (List.cons_ne_nil _ _)]
    exact hend ""

/-- The temporary file of a target tells where the target is. -/
theorem locate_temporaryPath_injective
    (h : t.locate (temporaryPath p) = t.locate (temporaryPath q)) : t.locate p = t.locate q := by
  have happend : ∀ (n n' : String) {d d' : Location}, d ++ [n ++ ".tmp"] = d' ++ [n' ++ ".tmp"] →
      d = d' ∧ n = n' := by
    intro n n' d d' heq
    obtain ⟨hd, hn⟩ := List.append_inj' heq rfl
    refine ⟨hd, String.toList_injective ?_⟩
    have hlist := congrArg String.toList (List.cons.inj hn).1
    rw [String.toList_append, String.toList_append] at hlist
    exact List.append_cancel_right hlist
  have hnamed : ∀ {p : Path} {n : String}, p.fileName? = some n → n ≠ "" := fun hname =>
    (Path.name_of_moves (List.mem_of_mem_getLast? (Path.fileName?_eq_some.1 hname))).1
  rcases t.locate_temporaryPath p with ⟨n, hn, d, hp, htemp⟩ | ⟨_, htemp⟩ <;>
    rcases t.locate_temporaryPath q with ⟨n', hn', d', hq, htemp'⟩ | ⟨_, htemp'⟩ <;>
    rw [htemp, htemp'] at h
  · obtain ⟨rfl, rfl⟩ := happend n n' h
    rw [hp, hq]
  · exact absurd (happend n "" h).2 (hnamed hn)
  · exact absurd (happend "" n' h).2.symm (hnamed hn')
  · exact List.append_cancel_right h

/-! ## Targets -/

/-- Targets that are in different places, and none of which is a temporary file. -/
structure Separate (t : FileTree) (ps : List Path) : Prop where
  targets : ps.Pairwise fun p q => t.locate p ≠ t.locate q
  named : ∀ p ∈ ps, lastChar? (t.locate p) ≠ some 'p'

/-- Paths of different names below a base lead to different places. -/
theorem separate_of_routes {rs : List Path} (t : FileTree) (base : Path)
    (hplain : ∀ r ∈ rs, Plain r) (hroutes : (rs.map route).Nodup)
    (hnamed : ∀ r ∈ rs, FileTree.lastChar? (route r) ≠ some 'p') :
    Separate t (rs.map (join base)) where
  targets := by
    refine List.pairwise_map.2 ((List.pairwise_map.1 hroutes).imp_of_mem ?_)
    intro r s hr hs hne
    rw [(hplain r hr).locate, (hplain s hs).locate]
    exact fun heq => hne (List.append_cancel_left heq)
  named := by
    intro p hp
    obtain ⟨r, hr, rfl⟩ := List.mem_map.1 hp
    rw [(hplain r hr).lastChar?]
    exact hnamed r hr

namespace Separate

theorem congr (h : Separate t ps) (hdir : u.workingDirectory = t.workingDirectory) :
    Separate u ps where
  targets := by simpa only [locate_congr hdir] using h.targets
  named := by simpa only [locate_congr hdir] using h.named

theorem sublist {qs : List Path} (h : Separate t ps) (hsub : qs.Sublist ps) : Separate t qs where
  targets := h.targets.sublist hsub
  named p hp := h.named p (hsub.subset hp)

theorem tail (h : Separate t (p :: ps)) : Separate t ps := h.sublist (List.sublist_cons_self p ps)

/-- No temporary file is where a target is. -/
theorem target_ne_temporary (h : Separate t ps) (hp : p ∈ ps) (q : Path) :
    t.locate (temporaryPath q) ≠ t.locate p := by
  intro heq
  exact h.named p hp (by rw [← heq, lastChar?_temporaryPath])

/-- Targets in different places do not meet, nor do their temporary files. -/
theorem apart (h : Separate t ps) (hp : p ∈ ps) (hq : q ∈ ps) (hne : t.locate p ≠ t.locate q) :
    ∀ x ∈ [temporaryPath p, p], ∀ y ∈ [temporaryPath q, q], t.locate x ≠ t.locate y := by
  intro x hx y hy
  simp only [List.mem_cons, List.not_mem_nil, or_false] at hx hy
  rcases hx with rfl | rfl <;> rcases hy with rfl | rfl
  · exact fun heq => hne (locate_temporaryPath_injective heq)
  · exact h.target_ne_temporary hq p
  · exact (h.target_ne_temporary hp q).symm
  · exact hne

/-- The first target does not meet the others. -/
theorem head (h : Separate t (p :: ps)) (hq : q ∈ ps) :
    ∀ x ∈ [temporaryPath p, p], ∀ y ∈ [temporaryPath q, q], t.locate x ≠ t.locate y :=
  h.apart List.mem_cons_self (List.mem_cons_of_mem _ hq) ((List.pairwise_cons.1 h.targets).1 q hq)

end Separate

end ArchSpec.FileTree
