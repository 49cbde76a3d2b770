import ArchSpec.FileStore.Replace
import ArchSpec.Proofs.FileTree.Basic
import ArchSpec.Proofs.Path.Climb

/-!
# Locations of composed paths

Where a path leads is told by its moves, so the location of a path that is made from others can be
told from theirs: of a path below a base, of a name in a directory, and of the temporary file
beside a target, which is never the target itself.

* `FileTree.locate_eq`, `locate_join`, `locate_name` — locations by moves.
* `FileTree.locate_temporaryPath` — the temporary file of a target.
* `FileTree.locate_below`, `below_of_isArtifactPath` — a generated file stays below its base.
-/

namespace ArchSpec.FileTree

open ArchSpec.Path (isAbsolute isArtifactPath join moves parent? fileName? staysBelow)
open FileStore (temporaryPath)

variable {t : FileTree} {p q base : Path} {n : String} {l : Location}

/-! ## Locations by moves -/

/-- A piece of a path leads where the step leads that it says. -/
theorem foldl_stepTo_pieces (pieces : List (List Char)) (l : Location) :
    ((pieces.map String.ofList).filter (· ≠ "")).foldl stepTo l =
      (pieces.filterMap Path.stepOf?).foldl Step.move l := by
  induction pieces generalizing l with
  | nil => rfl
  | cons piece pieces ih =>
    by_cases hempty : piece = []
    · subst hempty
      simpa [Path.stepOf?] using ih l
    · have hname : String.ofList piece ≠ "" :=
      fun h => hempty (by simpa using congrArg String.toList h)
      rw [List.map_cons, List.filter_cons_of_pos (by simpa using hname), List.foldl_cons, ih]
      by_cases hdot : piece = ['.']
      · subst hdot
        rfl
      · have hnodot : String.ofList piece ≠ "." :=
          fun h => hdot (by simpa using congrArg String.toList h)
        by_cases hup : piece = ['.', '.']
        · subst hup
          rfl
        · have hnoup : String.ofList piece ≠ ".." :=
            fun h => hup (by simpa using congrArg String.toList h)
          have hstep : Path.stepOf? piece = some (.name (String.ofList piece)) := by
            simp [Path.stepOf?, hempty, hdot, hup]
          rw [List.filterMap_cons_some hstep, List.foldl_cons, Step.move, stepTo, if_neg hnodot,
            if_neg hnoup]

/-- A path leads where its moves lead. -/
theorem locate_eq (t : FileTree) (p : Path) : t.locate p =
    p.moves.foldl Step.move (if isAbsolute p then [] else t.workingDirectory) := by
  unfold locate route moves Text.split
  generalize (if isAbsolute p then [] else t.workingDirectory : Location) = l
  rw [← foldl_stepTo_pieces]
  dsimp only
  -- the dot for a trailing separator stays where it is
  split
  · rw [List.foldl_append]
    rfl
  · rfl

theorem locate_join (t : FileTree) (base : Path) (h : isAbsolute p = false) :
    t.locate (join base p) = p.moves.foldl Step.move (t.locate base) := by
  rw [locate_eq, Path.isAbsolute_join h, Path.moves_join h, List.foldl_append, ← locate_eq]

/-- A path that ends in a name leads to that name in its parent. -/
theorem locate_name (t : FileTree) (h : p.fileName? = some n) :
    ∃ q, p.parent? = some q ∧ t.locate p = t.locate q ++ [n] := by
  obtain ⟨ms, hms⟩ := List.getLast?_eq_some_iff.1 (Path.fileName?_eq_some.1 h)
  obtain ⟨q, hq, hmoves, habs, _⟩ := Path.parent?_of_moves hms
  refine ⟨q, hq, ?_⟩
  rw [locate_eq, hms, List.foldl_append, locate_eq, hmoves, habs]
  rfl

/-! ## Temporary files -/

/-- The name of a temporary file is a path of one move. -/
theorem moves_temporaryName (h : '/' ∉ n.toList) :
    moves (n ++ ".tmp") = [.name (n ++ ".tmp")] ∧ isAbsolute (n ++ ".tmp") = false := by
  have hlength : ∀ m : String, m.length < 4 → n ++ ".tmp" ≠ m := by
    intro m hm heq
    have := congrArg String.length heq
    rw [String.length_append, show ".tmp".length = 4 from rfl] at this
    omega
  refine Path.moves_of_name ?_ ⟨hlength _ (by decide), hlength _ (by decide), hlength _ (by decide)⟩
  simpa using h

/-- **The temporary file of a target** is beside it, or in it if the target is not named. -/
theorem locate_temporaryPath (t : FileTree) (p : Path) :
    (∃ n, p.fileName? = some n ∧
      ∃ d, t.locate p = d ++ [n] ∧ t.locate (temporaryPath p) = d ++ [n ++ ".tmp"]) ∨
    (p.fileName? = none ∧ t.locate (temporaryPath p) = t.locate p ++ [".tmp"]) := by
  unfold temporaryPath Path.withFileName
  cases hname : p.fileName? with
  | none =>
    refine .inr ⟨rfl, ?_⟩
    obtain ⟨hmoves, habs⟩ := @moves_temporaryName "" (by simp)
    exact (t.locate_join p habs).trans (by rw [hmoves]; rfl)
  | some n =>
    obtain ⟨q, hq, hlocate⟩ := t.locate_name hname
    have hmem := List.mem_of_mem_getLast? (Path.fileName?_eq_some.1 hname)
    obtain ⟨hmoves, habs⟩ := @moves_temporaryName n (Path.name_of_moves hmem).2
    refine .inl ⟨n, rfl, t.locate q, hlocate, ?_⟩
    rw [hq]
    exact (t.locate_join q habs).trans (by rw [hmoves]; rfl)

/-- The temporary file of a target is not the target. -/
theorem locate_temporaryPath_ne (t : FileTree) (p : Path) :
    t.locate (temporaryPath p) ≠ t.locate p := by
  rcases t.locate_temporaryPath p with ⟨n, _, d, hp, htemp⟩ | ⟨_, htemp⟩
  · rw [hp, htemp]
    intro h
    have hsame := (List.cons.inj (List.append_cancel_left h)).1
    have := congrArg String.length hsame
    rw [String.length_append, show ".tmp".length = 4 from rfl] at this
    omega
  · rw [htemp]
    intro h
    have := congrArg List.length h
    simp at this

/-! ## Below a base -/

/-- **A path that may name a generated file leads below its base.** -/
theorem locate_below (t : FileTree) (base : Path) (h : isArtifactPath p = true) :
    t.locate (join base p) = t.locate base ++ p.moves.foldl Step.move [] := by
  have habs := Path.not_isAbsolute_of_isArtifactPath h
  rw [t.locate_join base habs]
  simpa using Path.foldl_move_below (t.locate base) (r := []) (Path.staysBelow_moves h)

/-- A location is below a directory, and not the directory itself. -/
def Below (d l : Location) : Prop := ∃ names, names ≠ [] ∧ l = d ++ names

/-- **A generated file with a name is below its base**, and so is its temporary file. -/
theorem below_of_isArtifactPath (t : FileTree) (base : Path) (h : isArtifactPath p = true)
    (hname : p.fileName? = some n) : Below (t.locate base) (t.locate (join base p)) ∧
      Below (t.locate base) (t.locate (temporaryPath (join base p))) := by
  obtain ⟨ms, hms⟩ := List.getLast?_eq_some_iff.1 (Path.fileName?_eq_some.1 hname)
  have htarget : t.locate (join base p) =
      (t.locate base ++ ms.foldl Step.move []) ++ [n] := by
    rw [t.locate_below base h, hms, List.foldl_append, List.append_assoc]
    rfl
  refine ⟨⟨ms.foldl Step.move [] ++ [n], by simp, by rw [htarget, List.append_assoc]⟩, ?_⟩
  rcases t.locate_temporaryPath (join base p) with ⟨n', _, d, hd, htemp⟩ | ⟨_, htemp⟩
  · rw [htarget] at hd
    obtain ⟨rfl, _⟩ := List.append_inj' hd rfl
    exact ⟨ms.foldl Step.move [] ++ [n' ++ ".tmp"], by simp, by rw [htemp, List.append_assoc]⟩
  · refine ⟨ms.foldl Step.move [] ++ [n] ++ [".tmp"], by simp, ?_⟩
    rw [htemp, htarget, List.append_assoc, List.append_assoc, List.append_assoc]

end ArchSpec.FileTree
