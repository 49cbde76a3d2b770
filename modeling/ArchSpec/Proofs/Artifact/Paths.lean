import ArchSpec.Artifact.Write
import ArchSpec.Proofs.Path.Normal

/-!
# The paths of artifacts

The path of an artifact is checked by counting, and taken below an output directory it is checked
again by comparing normalized paths. The count bounds every beginning of the path, so nothing that
comes before the path is touched by it, and the second check finds nothing that the first has not
found.

* `Path.isArtifactPath_iff` — what the count says of the steps of a path.
* `Path.normalize_join` — below any directory such a path makes its own steps.
* `Artifact.checkPath_eq`, `WriteTask.checkPaths_eq` — only the first check ever refuses a path.
* `Path.artifactPath_spec` — all of this for one path.
-/

namespace ArchSpec

namespace Path

variable {p : Path}

/-- The steps of a path that does not start at the root never start anew. -/
theorem root_not_mem_steps (h : isAbsolute p = false) : .root ∉ p.steps := by
  obtain ⟨first, hsteps, ⟨habs, _⟩ | ⟨_, hfirst⟩⟩ := p.steps_eq
  · rw [h] at habs
    cases habs
  · rw [hsteps]
    rcases hfirst with rfl | rfl <;> simpa using root_not_mem_moves p

/-- **Which paths may be those of artifacts**: relative ones that no beginning of which goes up
more often than down. -/
theorem isArtifactPath_iff : isArtifactPath p = true ↔
    (p.toList.head? ≠ some '/' ∧ p.toList.head? ≠ some '\\') ∧
      ∀ front, front <+: p.steps → front.countP Step.isUp ≤ front.countP Step.isName := by
  have hclimb := @climbs_le_iff 0 0 p.steps
  simp only [Nat.le_zero, Nat.zero_add, Nat.add_zero] at hclimb
  have habsolute : isAbsolute p = false ↔ p.toList.head? ≠ some '/' := decide_eq_false_iff_not
  rw [isArtifactPath, Bool.and_eq_true, Bool.and_eq_true, Bool.not_eq_true', decide_eq_true_eq,
    staysBelow_iff, ← hclimb, ← habsolute]
  constructor
  · rintro ⟨hstart, _, hstays⟩
    exact ⟨hstart, hstays⟩
  · rintro ⟨hstart, hstays⟩
    exact ⟨hstart, root_not_mem_steps hstart.1, hstays⟩

/-- Without dots, such a path below a directory is the directory, and then the path. -/
theorem steps_normalize_join (base : Path) (h : isArtifactPath p = true) :
    (normalize (join base p)).steps = (normalize base).steps ++ (normalize p).steps := by
  rw [steps_normalize, steps_normalize, steps_normalize, normalSteps_join base h]

theorem normalize_join (base : Path) (h : isArtifactPath p = true) :
    normalize (join base p) = ofSteps ((normalize base).steps ++ (normalize p).steps) := by
  rw [normalize, normalSteps_join base h, steps_normalize, steps_normalize]

end Path

/-- **Only the first check refuses a path.** -/
theorem Artifact.checkPath_eq (directory : Path) (a : Artifact) : a.checkPath directory =
    if Path.isArtifactPath a.path then .ok () else .error (.pathTraversal a.path) := by
  unfold Artifact.checkPath
  cases h : Path.isArtifactPath a.path with
  | true => rw [Path.isSafe_of_isArtifactPath directory h, Bool.and_self]
  | false => rw [Bool.false_and]

/-- **Of a list of artifacts the first one is refused that the first check refuses**, whatever the
output directory. -/
theorem WriteTask.checkPaths_eq (t : WriteTask) (as : List Artifact) : t.checkPaths as =
    match as.find? fun a => !Path.isArtifactPath a.path with
    | none => .ok ()
    | some a => .error (.pathTraversal a.path) := by
  induction as with
  | nil => rfl
  | cons a as ih =>
    rw [checkPaths, Artifact.checkPath_eq, List.find?_cons]
    cases h : Path.isArtifactPath a.path with
    | true => simpa using ih
    | false => rfl

/-- **The path of an artifact.** It is accepted exactly if it starts with no separator of either
kind and no beginning of its steps goes up more often than down. If it is accepted, then below
every base it is the path without dots of the base, followed by its own steps without dots. So it
is safe there, and is never refused before it is written; of a list of artifacts the first one is
refused whose path is not accepted, and none if all are. -/
theorem Path.artifactPath_spec (p : Path) :
    (isArtifactPath p = true ↔
      (p.toList.head? ≠ some '/' ∧ p.toList.head? ≠ some '\\') ∧
        ∀ front, front <+: p.steps → front.countP Step.isUp ≤ front.countP Step.isName) ∧
    (isArtifactPath p = true → ∀ base : Path,
      (normalize (join base p)).steps = (normalize base).steps ++ (normalize p).steps ∧
      normalize (join base p) = ofSteps ((normalize base).steps ++ (normalize p).steps) ∧
      isSafe base p = true ∧
      ∀ a : Artifact, a.path = p → a.checkPath base = .ok ()) ∧
    ∀ (t : WriteTask) (as : List Artifact), t.checkPaths as =
      match as.find? fun a => !isArtifactPath a.path with
      | none => .ok ()
      | some a => .error (.pathTraversal a.path) := by
  refine ⟨isArtifactPath_iff, fun h base => ⟨steps_normalize_join base h, normalize_join base h,
    isSafe_of_isArtifactPath base h, fun a ha => ?_⟩, WriteTask.checkPaths_eq⟩
  subst ha
  rw [Artifact.checkPath_eq, if_pos h]

/-- A path that goes up and down again, below a base that climbs out of the working directory. -/
theorem Path.artifactPath_spec_page : isArtifactPath "docs/../a/./b.md" = true ∧
    normalize "docs/../a/./b.md" = "a/b.md" ∧ normalize (join "../out/." "docs/../a/./b.md") =
      ofSteps ((normalize "../out/.").steps ++ (normalize "docs/../a/./b.md").steps) ∧
    isSafe "../out/." "docs/../a/./b.md" = true := by
  have hpath : isArtifactPath "docs/../a/./b.md" = true := by decide +kernel
  obtain ⟨_, hjoin, hsafe, _⟩ := (artifactPath_spec "docs/../a/./b.md").2.1 hpath "../out/."
  exact ⟨hpath, by decide +kernel, hjoin, hsafe⟩

end ArchSpec
