import Mathlib.Algebra.Group.Nat.Defs
import Mathlib.Data.List.Basic
import ArchSpec.Proofs.Text
import ArchSpec.Version

/-!
# The grammar of semantic versions

* `Version.Writes` — what it means that a text writes a version.
* `Version.isValid_iff` — a text is valid exactly if it writes one.
-/

namespace ArchSpec.Version

/-! ## The grammar -/

/-- Letters, digits and hyphens, at least one of them. -/
def Identifier (cs : List Char) : Prop := cs ≠ [] ∧ ∀ c ∈ cs, c.isAlphanum = true ∨ c = '-'

/-- An identifier that has no zeros in front if it is a number. -/
def PreReleaseIdentifier (cs : List Char) : Prop :=
  Identifier cs ∧ ((∀ c ∈ cs, c.isDigit = true) → ∃ n, cs = Nat.toDigits 10 n)

/-- Three numbers between dots. -/
def core (major minor patch : Nat) : List Char :=
  Nat.toDigits 10 major ++ '.' :: (Nat.toDigits 10 minor ++ '.' :: Nat.toDigits 10 patch)

/-- Identifiers between dots after a mark, or nothing if there are none. -/
def marked (mark : Char) : List (List Char) → List Char
  | [] => []
  | first :: more => mark :: Text.joinSep '.' (first :: more)

/-- A text writes a version: three numbers of 64 bits, perhaps a pre-release, perhaps a build. -/
structure Writes (s : String) (major minor patch : Nat) (release build : List (List Char)) :
    Prop where
  text : s.toList = core major minor patch ++ marked '-' release ++ marked '+' build
  bounded : major < 2 ^ 64 ∧ minor < 2 ^ 64 ∧ patch < 2 ^ 64
  release : ∀ identifier ∈ release, PreReleaseIdentifier identifier
  build : ∀ identifier ∈ build, Identifier identifier

/-! ## Numbers and identifiers -/

theorem isIdentifierChar_iff {c : Char} :
    isIdentifierChar c = true ↔ c.isAlphanum = true ∨ c = '-' := by
  have hupper : ('A' ≤ c && c ≤ 'Z') = c.isUpper := (Bool.decide_and _ _).symm
  have hclasses : isIdentifierChar c =
      (c.isDigit || c.isLower || ('A' ≤ c && c ≤ 'Z') || c = '-') := rfl
  have halphanum : c.isAlphanum = (c.isUpper || c.isLower || c.isDigit) := rfl
  rw [hclasses, hupper, halphanum]
  grind

theorem isIdentifier_iff {cs : List Char} : isIdentifier cs = true ↔ Identifier cs := by
  simp [isIdentifier, Identifier, isIdentifierChar_iff]

theorem Identifier.not_mem {cs : List Char} (h : Identifier cs) {c : Char}
    (hc : c.isAlphanum = false) (hne : c ≠ '-') : c ∉ cs := by
  intro hmem
  rcases h.2 c hmem with h | h
  · rw [hc] at h
    cases h
  · exact hne h

theorem hasLeadingZero_eq_false_iff {cs : List Char} :
    hasLeadingZero cs = false ↔ (cs.head? = some '0' → cs = ['0']) := by
  unfold hasLeadingZero
  split
  · simp
  · rename_i h
    refine iff_of_true rfl fun hzero => ?_
    obtain ⟨ds, rfl⟩ := List.head?_eq_some_iff.1 hzero
    cases ds with
    | nil => rfl
    | cons d ds => exact absurd rfl (h d ds)

theorem isPreReleaseIdentifier_iff {cs : List Char} :
    isPreReleaseIdentifier cs = true ↔ PreReleaseIdentifier cs := by
  have hdigits : cs.all isDigit = true ↔ ∀ c ∈ cs, c.isDigit = true := List.all_eq_true
  unfold isPreReleaseIdentifier PreReleaseIdentifier
  rw [Bool.and_eq_true, isIdentifier_iff, Bool.not_eq_true', Bool.and_eq_false_imp, hdigits,
    hasLeadingZero_eq_false_iff, Text.exists_toDigits_iff]
  constructor
  · rintro ⟨h, hzero⟩
    exact ⟨h, fun hall => ⟨h.1, hall, hzero hall⟩⟩
  · rintro ⟨h, hnumber⟩
    exact ⟨h, fun hall => (hnumber hall).2.2⟩

/-- The three numbers have 64 bits, and no zeros in front. -/
theorem isPart_iff {cs : List Char} :
    isPart cs = true ↔ ∃ n, n < 2 ^ 64 ∧ cs = Nat.toDigits 10 n := by
  have hbound : ∀ n, n ≤ maxPart ↔ n < 2 ^ 64 := by
    intro n
    have hmax : maxPart = 2 ^ 64 - 1 := rfl
    omega
  unfold isPart
  constructor
  · intro h
    simp only [Bool.and_eq_true] at h
    obtain ⟨⟨⟨hne, hdigits⟩, hzero⟩, hle⟩ := h
    have hne : cs ≠ [] := by simpa using hne
    have hdigits : ∀ c ∈ cs, c.isDigit = true := List.all_eq_true.1 hdigits
    obtain ⟨n, rfl⟩ := Text.exists_toDigits_iff.2
      ⟨hne, hdigits, hasLeadingZero_eq_false_iff.1 (by simpa using hzero)⟩
    rw [Text.number?_ten hne hdigits, Nat.ofDigitChars_ten_toDigits] at hle
    exact ⟨n, (hbound n).1 (of_decide_eq_true hle), rfl⟩
  · rintro ⟨n, hn, rfl⟩
    obtain ⟨hne, hdigits, hzero⟩ := Text.exists_toDigits_iff.1 ⟨n, rfl⟩
    rw [Text.number?_ten hne hdigits, Nat.ofDigitChars_ten_toDigits,
      hasLeadingZero_eq_false_iff.2 hzero]
    have hall : (Nat.toDigits 10 n).all isDigit = true := List.all_eq_true.2 hdigits
    simp [hall, hne, (hbound n).2 hn]

/-- A text of digits has no other characters. -/
theorem not_mem_toDigits {c : Char} (hc : c.isDigit = false) (n : Nat) :
    c ∉ Nat.toDigits 10 n := by
  intro hmem
  rw [Nat.isDigit_of_mem_toDigits (by decide) (by decide) hmem] at hc
  cases hc

theorem not_mem_core {c : Char} (hc : c.isDigit = false) (hdot : c ≠ '.')
    (major minor patch : Nat) : c ∉ core major minor patch := by
  simp [core, not_mem_toDigits hc, hdot]

theorem isCore_iff {cs : List Char} : isCore cs = true ↔ ∃ major minor patch,
    (major < 2 ^ 64 ∧ minor < 2 ^ 64 ∧ patch < 2 ^ 64) ∧ cs = core major minor patch := by
  unfold isCore
  rw [Bool.and_eq_true, decide_eq_true_eq, List.all_eq_true]
  constructor
  · rintro ⟨hlength, hparts⟩
    obtain ⟨x, y, z, hsplit⟩ := List.length_eq_three.1 hlength
    have hpart : ∀ piece ∈ [x, y, z], ∃ n, n < 2 ^ 64 ∧ piece = Nat.toDigits 10 n :=
      fun piece hpiece => isPart_iff.1 (hparts piece (hsplit ▸ hpiece))
    obtain ⟨major, hmajor, rfl⟩ := hpart x (by simp)
    obtain ⟨minor, hminor, rfl⟩ := hpart y (by simp)
    obtain ⟨patch, hpatch, rfl⟩ := hpart z (by simp)
    refine ⟨major, minor, patch, ⟨hmajor, hminor, hpatch⟩, ?_⟩
    rw [← Text.joinSep_splitOn '.' cs, hsplit]
    rfl
  · rintro ⟨major, minor, patch, ⟨hmajor, hminor, hpatch⟩, rfl⟩
    have hsplit : Text.splitOn '.' (core major minor patch) =
        [Nat.toDigits 10 major, Nat.toDigits 10 minor, Nat.toDigits 10 patch] := by
      have hdot := not_mem_toDigits (c := '.') rfl
      simp [core, Text.splitOn_append, Text.splitOn_of_not_mem (hdot _)]
    rw [hsplit]
    refine ⟨rfl, fun piece hpiece => isPart_iff.2 ?_⟩
    simp only [List.mem_cons, List.not_mem_nil, or_false] at hpiece
    rcases hpiece with rfl | rfl | rfl
    · exact ⟨major, hmajor, rfl⟩
    · exact ⟨minor, hminor, rfl⟩
    · exact ⟨patch, hpatch, rfl⟩

/-! ## Marked parts -/

/-- What is tested before and after a mark, said of the text as a whole. -/
theorem cut_marked_iff {mark : Char} {front identifier : List Char → Bool}
    (hmark : ∀ cs, front cs = true → mark ∉ cs) (hdot : ∀ cs, identifier cs = true → '.' ∉ cs)
    {cs : List Char} :
    (match Text.cut mark cs with
      | (a, none) => front a
      | (a, some b) => front a && (Text.splitOn '.' b).all identifier) = true ↔
    ∃ a identifiers, front a = true ∧ (∀ i ∈ identifiers, identifier i = true) ∧
      cs = a ++ marked mark identifiers := by
  constructor
  · intro h
    have hspec := Text.cut_spec mark cs
    split at h
    · rename_i a hcut
      rw [hcut] at hspec
      exact ⟨a, [], h, by simp, by simpa [marked] using hspec.2⟩
    · rename_i a b hcut
      rw [hcut] at hspec
      rw [Bool.and_eq_true, Text.all_splitOn_iff hdot] at h
      obtain ⟨ha, identifiers, hne, hall, rfl⟩ := h
      refine ⟨a, identifiers, ha, hall, hspec.2.trans ?_⟩
      cases identifiers with
      | nil => exact absurd rfl hne
      | cons first more => rfl
  · rintro ⟨a, identifiers, ha, hall, rfl⟩
    cases identifiers with
    | nil =>
      rw [marked, List.append_nil, Text.cut_of_not_mem (hmark a ha)]
      exact ha
    | cons first more =>
      rw [marked, Text.cut_append mark _ _ (hmark a ha)]
      simp only [Bool.and_eq_true]
      exact ⟨ha, (Text.all_splitOn_iff hdot).2 ⟨_, List.cons_ne_nil _ _, hall, rfl⟩⟩

theorem isRelease_iff {cs : List Char} : isRelease cs = true ↔ ∃ major minor patch release,
    (major < 2 ^ 64 ∧ minor < 2 ^ 64 ∧ patch < 2 ^ 64) ∧
    (∀ identifier ∈ release, PreReleaseIdentifier identifier) ∧
    cs = core major minor patch ++ marked '-' release := by
  have hmark : ∀ cs, isCore cs = true → '-' ∉ cs := by
    intro cs h
    obtain ⟨major, minor, patch, _, rfl⟩ := isCore_iff.1 h
    exact not_mem_core rfl (by decide) major minor patch
  have hdot : ∀ cs, isPreReleaseIdentifier cs = true → '.' ∉ cs := fun cs h =>
    (isPreReleaseIdentifier_iff.1 h).1.not_mem rfl (by decide)
  unfold isRelease
  refine (cut_marked_iff hmark hdot).trans ⟨?_, ?_⟩
  · rintro ⟨a, release, ha, hrelease, rfl⟩
    obtain ⟨major, minor, patch, hbounded, rfl⟩ := isCore_iff.1 ha
    exact ⟨major, minor, patch, release, hbounded,
      fun i hi => isPreReleaseIdentifier_iff.1 (hrelease i hi), rfl⟩
  · rintro ⟨major, minor, patch, release, hbounded, hrelease, rfl⟩
    exact ⟨_, release, isCore_iff.2 ⟨major, minor, patch, hbounded, rfl⟩,
      fun i hi => isPreReleaseIdentifier_iff.2 (hrelease i hi), rfl⟩

/-- There is no plus sign before the build. -/
theorem plus_not_mem_marked {release : List (List Char)}
    (h : ∀ identifier ∈ release, PreReleaseIdentifier identifier) :
    '+' ∉ marked '-' release := by
  cases release with
  | nil => exact List.not_mem_nil
  | cons first more =>
    rw [marked, List.mem_cons, not_or]
    refine ⟨by decide, Text.not_mem_joinSep (by decide) fun identifier hidentifier => ?_⟩
    exact (h identifier hidentifier).1.not_mem rfl (by decide)

/-- **A text is a semantic version exactly if it writes one.** -/
theorem isValid_iff {s : String} : isValid s = true ↔
    ∃ major minor patch release build, Writes s major minor patch release build := by
  have hmark : ∀ cs, isRelease cs = true → '+' ∉ cs := by
    intro cs h
    obtain ⟨major, minor, patch, release, _, hrelease, rfl⟩ := isRelease_iff.1 h
    rw [List.mem_append, not_or]
    exact ⟨not_mem_core rfl (by decide) major minor patch, plus_not_mem_marked hrelease⟩
  have hdot : ∀ cs, isIdentifier cs = true → '.' ∉ cs := fun cs h =>
    (isIdentifier_iff.1 h).not_mem rfl (by decide)
  unfold isValid
  refine (cut_marked_iff hmark hdot).trans ⟨?_, ?_⟩
  · rintro ⟨a, build, ha, hbuild, htext⟩
    obtain ⟨major, minor, patch, release, hbounded, hrelease, rfl⟩ := isRelease_iff.1 ha
    exact ⟨major, minor, patch, release, build, htext, hbounded, hrelease,
      fun i hi => isIdentifier_iff.1 (hbuild i hi)⟩
  · rintro ⟨major, minor, patch, release, build, h⟩
    exact ⟨_, build, isRelease_iff.2 ⟨major, minor, patch, release, h.bounded, h.release, rfl⟩,
      fun i hi => isIdentifier_iff.2 (h.build i hi), h.text⟩

end ArchSpec.Version
