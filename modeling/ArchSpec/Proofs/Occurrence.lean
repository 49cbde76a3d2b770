import Mathlib.Data.List.Nodup

/-!
# First occurrences

Elements of a list are told apart by a key. The first element of a key is what a search finds, and
elements that come later do not change it.

* `First` — an element stands at a position, and none of its key before it.
* `first?_eq_some_iff` — the search finds these elements; `exists_first` — each key has one.
* `first_concat_iff`, `first?_concat` — what one more element at the end changes.
* `eq_of_increasing` — lists of the same elements at increasing positions are one list.
-/

namespace ArchSpec

/-- An element stands at a position of a list, and none of its key before it. -/
structure First {α κ : Type} (key : α → κ) (xs : List α) (i : Nat) (a : α) : Prop where
  here : xs[i]? = some a
  first : ∀ j < i, ∀ b, xs[j]? = some b → key b ≠ key a

/-- The first element of a key. -/
def first? {α κ : Type} [DecidableEq κ] (key : α → κ) (xs : List α) (k : κ) : Option α :=
  xs.find? fun a => key a = k

section

variable {α κ : Type} {key : α → κ} {xs ys : List α} {a : α} {i : Nat}

theorem First.lt (h : First key xs i a) : i < xs.length := (List.getElem?_eq_some_iff.1 h.here).1

theorem First.mem (h : First key xs i a) : a ∈ xs := List.mem_of_getElem? h.here

/-- A key comes first at one position only. -/
theorem First.position_unique {b : α} {j : Nat} (h : First key xs i a) (h' : First key xs j b)
    (hkey : key a = key b) : i = j := by
  rcases Nat.lt_trichotomy i j with hlt | heq | hlt
  · exact absurd hkey (h'.first i hlt a h.here)
  · exact heq
  · exact absurd hkey.symm (h.first j hlt b h'.here)

/-- What comes first does not depend on what comes later. -/
theorem first_append_iff (hi : i < xs.length) : First key (xs ++ ys) i a ↔ First key xs i a := by
  have hold : ∀ j ≤ i, (xs ++ ys)[j]? = xs[j]? := fun j hj => List.getElem?_append_left (by omega)
  constructor
  · intro h
    refine ⟨hold i (Nat.le_refl i) ▸ h.here, fun j hj b hb => h.first j hj b ?_⟩
    rw [hold j (Nat.le_of_lt hj), hb]
  · intro h
    refine ⟨(hold i (Nat.le_refl i)).trans h.here, fun j hj b hb => h.first j hj b ?_⟩
    rw [← hold j (Nat.le_of_lt hj), hb]

/-- What comes first with one more element at the end. -/
theorem first_concat_iff {b : α} : First key (xs ++ [b]) i a ↔ First key xs i a ∨
    (i = xs.length ∧ a = b ∧ key b ∉ xs.map key) := by
  have hold : ∀ j < xs.length, (xs ++ [b])[j]? = xs[j]? := fun j hj =>
    List.getElem?_append_left hj
  constructor
  · intro h
    rcases Nat.lt_or_ge i xs.length with hi | hi
    · exact .inl ((first_append_iff hi).1 h)
    · have hlast : i = xs.length := by
        have hlt := h.lt
        rw [List.length_append, List.length_singleton] at hlt
        omega
      subst hlast
      obtain rfl : b = a := by simpa using h.here
      refine .inr ⟨rfl, rfl, fun hmem => ?_⟩
      obtain ⟨c, hc, hkey⟩ := List.mem_map.1 hmem
      obtain ⟨j, hj⟩ := List.mem_iff_getElem?.1 hc
      have hlt : j < xs.length := (List.getElem?_eq_some_iff.1 hj).1
      exact h.first j hlt c ((hold j hlt).trans hj) hkey
  · rintro (h | ⟨rfl, rfl, hnew⟩)
    · exact (first_append_iff h.lt).2 h
    · refine ⟨by simp, fun j hj c hc hkey => hnew ?_⟩
      rw [hold j hj] at hc
      exact List.mem_map.2 ⟨c, List.mem_of_getElem? hc, hkey⟩

variable [DecidableEq κ] {k : κ}

/-- **The search finds what comes first.** -/
theorem first?_eq_some_iff : first? key xs k = some a ↔ key a = k ∧ ∃ i, First key xs i a := by
  unfold first?
  rw [List.find?_eq_some_iff_getElem, decide_eq_true_eq]
  constructor
  · rintro ⟨rfl, i, hi, ha, hbefore⟩
    refine ⟨rfl, i, List.getElem?_eq_some_iff.2 ⟨hi, ha⟩, fun j hj b hb => ?_⟩
    obtain ⟨hlt, rfl⟩ := List.getElem?_eq_some_iff.1 hb
    simpa using hbefore j hj
  · rintro ⟨rfl, i, h⟩
    obtain ⟨hi, ha⟩ := List.getElem?_eq_some_iff.1 h.here
    refine ⟨rfl, i, hi, ha, fun j hj => ?_⟩
    have hlt : j < xs.length := by omega
    simpa using h.first j hj xs[j] (List.getElem?_eq_getElem hlt)

theorem first?_eq_none_iff : first? key xs k = none ↔ k ∉ xs.map key := by
  simp [first?, List.find?_eq_none]

/-- Of elements with different keys each one comes first. -/
theorem first?_eq_some_iff_mem (h : (xs.map key).Nodup) :
    first? key xs k = some a ↔ a ∈ xs ∧ key a = k := by
  rw [first?_eq_some_iff]
  constructor
  · rintro ⟨hk, i, hfirst⟩
    exact ⟨hfirst.mem, hk⟩
  · rintro ⟨hmem, hk⟩
    obtain ⟨i, hi⟩ := List.mem_iff_getElem?.1 hmem
    refine ⟨hk, i, hi, fun j hj b hb hsame => ?_⟩
    have hlt : j < (xs.map key).length := by
      simpa using (List.getElem?_eq_some_iff.1 hb).1
    have hindex := (List.getElem?_inj hlt h).1
      (show (xs.map key)[j]? = (xs.map key)[i]? by simp [hb, hi, hsame])
    omega

/-- Every key that occurs comes first somewhere. -/
theorem exists_first (h : k ∈ xs.map key) : ∃ i a, key a = k ∧ First key xs i a := by
  cases hfirst : first? key xs k with
  | none => exact absurd h (first?_eq_none_iff.1 hfirst)
  | some a =>
    obtain ⟨hk, i, ha⟩ := first?_eq_some_iff.1 hfirst
    exact ⟨i, a, hk, ha⟩

theorem first?_concat (xs : List α) (a : α) (k : κ) :
    first? key (xs ++ [a]) k = (first? key xs k).or (if key a = k then some a else none) := by
  simp only [first?, List.find?_append, List.find?_singleton, decide_eq_true_eq]

/-- A key keeps its first element when one more comes. -/
theorem first?_concat_of_some {b : α} (h : first? key xs (key a) = some b) (k : κ) :
    first? key (xs ++ [a]) k = first? key xs k := by
  rw [first?_concat]
  by_cases hk : key a = k
  · rw [← hk, h]
    rfl
  · rw [if_neg hk, Option.or_none]

end

/-- Lists of the same elements at increasing positions are one list. -/
theorem eq_of_increasing {α : Type} {position : α → Nat} {xs ys : List α}
    (hx : xs.Pairwise (position · < position ·)) (hy : ys.Pairwise (position · < position ·))
    (h : ∀ a, a ∈ xs ↔ a ∈ ys) : xs = ys := by
  have hnodup : ∀ {zs : List α}, zs.Pairwise (position · < position ·) → zs.Nodup := by
    intro zs hz
    apply hz.imp
    rintro a b hab rfl
    omega
  apply List.Perm.eq_of_pairwise ?_ hx hy
    ((List.perm_ext_iff_of_nodup (hnodup hx) (hnodup hy)).2 h)
  intro a b _ _ hab hba
  omega

end ArchSpec
