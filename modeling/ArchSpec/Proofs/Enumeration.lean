import Mathlib.Data.List.Nodup

/-!
# One entry for each key

A relation between keys and values is enumerated by a list that has exactly one entry for each key
with a value, in any order: this is what it means that each of several conditions is reported once.
Two keys may have equal values, which the list then has twice.

* `Enumerates` — what it means.
* `Enumerates.append`, `Enumerates.flatMap` — relations on different keys are enumerated together.
* `Enumerates.mem_iff`, `Enumerates.eq_nil_iff` — what the entries tell.
-/

namespace ArchSpec

section

variable {κ α β : Type} {P Q : κ → α → Prop} {l l' : List α}

/-- A list has one entry for each key of a relation, and no other. -/
def Enumerates (P : κ → α → Prop) (l : List α) : Prop :=
  ∃ es : List (κ × α), (es.map Prod.fst).Nodup ∧ (es.map Prod.snd).Perm l ∧
    ∀ k a, (k, a) ∈ es ↔ P k a

namespace Enumerates

theorem perm (h : Enumerates P l) (hl : l.Perm l') : Enumerates P l' := by
  obtain ⟨es, hn, hes, hmem⟩ := h
  exact ⟨es, hn, hes.trans hl, hmem⟩

theorem congr (h : Enumerates P l) (hPQ : ∀ k a, P k a ↔ Q k a) : Enumerates Q l := by
  obtain ⟨es, hn, hes, hmem⟩ := h
  exact ⟨es, hn, hes, fun k a => (hmem k a).trans (hPQ k a)⟩

theorem nil (h : ∀ k a, ¬P k a) : Enumerates P [] :=
  ⟨[], List.nodup_nil, .refl _, fun k a => iff_of_false List.not_mem_nil (h k a)⟩

/-- A condition with one value under one key. -/
theorem ite (key : κ) (a : α) (p : Prop) [Decidable p] :
    Enumerates (fun k b => p ∧ k = key ∧ b = a) (if p then [a] else []) := by
  split
  · rename_i hp
    exact ⟨[(key, a)], List.nodup_singleton _, .refl _, by simp [hp]⟩
  · rename_i hp
    exact nil fun _ _ h => hp h.1

theorem append (h : Enumerates P l) (h' : Enumerates Q l')
    (hdisjoint : ∀ k a b, P k a → ¬Q k b) : Enumerates (fun k a => P k a ∨ Q k a) (l ++ l') := by
  obtain ⟨es, hn, hes, hmem⟩ := h
  obtain ⟨fs, hn', hfs, hmem'⟩ := h'
  refine ⟨es ++ fs, ?_, ?_, fun k a => ?_⟩
  · rw [List.map_append, List.nodup_append]
    refine ⟨hn, hn', ?_⟩
    rintro k hk k' hk' rfl
    obtain ⟨⟨_, a⟩, he, rfl⟩ := List.mem_map.1 hk
    obtain ⟨⟨_, b⟩, hf, rfl⟩ := List.mem_map.1 hk'
    exact hdisjoint _ a b ((hmem _ _).1 he) ((hmem' _ _).1 hf)
  · rw [List.map_append]
    exact hes.append hfs
  · rw [List.mem_append, hmem, hmem']

/-- Relations on different keys, one for each item of a list, are enumerated one after the other. -/
theorem flatMap {ι : Type} {R : β → κ → α → Prop} {f : β → List α} (label : β → ι)
    (hlabel : ∀ {x y k a b}, R x k a → R y k b → label x = label y) : ∀ {xs : List β},
    (∀ x ∈ xs, Enumerates (R x) (f x)) → (xs.map label).Nodup →
    Enumerates (fun k a => ∃ x ∈ xs, R x k a) (xs.flatMap f)
  | [], _, _ => nil (by simp)
  | x :: xs, h, hn => by
    obtain ⟨hx, hxs⟩ := List.nodup_cons.1 hn
    have hrest := flatMap (R := R) label hlabel (fun y hy => h y (List.mem_cons_of_mem _ hy)) hxs
    rw [List.flatMap_cons]
    refine ((h x List.mem_cons_self).append hrest ?_).congr fun k a => by simp
    rintro k a b ha ⟨y, hy, hb⟩
    exact hx (List.mem_map.2 ⟨y, hy, (hlabel ha hb).symm⟩)

theorem mem_iff (h : Enumerates P l) {a : α} : a ∈ l ↔ ∃ k, P k a := by
  obtain ⟨es, _, hes, hmem⟩ := h
  rw [← hes.mem_iff, List.mem_map]
  constructor
  · rintro ⟨⟨k, _⟩, he, rfl⟩
    exact ⟨k, (hmem _ _).1 he⟩
  · rintro ⟨k, hk⟩
    exact ⟨(k, a), (hmem _ _).2 hk, rfl⟩

theorem eq_nil_iff (h : Enumerates P l) : l = [] ↔ ∀ k a, ¬P k a := by
  rw [List.eq_nil_iff_forall_not_mem]
  simp only [h.mem_iff, not_exists]
  exact forall_comm

end Enumerates

end

end ArchSpec
