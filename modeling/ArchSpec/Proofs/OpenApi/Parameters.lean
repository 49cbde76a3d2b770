import ArchSpec.OpenApi.Contract
import Mathlib.Data.List.Induction
import ArchSpec.Proofs.Occurrence

/-!
# Parameters of operations

An operation has the parameters that it writes and those that its path passes on. Parameters are
told apart by their names and locations. What comes first counts, and what an operation writes comes
before what its path writes. References are not followed, so a parameter may lack a name; such a one
is left out.

* `FirstAt` — that a parameter is the first one of its name and location in a list.
* `Picked` — the first ones of a list with their positions, but for names and locations that are
  taken; there is only one such list (`Picked.unique`).
* `foldl_addParameter` — parameters that are added one by one are those that are picked.
* `Merged` — what the parameters of an operation are, of those that are written.
* `operation_parameters` — they are these, for every operation and every path.
-/

namespace ArchSpec

/-- The name and the location, by which parameters are told apart. -/
def Parameter.key (p : Parameter) : String × String := (p.name, p.location)

namespace OpenApi

/-- The name and the location of a parameter as it is written. -/
def ParameterNode.key (p : ParameterNode) : String × String := (p.name, p.location)

variable {ps : List ParameterNode} {p q : ParameterNode} {i : Nat} {taken : List (String × String)}

theorem key_parameter (p : ParameterNode) : p.parameter.key = p.key := rfl

/-! ## First occurrences -/

/-- A parameter with a name stands at a position, and none of its name and location before it. -/
structure FirstAt (ps : List ParameterNode) (i : Nat) (p : ParameterNode) : Prop where
  here : ps[i]? = some p
  named : p.name ≠ ""
  first : ∀ j < i, ∀ q, ps[j]? = some q → q.key ≠ p.key

theorem firstAt_iff : FirstAt ps i p ↔ First ParameterNode.key ps i p ∧ p.name ≠ "" :=
  ⟨fun h => ⟨⟨h.here, h.first⟩, h.named⟩, fun h => ⟨h.1.here, h.2, h.1.first⟩⟩

/-- What comes first with one more parameter at the end of a list. -/
theorem firstAt_snoc : FirstAt (ps ++ [p]) i q ↔ FirstAt ps i q ∨
    (i = ps.length ∧ q = p ∧ p.name ≠ "" ∧ p.key ∉ ps.map ParameterNode.key) := by
  rw [firstAt_iff, firstAt_iff, first_concat_iff, or_and_right]
  refine or_congr_right ⟨?_, ?_⟩
  · rintro ⟨⟨hi, rfl, hnew⟩, hnamed⟩
    exact ⟨hi, rfl, hnamed, hnew⟩
  · rintro ⟨hi, rfl, hnamed, hnew⟩
    exact ⟨⟨hi, rfl, hnew⟩, hnamed⟩

/-- Every name and location that occurs, the name not empty, comes first somewhere. -/
theorem exists_firstAt {key : String × String} (hkey : key ∈ ps.map ParameterNode.key)
    (hnamed : key.1 ≠ "") : ∃ i p, p.key = key ∧ FirstAt ps i p := by
  obtain ⟨i, p, rfl, hfirst⟩ := exists_first hkey
  exact ⟨i, p, rfl, firstAt_iff.2 ⟨hfirst, hnamed⟩⟩

/-! ## What is picked -/

/-- The parameters of a list that come first, each with its position and in the order of these, but
for names and locations that are taken. -/
structure Picked (taken : List (String × String)) (ps : List ParameterNode)
    (picked : List (Nat × ParameterNode)) : Prop where
  increasing : picked.Pairwise (·.1 < ·.1)
  mem_iff : ∀ i p, (i, p) ∈ picked ↔ FirstAt ps i p ∧ p.key ∉ taken

namespace Picked

variable {picked picked' : List (Nat × ParameterNode)}

theorem unique (h : Picked taken ps picked) (h' : Picked taken ps picked') : picked = picked' := by
  refine eq_of_increasing h.increasing h'.increasing fun e => ?_
  rw [h.mem_iff, h'.mem_iff]

theorem first (h : Picked taken ps picked) {e : Nat × ParameterNode} (he : e ∈ picked) :
    First ParameterNode.key ps e.1 e.2 := (firstAt_iff.1 ((h.mem_iff e.1 e.2).1 he).1).1

/-- Only which names and locations are taken counts. -/
theorem congr_taken {taken' : List (String × String)} (h : Picked taken ps picked)
    (htaken : ∀ key : String × String, key.1 ≠ "" → (key ∈ taken' ↔ key ∈ taken)) :
    Picked taken' ps picked := by
  refine ⟨h.increasing, fun i p => (h.mem_iff i p).trans ?_⟩
  exact and_congr_right fun hfirst => not_congr (htaken p.key hfirst.named).symm

/-- What is picked or taken is what occurs or is taken, where there is a name. -/
theorem mem_keys_iff (h : Picked taken ps picked) (key : String × String) (hnamed : key.1 ≠ "") :
    key ∈ taken ++ picked.map (fun e => e.2.key) ↔ key ∈ taken ++ ps.map ParameterNode.key := by
  rw [List.mem_append, List.mem_append]
  constructor
  · rintro (ht | hp)
    · exact .inl ht
    · obtain ⟨e, he, rfl⟩ := List.mem_map.1 hp
      exact .inr (List.mem_map.2 ⟨e.2, (h.first he).mem, rfl⟩)
  · rintro (ht | hp)
    · exact .inl ht
    · by_cases ht : key ∈ taken
      · exact .inl ht
      · obtain ⟨i, p, rfl, hfirst⟩ := exists_firstAt hp hnamed
        exact .inr (List.mem_map.2 ⟨(i, p), (h.mem_iff i p).2 ⟨hfirst, ht⟩, rfl⟩)

/-- One more parameter is picked if it has a name and its name and location are new. -/
theorem snoc (h : Picked taken ps picked) (p : ParameterNode) :
    Picked taken (ps ++ [p]) (picked ++ if p.name ≠ "" ∧ p.key ∉ taken ++ ps.map ParameterNode.key
      then [(ps.length, p)] else []) := by
  have hlt : ∀ e ∈ picked, e.1 < ps.length := fun e he => (h.first he).lt
  split
  · rename_i hnew
    rw [List.mem_append, not_or] at hnew
    refine ⟨List.pairwise_append.2 ⟨h.increasing, List.pairwise_singleton _ _, ?_⟩, fun i q => ?_⟩
    · intro e he e' he'
      rw [List.mem_singleton.1 he']
      exact hlt e he
    · rw [List.mem_append, h.mem_iff, firstAt_snoc, List.mem_singleton, Prod.mk.injEq, or_and_right]
      refine or_congr_right ⟨?_, ?_⟩
      · rintro ⟨rfl, rfl⟩
        exact ⟨⟨rfl, rfl, hnew.1, hnew.2.2⟩, hnew.2.1⟩
      · rintro ⟨⟨rfl, rfl, _⟩, _⟩
        exact ⟨rfl, rfl⟩
  · rename_i hold
    rw [List.append_nil]
    refine ⟨h.increasing, fun i q => (h.mem_iff i q).trans ?_⟩
    rw [firstAt_snoc, or_and_right]
    refine (or_iff_left ?_).symm
    rintro ⟨⟨_, rfl, hnamed, hnew⟩, htaken⟩
    exact hold ⟨hnamed, fun hmem => (List.mem_append.1 hmem).elim htaken hnew⟩

theorem nodup_keys (h : Picked taken ps picked) : (picked.map fun e => e.2.key).Nodup := by
  refine List.pairwise_map.2 (h.increasing.imp_of_mem fun {e e'} he he' hlt hkey => ?_)
  have hsame := (h.first he).position_unique (h.first he') hkey
  rw [hsame] at hlt
  exact Nat.lt_irrefl _ hlt

end Picked

/-! ## Merging -/

theorem addParameter_eq (ps : List Parameter) (p : ParameterNode) : addParameter ps p =
    ps ++ if p.name ≠ "" ∧ p.key ∉ ps.map Parameter.key then [p.parameter] else [] := by
  have hskip : (p.name.isEmpty || ps.any fun q => q.name = p.name && q.location = p.location) =
      !decide (p.name ≠ "" ∧ p.key ∉ ps.map Parameter.key) := by
    rw [Bool.eq_iff_iff]
    simp only [Bool.or_eq_true, String.isEmpty_iff, List.any_eq_true, Bool.and_eq_true,
      decide_eq_true_eq, Bool.not_eq_true', decide_eq_false_iff_not, not_and_or, not_not,
      List.mem_map, Parameter.key, ParameterNode.key, Prod.mk.injEq]
  unfold addParameter
  rw [hskip]
  by_cases h : p.name ≠ "" ∧ p.key ∉ ps.map Parameter.key
  · rw [decide_eq_true h, if_pos h]
    rfl
  · rw [decide_eq_false h, if_neg h, List.append_nil]
    rfl

/-- **Parameters that are added one by one are those that are picked**, those that are there before
being taken. -/
theorem foldl_addParameter (before : List Parameter) (ps : List ParameterNode) :
    ∃ picked, Picked (before.map Parameter.key) ps picked ∧
      ps.foldl addParameter before = before ++ picked.map fun e => e.2.parameter := by
  induction ps using List.reverseRecOn with
  | nil =>
    refine ⟨[], ⟨List.Pairwise.nil, fun i p => ⟨nofun, fun h => ?_⟩⟩, by simp⟩
    cases h.1.here
  | append_singleton ps p ih =>
    obtain ⟨picked, hpicked, hfold⟩ := ih
    refine ⟨_, hpicked.snoc p, ?_⟩
    have hkeys : (before ++ picked.map fun e => e.2.parameter).map Parameter.key =
        before.map Parameter.key ++ picked.map fun e => e.2.key := by
      simp [Function.comp_def, key_parameter]
    rw [List.foldl_append, List.foldl_cons, List.foldl_nil, hfold, addParameter_eq, hkeys]
    have hsame : (p.name ≠ "" ∧ p.key ∉ before.map Parameter.key ++ picked.map fun e => e.2.key) ↔
        (p.name ≠ "" ∧ p.key ∉ before.map Parameter.key ++ ps.map ParameterNode.key) :=
      and_congr_right fun hnamed => not_congr (hpicked.mem_keys_iff p.key hnamed)
    simp only [hsame, List.map_append, List.append_assoc]
    split <;> rfl

/-- A parameter is chosen for its name and location: it is the first one that the operation writes,
or the operation writes none and it is the first one of the path. -/
def Chosen (own shared : List ParameterNode) (p : ParameterNode) : Prop :=
  (∃ i, FirstAt own i p) ∨ (p.key ∉ own.map ParameterNode.key ∧ ∃ i, FirstAt shared i p)

/-- What the parameters of an operation are, of those that it writes and those that its path writes.
-/
structure Merged (own shared : List ParameterNode) (merged : List Parameter) : Prop where
  named : ∀ q ∈ merged, q.name ≠ ""
  distinct : (merged.map Parameter.key).Nodup
  /-- What is written with a name comes once, as it is written where it is chosen. -/
  once : ∀ name location, name ≠ "" → (name, location) ∈ (own ++ shared).map ParameterNode.key →
    ∃ p, p.key = (name, location) ∧ Chosen own shared p ∧
      merged.filter (fun q => q.key = (name, location)) =
        [⟨name, location, p.required, p.schema.map SchemaNode.schema⟩]
  /-- What is chosen keeps its order, and what the operation writes comes first. -/
  ordered : ∃ mine theirs, Picked [] own mine ∧ Picked (own.map ParameterNode.key) shared theirs ∧
    merged = (mine ++ theirs).map fun e => e.2.parameter

/-- Of elements that a function tells apart, the one with a value of it is filtered out alone. -/
theorem filter_eq_singleton {α β : Type} [DecidableEq β] {f : α → β} {l : List α}
    (h : (l.map f).Nodup) {a : α} (ha : a ∈ l) : l.filter (fun b => f b = f a) = [a] := by
  obtain ⟨before, after, rfl⟩ := List.append_of_mem ha
  rw [List.map_append, List.map_cons, List.nodup_middle, List.nodup_cons, List.mem_append] at h
  have hnone : ∀ part : List α, f a ∉ part.map f → part.filter (fun b => f b = f a) = [] := by
    intro part hpart
    refine List.filter_eq_nil_iff.2 fun b hb hsame => hpart ?_
    exact List.mem_map.2 ⟨b, hb, of_decide_eq_true hsame⟩
  rw [List.filter_append, List.filter_cons_of_pos (by simp), hnone before fun hb => h.1 (.inl hb),
    hnone after fun ha => h.1 (.inr ha), List.nil_append]

theorem Merged.unique {own shared : List ParameterNode} {merged merged' : List Parameter}
    (h : Merged own shared merged) (h' : Merged own shared merged') : merged = merged' := by
  obtain ⟨mine, theirs, hmine, htheirs, rfl⟩ := h.ordered
  obtain ⟨mine', theirs', hmine', htheirs', rfl⟩ := h'.ordered
  rw [hmine.unique hmine', htheirs.unique htheirs']

/-- Parameters that are picked from an operation and then from its path are merged. -/
theorem merged_of_picked {own shared : List ParameterNode}
    {mine theirs : List (Nat × ParameterNode)} (hmine : Picked [] own mine)
    (htheirs : Picked (own.map ParameterNode.key) shared theirs) :
    Merged own shared ((mine ++ theirs).map fun e => e.2.parameter) := by
  have hchosen : ∀ e ∈ mine ++ theirs, e.2.name ≠ "" ∧ Chosen own shared e.2 := by
    intro e he
    rcases List.mem_append.1 he with he | he
    · have hfirst := ((hmine.mem_iff _ _).1 he).1
      exact ⟨hfirst.named, .inl ⟨e.1, hfirst⟩⟩
    · obtain ⟨hfirst, hnew⟩ := (htheirs.mem_iff _ _).1 he
      exact ⟨hfirst.named, .inr ⟨hnew, e.1, hfirst⟩⟩
  have hkeys : ((mine ++ theirs).map fun e => e.2.parameter).map Parameter.key =
      (mine.map fun e => e.2.key) ++ theirs.map fun e => e.2.key := by
    simp [Function.comp_def, key_parameter]
  have hdistinct : (((mine ++ theirs).map fun e => e.2.parameter).map Parameter.key).Nodup := by
    rw [hkeys]
    refine List.nodup_append.2 ⟨hmine.nodup_keys, htheirs.nodup_keys, ?_⟩
    rintro key hkey _ hkey' rfl
    obtain ⟨e, he, rfl⟩ := List.mem_map.1 hkey
    obtain ⟨e', he', hsame⟩ := List.mem_map.1 hkey'
    refine ((htheirs.mem_iff _ _).1 he').2 ?_
    rw [hsame]
    exact List.mem_map.2 ⟨e.2, (hmine.first he).mem, rfl⟩
  refine ⟨?_, hdistinct, ?_, mine, theirs, hmine, htheirs, rfl⟩
  · intro q hq
    obtain ⟨e, he, rfl⟩ := List.mem_map.1 hq
    exact (hchosen e he).1
  · intro name location hnamed hoccurs
    -- what occurs is picked from the operation, or else from the path
    have hpicked : (name, location) ∈ (mine ++ theirs).map fun e => e.2.key := by
      rw [List.map_append, List.mem_append] at hoccurs ⊢
      by_cases hown : (name, location) ∈ own.map ParameterNode.key
      · exact .inl ((hmine.mem_keys_iff (name, location) hnamed).2 hown)
      · refine .inr ?_
        have := (htheirs.mem_keys_iff (name, location) hnamed).2
          (List.mem_append_right _ (hoccurs.resolve_left hown))
        exact (List.mem_append.1 this).resolve_left hown
    obtain ⟨e, he, hkey⟩ := List.mem_map.1 hpicked
    obtain ⟨rfl, rfl⟩ := Prod.mk.inj hkey
    exact ⟨e.2, rfl, (hchosen e he).2, filter_eq_singleton hdistinct (List.mem_map.2 ⟨e, he, rfl⟩)⟩

theorem merged_mergeParameters (own shared : List ParameterNode) :
    Merged own shared (mergeParameters own shared) := by
  obtain ⟨mine, hmine, hown⟩ := foldl_addParameter [] own
  obtain ⟨theirs, htheirs, hshared⟩ :=
    foldl_addParameter (mine.map fun e => e.2.parameter) shared
  have hmerged : mergeParameters own shared = (mine ++ theirs).map fun e => e.2.parameter := by
    rw [mergeParameters, List.foldl_append, hown, List.nil_append, hshared, List.map_append]
  rw [hmerged]
  refine merged_of_picked hmine (htheirs.congr_taken fun key hnamed => ?_)
  rw [List.map_map]
  exact (hmine.mem_keys_iff key hnamed).symm

/-- **The parameters of an operation**, for every operation and whatever its path writes: each has a
name, no two have the same name and location, and each name and location that is written comes once,
as the first parameter that the operation writes with them says, or the first one that the path
writes if the operation writes none. They keep the order in which they are written, those of the
operation before those of the path. There is no other such list. -/
theorem operation_parameters (o : OperationNode) (m : Method) (path : String)
    (shared : List ParameterNode) (merged : List Parameter) :
    merged = (o.operation m path shared).parameters ↔ Merged o.parameters shared merged := by
  have hmerged : Merged o.parameters shared (o.operation m path shared).parameters :=
    merged_mergeParameters o.parameters shared
  constructor
  · rintro rfl
    exact hmerged
  · intro h
    exact h.unique hmerged

/-- Of three that are named alike at one place, the first one counts. -/
example : (mergeParameters
    [⟨"id", "path", true, none⟩, ⟨"", "query", false, none⟩, ⟨"id", "path", false, none⟩]
    [⟨"page", "query", false, none⟩, ⟨"id", "path", false, none⟩, ⟨"id", "query", false, none⟩]).map
      (fun p => (p.key, p.required)) =
    [(("id", "path"), true), (("page", "query"), false), (("id", "query"), false)] := by
  decide

end OpenApi

end ArchSpec
