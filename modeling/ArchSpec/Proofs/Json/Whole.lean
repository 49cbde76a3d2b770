import ArchSpec.Proofs.Json.Compact
import ArchSpec.Proofs.Json.Layout

/-!
# Values of whole numbers

A value whose numbers are all integers of 64 bits is written exactly and read back, at every depth
that is enough for its nesting and at no other. How deep a value may nest is a limit of a reader and
not of JSON, so reading takes the depth as an argument here.

* `Whole` — the values; `nesting` — how deep they are; `Whole.readable`, `Whole.exact`.
* `Whole.tooDeep` — values that are nested too deeply are refused.
* `readAt` — the reading of a whole text to a depth; `readAt_pretty` — what was laid out is read.
-/

namespace ArchSpec.Json

/-- A value without numbers but integers of 64 bits. -/
inductive Whole : Value → Prop where
  | null : Whole .null
  | bool (b : Bool) : Whole (.bool b)
  | int {i : Int} (low : -Nat.pow 2 63 ≤ i) (high : i ≤ maxWord) : Whole (.int i)
  | text (s : String) : Whole (.text s)
  | list {items : List Value} (members : ∀ v ∈ items, Whole v) : Whole (.list items)
  | object {fields : List (String × Value)} (members : ∀ f ∈ fields, Whole f.2) :
    Whole (.object fields)

/-- How many lists and objects of a value are inside of each other. -/
def nesting : Value → Nat
  | .list items => nestingOfItems items + 1
  | .object fields => nestingOfFields fields + 1
  | _ => 0
where
  /-- The deepest nesting of some items. -/
  nestingOfItems : List Value → Nat
    | [] => 0
    | v :: rest => max (nesting v) (nestingOfItems rest)
  /-- The deepest nesting of some fields. -/
  nestingOfFields : List (String × Value) → Nat
    | [] => 0
    | (_, v) :: rest => max (nesting v) (nestingOfFields rest)

open nesting

theorem nesting_le_of_mem_items {v : Value} {items : List Value} (h : v ∈ items) :
    nesting v ≤ nestingOfItems items := by
  induction items with
  | nil => cases h
  | cons w rest ih =>
    rw [nestingOfItems]
    rcases List.mem_cons.1 h with rfl | h
    · exact Nat.le_max_left _ _
    · exact Nat.le_trans (ih h) (Nat.le_max_right _ _)

theorem nesting_le_of_mem_fields {f : String × Value} {fields : List (String × Value)}
    (h : f ∈ fields) : nesting f.2 ≤ nestingOfFields fields := by
  induction fields with
  | nil => cases h
  | cons g rest ih =>
    rw [nestingOfFields]
    rcases List.mem_cons.1 h with rfl | h
    · exact Nat.le_max_left _ _
    · exact Nat.le_trans (ih h) (Nat.le_max_right _ _)

namespace Whole

variable {v : Value}

theorem exact (h : Whole v) : Exact v := by
  induction h with
  | null => exact .null
  | bool b => exact .bool b
  | @int i _ _ => exact .int i
  | text s => exact .text s
  | list _ ih => exact .list ih
  | object _ ih => exact .object ih

/-- A value is read back where its nesting may open. -/
theorem readable (h : Whole v) {depth : Nat} (hdepth : nesting v ≤ depth) : Readable depth v := by
  induction h generalizing depth with
  | null => exact .null
  | bool b => exact .bool b
  | int low high => exact .int low high
  | text s => exact .text s
  | @list items _ ih =>
    rw [nesting] at hdepth
    obtain ⟨depth, rfl⟩ := Nat.exists_eq_add_one_of_ne_zero (n := depth) (by omega)
    refine .list fun v hv => ih v hv ?_
    have := nesting_le_of_mem_items hv
    omega
  | @object fields _ ih =>
    rw [nesting] at hdepth
    obtain ⟨depth, rfl⟩ := Nat.exists_eq_add_one_of_ne_zero (n := depth) (by omega)
    refine .object fun f hf => ih f hf ?_
    have := nesting_le_of_mem_fields hf
    omega

theorem texts (xs : List String) : Whole (.texts xs) := by
  refine .list fun v hv => ?_
  obtain ⟨s, _, rfl⟩ := List.mem_map.1 hv
  exact .text s

/-- An object of given fields has no other ones. -/
theorem ofFields {fields : List (String × Value)} (h : ∀ f ∈ fields, Whole f.2) :
    Whole (.ofFields fields) :=
  .object fun f hf => h f ((mem_foldl_insertEntry hf).resolve_right List.not_mem_nil)

end Whole

/-! ## Values that are nested too deeply -/

section

open prettyChars

/-- That a value is refused for its nesting at the front of every text, whatever ends it. -/
def TooDeep (depth : Nat) (v : Value) : Prop :=
  ∀ level fuel r, (prettyChars level v).length ≤ fuel → EndsValue r →
    readValue depth fuel (prettyChars level v ++ r) = .error .tooDeep

/-- Of items that can be read or are too deep, the first that is too deep is reported. -/
theorem readItems_tooDeep {depth : Nat} (level : Nat) {items : List Value}
    (hread : ∀ v ∈ items, nesting v ≤ depth → ReadsBack depth v)
    (hdeep : ∀ v ∈ items, depth < nesting v → TooDeep depth v)
    (h : depth < nestingOfItems items) (fuel : Nat) {r : List Char} (hr : EndsValue r)
    (hfuel : (prettyItems level items).length ≤ fuel) :
    readItems depth fuel (prettyItems level items ++ r) = .error .tooDeep := by
  induction items generalizing fuel with
  | nil => cases h
  | cons v rest ih =>
    have hread' := fun w hw => hread w (List.mem_cons_of_mem v hw)
    have hdeep' := fun w hw => hdeep w (List.mem_cons_of_mem v hw)
    rw [nestingOfItems] at h
    cases rest with
    | nil =>
      rw [prettyItems] at hfuel ⊢
      rw [nestingOfItems, Nat.max_zero] at h
      simp only [newline, List.length_append, List.length_cons] at hfuel
      obtain ⟨fuel, rfl⟩ := Nat.exists_eq_add_one_of_ne_zero (n := fuel) (by omega)
      rw [List.append_assoc]
      refine readItems_error ?_
      rw [readValue_newline]
      exact hdeep v List.mem_cons_self h level fuel r (by omega) hr
    | cons w rest =>
      rw [prettyItems_cons_cons] at hfuel ⊢
      simp only [newline, List.length_append, List.length_cons] at hfuel
      obtain ⟨fuel, rfl⟩ := Nat.exists_eq_add_one_of_ne_zero (n := fuel) (by omega)
      rw [List.append_assoc, List.append_assoc, List.cons_append]
      by_cases hv : depth < nesting v
      · refine readItems_error ?_
        rw [readValue_newline]
        exact hdeep v List.mem_cons_self hv level fuel _ (by omega) (endsValue_cons (by decide))
      · have hfirst := hread v List.mem_cons_self (by omega) level fuel
          (',' :: (prettyItems level (w :: rest) ++ r)) (by omega) (endsValue_cons (by decide))
        rw [← readValue_newline level] at hfirst
        rw [readItems_more hfirst (skipSpace_cons rfl),
          ih hread' hdeep' (by omega) fuel (by omega)]
        rfl

/-- Of fields that can be read or are too deep, the first that is too deep is reported. -/
theorem readFields_tooDeep {depth : Nat} (level : Nat) {fields : List (String × Value)}
    (hread : ∀ f ∈ fields, nesting f.2 ≤ depth → ReadsBack depth f.2)
    (hdeep : ∀ f ∈ fields, depth < nesting f.2 → TooDeep depth f.2)
    (h : depth < nestingOfFields fields) (seen : List (String × Value)) (fuel : Nat)
    {r : List Char} (hr : EndsValue r) (hfuel : (prettyFields level fields).length ≤ fuel) :
    readFields depth seen fuel (prettyFields level fields ++ r) = .error .tooDeep := by
  induction fields generalizing seen fuel with
  | nil => cases h
  | cons f rest ih =>
    obtain ⟨k, v⟩ := f
    have hfirst : nesting v ≤ depth → ReadsBack depth v := hread (k, v) List.mem_cons_self
    have hfirst' : depth < nesting v → TooDeep depth v := hdeep (k, v) List.mem_cons_self
    have hread' := fun g hg => hread g (List.mem_cons_of_mem (k, v) hg)
    have hdeep' := fun g hg => hdeep g (List.mem_cons_of_mem (k, v) hg)
    rw [nestingOfFields] at h
    cases rest with
    | nil =>
      rw [prettyFields] at hfuel ⊢
      rw [nestingOfFields, Nat.max_zero] at h
      simp only [newline, List.length_append, List.length_cons] at hfuel
      obtain ⟨fuel, rfl⟩ := Nat.exists_eq_add_one_of_ne_zero (n := fuel) (by omega)
      rw [List.append_assoc, List.append_assoc, List.cons_append, List.cons_append]
      refine readFields_error (skipSpace_field _ _ _) ?_
      rw [readValue_blank]
      exact hfirst' h level fuel r (by omega) hr
    | cons g rest =>
      obtain ⟨k', v'⟩ := g
      rw [prettyFields_cons_cons] at hfuel ⊢
      simp only [newline, List.length_append, List.length_cons] at hfuel
      obtain ⟨fuel, rfl⟩ := Nat.exists_eq_add_one_of_ne_zero (n := fuel) (by omega)
      simp only [List.append_assoc, List.cons_append]
      by_cases hv : depth < nesting v
      · refine readFields_error (skipSpace_field _ _ _) ?_
        rw [readValue_blank]
        exact hfirst' hv level fuel _ (by omega) (endsValue_cons (by decide))
      · have hvalue := (hfirst (by omega)).field level fuel
          (',' :: (prettyFields level ((k', v') :: rest) ++ r)) (by omega)
          (endsValue_cons (by decide))
        rw [readFields_more (skipSpace_field _ _ _) hvalue (skipSpace_cons rfl)]
        exact ih hread' hdeep' (by omega) (insertEntry k (inOrder v) seen) fuel (by omega)

/-- A list is refused if it may not open, and if one of its items is. -/
theorem tooDeep_list {depth : Nat} {items : List Value} (members : ∀ v ∈ items, Whole v)
    (hdeep : ∀ v ∈ items, ∀ depth, depth < nesting v → TooDeep depth v)
    (hdepth : depth < nesting (.list items)) (level fuel : Nat) (r : List Char)
    (hfuel : (prettyChars level (.list items)).length ≤ fuel + 1) :
    readValue depth (fuel + 1) (prettyChars level (.list items) ++ r) = .error .tooDeep := by
  cases depth with
  | zero =>
    obtain ⟨cs, hcs⟩ : ∃ cs, prettyChars level (.list items) = '[' :: cs := by
      cases items <;> exact ⟨_, rfl⟩
    rw [hcs, List.cons_append, readValue]
    rfl
  | succ depth =>
    have hdepth : depth < nestingOfItems items := Nat.lt_of_succ_lt_succ hdepth
    cases items with
    | nil => cases hdepth
    | cons v rest =>
      have hlen : (prettyItems (level + 1) (v :: rest)).length ≤ fuel := by
        simp only [prettyChars, List.length_cons, List.length_append] at hfuel
        omega
      have hv := (members v List.mem_cons_self).readable (Nat.le_refl _)
      have hhead := skipSpace_prettyItems hv (level + 1) rest (newline level ++ ']' :: r)
      have hitems := readItems_tooDeep (level + 1)
        (fun w hw hle => readValue_pretty ((members w hw).readable hle))
        (fun w hw => hdeep w hw depth) hdepth fuel (r := newline level ++ ']' :: r)
        (endsValue_cons (by decide)) hlen
      have htext : prettyChars level (.list (v :: rest)) ++ r =
          '[' :: (prettyItems (level + 1) (v :: rest) ++ (newline level ++ ']' :: r)) := by
        simp [prettyChars]
      rw [htext, readValue_list hhead, hitems]
      rfl

/-- An object is refused if it may not open, and if one of its values is. -/
theorem tooDeep_object {depth : Nat} {fields : List (String × Value)}
    (members : ∀ f ∈ fields, Whole f.2)
    (hdeep : ∀ f ∈ fields, ∀ depth, depth < nesting f.2 → TooDeep depth f.2)
    (hdepth : depth < nesting (.object fields)) (level fuel : Nat) (r : List Char)
    (hfuel : (prettyChars level (.object fields)).length ≤ fuel + 1) :
    readValue depth (fuel + 1) (prettyChars level (.object fields) ++ r) = .error .tooDeep := by
  cases depth with
  | zero =>
    obtain ⟨cs, hcs⟩ : ∃ cs, prettyChars level (.object fields) = '\x7b' :: cs := by
      cases fields <;> exact ⟨_, rfl⟩
    rw [hcs, List.cons_append, readValue]
    rfl
  | succ depth =>
    have hdepth : depth < nestingOfFields fields := Nat.lt_of_succ_lt_succ hdepth
    cases fields with
    | nil => cases hdepth
    | cons f rest =>
      have hlen : (prettyFields (level + 1) (f :: rest)).length ≤ fuel := by
        simp only [prettyChars, List.length_cons, List.length_append] at hfuel
        omega
      have hhead := skipSpace_prettyFields (level + 1) f rest (newline level ++ '\x7d' :: r)
      have hfields := readFields_tooDeep (level + 1)
        (fun g hg hle => readValue_pretty ((members g hg).readable hle))
        (fun g hg => hdeep g hg depth) hdepth [] fuel (r := newline level ++ '\x7d' :: r)
        (endsValue_cons (by decide)) hlen
      have htext : prettyChars level (.object (f :: rest)) ++ r = '\x7b' ::
          (prettyFields (level + 1) (f :: rest) ++ (newline level ++ '\x7d' :: r)) := by
        simp [prettyChars]
      rw [htext, readValue_object hhead, hfields]
      rfl

theorem tooDeep_of_succ {depth : Nat} {v : Value} (hv : Whole v)
    (h : ∀ level fuel r, (prettyChars level v).length ≤ fuel + 1 →
      readValue depth (fuel + 1) (prettyChars level v ++ r) = .error .tooDeep) :
    TooDeep depth v := by
  intro level fuel r hfuel _
  obtain ⟨c, cs, hcs, _⟩ := prettyChars_head (hv.readable (Nat.le_refl _)) level
  cases fuel with
  | zero =>
    rw [hcs] at hfuel
    cases hfuel
  | succ fuel => exact h level fuel r hfuel

/-- **A value is refused where its nesting may not open.** -/
theorem Whole.tooDeep {v : Value} (h : Whole v) : ∀ depth, depth < nesting v → TooDeep depth v := by
  induction h with
  | null | bool | int | text => exact fun _ hdepth => nomatch hdepth
  | list members ih =>
    exact fun _ hdepth => tooDeep_of_succ (.list members) (tooDeep_list members ih hdepth)
  | object members ih =>
    exact fun _ hdepth => tooDeep_of_succ (.object members) (tooDeep_object members ih hdepth)

end

/-! ## Reading to a depth -/

/-- Read a whole text where lists and objects may nest to a depth. -/
def readAt (depth : Nat) (s : String) : Except Fault Value := do
  let (v, rest) ← readValue depth (s.toList.length + 1) s.toList
  if (skipSpace rest).isEmpty then return v else throw .trailing

theorem read_eq_readAt (s : String) : read s = readAt maxDepth s := rfl

/-- **What was laid out is read back** at every depth that is enough, also with a line break after
it, and refused at every other one. -/
theorem readAt_pretty {v : Value} (h : Whole v) (depth : Nat) :
    readAt depth (pretty v ++ "\n") =
      if nesting v ≤ depth then .ok (inOrder v) else .error .tooDeep := by
  have hlist : (pretty v ++ "\n").toList = prettyChars 0 v ++ ['\n'] := by
    rw [pretty, String.toList_append, String.toList_ofList]
    rfl
  have hfuel : (prettyChars 0 v).length ≤ (prettyChars 0 v ++ ['\n']).length + 1 := by
    rw [List.length_append]
    omega
  have hend : EndsValue ['\n'] := endsValue_cons (by decide)
  rw [readAt, hlist]
  split
  · rename_i hdepth
    rw [readValue_pretty (h.readable hdepth) 0 _ _ hfuel hend]
    rfl
  · rename_i hdepth
    rw [h.tooDeep depth (Nat.lt_of_not_le hdepth) 0 _ _ hfuel hend]
    rfl

end ArchSpec.Json
