import Mathlib.Data.List.DropRight
import ArchSpec.Proofs.Json.Token

/-!
# Reading what was laid out

`Json.read` gives back every value that `Json.pretty` lays out, as long as the value has no number
of double precision, its integers fit 64 bits and it does not nest too deeply. The layout itself is
no obstacle: line breaks and indentation stand only where the reader skips blanks. Fields that were
written in another order come back in the order of their keys, one for each key.

* `inOrder` — a value with the fields of all its objects in order.
* `Readable` — the values that are read back; `Readable.mono` — a greater depth does no harm.
* `readValue_pretty` — a value is read back from the front of a text.
* `read_pretty` — the reading of a whole text.
-/

namespace ArchSpec.Json

/-- A value with the fields of all its objects in the order of their keys. -/
def inOrder : Value → Value
  | .list items => .list (itemsInOrder items)
  | .object fields => .ofFields (fieldsInOrder fields)
  | v => v
where
  /-- The items of a list, each in order. -/
  itemsInOrder : List Value → List Value
    | [] => []
    | v :: rest => inOrder v :: itemsInOrder rest
  /-- The fields of an object as they come, each with its value in order. -/
  fieldsInOrder : List (String × Value) → List (String × Value)
    | [] => []
    | (k, v) :: rest => (k, inOrder v) :: fieldsInOrder rest

theorem itemsInOrder_eq (items : List Value) :
    inOrder.itemsInOrder items = items.map inOrder := by
  induction items with
  | nil => rfl
  | cons v rest ih => rw [inOrder.itemsInOrder, ih, List.map_cons]

theorem fieldsInOrder_eq (fields : List (String × Value)) :
    inOrder.fieldsInOrder fields = fields.map fun f => (f.1, inOrder f.2) := by
  induction fields with
  | nil => rfl
  | cons f rest ih => rw [inOrder.fieldsInOrder, ih, List.map_cons]

theorem inOrder_text (s : String) : inOrder (.text s) = .text s := by
  rw [inOrder.eq_def]

/-- A value that is read back where `depth` more levels may open. -/
inductive Readable : Nat → Value → Prop where
  | null {depth : Nat} : Readable depth .null
  | bool {depth : Nat} (b : Bool) : Readable depth (.bool b)
  | int {depth : Nat} {i : Int} (low : -Nat.pow 2 63 ≤ i) (high : i ≤ maxWord) :
    Readable depth (.int i)
  | text {depth : Nat} (s : String) : Readable depth (.text s)
  | list {depth : Nat} {items : List Value} (members : ∀ v ∈ items, Readable depth v) :
    Readable (depth + 1) (.list items)
  | object {depth : Nat} {fields : List (String × Value)}
    (members : ∀ f ∈ fields, Readable depth f.2) : Readable (depth + 1) (.object fields)

theorem Readable.succ {depth : Nat} {v : Value} (h : Readable depth v) :
    Readable (depth + 1) v := by
  induction h with
  | null => exact .null
  | bool b => exact .bool b
  | int low high => exact .int low high
  | text s => exact .text s
  | list _ ih => exact .list ih
  | object _ ih => exact .object ih

theorem Readable.mono {depth depth' : Nat} {v : Value} (hle : depth ≤ depth')
    (h : Readable depth v) : Readable depth' v := by
  induction hle with
  | refl => exact h
  | step _ ih => exact ih.succ

/-! ## Blanks -/

theorem skipSpace_cons {c : Char} {cs : List Char} (h : isSpace c = false) :
    skipSpace (c :: cs) = c :: cs := by
  simp [skipSpace, h]

theorem skipSpace_newline (level : Nat) (cs : List Char) :
    skipSpace (newline level ++ cs) = skipSpace cs := by
  unfold skipSpace
  refine List.dropWhile_append_of_pos fun c hc => ?_
  rcases List.mem_cons.1 hc with rfl | hc
  · rfl
  · rw [List.eq_of_mem_replicate hc]
    rfl

theorem skipSpace_skipSpace (cs : List Char) : skipSpace (skipSpace cs) = skipSpace cs :=
  List.dropWhile_idempotent isSpace cs

theorem readValue_skipSpace (depth fuel : Nat) (cs : List Char) :
    readValue depth fuel (skipSpace cs) = readValue depth fuel cs := by
  cases fuel with
  | zero => rw [readValue, readValue]
  | succ fuel => rw [readValue, readValue, skipSpace_skipSpace]

theorem readValue_newline (level depth fuel : Nat) (cs : List Char) :
    readValue depth fuel (newline level ++ cs) = readValue depth fuel cs := by
  rw [← readValue_skipSpace, skipSpace_newline, readValue_skipSpace]

theorem readValue_blank (depth fuel : Nat) (cs : List Char) :
    readValue depth fuel (' ' :: cs) = readValue depth fuel cs := by
  rw [← readValue_skipSpace, show skipSpace (' ' :: cs) = skipSpace cs from rfl,
    readValue_skipSpace]

theorem readItems_skipSpace (depth fuel : Nat) (cs : List Char) :
    readItems depth fuel (skipSpace cs) = readItems depth fuel cs := by
  cases fuel with
  | zero => rw [readItems, readItems]
  | succ fuel => rw [readItems, readItems, readValue_skipSpace]

theorem readFields_skipSpace (depth : Nat) (seen : List (String × Value)) (fuel : Nat)
    (cs : List Char) :
    readFields depth seen fuel (skipSpace cs) = readFields depth seen fuel cs := by
  cases fuel with
  | zero => rw [readFields, readFields]
  | succ fuel => rw [readFields, readFields, skipSpace_skipSpace]

/-! ## Numbers -/

theorem isSpace_of_isDigit {c : Char} (hc : isDigit c = true) : isSpace c = false := by
  simp only [isSpace, Bool.or_eq_false_iff, decide_eq_false_iff_not]
  refine ⟨⟨⟨?_, ?_⟩, ?_⟩, ?_⟩ <;> (rintro rfl; exact absurd hc (by decide))

theorem readValue_digit {depth fuel : Nat} {c : Char} (hc : isDigit c = true) (cs : List Char) :
    readValue depth (fuel + 1) (c :: cs) = readNumber false (c :: cs) := by
  rw [readValue, skipSpace_cons (isSpace_of_isDigit hc)]
  split
  all_goals first
    | simp_all; done
    | (rename_i h; cases h; exact absurd hc (by decide))

theorem readValue_int {depth fuel : Nat} {i : Int} (low : -Nat.pow 2 63 ≤ i)
    (high : i ≤ maxWord) {r : List Char} (hr : EndsValue r) :
    readValue depth (fuel + 1) (intDigits i ++ r) = .ok (.int i, r) := by
  have hword : Nat.pow 2 63 ≤ maxWord := by decide
  unfold intDigits
  split
  · rename_i hneg
    rw [List.cons_append, readValue, skipSpace_cons rfl]
    simp only
    rw [readNumber_natDigits true (by omega) hr, readAfterInteger_endsValue _ _ hr,
      if_neg (by decide), if_neg (by omega), show -(i.natAbs : Int) = i by omega]
  · rename_i hpos
    cases hd : natDigits i.natAbs with
    | nil => exact absurd hd Nat.toDigits_ne_nil
    | cons c cs =>
      have hc : isDigit c = true := isDigit_of_mem_natDigits (n := i.natAbs) (by simp [hd])
      rw [List.cons_append, readValue_digit hc, ← List.cons_append, ← hd,
        readNumber_natDigits false (by omega) hr, readAfterInteger_endsValue _ _ hr,
        if_pos (by decide), show (i.natAbs : Int) = i by omega]

/-! ## Members, one at a time -/

section

variable {depth fuel : Nat} {seen : List (String × Value)} {v : Value}
  {cs rest rest' r : List Char}

theorem readItems_last (hv : readValue depth fuel cs = .ok (v, rest))
    (hrest : skipSpace rest = ']' :: r) : readItems depth (fuel + 1) cs = .ok ([v], r) := by
  rw [readItems, hv]
  simp only [bind, Except.bind]
  rw [hrest]
  rfl

theorem readItems_more (hv : readValue depth fuel cs = .ok (v, rest))
    (hrest : skipSpace rest = ',' :: rest') :
    readItems depth (fuel + 1) cs = (readItems depth fuel rest').map fun r => (v :: r.1, r.2) := by
  rw [readItems, hv]
  simp only [bind, Except.bind]
  rw [hrest]
  rfl

theorem readItems_error {e : Fault} (hv : readValue depth fuel cs = .error e) :
    readItems depth (fuel + 1) cs = .error e := by
  rw [readItems, hv]
  rfl

/-- Behind a key and a colon a value is read, and then the other fields. -/
theorem readFields_key {k : String} (hcs : skipSpace cs = quote k.toList ++ ':' :: rest') :
    readFields depth seen (fuel + 1) cs = (do
      let (v, rest) ← readValue depth fuel rest'
      match skipSpace rest with
      | '\x7d' :: rest => return (insertEntry k v seen, rest)
      | ',' :: rest => readFields depth (insertEntry k v seen) fuel rest
      | [] => throw .endOfText
      | _ => throw .unexpected) := by
  rw [readFields, hcs, quote_append]
  simp only [bind, Except.bind]
  rw [readText_escaped]
  simp only
  rw [skipSpace_cons rfl, String.ofList_toList]
  rfl

theorem readFields_last {k : String} (hcs : skipSpace cs = quote k.toList ++ ':' :: rest')
    (hv : readValue depth fuel rest' = .ok (v, rest)) (hrest : skipSpace rest = '\x7d' :: r) :
    readFields depth seen (fuel + 1) cs = .ok (insertEntry k v seen, r) := by
  rw [readFields_key hcs, hv]
  simp only [bind, Except.bind]
  rw [hrest]
  rfl

theorem readFields_more {k : String} {rest'' : List Char}
    (hcs : skipSpace cs = quote k.toList ++ ':' :: rest')
    (hv : readValue depth fuel rest' = .ok (v, rest)) (hrest : skipSpace rest = ',' :: rest'') :
    readFields depth seen (fuel + 1) cs =
      readFields depth (insertEntry k v seen) fuel rest'' := by
  rw [readFields_key hcs, hv]
  simp only [bind, Except.bind]
  rw [hrest]
  rfl

theorem readFields_error {k : String} {e : Fault}
    (hcs : skipSpace cs = quote k.toList ++ ':' :: rest')
    (hv : readValue depth fuel rest' = .error e) :
    readFields depth seen (fuel + 1) cs = .error e := by
  rw [readFields_key hcs, hv]
  rfl

end

/-! ## Values with members -/

section

open prettyChars inOrder

theorem prettyItems_cons_cons (level : Nat) (v w : Value) (rest : List Value) :
    prettyItems level (v :: w :: rest) =
      newline level ++ (prettyChars level v ++ ',' :: prettyItems level (w :: rest)) := by
  simp [prettyItems]

theorem prettyFields_cons_cons (level : Nat) (k : String) (v : Value) (g : String × Value)
    (rest : List (String × Value)) :
    prettyFields level ((k, v) :: g :: rest) =
      newline level ++ (quote k.toList ++ ':' :: ' ' ::
        (prettyChars level v ++ ',' :: prettyFields level (g :: rest))) := by
  simp [prettyFields]

/-- What begins a value is neither a blank nor the end of a list. -/
theorem prettyChars_head {depth : Nat} {v : Value} (h : Readable depth v) (level : Nat) :
    ∃ c cs, prettyChars level v = c :: cs ∧ isSpace c = false ∧ c ≠ ']' := by
  cases h with
  | null => exact ⟨_, _, rfl, rfl, by decide⟩
  | bool b => cases b <;> exact ⟨_, _, rfl, rfl, by decide⟩
  | @int _ i low high =>
    rw [prettyChars, intDigits]
    split
    · exact ⟨_, _, rfl, rfl, by decide⟩
    · cases hd : natDigits i.natAbs with
      | nil => exact absurd hd Nat.toDigits_ne_nil
      | cons c cs =>
        have hc : isDigit c = true := isDigit_of_mem_natDigits (n := i.natAbs) (by simp [hd])
        refine ⟨c, cs, rfl, isSpace_of_isDigit hc, ?_⟩
        rintro rfl
        exact absurd hc (by decide)
  | text s => exact ⟨_, _, rfl, rfl, by decide⟩
  | @list _ items _ => cases items <;> exact ⟨_, _, rfl, rfl, by decide⟩
  | @object _ fields _ => cases fields <;> exact ⟨_, _, rfl, rfl, by decide⟩

/-- That a value is read back from the front of every text, whatever ends it. -/
def ReadsBack (depth : Nat) (v : Value) : Prop :=
  ∀ level fuel r, (prettyChars level v).length ≤ fuel → EndsValue r →
    readValue depth fuel (prettyChars level v ++ r) = .ok (inOrder v, r)

/-- Items that are read back one by one are read back as a list. -/
theorem readItems_pretty {depth : Nat} (level level' : Nat) {v : Value} {rest : List Value}
    (h : ∀ w ∈ v :: rest, ReadsBack depth w) (fuel : Nat) (r : List Char)
    (hfuel : (prettyItems level (v :: rest)).length ≤ fuel) :
    readItems depth fuel (prettyItems level (v :: rest) ++ (newline level' ++ ']' :: r)) =
      .ok (itemsInOrder (v :: rest), r) := by
  induction rest generalizing v fuel with
  | nil =>
    rw [prettyItems] at hfuel ⊢
    simp only [newline, List.length_append, List.length_cons] at hfuel
    obtain ⟨fuel, rfl⟩ := Nat.exists_eq_add_one_of_ne_zero (n := fuel) (by omega)
    have hv := h v List.mem_cons_self level fuel (newline level' ++ ']' :: r) (by omega)
      (endsValue_cons (by decide))
    have hend : skipSpace (newline level' ++ ']' :: r) = ']' :: r := by
      rw [skipSpace_newline, skipSpace_cons rfl]
    rw [← readValue_newline level] at hv
    rw [List.append_assoc]
    exact readItems_last hv hend
  | cons w rest ih =>
    rw [prettyItems_cons_cons] at hfuel ⊢
    simp only [newline, List.length_append, List.length_cons] at hfuel
    obtain ⟨fuel, rfl⟩ := Nat.exists_eq_add_one_of_ne_zero (n := fuel) (by omega)
    have hv := h v List.mem_cons_self level fuel
      (',' :: (prettyItems level (w :: rest) ++ (newline level' ++ ']' :: r))) (by omega)
      (endsValue_cons (by decide))
    have hvs := ih (fun u hu => h u (List.mem_cons_of_mem _ hu)) fuel (by omega)
    rw [← readValue_newline level] at hv
    rw [List.append_assoc, List.append_assoc, List.cons_append]
    rw [readItems_more hv (skipSpace_cons rfl), hvs]
    rfl

theorem skipSpace_field (level : Nat) (k cs : List Char) :
    skipSpace (newline level ++ (quote k ++ cs)) = quote k ++ cs := by
  rw [skipSpace_newline, quote_append, skipSpace_cons rfl]

theorem ReadsBack.field {depth : Nat} {v : Value} (h : ReadsBack depth v) (level fuel : Nat)
    (r : List Char) (hfuel : (prettyChars level v).length ≤ fuel) (hr : EndsValue r) :
    readValue depth fuel (' ' :: (prettyChars level v ++ r)) = .ok (inOrder v, r) := by
  rw [readValue_blank]
  exact h level fuel r hfuel hr

/-- Fields that are read back one by one are put among those already read. -/
theorem readFields_pretty {depth : Nat} (level level' : Nat) {k : String} {v : Value}
    {rest : List (String × Value)} (h : ∀ g ∈ (k, v) :: rest, ReadsBack depth g.2)
    (seen : List (String × Value)) (fuel : Nat) (r : List Char)
    (hfuel : (prettyFields level ((k, v) :: rest)).length ≤ fuel) :
    readFields depth seen fuel (prettyFields level ((k, v) :: rest) ++
      (newline level' ++ '\x7d' :: r)) =
      .ok ((fieldsInOrder ((k, v) :: rest)).foldl (fun acc f => insertEntry f.1 f.2 acc) seen,
        r) := by
  have hv : ReadsBack depth v := h (k, v) List.mem_cons_self
  induction rest generalizing k v seen fuel with
  | nil =>
    rw [prettyFields] at hfuel ⊢
    simp only [newline, List.length_append, List.length_cons] at hfuel
    obtain ⟨fuel, rfl⟩ := Nat.exists_eq_add_one_of_ne_zero (n := fuel) (by omega)
    have hread := hv.field level fuel (newline level' ++ '\x7d' :: r) (by omega)
      (endsValue_cons (by decide))
    have hend : skipSpace (newline level' ++ '\x7d' :: r) = '\x7d' :: r := by
      rw [skipSpace_newline, skipSpace_cons rfl]
    rw [List.append_assoc, List.append_assoc, List.cons_append, List.cons_append]
    exact readFields_last (skipSpace_field _ _ _) hread hend
  | cons g rest ih =>
    obtain ⟨k', v'⟩ := g
    rw [prettyFields_cons_cons] at hfuel ⊢
    simp only [newline, List.length_append, List.length_cons] at hfuel
    obtain ⟨fuel, rfl⟩ := Nat.exists_eq_add_one_of_ne_zero (n := fuel) (by omega)
    have hread := hv.field level fuel
      (',' :: (prettyFields level ((k', v') :: rest) ++ (newline level' ++ '\x7d' :: r)))
      (by omega) (endsValue_cons (by decide))
    have hfs := ih (fun g hg => h g (List.mem_cons_of_mem _ hg)) (insertEntry k (inOrder v) seen)
      fuel (by omega) (h (k', v') (by simp))
    simp only [List.append_assoc, List.cons_append]
    exact (readFields_more (skipSpace_field _ _ _) hread (skipSpace_cons rfl)).trans hfs

theorem readValue_list {depth fuel : Nat} {cs : List Char} (h : ∀ r, skipSpace cs ≠ ']' :: r) :
    readValue (depth + 1) (fuel + 1) ('[' :: cs) =
      (readItems depth fuel cs).map fun r => (.list r.1, r.2) := by
  rw [readValue, skipSpace_cons rfl]
  simp only
  rw [readItems_skipSpace]

theorem readValue_object {depth fuel : Nat} {cs : List Char}
    (h : ∀ r, skipSpace cs ≠ '\x7d' :: r) :
    readValue (depth + 1) (fuel + 1) ('\x7b' :: cs) =
      (readFields depth [] fuel cs).map fun r => (.object r.1, r.2) := by
  rw [readValue, skipSpace_cons rfl]
  simp only
  rw [readFields_skipSpace]

/-- What stands behind an opening bracket is not the closing one. -/
theorem skipSpace_prettyItems {depth : Nat} {v : Value} (h : Readable depth v) (level : Nat)
    (rest : List Value) (cs r : List Char) :
    skipSpace (prettyItems level (v :: rest) ++ cs) ≠ ']' :: r := by
  obtain ⟨c, tail, hv, hspace, hc⟩ := prettyChars_head h level
  intro hcs
  cases rest with
  | nil =>
    rw [prettyItems, List.append_assoc, skipSpace_newline, hv, List.cons_append,
      skipSpace_cons hspace] at hcs
    exact hc (List.cons.inj hcs).1
  | cons w rest =>
    rw [prettyItems_cons_cons, List.append_assoc, skipSpace_newline, hv, List.cons_append,
      List.cons_append, skipSpace_cons hspace] at hcs
    exact hc (List.cons.inj hcs).1

theorem skipSpace_prettyFields (level : Nat) (f : String × Value) (rest : List (String × Value))
    (cs r : List Char) : skipSpace (prettyFields level (f :: rest) ++ cs) ≠ '\x7d' :: r := by
  intro hcs
  cases rest with
  | nil =>
    rw [prettyFields, List.append_assoc, List.append_assoc, skipSpace_field, quote_append] at hcs
    exact absurd (List.cons.inj hcs).1 (by decide)
  | cons g rest =>
    rw [prettyFields_cons_cons, List.append_assoc, List.append_assoc, skipSpace_field,
      quote_append] at hcs
    exact absurd (List.cons.inj hcs).1 (by decide)

theorem readsBack_of_succ {depth : Nat} {v : Value} (hv : Readable depth v)
    (h : ∀ level fuel r, (prettyChars level v).length ≤ fuel + 1 → EndsValue r →
      readValue depth (fuel + 1) (prettyChars level v ++ r) = .ok (inOrder v, r)) :
    ReadsBack depth v := by
  intro level fuel r hfuel hr
  obtain ⟨c, cs, hcs, _⟩ := prettyChars_head hv level
  cases fuel with
  | zero =>
    rw [hcs] at hfuel
    cases hfuel
  | succ fuel => exact h level fuel r hfuel hr

/-- A list is read back if its items are. -/
theorem readValue_prettyList {depth : Nat} {items : List Value}
    (members : ∀ v ∈ items, Readable depth v) (h : ∀ v ∈ items, ReadsBack depth v)
    (level fuel : Nat) (r : List Char)
    (hfuel : (prettyChars level (.list items)).length ≤ fuel + 1) :
    readValue (depth + 1) (fuel + 1) (prettyChars level (.list items) ++ r) =
      .ok (inOrder (.list items), r) := by
  cases items with
  | nil =>
    rw [prettyChars, readValue]
    rfl
  | cons v rest =>
    have hlen : (prettyItems (level + 1) (v :: rest)).length ≤ fuel := by
      simp only [prettyChars, List.length_cons, List.length_append] at hfuel
      omega
    have hhead := skipSpace_prettyItems (members v List.mem_cons_self) (level + 1) rest
      (newline level ++ ']' :: r)
    have hitems := readItems_pretty (level + 1) level h fuel r hlen
    have htext : prettyChars level (.list (v :: rest)) ++ r =
        '[' :: (prettyItems (level + 1) (v :: rest) ++ (newline level ++ ']' :: r)) := by
      simp [prettyChars]
    rw [htext, readValue_list hhead, hitems]
    rfl

/-- An object is read back if its values are. -/
theorem readValue_prettyObject {depth : Nat} {fields : List (String × Value)}
    (h : ∀ f ∈ fields, ReadsBack depth f.2) (level fuel : Nat) (r : List Char)
    (hfuel : (prettyChars level (.object fields)).length ≤ fuel + 1) :
    readValue (depth + 1) (fuel + 1) (prettyChars level (.object fields) ++ r) =
      .ok (inOrder (.object fields), r) := by
  cases fields with
  | nil =>
    rw [prettyChars, readValue]
    rfl
  | cons f rest =>
    obtain ⟨k, v⟩ := f
    have hlen : (prettyFields (level + 1) ((k, v) :: rest)).length ≤ fuel := by
      simp only [prettyChars, List.length_cons, List.length_append] at hfuel
      omega
    have hhead := skipSpace_prettyFields (level + 1) (k, v) rest (newline level ++ '\x7d' :: r)
    have hfields := readFields_pretty (level + 1) level h [] fuel r hlen
    have htext : prettyChars level (.object ((k, v) :: rest)) ++ r = '\x7b' ::
        (prettyFields (level + 1) ((k, v) :: rest) ++ (newline level ++ '\x7d' :: r)) := by
      simp [prettyChars]
    rw [htext, readValue_object hhead, hfields]
    rfl

/-- **A value that was laid out is read back** from the front of every text, whatever ends it. -/
theorem readValue_pretty {depth : Nat} {v : Value} (h : Readable depth v) : ReadsBack depth v := by
  refine readsBack_of_succ h ?_
  induction h with
  | null =>
    intro level fuel r _ _
    rw [prettyChars, readValue]
    rfl
  | bool b =>
    intro level fuel r _ _
    cases b <;> (rw [prettyChars, readValue]; rfl)
  | int low high =>
    intro level fuel r _ hr
    exact readValue_int low high hr
  | text s =>
    intro level fuel r _ _
    rw [prettyChars, quote_append, readValue, skipSpace_cons rfl]
    simp only
    rw [readText_escaped]
    simp [Except.map, inOrder]
  | list members ih =>
    intro level fuel r hfuel _
    exact readValue_prettyList members (fun v hv => readsBack_of_succ (members v hv) (ih v hv))
      level fuel r hfuel
  | object members ih =>
    intro level fuel r hfuel _
    exact readValue_prettyObject (fun f hf => readsBack_of_succ (members f hf) (ih f hf))
      level fuel r hfuel

end

/-- **The text of a value that was laid out is read back as that value**, in order. -/
theorem read_pretty {v : Value} (h : Readable maxDepth v) :
    read (pretty v) = .ok (inOrder v) := by
  have hv := readValue_pretty h 0 ((prettyChars 0 v).length + 1) [] (by omega) endsValue_nil
  rw [List.append_nil] at hv
  rw [read, pretty, String.toList_ofList, readChars, hv]
  rfl

end ArchSpec.Json
