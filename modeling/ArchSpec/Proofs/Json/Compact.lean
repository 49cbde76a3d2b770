import ArchSpec.Proofs.Json.Token

/-!
# No two values are written alike

The compact form of a value tells where the value ends and what it is, so it can be hashed in
place of the value. Numbers of double precision are left out: what is not finite among them is
written as null.

* `Exact` — the values without such numbers.
* `compactChars_append_inj` — no two of them are written alike, whatever follows.
* `compact_inj` — the compact form determines the value.
-/

namespace ArchSpec.Json

/-- A value without numbers of double precision. -/
inductive Exact : Value → Prop where
  | null : Exact .null
  | bool (b : Bool) : Exact (.bool b)
  | int (i : Int) : Exact (.int i)
  | text (s : String) : Exact (.text s)
  | list {items : List Value} (members : ∀ v ∈ items, Exact v) : Exact (.list items)
  | object {fields : List (String × Value)} (members : ∀ f ∈ fields, Exact f.2) :
    Exact (.object fields)

/-! ## How a value begins -/

/-- A character that stands for all those with which a value of one form may begin. -/
def leadOf (c : Char) : Char :=
  if isDigit c || c = '-' then '0' else if c = 'f' then 't' else c

/-- The form of a value, by the character with which it may begin. -/
def lead : Value → Char
  | .null => 'n'
  | .bool _ => 't'
  | .int _ => '0'
  | .float _ => '.'
  | .text _ => '"'
  | .list _ => '['
  | .object _ => '\x7b'

theorem compactChars_head {v : Value} (h : Exact v) :
    ∃ c cs, compactChars v = c :: cs ∧ leadOf c = lead v := by
  cases h with
  | null => exact ⟨_, _, rfl, by decide⟩
  | bool b => cases b <;> exact ⟨_, _, rfl, by decide⟩
  | int i =>
    rw [compactChars, intDigits]
    split
    · exact ⟨_, _, rfl, rfl⟩
    · cases hd : natDigits i.natAbs with
      | nil => exact absurd hd Nat.toDigits_ne_nil
      | cons c cs =>
        have hc : isDigit c = true := isDigit_of_mem_natDigits (n := i.natAbs) (by simp [hd])
        exact ⟨c, cs, rfl, by simp [leadOf, hc, lead]⟩
  | text s => exact ⟨_, _, rfl, rfl⟩
  | list _ => exact ⟨_, _, rfl, rfl⟩
  | object _ => exact ⟨_, _, rfl, rfl⟩

/-- Values that are written alike have the same form. -/
theorem lead_eq {v w : Value} (hv : Exact v) (hw : Exact w) {r r' : List Char}
    (h : compactChars v ++ r = compactChars w ++ r') : lead v = lead w := by
  obtain ⟨c, cs, hcs, hc⟩ := compactChars_head hv
  obtain ⟨d, ds, hds, hd⟩ := compactChars_head hw
  rw [hcs, hds] at h
  rw [← hc, ← hd, (List.cons.inj h).1]

/-- No value begins with what ends a list. -/
theorem compactChars_ne_bracket {v : Value} (hv : Exact v) (r s : List Char) :
    compactChars v ++ r ≠ ']' :: s := by
  obtain ⟨c, cs, hcs, hc⟩ := compactChars_head hv
  intro h
  rw [hcs] at h
  have hlead : leadOf ']' = lead v := (List.cons.inj h).1 ▸ hc
  cases hv <;> exact absurd hlead (by simp only [lead]; decide)

/-! ## Members -/

section

open compactChars

/-- The rest of a list after an item. -/
def moreItems : List Value → List Char
  | [] => []
  | v :: rest => ',' :: compactItems (v :: rest)

theorem compactItems_cons (v : Value) (rest : List Value) :
    compactItems (v :: rest) = compactChars v ++ moreItems rest := by
  cases rest <;> simp [compactItems, moreItems]

/-- The rest of an object after a field. -/
def moreFields : List (String × Value) → List Char
  | [] => []
  | f :: rest => ',' :: compactFields (f :: rest)

theorem compactFields_cons (k : String) (v : Value) (rest : List (String × Value)) :
    compactFields ((k, v) :: rest) =
      quote k.toList ++ ':' :: (compactChars v ++ moreFields rest) := by
  cases rest <;> simp [compactFields, moreFields]

/-- That a value is told from every other one, whatever ends it. -/
def Distinct (v : Value) : Prop :=
  ∀ w r r', Exact w → EndsValue r → EndsValue r' → compactChars v ++ r = compactChars w ++ r' →
    v = w ∧ r = r'

theorem compactItems_append_inj {items items' : List Value} (h : ∀ v ∈ items, Distinct v)
    (hexact : ∀ v ∈ items, Exact v) (hexact' : ∀ v ∈ items', Exact v) {r r' : List Char}
    (heq : compactItems items ++ ']' :: r = compactItems items' ++ ']' :: r') :
    items = items' ∧ r = r' := by
  induction items generalizing items' with
  | nil =>
    cases items' with
    | nil => exact ⟨rfl, (List.cons.inj heq).2⟩
    | cons w rest' =>
      rw [compactItems_cons, List.append_assoc] at heq
      exact absurd heq.symm (compactChars_ne_bracket (hexact' w List.mem_cons_self) _ _)
  | cons v rest ih =>
    cases items' with
    | nil =>
      rw [compactItems_cons, List.append_assoc] at heq
      exact absurd heq (compactChars_ne_bracket (hexact v List.mem_cons_self) _ _)
    | cons w rest' =>
      have hends : ∀ rest r, EndsValue (moreItems rest ++ ']' :: r) := by
        intro rest r
        cases rest <;> exact endsValue_cons (by decide)
      rw [compactItems_cons, compactItems_cons, List.append_assoc, List.append_assoc] at heq
      obtain ⟨rfl, hmore⟩ := h v List.mem_cons_self w _ _ (hexact' w List.mem_cons_self)
        (hends _ _) (hends _ _) heq
      cases rest with
      | nil =>
        cases rest' with
        | nil => exact ⟨rfl, (List.cons.inj hmore).2⟩
        | cons w' rest' => exact absurd (List.cons.inj hmore).1 (by decide)
      | cons v' rest =>
        cases rest' with
        | nil => exact absurd (List.cons.inj hmore).1 (by decide)
        | cons w' rest' =>
          obtain ⟨hrest, hr⟩ := ih (fun u hu => h u (List.mem_cons_of_mem _ hu))
            (fun u hu => hexact u (List.mem_cons_of_mem _ hu))
            (fun u hu => hexact' u (List.mem_cons_of_mem _ hu)) (List.cons.inj hmore).2
          exact ⟨by rw [hrest], hr⟩

theorem compactFields_append_inj {fields fields' : List (String × Value)}
    (h : ∀ f ∈ fields, Distinct f.2) (hexact' : ∀ f ∈ fields', Exact f.2) {r r' : List Char}
    (heq : compactFields fields ++ '\x7d' :: r = compactFields fields' ++ '\x7d' :: r') :
    fields = fields' ∧ r = r' := by
  induction fields generalizing fields' with
  | nil =>
    cases fields' with
    | nil => exact ⟨rfl, (List.cons.inj heq).2⟩
    | cons g rest' =>
      rw [compactFields_cons, List.append_assoc, quote_append] at heq
      exact absurd (List.cons.inj heq).1 (by decide)
  | cons f rest ih =>
    obtain ⟨k, v⟩ := f
    cases fields' with
    | nil =>
      rw [compactFields_cons, List.append_assoc, quote_append] at heq
      exact absurd (List.cons.inj heq).1 (by decide)
    | cons g rest' =>
      obtain ⟨k', w⟩ := g
      have hends : ∀ rest r, EndsValue (moreFields rest ++ '\x7d' :: r) := by
        intro rest r
        cases rest <;> exact endsValue_cons (by decide)
      rw [compactFields_cons, compactFields_cons, List.append_assoc, List.append_assoc] at heq
      obtain ⟨hkey, hvalue⟩ := quote_append_inj heq
      rw [List.cons_append, List.cons_append, List.append_assoc, List.append_assoc] at hvalue
      obtain ⟨rfl, hmore⟩ := h (k, v) List.mem_cons_self w _ _
        (hexact' (k', w) List.mem_cons_self) (hends _ _) (hends _ _) (List.cons.inj hvalue).2
      rw [String.toList_inj] at hkey
      subst hkey
      cases rest with
      | nil =>
        cases rest' with
        | nil => exact ⟨rfl, (List.cons.inj hmore).2⟩
        | cons g' rest' => exact absurd (List.cons.inj hmore).1 (by decide)
      | cons f' rest =>
        cases rest' with
        | nil => exact absurd (List.cons.inj hmore).1 (by decide)
        | cons g' rest' =>
          obtain ⟨hrest, hr⟩ := ih (fun u hu => h u (List.mem_cons_of_mem _ hu))
            (fun u hu => hexact' u (List.mem_cons_of_mem _ hu)) (List.cons.inj hmore).2
          exact ⟨by rw [hrest], hr⟩

end

/-! ## Values -/

/-- **No two values are written alike**, whatever ends them. -/
theorem compactChars_append_inj {v : Value} (hv : Exact v) : Distinct v := by
  induction hv with
  | null =>
    intro w r r' hw _ _ h
    have hlead := lead_eq .null hw h
    cases hw <;> simp [lead] at hlead
    exact ⟨rfl, List.append_cancel_left h⟩
  | bool b =>
    intro w r r' hw _ _ h
    have hlead := lead_eq (.bool b) hw h
    cases hw with
    | bool b' => cases b <;> cases b' <;> simp_all [compactChars]
    | _ => simp [lead] at hlead
  | int i =>
    intro w r r' hw hr hr' h
    have hlead := lead_eq (.int i) hw h
    cases hw with
    | int j =>
      obtain ⟨rfl, hrest⟩ := intDigits_append_inj hr hr' h
      exact ⟨rfl, hrest⟩
    | _ => simp [lead] at hlead
  | text s =>
    intro w r r' hw _ _ h
    have hlead := lead_eq (.text s) hw h
    cases hw with
    | text s' =>
      obtain ⟨hs, hrest⟩ := quote_append_inj h
      rw [String.toList_inj] at hs
      exact ⟨by rw [hs], hrest⟩
    | _ => simp [lead] at hlead
  | @list items hexact ih =>
    intro w r r' hw _ _ h
    have hlead := lead_eq (.list hexact) hw h
    cases hw with
    | list hexact' =>
      rw [compactChars, compactChars] at h
      simp only [List.cons_append, List.append_assoc, List.nil_append, List.cons.injEq,
        true_and] at h
      obtain ⟨rfl, hrest⟩ := compactItems_append_inj ih hexact hexact' h
      exact ⟨rfl, hrest⟩
    | _ => simp [lead] at hlead
  | @object fields hexact ih =>
    intro w r r' hw _ _ h
    have hlead := lead_eq (.object hexact) hw h
    cases hw with
    | object hexact' =>
      rw [compactChars, compactChars] at h
      simp only [List.cons_append, List.append_assoc, List.nil_append, List.cons.injEq,
        true_and] at h
      obtain ⟨rfl, hrest⟩ := compactFields_append_inj ih hexact' h
      exact ⟨rfl, hrest⟩
    | _ => simp [lead] at hlead

/-- **The compact form determines the value.** -/
theorem compact_inj {v w : Value} (hv : Exact v) (hw : Exact w) (h : compact v = compact w) :
    v = w := by
  have hchars : compactChars v ++ [] = compactChars w ++ [] := by
    rw [compact, compact, String.ofList_inj] at h
    rw [h]
  exact (compactChars_append_inj hv w [] [] hw endsValue_nil endsValue_nil hchars).1

end ArchSpec.Json
