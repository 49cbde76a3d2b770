import ArchSpec.Proofs.Binding
import ArchSpec.Proofs.Text
import ArchSpec.Specification.Schema

/-!
# Forms of texts

What the schema asks of IDs, kinds and bindings, said of the text as a whole and without the
functions that check it.

* `Schema.HasIdForm`, `Schema.isId_iff` — IDs.
* `Kind.spelled`, `Kind.ofText?_eq_some_iff` — kinds.
* `Schema.HasBindingForm`, `Schema.isBinding_iff` — bindings.
* `Schema.HasBindingForm.parse` — texts with the form of bindings can be read as such.
-/

namespace ArchSpec

/-! ## Kinds -/

/-- The spellings of a kind, the canonical one first. -/
def Kind.spelled : Kind → List String
  | .server => ["http.server", "server"]
  | .middleware => ["middleware"]
  | .database => ["postgres", "database"]
  | .usecase => ["usecase"]

theorem Kind.ofText?_eq_some_iff {s : String} {k : Kind} : ofText? s = some k ↔ s ∈ k.spelled := by
  unfold ofText?
  split
  · rename_i h
    rcases h with rfl | rfl <;> cases k <;> decide
  · split
    · rename_i h
      subst h
      cases k <;> decide
    · split
      · rename_i h
        rcases h with rfl | rfl <;> cases k <;> decide
      · split
        · rename_i h
          subst h
          cases k <;> decide
        · rename_i h₁ h₂ h₃ h₄
          rw [not_or] at h₁ h₃
          cases k <;> simp [spelled, *]

namespace Schema

/-! ## IDs -/

/-- The characters of IDs. -/
def IdChar (c : Char) : Prop := c.isLower = true ∨ c.isDigit = true ∨ c = '_' ∨ c = '-'

/-- A lower-case letter and more characters, and then one or more groups of characters, each after a
dot. -/
def HasIdForm (s : String) : Prop :=
  ∃ (first : Char) (rest : List Char) (groups : List (List Char)),
    s.toList = first :: (rest ++ groups.flatMap ('.' :: ·)) ∧ first.isLower = true ∧
    (∀ c ∈ rest, IdChar c) ∧ groups ≠ [] ∧ ∀ group ∈ groups, group ≠ [] ∧ ∀ c ∈ group, IdChar c

instance : DecidablePred IdChar := fun _ => inferInstanceAs (Decidable (_ ∨ _))

theorem isIdChar_iff {c : Char} : isIdChar c = true ↔ IdChar c := by
  have hclasses : isIdChar c = (c.isLower || c.isDigit || c = '_' || c = '-') := rfl
  rw [hclasses]
  simp [IdChar, or_assoc]

theorem all_isIdChar_iff {cs : List Char} : cs.all isIdChar = true ↔ ∀ c ∈ cs, IdChar c := by
  simp only [List.all_eq_true, isIdChar_iff]

theorem not_mem_of_idChar {sep : Char} (hsep : ¬IdChar sep) {cs : List Char}
    (h : ∀ c ∈ cs, IdChar c) : sep ∉ cs :=
  fun hmem => hsep (h sep hmem)

/-- **IDs are the texts of the form of IDs.** -/
theorem isId_iff {s : String} : isId s = true ↔ HasIdForm s := by
  unfold isId
  constructor
  · intro h
    split at h
    · rename_i first rest group groups hsplit
      simp only [Bool.and_eq_true] at h
      obtain ⟨⟨hfirst, hrest⟩, hgroups⟩ := h
      refine ⟨first, rest, group :: groups, ?_, ?_, all_isIdChar_iff.1 hrest, by simp, ?_⟩
      · rw [← Text.joinSep_splitOn '.' s.toList, hsplit, Text.joinSep_cons]
        rfl
      · exact Bool.and_eq_true_iff.2 hfirst
      · intro g hg
        have hall := List.all_eq_true.1 hgroups g hg
        rw [Bool.and_eq_true, all_isIdChar_iff] at hall
        exact ⟨by simpa using hall.1, hall.2⟩
    · cases h
  · rintro ⟨first, rest, groups, htext, hfirst, hrest, hne, hgroups⟩
    have hstart : ∀ c ∈ first :: rest, IdChar c := List.forall_mem_cons.2 ⟨.inl hfirst, hrest⟩
    have hsplit : Text.splitOn '.' s.toList = (first :: rest) :: groups := by
      rw [htext, ← List.cons_append, ← Text.joinSep_cons]
      refine Text.splitOn_joinSep (List.cons_ne_nil _ _) (List.forall_mem_cons.2 ⟨?_, ?_⟩)
      · exact not_mem_of_idChar (by decide) hstart
      · exact fun group hgroup => not_mem_of_idChar (by decide) (hgroups group hgroup).2
    obtain ⟨group, more, rfl⟩ := List.exists_cons_of_ne_nil hne
    rw [hsplit]
    simp only [Bool.and_eq_true]
    refine ⟨⟨Bool.and_eq_true_iff.1 hfirst, all_isIdChar_iff.2 hrest⟩,
      List.all_eq_true.2 fun g hg => ?_⟩
    obtain ⟨hg, hchars⟩ := hgroups g hg
    rw [Bool.and_eq_true, all_isIdChar_iff]
    exact ⟨by simpa using hg, hchars⟩

/-- There are no separators of paths in an ID. -/
theorem HasIdForm.not_mem_slash {s : String} (h : HasIdForm s) : '/' ∉ s.toList := by
  obtain ⟨first, rest, groups, htext, hfirst, hrest, _, hgroups⟩ := h
  have hslash : ¬IdChar '/' := by decide
  rw [htext]
  simp only [List.mem_cons, List.mem_append, List.mem_flatMap, not_or, not_exists, not_and]
  refine ⟨?_, not_mem_of_idChar hslash hrest, fun group hgroup => ⟨by decide, ?_⟩⟩
  · rintro rfl
    exact hslash (.inl hfirst)
  · exact not_mem_of_idChar hslash (hgroups group hgroup).2

/-! ## Bindings -/

/-- A server, a method and a path between colons, all of the path on one line. -/
def HasBindingForm (s : String) : Prop := ∃ b : Binding, b.Spells s ∧ '\n' ∉ b.path.toList

/-- **Bindings for the schema are the texts of the form of bindings.** -/
theorem isBinding_iff {s : String} : isBinding s = true ↔ HasBindingForm s := by
  unfold isBinding
  constructor
  · intro h
    split at h
    · cases h
    · rename_i server rest hserver
      simp only [Bool.and_eq_true, List.any_eq_true] at h
      obtain ⟨hne, m, _, h⟩ := h
      split at h
      · cases h
      · rename_i method path hmethod
        simp only [Bool.and_eq_true, decide_eq_true_eq] at h
        obtain ⟨⟨rfl, hpath⟩, hline⟩ := h
        obtain ⟨hcolon, htext⟩ := Text.cut_eq_some hserver
        obtain ⟨_, rfl⟩ := Text.cut_eq_some hmethod
        refine ⟨⟨String.ofList server, m, String.ofList path, none⟩, ⟨?_, ?_, ?_, ?_⟩, ?_⟩
        · simpa using hne
        · simpa using hcolon
        · simpa using hpath
        · exact String.toList_inj.1 (by simp [htext])
        · simpa using hline
  · rintro ⟨b, hb, hline⟩
    have hserver : b.server.toList.isEmpty = false := by simpa using hb.server
    rw [hb.cut.1]
    simp only [hserver, Bool.not_false, Bool.true_and, List.any_eq_true]
    refine ⟨b.method, by cases b.method <;> decide, ?_⟩
    rw [hb.cut.2]
    simpa [hb.path] using hline

theorem HasBindingForm.ne_empty {s : String} (h : HasBindingForm s) : s ≠ "" := by
  rintro rfl
  obtain ⟨b, hb, _⟩ := h
  simpa using hb.toList

/-- A text with the form of a binding can be read. -/
theorem HasBindingForm.parse {s : String} (h : HasBindingForm s) :
    ∃ b, Binding.parse s = .ok b := by
  obtain ⟨b, hb, _⟩ := h
  exact ⟨_, Binding.parse_of_spells hb⟩

end Schema

end ArchSpec
