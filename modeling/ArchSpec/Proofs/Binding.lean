import ArchSpec.Binding

/-!
# Texts of bindings

* `Method.key_inj` — the key of an operation tells its method and its path.
* `Binding.Spells` — what it means that a text writes a binding.
* `Binding.spells_of_parse` — a binding that is read from a text is written by it.
* `Binding.serverOf?_eq_some_iff` — the server of a text, also when the rest is malformed.
-/

namespace ArchSpec

/-! ## Keys of operations -/

theorem Method.text_inj {m m' : Method} (h : m.text = m'.text) : m = m' := by
  have := m.ofText?_text
  rw [h, m'.ofText?_text] at this
  exact (Option.some.inj this).symm

theorem Method.colon_not_mem (m : Method) : ':' ∉ m.text.toList := by
  cases m <;> decide

/-- Only the first colon of a key separates, since there is none in a method. -/
theorem Method.cut_key (m : Method) (path : String) :
    Text.cut ':' (m.key path).toList = (m.text.toList, some path.toList) := by
  have hkey : (m.key path).toList = m.text.toList ++ ':' :: path.toList := by
    simp [Method.key]
  rw [hkey]
  exact Text.cut_append ':' _ _ m.colon_not_mem

/-- **The key of an operation tells its method and its path.** -/
theorem Method.key_inj {m m' : Method} {path path' : String} :
    m.key path = m'.key path' ↔ m = m' ∧ path = path' := by
  constructor
  · intro h
    have hcut := m.cut_key path
    rw [h, m'.cut_key, Prod.mk.injEq, Option.some.injEq, String.toList_inj, String.toList_inj]
      at hcut
    exact ⟨(Method.text_inj hcut.1).symm, hcut.2.symm⟩
  · rintro ⟨rfl, rfl⟩
    rfl

namespace Binding

/-! ## Reading a binding -/

/-- A text is the ID of a server, a method and a path, with colons between them. -/
structure Spells (b : Binding) (s : String) : Prop where
  server : b.server ≠ ""
  /-- The first colon of the text comes after the server. -/
  colon : ':' ∉ b.server.toList
  path : b.path.toList.head? = some '/'
  text : s = b.server ++ ":" ++ b.method.text ++ ":" ++ b.path

theorem segments?_eq_some {cs server method path : List Char}
    (h : segments? cs = some (server, method, path)) :
    ':' ∉ server ∧ ':' ∉ method ∧ cs = server ++ ':' :: (method ++ ':' :: path) := by
  unfold segments? at h
  split at h
  · cases h
  · rename_i server' rest hserver
    split at h
    · cases h
    · rename_i method' path' hmethod
      cases h
      obtain ⟨hs, rfl⟩ := Text.cut_eq_some hserver
      obtain ⟨hm, rfl⟩ := Text.cut_eq_some hmethod
      exact ⟨hs, hm, rfl⟩

/-- What a text that writes a binding consists of. -/
theorem parse_ok {s : String} {b : Binding} (h : parse s = .ok b) :
    ∃ server method path, segments? s.toList = some (server, method, path) ∧
      server ≠ [] ∧ Method.ofText? (String.ofList method) = some b.method ∧
      path.head? = some '/' ∧ b = ⟨String.ofList server, b.method, String.ofList path, none⟩ := by
  unfold parse at h
  split at h
  · cases h
  · split at h
    · cases h
    · rename_i server method path hsegments
      split at h
      · cases h
      · rename_i hserver
        split at h
        · cases h
        · rename_i m hm
          split at h
          · rename_i hpath
            cases h
            refine ⟨server, method, path, hsegments, ?_, hm, hpath, rfl⟩
            rintro rfl
            exact hserver rfl
          · cases h

/-- **A binding that is read from a text is written by it.** -/
theorem spells_of_parse {s : String} {b : Binding} (h : parse s = .ok b) : b.Spells s := by
  obtain ⟨server, method, path, hsegments, hne, hmethod, hpath, hb⟩ := parse_ok h
  obtain ⟨hcolon, _, htext⟩ := segments?_eq_some hsegments
  have hm : b.method.text = String.ofList method := Method.text_of_ofText? hmethod
  rw [hb]
  refine ⟨?_, ?_, ?_, ?_⟩
  · intro e
    exact hne (by simpa using congrArg String.toList e)
  · simpa using hcolon
  · simpa using hpath
  · refine String.toList_inj.1 ?_
    simp only [htext, hm, String.toList_append, String.toList_ofList]
    simp

/-- The parts of a text that writes a binding, in characters. -/
theorem Spells.toList {b : Binding} {s : String} (h : b.Spells s) :
    s.toList = b.server.toList ++ ':' :: (b.method.text.toList ++ ':' :: b.path.toList) := by
  simp [h.text]

theorem Spells.cut {b : Binding} {s : String} (h : b.Spells s) :
    Text.cut ':' s.toList = (b.server.toList, some (b.method.text.toList ++ ':' :: b.path.toList)) ∧
    Text.cut ':' (b.method.text.toList ++ ':' :: b.path.toList) =
      (b.method.text.toList, some b.path.toList) := by
  rw [h.toList]
  exact ⟨Text.cut_append ':' _ _ h.colon, Text.cut_append ':' _ _ b.method.colon_not_mem⟩

/-- **A text that writes a binding is read as that binding**, without an operation. -/
theorem parse_of_spells {b : Binding} {s : String} (h : b.Spells s) :
    parse s = .ok { b with operation := none } := by
  have hserver : b.server.toList.isEmpty = false := by simpa using h.server
  have hne : s.isEmpty = false := by
    rw [Bool.eq_false_iff, ne_eq, String.isEmpty_iff, ← String.toList_inj, h.toList]
    simp
  have hsegments : segments? s.toList =
      some (b.server.toList, b.method.text.toList, b.path.toList) := by
    unfold segments?
    rw [h.cut.1]
    simp only [h.cut.2]
  unfold parse
  simp only [hne, hsegments, hserver, String.ofList_toList, b.method.ofText?_text, h.path,
    Bool.false_eq_true, if_true, if_false]

theorem operation_of_parse {s : String} {b : Binding} (h : parse s = .ok b) :
    b.operation = none := by
  obtain ⟨_, _, _, _, _, _, _, hb⟩ := parse_ok h
  rw [hb]

/-- The server of a text is what stands before its first colon. -/
theorem serverOf?_eq_some_iff {s server : String} : serverOf? s = some server ↔
    server ≠ "" ∧ ':' ∉ server.toList ∧ ∃ rest, s = server ++ ":" ++ rest := by
  constructor
  · intro h
    unfold serverOf? at h
    split at h
    · cases h
    · rename_i cs rest hcut
      obtain ⟨hcolon, htext⟩ := Text.cut_eq_some hcut
      split at h
      · cases h
      · rename_i hne
        cases h
        refine ⟨fun he => hne ?_, by simpa using hcolon, String.ofList rest, ?_⟩
        · simpa using congrArg String.toList he
        · refine String.toList_inj.1 ?_
          simp [htext]
  · rintro ⟨hne, hcolon, rest, rfl⟩
    have htext : (server ++ ":" ++ rest).toList = server.toList ++ ':' :: rest.toList := by simp
    have hempty : server.toList.isEmpty = false := by simpa using hne
    unfold serverOf?
    rw [htext, Text.cut_append ':' _ _ hcolon]
    simp [hempty]

theorem Spells.serverOf? {b : Binding} {s : String} (h : b.Spells s) :
    serverOf? s = some b.server := by
  refine serverOf?_eq_some_iff.2 ⟨h.server, h.colon, b.method.text ++ ":" ++ b.path, ?_⟩
  rw [h.text]
  simp only [String.append_assoc]

end Binding

end ArchSpec
