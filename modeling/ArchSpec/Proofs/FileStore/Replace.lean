import ArchSpec.FileStore.Replace
import ArchSpec.Proofs.FileTree.Change

/-!
# What replacing a text changes

A text that is replaced is the text of the file afterwards. Whether it is or not, only the target
and its temporary file change, and if it is not, the target does not.

* `Action.Changes` — the files that a program may change, whether it succeeds or not.
* `FileStore.Lasting` — what the making of directories leaves as it is; `ensureParent_lasting`.
* `FileStore.replaceText_changes`, `replaceText_ok`, `replaceText_error` — replacing a text.
-/

namespace ArchSpec

open FileTree (ChangedAt)

/-! ## Programs and the files they change -/

namespace Action

variable {α β : Type} {ps qs : List Path} {t u : FileTree}

/-- A program changes no files but those that some paths lead to, whether it succeeds or not. -/
def Changes (ps : List Path) (x : Action (StateM FileTree) α) : Prop :=
  ∀ t, t.WellFormed → ChangedAt ps t (x.run t).2

theorem Changes.changedAt {x : Action (StateM FileTree) α} (h : Changes ps x)
    (ht : t.WellFormed) {r : Except Failure α} (hx : x.run t = (r, u)) : ChangedAt ps t u := by
  have := h t ht
  rw [hx] at this
  exact this

theorem Changes.mono {x : Action (StateM FileTree) α} (hsub : ps ⊆ qs) (h : Changes ps x) :
    Changes qs x :=
  fun t ht => (h t ht).mono hsub

theorem changes_pure (a : α) : Changes ps (pure a) := fun _ ht => .refl ht

theorem Changes.bind {x : Action (StateM FileTree) α} {f : α → Action (StateM FileTree) β}
    (hx : Changes ps x) (hf : ∀ a, Changes ps (f a)) : Changes ps (x >>= f) := by
  intro t ht
  exact run_bind_state (hx t ht) fun a u hu => hu.trans (hf a u hu.wellFormed)

theorem Changes.within {x : Action (StateM FileTree) α} (h : Changes ps x) (what : String) :
    Changes ps (within what x) := by
  intro t ht
  rw [run_within]
  exact h t ht

theorem changes_ofFault (x : Except Fault α) :
    Changes ps (ofFault x : Action (StateM FileTree) α) :=
  fun _ ht => .refl ht

end Action

namespace FileTree

variable {f : FileTree → Except IoError FileTree} {t u : FileTree}

/-- A change of a tree that succeeds is that change. -/
theorem change_eq_ok (h : change f t = (.ok (), u)) : f t = .ok u := by
  unfold change at h
  split at h
  · rename_i v hf
    cases h
    exact hf
  · cases h

/-- A change of a tree that fails leaves the tree as it is. -/
theorem change_eq_error {e : IoError} (h : change f t = (.error e, u)) : u = t := by
  unfold change at h
  split at h <;> cases h
  rfl

end FileTree

namespace FileStore

open ArchSpec.Action (Changes)

variable {p : Path} {text : String} {t u : FileTree}

/-! ## Directories -/

section

variable {σ : Type} [FileStore (StateM σ)] {P : σ → Prop} {s : σ}

/-- Neither questions about a path nor directories that are made there take a property away from the
store. -/
structure Lasting (P : σ → Prop) (p : Path) : Prop where
  existsAt : ∀ s, P s → P ((existsAt p : StateM σ Bool) s).2
  isDirectory : ∀ s, P s → P ((isDirectory p : StateM σ Bool) s).2
  makeDirectories : ∀ s, P s → P ((makeDirectories p : StateM σ (Except IoError Unit)) s).2

theorem Lasting.ensureDirectory (h : Lasting P p) (hs : P s) :
    P ((ensureDirectory p : Action (StateM σ) Unit).run s).2 := by
  unfold FileStore.ensureDirectory
  refine Action.run_bind_state (h.existsAt s hs) fun there u hu => ?_
  cases there with
  | false => exact h.makeDirectories u hu
  | true =>
    refine Action.run_bind_state (h.isDirectory u hu) fun directory v hv => ?_
    cases directory <;> exact hv

/-- What lasts where the parent of a path is made lasts when it is made sure of. -/
theorem ensureParent_lasting (h : ∀ q, Path.parent? p = some q → Lasting P q) (hs : P s) :
    P ((ensureParent p : Action (StateM σ) Unit).run s).2 := by
  unfold ensureParent
  split
  · exact hs
  · rename_i q hq
    split
    · exact hs
    · exact (h q hq).ensureDirectory hs

end

theorem ensureParent_changes (p : Path) :
    Changes [] (ensureParent p : Action (StateM FileTree) Unit) := by
  intro t ht
  refine ensureParent_lasting (P := fun u => ChangedAt [] t u) (fun q _ => ?_) (.refl ht)
  exact ⟨fun _ hu => hu, fun _ hu => hu,
    fun _ hu => hu.trans (FileTree.makeDirectories_changed hu.wellFormed q)⟩

/-! ## Replacements -/

/-- A change of a tree that can be made is made. -/
theorem run_change {f : FileTree → Except IoError FileTree} {what : String}
    (h : f t = .ok u) : (Action.ofStore what (FileTree.change f)).run t = (.ok (), u) := by
  rw [Action.run_ofStore, FileTree.change, h]
  rfl

theorem change_ok {f : FileTree → Except IoError FileTree} {what : String}
    (h : (Action.ofStore what (FileTree.change f)).run t = (.ok (), u)) : f t = .ok u :=
  FileTree.change_eq_ok (Action.ofStore_ok h)

theorem change_error {f : FileTree → Except IoError FileTree} {what : String} {e : Failure}
    (h : (Action.ofStore what (FileTree.change f)).run t = (.error e, u)) : u = t := by
  obtain ⟨_, h⟩ := Action.ofStore_error h
  exact FileTree.change_eq_error h

/-- A text that is written to a temporary file of a tree is written in one step. -/
theorem writeTemporary_ok_iff :
    (writeTemporary p text : Action (StateM FileTree) Unit).run t = (.ok (), u) ↔
      t.writeText p text = .ok u := by
  constructor
  · intro h
    obtain ⟨_, v, hcreate, h⟩ := Action.bind_ok h
    obtain ⟨_, w, hwrite, hsync⟩ := Action.bind_ok h
    obtain rfl : w = u := congrArg Prod.snd (Action.ofStore_ok hsync)
    rw [← FileTree.writeText_again (change_ok hcreate)]
    exact change_ok hwrite
  · intro h
    obtain ⟨v, hcreate⟩ : ∃ v, t.writeText p "" = .ok v := by
      cases hcreate : t.writeText p "" with
      | ok v => exact ⟨v, rfl⟩
      | error e =>
        rw [FileTree.writeText_error hcreate text] at h
        cases h
    have hwrite : v.writeText p text = .ok u := (FileTree.writeText_again hcreate text).trans h
    refine (Action.run_bind_ok (run_change hcreate)).trans ?_
    exact (Action.run_bind_ok (run_change hwrite)).trans rfl

/-- If it cannot be written, the file is not created. -/
theorem writeTemporary_error {e : Failure}
    (h : (writeTemporary p text : Action (StateM FileTree) Unit).run t = (.error e, u)) :
    u = t := by
  rcases Action.bind_error h with hcreate | ⟨_, v, hcreate, h⟩
  · exact change_error hcreate
  · have hcreate := change_ok hcreate
    rcases Action.bind_error h with hwrite | ⟨_, w, _, hsync⟩
    · -- what could be created can be written
      obtain ⟨e', hwrite⟩ := Action.ofStore_error hwrite
      obtain ⟨l, hl, hname, hfile, _⟩ := FileTree.writeText_eq_ok hcreate
      have hok := FileTree.writeText_again hcreate text
      rw [FileTree.writeText_eq hl hname hfile] at hok
      change FileTree.change (·.writeText p text) v = _ at hwrite
      rw [FileTree.change, hok] at hwrite
      cases hwrite
    · obtain ⟨_, hsync⟩ := Action.ofStore_error hsync
      cases hsync

/-- The steps of a replacement that succeeds. -/
theorem replaceText_steps
    (h : (replaceText p text : Action (StateM FileTree) Unit).run t = (.ok (), u)) :
    ∃ v w, (ensureParent p : Action (StateM FileTree) Unit).run t = (.ok (), v) ∧
      v.writeText (temporaryPath p) text = .ok w ∧ w.rename (temporaryPath p) p = .ok u := by
  obtain ⟨_, v, hparent, h⟩ := Action.bind_ok h
  obtain ⟨_, w, hwrite, hrename⟩ := Action.bind_ok h
  exact ⟨v, w, hparent, writeTemporary_ok_iff.1 hwrite, change_ok hrename⟩

/-- The text of a replaced file is the new one, and nothing else has changed. -/
theorem replaceText_ok (ht : t.WellFormed)
    (h : (replaceText p text : Action (StateM FileTree) Unit).run t = (.ok (), u)) :
    ChangedAt [temporaryPath p, p] t u ∧ u.readText p = .ok text := by
  obtain ⟨v, w, hparent, hwrite, hrename⟩ := replaceText_steps h
  have hv := (ensureParent_changes p).changedAt ht hparent
  obtain ⟨hw, hread⟩ := FileTree.writeText_ok hv.wellFormed hwrite
  obtain ⟨hu, htarget⟩ := FileTree.rename_ok hw.wellFormed hrename
  refine ⟨((hv.mono (by simp)).trans (hw.mono (by simp))).trans hu, ?_⟩
  rw [htarget, hread]

/-- A replacement that fails leaves the target as it was. -/
theorem replaceText_error (ht : t.WellFormed) {e : Failure}
    (h : (replaceText p text : Action (StateM FileTree) Unit).run t = (.error e, u)) :
    ChangedAt [temporaryPath p] t u := by
  rcases Action.bind_error h with hparent | ⟨_, v, hparent, h⟩
  · exact ((ensureParent_changes p).changedAt ht hparent).mono (by simp)
  · have hv := (ensureParent_changes p).changedAt ht hparent
    rcases Action.bind_error h with hwrite | ⟨_, w, hwrite, hrename⟩
    · rw [writeTemporary_error hwrite]
      exact hv.mono (by simp)
    · rw [change_error hrename]
      have hwritten := FileTree.writeText_ok hv.wellFormed (writeTemporary_ok_iff.1 hwrite)
      exact (hv.mono (by simp)).trans hwritten.1

theorem replaceText_changes (p : Path) (text : String) :
    Changes [temporaryPath p, p] (replaceText p text) := by
  intro t ht
  cases h : (replaceText p text : Action (StateM FileTree) Unit).run t with
  | mk r u =>
    cases r with
    | error e => exact (replaceText_error ht h).mono (by simp)
    | ok _ => exact (replaceText_ok ht h).1

end FileStore

end ArchSpec
