import ArchSpec.Proofs.FileStore.Directories

/-!
# Stores that break

A device may fail at whatever it is asked for, and for reasons that a tree of files does not show:
no file can be opened any more, a text does not arrive or arrives in part, some directories are made
and the next one is not. How it breaks is given as a list that the program does not see, with one
entry for each action to come. So what is shown of a program on such a device holds wherever it
fails.

* `FaultyTree` — a tree of files on a device that breaks at some of its turns.
* `FileTree.OnlyMade` — a tree with new directories on the ways of some paths, and nothing else new.
* `FileStore.Sound` — stores that do what they answer to have done, and little else where they fail.
* `FileTree.sound`, `FaultyTree.sound` — trees are such stores, whether they break or not.
-/

namespace ArchSpec

/-! ## Trees on a device -/

/-- How an action on files breaks. -/
structure Breakage where
  error : IoError
  /-- What has arrived in the file that was to be written, if it has been opened. -/
  left : Option String
  /-- The last directory that has been made, if any has. -/
  made : Option Path

namespace Breakage

/-- The tree after a text could not be written. -/
def afterWriting (b : Breakage) (t : FileTree) (p : Path) : FileTree :=
  match b.left with
  | none => t
  | some left => match t.writeText p left with
    | .ok u => u
    | .error _ => t

/-- The tree after directories could not all be made. -/
def afterMaking (b : Breakage) (t : FileTree) (p : Path) : FileTree :=
  match b.made with
  | none => t
  | some q => if FileTree.Front q p then (t.makeDirectories q).2 else t

end Breakage

/-- A tree of files on a device, and how each action to come breaks, if it does. After these nothing
breaks any more. -/
structure FaultyTree where
  tree : FileTree
  turns : List (Option Breakage)

namespace FaultyTree

/-- Do with the tree what there is to do, or break. -/
def turn {α : Type} (act : StateM FileTree α) (broken : Breakage → FileTree → α × FileTree) :
    StateM FaultyTree α := fun s =>
  let (a, t) := match s.turns.head?.join with
    | none => act s.tree
    | some b => broken b s.tree
  (a, ⟨t, s.turns.tail⟩)

/-- Questions that break are answered in the negative. Names change in one step or not at all. -/
instance : FileStore (StateM FaultyTree) where
  existsAt p := turn (FileStore.existsAt p) fun _ t => (false, t)
  isDirectory p := turn (FileStore.isDirectory p) fun _ t => (false, t)
  readText p := turn (FileStore.readText p) fun b t => (.error b.error, t)
  createFile p := turn (FileStore.createFile p) fun b t => (.error b.error, b.afterWriting t p)
  writeText p text := turn (FileStore.writeText p text) fun b t =>
    (.error b.error, b.afterWriting t p)
  syncFile p := turn (FileStore.syncFile p) fun b t => (.error b.error, b.afterWriting t p)
  rename source target := turn (FileStore.rename source target) fun b t => (.error b.error, t)
  makeDirectories p := turn (FileStore.makeDirectories p) fun b t =>
    (.error b.error, b.afterMaking t p)

variable {α : Type} {act : StateM FileTree α} {broken : Breakage → FileTree → α × FileTree}
  {s s' : FaultyTree} {a : α}

theorem turn_cases (h : turn act broken s = (a, s')) :
    act s.tree = (a, s'.tree) ∨ ∃ b, broken b s.tree = (a, s'.tree) := by
  unfold turn at h
  split at h
  rename_i a' t hturn
  cases h
  split at hturn
  · exact .inl hturn
  · exact .inr ⟨_, hturn⟩

/-- What a turn makes of the tree, whether it breaks or not. -/
theorem tree_turn {P : FileTree → Prop} (hact : P (act s.tree).2)
    (hbroken : ∀ b, P (broken b s.tree).2) : P (turn act broken s).2.tree := by
  have hturn : turn act broken s = ((turn act broken s).1, (turn act broken s).2) := rfl
  rcases turn_cases hturn with h | ⟨b, h⟩
  · rwa [h] at hact
  · have := hbroken b
    rwa [h] at this

end FaultyTree

/-! ## Directories only -/

namespace FileTree

variable {t u v : FileTree} {p q : Path} {ps qs : List Path}

/-- One tree comes from another by new directories on the ways of some paths. -/
structure OnlyMade (ps : List Path) (t u : FileTree) : Prop where
  changed : ChangedAt [] t u
  made : MadeAlong ps t u

namespace OnlyMade

theorem refl (ht : t.WellFormed) : OnlyMade ps t t := ⟨.refl ht, .refl ps t⟩

theorem trans (h : OnlyMade ps t u) (h' : OnlyMade ps u v) : OnlyMade ps t v :=
  ⟨h.changed.trans h'.changed, h.made.trans h'.made⟩

theorem of_front (h : OnlyMade [q] t u) (hq : Front q p) : OnlyMade [p] t u :=
  ⟨h.changed, h.made.of_front hq⟩

end OnlyMade

/-- A tree in which a file may have been opened, and now holds whatever has arrived. -/
def Touched (p : Path) (t u : FileTree) : Prop := u = t ∨ ∃ left, t.writeText p left = .ok u

/-- A file that is touched after a text has been written to it has been touched. -/
theorem Touched.of_writeText {text : String} (h : t.writeText p text = .ok u)
    (h' : Touched p u v) : Touched p t v := by
  rcases h' with rfl | ⟨left, hleft⟩
  · exact .inr ⟨text, h⟩
  · exact .inr ⟨left, (writeText_again h left).symm.trans hleft⟩

theorem makeDirectories_onlyMade (ht : t.WellFormed) (p : Path) :
    OnlyMade [p] t (t.makeDirectories p).2 :=
  ⟨makeDirectories_changed ht p, makeDirectories_madeAlong t p⟩

end FileTree

namespace Breakage

variable {t : FileTree}

theorem afterWriting_touched (b : Breakage) (t : FileTree) (p : Path) :
    FileTree.Touched p t (b.afterWriting t p) := by
  unfold afterWriting
  split
  · exact .inl rfl
  · split
    · rename_i hwrite
      exact .inr ⟨_, hwrite⟩
    · exact .inl rfl

theorem afterMaking_onlyMade (b : Breakage) (ht : t.WellFormed) (p : Path) :
    FileTree.OnlyMade [p] t (b.afterMaking t p) := by
  unfold afterMaking
  split
  · exact .refl ht
  · split
    · rename_i q _ hfront
      exact (FileTree.makeDirectories_onlyMade ht q).of_front hfront
    · exact .refl ht

end Breakage

namespace FaultyTree

variable {act : StateM FileTree (Except IoError Unit)} {s s' : FaultyTree} {p : Path}
  {broken : Breakage → FileTree → FileTree}

/-- A turn that answers with success has done what there was to do. -/
theorem turn_ok (h : turn act (fun b t => (.error b.error, broken b t)) s = (.ok (), s')) :
    act s.tree = (.ok (), s'.tree) := by
  rcases turn_cases h with h | ⟨b, h⟩
  · exact h
  · cases congrArg Prod.fst h

/-- A turn at a file that fails has touched the file at most, if it does nothing where it fails
without breaking. -/
theorem turn_touched (hact : ∀ {e t}, act s.tree = (.error e, t) → t = s.tree) {e : IoError}
    (h : turn act (fun b t => (.error b.error, b.afterWriting t p)) s = (.error e, s')) :
    FileTree.Touched p s.tree s'.tree := by
  rcases turn_cases h with h | ⟨b, h⟩
  · exact .inl (hact h)
  · obtain ⟨_, htree⟩ := Prod.mk.inj h
    rw [← htree]
    exact b.afterWriting_touched s.tree p

end FaultyTree

/-! ## Stores of either kind -/

namespace FileStore

open FileTree (OnlyMade Touched)

/-- A store that has a tree of files. What it answers to have done, it has done to the tree. Where
it fails to create, write or wait for a file, that may hold whatever has arrived, and directories
may be made in part. -/
structure Sound {σ : Type} [FileStore (StateM σ)] (tree : σ → FileTree) : Prop where
  existsAt : ∀ p s, tree ((FileStore.existsAt p : StateM σ Bool) s).2 = tree s
  isDirectory : ∀ p s, tree ((FileStore.isDirectory p : StateM σ Bool) s).2 = tree s
  makeDirectories : ∀ p s, (tree s).WellFormed → OnlyMade [p] (tree s)
    (tree ((FileStore.makeDirectories p : StateM σ (Except IoError Unit)) s).2)
  createFile : ∀ p s s',
    (FileStore.createFile p : StateM σ (Except IoError Unit)) s = (.ok (), s') →
      (tree s).writeText p "" = .ok (tree s')
  createFile_error : ∀ p s s' e,
    (FileStore.createFile p : StateM σ (Except IoError Unit)) s = (.error e, s') →
      Touched p (tree s) (tree s')
  writeText : ∀ p text s s',
    (FileStore.writeText p text : StateM σ (Except IoError Unit)) s = (.ok (), s') →
      (tree s).writeText p text = .ok (tree s')
  writeText_error : ∀ p text s s' e,
    (FileStore.writeText p text : StateM σ (Except IoError Unit)) s = (.error e, s') →
      Touched p (tree s) (tree s')
  syncFile : ∀ p s s',
    (FileStore.syncFile p : StateM σ (Except IoError Unit)) s = (.ok (), s') → tree s' = tree s
  syncFile_error : ∀ p s s' e,
    (FileStore.syncFile p : StateM σ (Except IoError Unit)) s = (.error e, s') →
      Touched p (tree s) (tree s')
  rename : ∀ source target s s',
    (FileStore.rename source target : StateM σ (Except IoError Unit)) s = (.ok (), s') →
      (tree s).rename source target = .ok (tree s')
  rename_error : ∀ source target s s' e,
    (FileStore.rename source target : StateM σ (Except IoError Unit)) s = (.error e, s') →
      tree s' = tree s

/-- Making sure of the directory of a path makes directories on the way to it, and nothing else. -/
theorem Sound.ensureParent {σ : Type} [FileStore (StateM σ)] {tree : σ → FileTree} {s : σ}
    (h : Sound tree) (ht : (tree s).WellFormed) (p : Path) :
    OnlyMade p.parent?.toList (tree s)
      (tree ((FileStore.ensureParent p : Action (StateM σ) Unit).run s).2) := by
  refine ensureParent_lasting (P := fun u => OnlyMade p.parent?.toList (tree s) (tree u))
    (fun q hq => ⟨fun u hu => ?_, fun u hu => ?_, fun u hu => ?_⟩) (.refl ht)
  · rwa [h.existsAt]
  · rwa [h.isDirectory]
  · rw [hq] at hu ⊢
    exact hu.trans (h.makeDirectories q u hu.changed.wellFormed)

/-- A text that is written to a temporary file is written to the tree. -/
theorem Sound.writeTemporary {σ : Type} [FileStore (StateM σ)] {tree : σ → FileTree}
    (h : Sound tree) {p : Path} {text : String} {s s' : σ}
    (hrun : (FileStore.writeTemporary p text : Action (StateM σ) Unit).run s = (.ok (), s')) :
    (tree s).writeText p text = .ok (tree s') := by
  obtain ⟨_, u, hcreate, hrun⟩ := Action.bind_ok hrun
  obtain ⟨_, v, hwrite, hsync⟩ := Action.bind_ok hrun
  have hcreated := h.createFile _ _ _ (Action.ofStore_ok hcreate)
  rw [h.syncFile _ _ _ (Action.ofStore_ok hsync), ← FileTree.writeText_again hcreated]
  exact h.writeText _ _ _ _ (Action.ofStore_ok hwrite)

/-- Whichever of its steps fails, only the temporary file has been touched. -/
theorem Sound.writeTemporary_error {σ : Type} [FileStore (StateM σ)] {tree : σ → FileTree}
    (h : Sound tree) {p : Path} {text : String} {s s' : σ} {e : Failure}
    (hrun : (FileStore.writeTemporary p text : Action (StateM σ) Unit).run s = (.error e, s')) :
    Touched p (tree s) (tree s') := by
  rcases Action.bind_error hrun with hcreate | ⟨_, u, hcreate, hrun⟩
  · obtain ⟨_, hcreate⟩ := Action.ofStore_error hcreate
    exact h.createFile_error _ _ _ _ hcreate
  · refine .of_writeText (h.createFile _ _ _ (Action.ofStore_ok hcreate)) ?_
    rcases Action.bind_error hrun with hwrite | ⟨_, v, hwrite, hsync⟩
    · obtain ⟨_, hwrite⟩ := Action.ofStore_error hwrite
      exact h.writeText_error _ _ _ _ _ hwrite
    · obtain ⟨_, hsync⟩ := Action.ofStore_error hsync
      exact .of_writeText (h.writeText _ _ _ _ (Action.ofStore_ok hwrite))
        (h.syncFile_error _ _ _ _ hsync)

end FileStore

theorem FileTree.sound : FileStore.Sound (id : FileTree → FileTree) where
  existsAt _ _ := rfl
  isDirectory _ _ := rfl
  makeDirectories p _ ht := FileTree.makeDirectories_onlyMade ht p
  createFile _ _ _ h := FileTree.change_eq_ok h
  createFile_error _ _ _ _ h := .inl (FileTree.change_eq_error h)
  writeText _ _ _ _ h := FileTree.change_eq_ok h
  writeText_error _ _ _ _ _ h := .inl (FileTree.change_eq_error h)
  syncFile _ _ _ h := (congrArg Prod.snd h).symm
  syncFile_error _ _ _ _ h := nomatch congrArg Prod.fst h
  rename _ _ _ _ h := FileTree.change_eq_ok h
  rename_error _ _ _ _ _ h := FileTree.change_eq_error h

/-- **A device that breaks** is sound, however it breaks. -/
theorem FaultyTree.sound : FileStore.Sound FaultyTree.tree where
  existsAt _ s := tree_turn (P := fun t => t = s.tree) rfl fun _ => rfl
  isDirectory _ s := tree_turn (P := fun t => t = s.tree) rfl fun _ => rfl
  makeDirectories p _ ht :=
    tree_turn (FileTree.makeDirectories_onlyMade ht p) fun b => b.afterMaking_onlyMade ht p
  createFile _ _ _ h := FileTree.change_eq_ok (turn_ok h)
  createFile_error _ _ _ _ h := turn_touched FileTree.change_eq_error h
  writeText _ _ _ _ h := FileTree.change_eq_ok (turn_ok h)
  writeText_error _ _ _ _ _ h := turn_touched FileTree.change_eq_error h
  syncFile _ _ _ h := (congrArg Prod.snd (turn_ok h)).symm
  syncFile_error _ _ _ _ h := turn_touched (fun h => by cases congrArg Prod.fst h) h
  rename _ _ _ _ h := FileTree.change_eq_ok (turn_ok h)
  rename_error source target s s' e h := by
    rcases turn_cases h with h | ⟨b, h⟩
    · exact FileTree.change_eq_error h
    · exact (congrArg Prod.snd h).symm

end ArchSpec
