import ArchSpec.Proofs.FileStore.Faulty
import ArchSpec.Proofs.FileStore.Success

/-!
# The old text or the new one

A replacement makes directories for its target, creates a file beside it, writes the text to that
and waits until it is on the device, and then gives the file the name of the target. The device may
break at any of these steps, and the tree may have files and directories in the way. However far a
replacement comes, the target holds the text that it held, or all of the new one; and but for the
file beside the target and for new directories on the way to it, everything is as it was.

* `FileStore.Replacement` — how a replacement ends; `Sound.replacement` — it ends in these ways.
* `FileTree.Kept` — what is at a location was there, or is a new directory on the way of a path.
* `FileStore.OldOrNew` — what a tree is after a replacement, of the one that there was.
* `FileStore.Beside` — where temporary files are.
* `FileStore.replaceText_oldOrNew` — this for all targets, texts and trees, on all devices.
-/

namespace ArchSpec

/-! ## What is kept -/

namespace FileTree

variable {t u v : FileTree} {p q : Path} {ps qs : List Path} {l : Location}

/-- At a location is what was there. If nothing was, a directory may be, where the ways of some
paths lead through. -/
def Kept (ps : List Path) (t u : FileTree) (l : Location) : Prop :=
  u.find? l = t.find? l ∨
    (t.find? l = none ∧ u.find? l = some .directory ∧ ∃ p ∈ ps, l ∈ t.way p)

/-- What is not changed is kept. -/
theorem kept_of_changedAt (hchanged : ChangedAt qs t u) (hmade : MadeAlong ps t u)
    (hl : ∀ q ∈ qs, t.locate q ≠ l) : Kept ps t u l := by
  cases hthere : t.find? l with
  | some e =>
    refine .inl ?_
    rw [hthere]
    cases e with
    | directory => exact hchanged.directory l hthere
    | file text => exact (hchanged.file l hl text).2 hthere
  | none =>
    cases hnow : u.find? l with
    | none => exact .inl (hnow.trans hthere.symm)
    | some e =>
      cases e with
      | file text =>
        rw [(hchanged.file l hl text).1 hnow] at hthere
        cases hthere
      | directory =>
        refine .inr ⟨hthere, hnow, (hmade.directory l hnow).resolve_left fun hbefore => ?_⟩
        rw [hbefore] at hthere
        cases hthere

end FileTree

namespace FileStore

open FileTree (ChangedAt Free Kept MadeAlong OnlyMade)

variable {p q : Path} {n text : String} {t u v w : FileTree} {r : Except Failure Unit}

/-! ## How replacements end -/

/-- The result of a replacement and the tree that it leaves. -/
inductive Replacement (p : Path) (text : String) (t : FileTree) :
    Except Failure Unit → FileTree → Prop
  /-- No file has been touched. -/
  | unopened (e : Failure) {v : FileTree} (hv : OnlyMade p.parent?.toList t v) :
    Replacement p text t (.error e) v
  /-- The temporary file is left behind, with whatever has arrived there. -/
  | abandoned (e : Failure) {v w : FileTree} (hv : OnlyMade p.parent?.toList t v) (left : String)
    (hw : v.writeText (temporaryPath p) left = .ok w) : Replacement p text t (.error e) w
  | replaced {v w u : FileTree} (hv : OnlyMade p.parent?.toList t v)
    (hw : v.writeText (temporaryPath p) text = .ok w)
    (hu : w.rename (temporaryPath p) p = .ok u) : Replacement p text t (.ok ()) u

/-- **A replacement ends in one of these ways**, wherever it fails. -/
theorem Sound.replacement {σ : Type} [FileStore (StateM σ)] {tree : σ → FileTree} {s s' : σ}
    (h : Sound tree) (ht : (tree s).WellFormed)
    (hrun : (replaceText p text : Action (StateM σ) Unit).run s = (r, s')) :
    Replacement p text (tree s) r (tree s') := by
  have hparent := h.ensureParent ht p
  cases r with
  | ok _ =>
    obtain ⟨_, v, hmade, hrun⟩ := Action.bind_ok hrun
    obtain ⟨_, w, hwrite, hrename⟩ := Action.bind_ok hrun
    rw [hmade] at hparent
    exact .replaced hparent (h.writeTemporary hwrite)
      (h.rename _ _ _ _ (Action.ofStore_ok hrename))
  | error e =>
    rcases Action.bind_error hrun with hmade | ⟨_, v, hmade, hrun⟩
    · rw [hmade] at hparent
      exact .unopened e hparent
    · rw [hmade] at hparent
      rcases Action.bind_error hrun with hwrite | ⟨_, w, hwrite, hrename⟩
      · rcases h.writeTemporary_error hwrite with hsame | ⟨left, hleft⟩
        · rw [hsame]
          exact .unopened e hparent
        · exact .abandoned e hparent left hleft
      · obtain ⟨_, hrename⟩ := Action.ofStore_error hrename
        rw [h.rename_error _ _ _ _ _ hrename]
        exact .abandoned e hparent text (h.writeTemporary hwrite)

/-! ## Old or new -/

/-- What a tree is after a replacement. -/
structure OldOrNew (p : Path) (text : String) (t : FileTree) (r : Except Failure Unit)
    (u : FileTree) : Prop where
  /-- After a success the target holds the text, and there is no temporary file. -/
  new : r = .ok () → u.readText p = .ok text
  taken : r = .ok () → u.find? (t.locate (temporaryPath p)) = none
  /-- After a failure the target is what it was. -/
  old : ∀ e, r = .error e → Kept p.parent?.toList t u (t.locate p)
  leftover : ∀ e, r = .error e → Kept p.parent?.toList t u (t.locate (temporaryPath p)) ∨
    ∃ left, u.find? (t.locate (temporaryPath p)) = some (.file left)
  others : ∀ l, l ≠ t.locate p → l ≠ t.locate (temporaryPath p) → Kept p.parent?.toList t u l
  /-- Whoever could read a file reads the old text, or the new one from the target. -/
  readers : ∀ q before, t.readText q = .ok before → t.locate q ≠ t.locate (temporaryPath p) →
    u.readText q = .ok before ∨
      (r = .ok () ∧ t.locate q = t.locate p ∧ u.readText q = .ok text)

/-- A failure that has changed nothing but the temporary file. -/
theorem OldOrNew.of_error (e : Failure) (hchanged : ChangedAt [temporaryPath p] t u)
    (hmade : MadeAlong p.parent?.toList t u)
    (hleft : Kept p.parent?.toList t u (t.locate (temporaryPath p)) ∨
      ∃ left, u.find? (t.locate (temporaryPath p)) = some (.file left)) :
    OldOrNew p text t (.error e) u where
  new := nofun
  taken := nofun
  old _ _ := by
    refine FileTree.kept_of_changedAt hchanged hmade fun q hq => ?_
    rw [List.mem_singleton.1 hq]
    exact t.locate_temporaryPath_ne p
  leftover _ _ := hleft
  others l _ hl := by
    refine FileTree.kept_of_changedAt hchanged hmade fun q hq => ?_
    rw [List.mem_singleton.1 hq]
    exact hl.symm
  readers q before hq hne := by
    refine .inl (hchanged.readText (fun q' hq' => ?_) hq)
    rw [List.mem_singleton.1 hq']
    exact hne.symm

/-- **The old text or the new one**, however a replacement ends. -/
theorem Replacement.oldOrNew (h : Replacement p text t r u) :
    OldOrNew p text t r u := by
  cases h with
  | unopened e hv =>
    exact .of_error e (hv.changed.mono (by simp)) hv.made
      (.inl (FileTree.kept_of_changedAt hv.changed hv.made nofun))
  | abandoned e hv left hw =>
    obtain ⟨hwritten, hread⟩ := FileTree.writeText_ok hv.changed.wellFormed hw
    refine .of_error e ((hv.changed.mono (by simp)).trans hwritten)
      (hv.made.trans (FileTree.writeText_madeAlong hw)) (.inr ⟨left, ?_⟩)
    rw [← hv.changed.locate, ← hwritten.locate]
    exact (FileTree.readText_ok hread).2
  | replaced hv hw hu =>
    obtain ⟨hwritten, hread⟩ := FileTree.writeText_ok hv.changed.wellFormed hw
    obtain ⟨hrenamed, htarget⟩ := FileTree.rename_ok hwritten.wellFormed hu
    have hlocate : ∀ q, _ = t.locate q := fun q => (hwritten.locate q).trans (hv.changed.locate q)
    have hchanged := ((hv.changed.mono (by simp)).trans (hwritten.mono (by simp))).trans hrenamed
    have hmade := (hv.made.trans (FileTree.writeText_madeAlong hw)).trans
      (FileTree.rename_madeAlong hu)
    have hnew := htarget.trans hread
    have hapart : ∀ l, l ≠ t.locate p → l ≠ t.locate (temporaryPath p) →
        ∀ q ∈ [temporaryPath p, p], t.locate q ≠ l := by
      intro l hp htemp q hq
      rcases List.mem_pair.1 hq with rfl | rfl
      · exact htemp.symm
      · exact hp.symm
    refine ⟨fun _ => hnew, fun _ => ?_, nofun, nofun, fun l hp htemp => ?_, ?_⟩
    · rw [← hlocate]
      refine FileTree.find?_renamed hu ?_
      rw [hlocate, hlocate]
      exact t.locate_temporaryPath_ne p
    · exact FileTree.kept_of_changedAt hchanged hmade (hapart l hp htemp)
    · intro q before hq htemp
      by_cases hp : t.locate q = t.locate p
      · have hresolve := hchanged.resolve (FileTree.readText_ok hq).1
        refine .inr ⟨rfl, hp, FileTree.readText_eq hresolve ?_⟩
        rw [hp, ← hchanged.locate]
        exact (FileTree.readText_ok hnew).2
      · exact .inl (hchanged.readText (hapart _ hp htemp) hq)

/-! ## Temporary files -/

/-- The temporary file of a target is in its directory, under another name, and no other target has
the same one. -/
structure Beside (t : FileTree) (p : Path) : Prop where
  directory : ∃ d n, p.fileName? = some n ∧ t.locate p = d ++ [n] ∧
    t.locate (temporaryPath p) = d ++ [n ++ ".tmp"]
  ne : t.locate (temporaryPath p) ≠ t.locate p
  apart : ∀ q, t.locate q ≠ t.locate p → t.locate (temporaryPath q) ≠ t.locate (temporaryPath p)

theorem beside (hname : p.fileName? = some n) (t : FileTree) : Beside t p where
  directory := by
    rcases t.locate_temporaryPath p with ⟨n', hn', d, hp, htemp⟩ | ⟨hnone, _⟩
    · exact ⟨d, n', hn', hp, htemp⟩
    · rw [hname] at hnone
      cases hnone
  ne := t.locate_temporaryPath_ne p
  apart _ hne heq := hne (FileTree.locate_temporaryPath_injective heq)

/-! ## All of it -/

/-- **A replacement leaves the old text or the new one**: on every device, however it breaks, and in
every tree, whatever is in the way. Where nothing breaks it succeeds unless something is in the way
of the target or of the temporary file beside it. -/
theorem replaceText_oldOrNew (hname : p.fileName? = some n) (text : String) (ht : t.WellFormed) :
    Beside t p ∧
    (∀ turns r s, (replaceText p text : Action (StateM FaultyTree) Unit).run ⟨t, turns⟩ = (r, s) →
      OldOrNew p text t r s.tree) ∧
    ∃ r u, (replaceText p text : Action (StateM FileTree) Unit).run t = (r, u) ∧
      OldOrNew p text t r u ∧
      (t.find? (t.origin p) = some .directory →
        (r = .ok () ↔ Free t p ∧ Free t (temporaryPath p))) := by
  refine ⟨beside hname t, fun turns r s hrun => ?_, ?_⟩
  · exact (FaultyTree.sound.replacement (s := ⟨t, turns⟩) ht hrun).oldOrNew
  · cases hrun : (replaceText p text : Action (StateM FileTree) Unit).run t with
    | mk r u =>
      refine ⟨r, u, rfl, (FileTree.sound.replacement ht hrun).oldOrNew, fun hstart => ?_⟩
      rw [← replaceText_ok_iff ht hname hstart, hrun]
      exact ⟨fun hok => ⟨u, by rw [hok]⟩, fun ⟨_, hok⟩ => congrArg Prod.fst hok⟩

/-- A directory with one file. -/
def notes : FileTree := ⟨[(["w"], .directory), (["w", "notes.md"], .file "one")], ["w"]⟩

/-- A device on which a file is created, and then only a part of its text arrives. -/
def fullDevice (left : String) : List (Option Breakage) :=
  [none, some ⟨⟨.other, "No space left on device (os error 28)"⟩, some left, none⟩]

/-- On a full device the old text stays, with a part of the new one beside it. Elsewhere the new one
takes its place. -/
theorem replaceText_oldOrNew_notes :
    (∃ e s, (replaceText "notes.md" "two" : Action (StateM FaultyTree) Unit).run
        ⟨notes, fullDevice "tw"⟩ = (.error e, s) ∧
      s.tree.readText "notes.md" = .ok "one" ∧ s.tree.readText "notes.md.tmp" = .ok "tw") ∧
    ∃ u, (replaceText "notes.md" "two" : Action (StateM FileTree) Unit).run notes = (.ok (), u) ∧
      u.readText "notes.md" = .ok "two" ∧ u.find? ["w", "notes.md.tmp"] = none := by
  have hwell : notes.WellFormed := FileTree.wellFormed_of_entries (by decide)
  have hread : notes.readText "notes.md" = .ok "one" := eq_ok_of_toOption (by decide +kernel)
  have hplace : notes.locate (temporaryPath "notes.md") = ["w", "notes.md.tmp"] := by
    decide +kernel
  obtain ⟨hbeside, hfaulty, r, u, hrun, hplain, hfree⟩ :=
    replaceText_oldOrNew (p := "notes.md") (n := "notes.md") (by decide +kernel) "two" hwell
  refine ⟨?_, u, ?_⟩
  · cases hbroken : (replaceText "notes.md" "two" : Action (StateM FaultyTree) Unit).run
        ⟨notes, fullDevice "tw"⟩ with
    | mk r s =>
      have hfails : ((replaceText "notes.md" "two" : Action (StateM FaultyTree) Unit).run
          ⟨notes, fullDevice "tw"⟩).1.toOption = none := by
        decide +kernel
      have hleft : (((replaceText "notes.md" "two" : Action (StateM FaultyTree) Unit).run
          ⟨notes, fullDevice "tw"⟩).2.tree.readText "notes.md.tmp").toOption = some "tw" := by
        decide +kernel
      rw [hbroken] at hfails hleft
      cases r with
      | ok _ => cases hfails
      | error e =>
        refine ⟨e, s, rfl, ?_, eq_ok_of_toOption hleft⟩
        rcases (hfaulty _ _ s hbroken).readers "notes.md" "one" hread hbeside.ne.symm with
          hold | ⟨hok, _⟩
        · exact hold
        · cases hok
  · have htarget : Free notes "notes.md" :=
      ⟨⟨by decide, by decide, by decide⟩, by decide +kernel, by decide +kernel, by decide +kernel,
        by decide +kernel, by decide +kernel⟩
    have htemporary : Free notes (temporaryPath "notes.md") :=
      ⟨⟨by decide +kernel, by decide +kernel, by decide +kernel⟩, by decide +kernel,
        by decide +kernel, by decide +kernel, by decide +kernel, by decide +kernel⟩
    have hok : r = .ok () := (hfree (by decide)).2 ⟨htarget, htemporary⟩
    rw [← hplace]
    exact ⟨by rw [hrun, hok], hplain.new hok, hplain.taken hok⟩

/-- The directories of a target are made. -/
example : ((replaceText "a/b/c.txt" "hello" : Action (StateM FileTree) Unit).run
    (.fresh ["w"])).2.textAt? ["w", "a", "b", "c.txt"] = some "hello" := by
  decide +kernel

end FileStore

end ArchSpec
