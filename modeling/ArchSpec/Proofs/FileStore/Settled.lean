import ArchSpec.Proofs.FileStore.Replace
import ArchSpec.Proofs.FileTree.Locate

/-!
# Replacing a text by itself

A replacement takes its temporary file away when it is done. If a file holds a text already and has
no temporary file, then replacing the text by itself changes no file, whether it succeeds or not:
nothing can fail once the temporary file is there.

* `FileTree.rename_of_named` — a renaming that cannot fail.
* `FileStore.replaceText_temporary` — the temporary file is gone afterwards.
* `FileStore.replaceText_same` — a text that is replaced by itself.
-/

namespace ArchSpec

open FileStore (temporaryPath)

namespace FileTree

variable {t u : FileTree} {p : Path} {l : Location} {text : String}

/-- The path of a file ends in a name. -/
theorem endsInName_of_file (ht : t.WellFormed) (h : t.resolve p = .ok l)
    (hfile : t.find? l = some (.file text)) : endsInName p = true := by
  obtain ⟨names, n, hroute⟩ : ∃ names n, route p = names ++ [n] := by
    obtain ⟨names, n, hroute⟩ := List.eq_nil_or_concat (route p) |>.resolve_left (route_ne_nil p)
    exact ⟨names, n, by simpa using hroute⟩
  obtain ⟨m, _, h⟩ := except_bind_ok h
  rw [hroute, List.foldlM_append] at h
  obtain ⟨d, _, h⟩ := except_bind_ok h
  rw [List.foldlM_cons] at h
  obtain ⟨x, hx, h⟩ := except_bind_ok h
  cases h
  obtain ⟨hd, hstep⟩ := follow_ok hx
  rw [endsInName, hroute, List.getLast?_concat]
  simp only [Bool.and_eq_true, decide_eq_true_eq]
  refine ⟨fun hdot => ?_, fun hup => ?_⟩
  · rw [stepTo, if_pos hdot] at hstep
    rw [hstep, hd] at hfile
    cases hfile
  · rw [stepTo, if_neg (by rw [hup]; decide), if_pos hup] at hstep
    rw [hstep, ht.dropLast hd] at hfile
    cases hfile

/-- The last piece of a path that ends in a name is that name. -/
theorem piece_of_endsInName (h : endsInName p = true) :
    ¬((Text.split '/' p).getLast? = some "." ∨ (Text.split '/' p).getLast? = some "..") ∧
      (Text.split '/' p).getLast? ≠ some "" := by
  have hslash : (Text.split '/' p).getLast? ≠ some "" := by
    intro hlast
    rw [endsInName, route] at h
    simp only [hlast, if_true, List.getLast?_concat] at h
    cases h
  refine ⟨fun hdots => ?_, hslash⟩
  obtain ⟨n, hn⟩ : ∃ n, (Text.split '/' p).getLast? = some n := by
    rcases hdots with hdot | hup
    · exact ⟨_, hdot⟩
    · exact ⟨_, hup⟩
  obtain ⟨pieces, hpieces⟩ := List.getLast?_eq_some_iff.1 hn
  have hempty : n ≠ "" := fun h => hslash (by rw [hn, h])
  have hroute : (route p).getLast? = some n := by
    simp only [route, hn, Option.some.injEq, hempty, if_false]
    simp [hpieces, hempty]
  rw [endsInName, hroute] at h
  simp only [Bool.and_eq_true, decide_eq_true_eq] at h
  rw [hn, Option.some.injEq, Option.some.injEq] at hdots
  rcases hdots with hdot | hup
  · exact h.1 hdot
  · exact h.2 hup

/-- A file can be given a name in a directory that no directory has. -/
theorem rename_of_named {source target : Path} (hs : t.readText source = .ok text)
    (hname : endsInName target = true) (hl : t.resolve target = .ok l)
    (hfile : t.find? l ≠ some .directory) : ∃ u, t.rename source target = .ok u := by
  obtain ⟨hdots, hslash⟩ := piece_of_endsInName hname
  unfold rename
  rw [hs, (readText_ok hs).1, hl]
  simp only [bind, Except.bind]
  rw [if_neg hdots, if_neg hslash]
  exact ⟨_, rfl⟩

/-- A file that has been given another name is no longer where it was. -/
theorem find?_renamed {source target : Path} (h : t.rename source target = .ok u)
    (hne : t.locate source ≠ t.locate target) : u.find? (t.locate source) = none := by
  obtain ⟨text, l, htext, hl, hname, _, rfl⟩ := rename_eq h
  obtain ⟨d, n, hd, _⟩ := resolve_name hl hname
  have hroot : l ≠ [] := by simp [hd]
  rw [find?_put hroot, if_neg fun hsame => hne (hsame.trans (resolve_eq hl)),
    find?_prune (ne_root_of_file (readText_ok htext).2), if_pos List.prefix_rfl]

end FileTree

namespace FileStore

open FileTree (ChangedAt)

variable {t u : FileTree} {p : Path} {text : String}

/-- **The temporary file is gone** once a text has been replaced. -/
theorem replaceText_temporary (ht : t.WellFormed)
    (h : (replaceText p text : Action (StateM FileTree) Unit).run t = (.ok (), u)) :
    u.find? (t.locate (temporaryPath p)) = none := by
  obtain ⟨v, w, hparent, hwrite, hrename⟩ := replaceText_steps h
  have hv := (ensureParent_changes p).changedAt ht hparent
  have hw := (FileTree.writeText_ok hv.wellFormed hwrite).1
  have hlocate : ∀ q, w.locate q = t.locate q := fun q => (hw.locate q).trans (hv.locate q)
  rw [← hlocate]
  refine FileTree.find?_renamed hrename ?_
  rw [hlocate, hlocate]
  exact t.locate_temporaryPath_ne p

/-- **A text that is replaced by itself**: if there is no temporary file, no file is changed,
whether the replacement succeeds or not. -/
theorem replaceText_same (ht : t.WellFormed) (hread : t.readText p = .ok text)
    (htemp : t.textAt? (t.locate (temporaryPath p)) = none) {r : Except Failure Unit}
    (h : (replaceText p text : Action (StateM FileTree) Unit).run t = (r, u)) :
    ChangedAt [] t u := by
  cases r with
  | ok _ =>
    obtain ⟨hchanged, hafter⟩ := replaceText_ok ht h
    refine { hchanged with file := fun l _ text' => ?_ }
    rw [← FileTree.textAt?_eq_some, ← FileTree.textAt?_eq_some]
    by_cases htarget : l = t.locate p
    · rw [htarget, FileTree.textAt?_of_readText hread, ← hchanged.locate,
        FileTree.textAt?_of_readText hafter]
    · by_cases htemporary : l = t.locate (temporaryPath p)
      · rw [htemporary, htemp, FileTree.textAt?, replaceText_temporary ht h]
      · rw [hchanged.textAt? fun q hq => ?_]
        simp only [List.mem_cons, List.not_mem_nil, or_false] at hq
        rcases hq with rfl | rfl
        · exact Ne.symm htemporary
        · exact Ne.symm htarget
  | error e =>
    rcases Action.bind_error h with hparent | ⟨_, v, hparent, h⟩
    · exact (ensureParent_changes p).changedAt ht hparent
    · have hv := (ensureParent_changes p).changedAt ht hparent
      rcases Action.bind_error h with hwrite | ⟨_, w, hwrite, hrename⟩
      · rw [writeTemporary_error hwrite]
        exact hv
      · -- with the temporary file in place, the renaming cannot fail
        obtain ⟨hw, htext⟩ := FileTree.writeText_ok hv.wellFormed (writeTemporary_ok_iff.1 hwrite)
        obtain ⟨hl, hfile⟩ := FileTree.readText_ok (hv.readText (fun q hq => by cases hq) hread)
        have hthere : w.find? (v.locate p) ≠ some .directory := by
          rw [(hw.file _ (fun q hq => ?_) text).2 hfile]
          · nofun
          · rw [List.mem_singleton.1 hq]
            exact v.locate_temporaryPath_ne p
        obtain ⟨x, hx⟩ := FileTree.rename_of_named htext
          (FileTree.endsInName_of_file hv.wellFormed hl hfile) (hw.resolve hl) hthere
        rw [Action.run_ofStore] at hrename
        have hchange : (rename (temporaryPath p) p : StateM FileTree _) w = (.ok (), x) := by
          show FileTree.change (·.rename (temporaryPath p) p) w = _
          rw [FileTree.change, hx]
        rw [hchange] at hrename
        cases hrename

end FileStore

end ArchSpec
