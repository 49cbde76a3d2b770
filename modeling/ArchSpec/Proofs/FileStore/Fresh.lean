import ArchSpec.Proofs.FileStore.Settled
import ArchSpec.Proofs.FileTree.Separate
import ArchSpec.Proofs.Path.Parent

/-!
# Files in new directories

A replacement fails only for what is in its way. Where nothing is, in a directory that is not there
yet, it succeeds, and the new directory has the new file and nothing else.

* `FileTree.IsPath` — texts that can be paths; `start_iff` — they are those that start anywhere.
* `FileTree.resolve_join` — the path of a name in a directory.
* `FileTree.makeDirectories_new` — a directory that is not there yet.
* `FileStore.replaceText_new` — a file in such a directory.
-/

namespace ArchSpec

open ArchSpec.Path (EndsInPiece IsName isAbsolute join)
open FileStore (temporaryPath)

namespace FileTree

variable {t : FileTree} {p q base : Path} {n : String} {l : Location}

/-! ## Texts that can be paths -/

/-- A text can be a path. -/
structure IsPath (p : Path) : Prop where
  noNul : '\x00' ∉ p.toList
  short : p.utf8ByteSize ≤ maxPath
  nonempty : p ≠ ""

theorem start_iff : t.start p = .ok (t.origin p) ↔ IsPath p := by
  unfold start
  constructor
  · intro h
    split at h
    · cases h
    · rename_i hnul
      split at h
      · cases h
      · rename_i hshort
        split at h
        · cases h
        · rename_i hempty
          exact ⟨by simpa using hnul, Nat.not_lt.1 hshort, by simpa using hempty⟩
  · intro h
    have hempty : p.isEmpty = false := by simpa using h.nonempty
    rw [if_neg (by simpa using h.noNul), if_neg (Nat.not_lt.2 h.short), if_neg (by simp [hempty]),
      origin]
    split <;> rfl

theorem IsPath.of_resolve (h : t.resolve p = .ok l) : IsPath p := start_iff.1 (resolve_iff.1 h).1

theorem utf8ByteSize_of_begins (h : q.toList <+: p.toList) : q.utf8ByteSize ≤ p.utf8ByteSize := by
  obtain ⟨rest, hrest⟩ := h
  have hp : p = q ++ String.ofList rest := String.toList_injective (by simp [hrest])
  rw [hp, String.utf8ByteSize_append]
  omega

/-- The beginning of a path is a path. -/
theorem IsPath.of_begins (h : IsPath p) (hq : q.toList <+: p.toList) (hne : q ≠ "") : IsPath q :=
  ⟨fun hnul => h.noNul (hq.subset hnul), Nat.le_trans (utf8ByteSize_of_begins hq) h.short, hne⟩

/-- Below the beginning of a path, what is no longer may take the place of what stands there. -/
theorem IsPath.join_of_le {r r' : Path} (h : IsPath (join base r)) (hbase : EndsInPiece base)
    (hr : isAbsolute r = false) (hq : q.toList <+: base.toList) (hr' : isAbsolute r' = false)
    (hnul : '\x00' ∉ r'.toList) (hne : r' ≠ "") (hle : r'.utf8ByteSize ≤ r.utf8ByteSize) :
    IsPath (join q r') := by
  obtain ⟨hnoNul, hshort, _⟩ := h
  have hsize := utf8ByteSize_of_begins hq
  rw [hbase.join_eq hr] at hnoNul hshort
  simp only [String.utf8ByteSize_append, String.toList_append, List.mem_append, not_or]
    at hnoNul hshort
  have hqnul : '\x00' ∉ q.toList := fun hmem => hnoNul.1.1 (hq.subset hmem)
  rw [join, if_neg (by simp [hr'])]
  split
  · refine ⟨by simp [hqnul, hnul], ?_, by simp [hne]⟩
    rw [String.utf8ByteSize_append]
    omega
  · refine ⟨by simp [hqnul, hnul], ?_, by simp [hne]⟩
    simp only [String.utf8ByteSize_append]
    omega

/-! ## Names in a directory -/

theorem route_name (h : IsName n) : route n = [n] := route_of_name h.noSlash h.noDots.1

/-- **The path of a name in a directory** leads to that name there. -/
theorem resolve_join (hl : t.resolve base = .ok l) (hd : t.find? l = some .directory)
    (hn : IsName n) (hshort : n.utf8ByteSize ≤ maxName) (hpath : IsPath (join base n)) :
    t.resolve (join base n) = .ok (l ++ [n]) := by
  obtain ⟨_, hbefore, rfl⟩ := resolve_iff.1 hl
  rw [route_eq, passable_append] at hbefore
  have hstep : stepTo (t.locate base) n = t.locate base ++ [n] := by
    rw [stepTo, if_neg hn.noDots.2.1, if_neg hn.noDots.2.2]
  refine resolve_iff.2 ⟨start_iff.2 hpath, ?_, ?_⟩
  · rw [route_join base hn.relative, route_name hn, origin_join t base hn.relative,
      passable_append, foldl_namesOf]
    exact ⟨hbefore.1, .cons hd (.inr (.inr hshort)) (.nil _)⟩
  · rw [locate_join t base hn.relative, hn.moves]
    rfl

theorem endsInName_join (base : Path) (hn : IsName n) : endsInName (join base n) = true := by
  rw [endsInName, route_join base hn.relative, route_name hn, List.getLast?_concat]
  simp [hn.noDots]

/-! ## New directories -/

/-- A directory that is not there yet is made where there is one to put it into. -/
theorem makeDirectories_new (hp : EndsInPiece p) (hl : t.resolve p = .ok l)
    (hnone : t.find? l = none) : t.makeDirectories p = (.ok (), t.put l .directory) := by
  obtain ⟨c, hc, hslash⟩ := hp
  have htrimmed : String.ofList (p.toList.reverse.dropWhile (· = '/')).reverse = p := by
    obtain ⟨cs, hcs⟩ := List.getLast?_eq_some_iff.1 hc
    rw [hcs, List.reverse_append, List.reverse_singleton, List.singleton_append,
      List.dropWhile_cons_of_neg (by simpa using hslash), List.reverse_cons, List.reverse_reverse,
      ← hcs, String.ofList_toList]
  have hempty : p.isEmpty = false := by
    simpa using EndsInPiece.nonempty ⟨c, hc, hslash⟩
  have hmake : t.makeDirectory p = .ok (t.put l .directory) := by
    rw [makeDirectory]
    simp only [htrimmed, ite_self, hl]
    simp only [bind, Except.bind, hnone]
    rfl
  rw [makeDirectories, makeDirectoriesWithin, if_neg (by simp [hempty]), hmake]

end FileTree

namespace FileStore

open FileTree (IsPath maxName)

variable {t : FileTree} {p base : Path} {n : String} {l : Location}

theorem ensureParent_new (hp : Path.parent? p = some base) (hbase : EndsInPiece base)
    (hl : t.resolve base = .ok l) (hnone : t.find? l = none) :
    (ensureParent p : Action (StateM FileTree) Unit).run t = (.ok (), t.put l .directory) := by
  have hempty : base.isEmpty = false := by simpa using hbase.nonempty
  have hmissing : t.existsAt base = false := by
    rw [FileTree.existsAt, FileTree.entryAt, hl]
    simp only [bind, Except.bind, hnone]
    rfl
  have hask : (liftM (existsAt base : StateM FileTree Bool) : Action (StateM FileTree) Bool).run t =
      (.ok false, t) := by
    rw [← hmissing]
    rfl
  unfold ensureParent
  rw [hp]
  simp only [hempty]
  refine (Action.run_bind_ok hask).trans ?_
  change ((t.makeDirectories base).1.mapError _, (t.makeDirectories base).2) = _
  rw [FileTree.makeDirectories_new hbase hl hnone]
  rfl

theorem isName_temporary (hn : IsName n) : IsName (n ++ ".tmp") :=
  Path.isName_of_mem_moves (p := n ++ ".tmp") (by
    rw [(FileTree.moves_temporaryName hn.noSlash).1]
    exact List.mem_singleton_self _)

theorem size_le_temporary (n : String) : n.utf8ByteSize ≤ (n ++ ".tmp").utf8ByteSize := by
  rw [String.utf8ByteSize_append]
  omega

theorem concat_ne_temporary (l : Location) (n : String) : l ++ [n] ≠ l ++ [n ++ ".tmp"] := by
  intro heq
  have := congrArg String.length (List.cons.inj (List.append_cancel_left heq)).1
  rw [String.length_append, show ".tmp".length = 4 from rfl] at this
  omega

/-- Where there can be a temporary file, there can be the file that it is for. -/
theorem isPath_of_temporary (hbase : EndsInPiece base) (hn : IsName n)
    (hpath : IsPath (join base (n ++ ".tmp"))) : IsPath (join base n) := by
  have htemporary := isName_temporary hn
  refine hpath.join_of_le hbase htemporary.relative List.prefix_rfl hn.relative (fun hnul => ?_)
    hn.noDots.1 (size_le_temporary n)
  refine hpath.noNul ?_
  rw [hbase.join_eq htemporary.relative]
  simp [hnul]

theorem temporaryPath_join (hn : IsName n) (hp : (join base n).parent? = some base) :
    temporaryPath (join base n) = join base (n ++ ".tmp") := by
  have hname : Path.fileName? (join base n) = some n := by
    rw [Path.fileName?_eq_some, Path.moves_join hn.relative, hn.moves, List.getLast?_concat]
  rw [temporaryPath, Path.withFileName, hname, hp]
  rfl

/-- A file is written beside its place and moved there, in a directory that has neither of both. -/
theorem rename_written (ht : t.WellFormed) (hbase : EndsInPiece base) (hl : t.resolve base = .ok l)
    (hd : t.find? l = some .directory) (hn : IsName n)
    (hshort : (n ++ ".tmp").utf8ByteSize ≤ maxName) (hpath : IsPath (join base (n ++ ".tmp")))
    (hfree : t.find? (l ++ [n]) = none) (htemp : t.find? (l ++ [n ++ ".tmp"]) = none)
    (text : String) :
    ∃ v u, t.writeText (join base (n ++ ".tmp")) text = .ok v ∧
      v.rename (join base (n ++ ".tmp")) (join base n) = .ok u ∧
      ∀ x, u.find? x = if x = l ++ [n] then some (.file text) else t.find? x := by
  have htemporary := isName_temporary hn
  have hresolve := FileTree.resolve_join hl hd htemporary hshort hpath
  have hnone : (none : Option Entry) ≠ some .directory := (Option.some_ne_none _).symm
  have hwrite := FileTree.writeText_eq hresolve (FileTree.endsInName_join base htemporary)
    (by rwa [htemp]) text
  obtain ⟨hwritten, hread⟩ := FileTree.writeText_ok ht hwrite
  have htarget := hwritten.resolve
    (FileTree.resolve_join hl hd hn (Nat.le_trans (size_le_temporary n) hshort)
      (isPath_of_temporary hbase hn hpath))
  obtain ⟨u, hrename⟩ := FileTree.rename_of_named hread (FileTree.endsInName_join base hn) htarget
    (by rwa [FileTree.find?_put (by simp), if_neg (concat_ne_temporary l n), hfree])
  refine ⟨_, u, hwrite, hrename, fun x => ?_⟩
  obtain ⟨text', l', htext', hl', _, _, rfl⟩ := FileTree.rename_eq hrename
  obtain rfl := Except.ok.inj (hread.symm.trans htext')
  obtain rfl := Except.ok.inj (htarget.symm.trans hl')
  rw [← FileTree.resolve_eq (hwritten.resolve hresolve), FileTree.find?_put (by simp),
    FileTree.find?_prune (by simp), FileTree.find?_put (by simp)]
  split
  · rfl
  · split
    · rename_i hx
      obtain ⟨m, rfl⟩ := hx
      by_contra hthere
      rcases List.eq_nil_or_concat m with rfl | ⟨_, _, rfl⟩
      · exact hthere (by rw [List.append_nil, htemp])
      · rw [ht.ancestor (by simp) (Ne.symm hthere)] at htemp
        cases htemp
    · rename_i hx
      rw [if_neg (by rintro rfl; exact hx List.prefix_rfl)]

/-- **A text is put into a directory that is not there yet**, which is made for it. Nothing else is
changed. -/
theorem replaceText_new (ht : t.WellFormed) (hbase : EndsInPiece base)
    (hp : (join base n).parent? = some base) (hl : t.resolve base = .ok l)
    (hnone : t.find? l = none) (hn : IsName n) (hshort : (n ++ ".tmp").utf8ByteSize ≤ maxName)
    (hpath : IsPath (join base (n ++ ".tmp"))) (text : String) :
    ∃ u, (replaceText (join base n) text : Action (StateM FileTree) Unit).run t = (.ok (), u) ∧
      ∀ x, u.find? x = if x = l ++ [n] then some (.file text) else
        if x = l then some .directory else t.find? x := by
  have hroot : l ≠ [] := by
    rintro rfl
    cases hnone
  have hmade := ensureParent_new hp hbase hl hnone
  have hchanged := (ensureParent_changes _).changedAt ht hmade
  have hempty : ∀ m, (t.put l .directory).find? (l ++ [m]) = none := fun m => by
    rw [FileTree.find?_put hroot, if_neg (by simp)]
    by_contra hthere
    rw [ht l m hthere] at hnone
    cases hnone
  have hdirectory : (t.put l .directory).find? l = some .directory := by
    rw [FileTree.find?_put hroot, if_pos rfl]
  obtain ⟨v, u, hwrite, hrename, hu⟩ := rename_written hchanged.wellFormed hbase
    (hchanged.resolve hl) hdirectory hn hshort hpath (hempty _) (hempty _) text
  refine ⟨u, ?_, fun x => ?_⟩
  · refine (Action.run_bind_ok hmade).trans ?_
    rw [temporaryPath_join hn hp]
    exact (Action.run_bind_ok (writeTemporary_ok_iff.2 hwrite)).trans (run_change hrename)
  · rw [hu, FileTree.find?_put hroot]

end FileStore

end ArchSpec
