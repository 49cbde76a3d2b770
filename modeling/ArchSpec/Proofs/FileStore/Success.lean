import ArchSpec.Proofs.FileStore.Faulty
import ArchSpec.Proofs.FileStore.Making

/-!
# When replacements succeed

On a device that does not break, a replacement fails for what is in its way only: a file where a
directory has to be, a directory where the target or its temporary file has to be, or a path or name
that is too long. It fails wherever any of these is, too.

* `FileTree.Ready` — a file can be put where a path leads, as the directories are.
* `FileTree.Free` — nothing is in the way of a file, though directories may have to be made.
* `FileStore.ensureParent_makes` — they are made.
* `FileStore.replaceText_ok_iff` — when a replacement succeeds.
-/

namespace ArchSpec

open FileStore (temporaryPath)

namespace FileTree

variable {t u v : FileTree} {p q : Path} {ps : List Path} {l : Location} {text n : String}

/-! ## Files that can be put -/

/-- A path that ends in a name is under its parent, and nothing follows its names. -/
theorem under_of_named (h : endsInName p = true) : ∃ q ms s, p.moves = ms ++ [s] ∧
    p.parent? = some q ∧ Under q p ∧ route p = namesOf p := by
  obtain ⟨hdots, hslash⟩ := piece_of_endsInName h
  obtain ⟨front, piece, hsplit⟩ :=
    (List.eq_nil_or_concat' _).resolve_left (Text.splitOn_ne_nil '/' p.toList)
  have hlast : (Text.split '/' p).getLast? = some (String.ofList piece) := by
    rw [Text.split, hsplit, List.map_append, List.map_singleton, List.getLast?_concat]
  rw [hlast] at hdots hslash
  have hne : piece ≠ [] := by
    rintro rfl
    exact hslash rfl
  have hdot : piece ≠ ['.'] := by
    rintro rfl
    exact hdots (.inl rfl)
  obtain ⟨s, hs⟩ : ∃ s, Path.stepOf? piece = some s :=
    Option.ne_none_iff_exists'.1 fun hnone =>
      (Path.stepOf?_eq_none.1 hnone).elim hne hdot
  have hmoves : p.moves = front.filterMap Path.stepOf? ++ [s] := by
    rw [Path.moves, hsplit, List.filterMap_append, List.filterMap_cons_some hs]
    rfl
  obtain ⟨q, hq, _, hunder⟩ := under_parent (.inr ⟨front, piece, s, hsplit, hs⟩) hmoves
  refine ⟨q, _, s, hmoves, hq, hunder, ?_⟩
  rw [route_eq, hsplit, List.getLast?_concat, if_neg, List.append_nil]
  simpa using hne

/-- The temporary file of a target is under the parent of the target. -/
theorem under_temporaryPath (hname : p.fileName? = some n) (hq : p.parent? = some q) :
    Under q (temporaryPath p) := by
  have hmem := List.mem_of_mem_getLast? (Path.fileName?_eq_some.1 hname)
  obtain ⟨_, hrelative⟩ := moves_temporaryName (Path.name_of_moves hmem).2
  have hpath : temporaryPath p = Path.join q (n ++ ".tmp") := by
    rw [temporaryPath, Path.withFileName, hname, hq]
    rfl
  have hslash : '/' ∉ (n ++ ".tmp").toList := by
    simpa using (Path.name_of_moves hmem).2
  rw [hpath]
  refine ⟨(Path.isAbsolute_join hrelative).symm, [], n ++ ".tmp",
    fun _ hd => absurd hd List.not_mem_nil, ?_⟩
  rw [namesOf, Path.pieces_join hrelative, List.map_append, List.append_nil, ← namesOf,
    Path.pieces, Text.splitOn_of_not_mem hslash]
  simp

/-- A file can be put where a path leads: the path ends in a name, in a directory that is there, and
no directory has that name. -/
structure Ready (t : FileTree) (p : Path) : Prop where
  named : endsInName p = true
  reached : t.resolve p = .ok (t.locate p)
  noDirectory : t.find? (t.locate p) ≠ some .directory

theorem Ready.writeText (h : Ready t p) (text : String) : ∃ u, t.writeText p text = .ok u :=
  ⟨_, writeText_eq h.reached h.named h.noDirectory text⟩

theorem ready_of_writeText (hw : t.writeText p text = .ok u) : Ready t p := by
  obtain ⟨l, hl, hname, hfile, _⟩ := writeText_eq_ok hw
  obtain rfl := resolve_eq hl
  exact ⟨hname, hl, hfile⟩

theorem ready_of_rename {source target : Path} (hr : t.rename source target = .ok u) :
    Ready t target := by
  obtain ⟨_, l, _, hl, hname, hfile, _⟩ := rename_eq hr
  obtain rfl := resolve_eq hl
  exact ⟨hname, hl, hfile⟩

/-- Where a file can be put, one still can be if other files are written. -/
theorem Ready.of_writeText (ht : t.WellFormed) (h : Ready t p) (hw : t.writeText q text = .ok u) :
    Ready u p := by
  obtain ⟨hchanged, _⟩ := writeText_ok ht hw
  have hmade : MadeAlong [] t u := writeText_madeAlong hw
  refine ⟨h.named, ?_, fun hdirectory => ?_⟩
  · rw [hchanged.locate]
    exact hchanged.resolve h.reached
  · rw [hchanged.locate] at hdirectory
    rcases hmade.directory _ hdirectory with hthere | ⟨_, hp, _⟩
    · exact h.noDirectory hthere
    · cases hp

/-- The way to a file that can be put leads through directories. -/
theorem Ready.directory (h : Ready t p) : ∀ l ∈ t.approach p, t.find? l = some .directory := by
  obtain ⟨q, _, _, _, _, hunder, hroute⟩ := under_of_named h.named
  obtain ⟨_, hpassable, _⟩ := resolve_iff.1 h.reached
  obtain ⟨dots, n, hdots, hnames⟩ := hunder.names
  rw [hroute, hnames, ← hunder.origin, List.append_assoc, passable_append, foldl_namesOf]
    at hpassable
  intro l hl
  exact directory_of_passable hpassable.1 (fun _ hd => hd) (hpassable.2.directory (by simp)) l
    (hunder.mem_approach_iff.1 hl)

/-! ## Nothing in the way -/

/-- Nothing is in the way of a file. Its directory need not be there. -/
structure Free (t : FileTree) (p : Path) : Prop where
  path : IsPath p
  named : endsInName p = true
  short : ∀ n ∈ namesOf p, Short n
  /-- No file is where a directory has to be. -/
  noFile : ∀ l ∈ t.approach p, t.textAt? l = none
  /-- No directory is where the file has to be, nor is one made there. -/
  noDirectory : t.find? (t.locate p) ≠ some .directory
  apart : t.locate p ∉ t.approach p

/-- Once the directories are made, the file can be put. -/
theorem Free.ready (h : Free t p) (hunder : Under q p) (hmade : OnlyMade [q] t v)
    (hway : ∀ l ∈ t.way q, v.find? l = some .directory) : Ready v p := by
  obtain ⟨_, _, _, _, _, _, hroute⟩ := under_of_named h.named
  refine ⟨h.named, resolve_iff.2 ⟨start_iff.2 h.path, ?_, rfl⟩, fun hdirectory => ?_⟩
  · rw [hroute]
    refine hunder.passable h.short ?_
    rwa [way_congr hmade.changed.workingDirectory]
  · rw [hmade.changed.locate] at hdirectory
    rcases hmade.made.directory _ hdirectory with hthere | ⟨q', hq', hl⟩
    · exact h.noDirectory hthere
    · rw [List.mem_singleton.1 hq'] at hl
      exact h.apart (hunder.mem_approach_iff.2 hl)

/-- Where a file can be put, nothing was in its way before files were put elsewhere. -/
theorem Ready.free (h : Ready u p) (hchanged : ChangedAt ps t u)
    (hps : ∀ q ∈ ps, ∃ text, u.find? (t.locate q) = some (.file text)) : Free t p := by
  obtain ⟨_, _, _, _, _, _, hroute⟩ := under_of_named h.named
  obtain ⟨_, hpassable, _⟩ := resolve_iff.1 h.reached
  have hplace := hchanged.locate p
  have happroach : u.approach p = t.approach p := by
    rw [approach, approach, origin, origin, hchanged.workingDirectory]
  refine ⟨.of_resolve h.reached, h.named, fun n hn => hpassable.short (hroute ▸ hn), ?_, ?_, ?_⟩
  · intro l hl
    have hdirectory := h.directory l (happroach ▸ hl)
    have hother : ∀ q ∈ ps, t.locate q ≠ l := by
      rintro q hq rfl
      obtain ⟨text, hfile⟩ := hps q hq
      rw [hdirectory] at hfile
      cases hfile
    rw [← hchanged.textAt? hother, FileTree.textAt?, hdirectory]
  · intro hdirectory
    refine h.noDirectory ?_
    rw [hplace]
    exact hchanged.directory _ hdirectory
  · intro hmem
    exact h.noDirectory (h.directory _ (by rwa [happroach, hplace]))

end FileTree

namespace FileStore

open FileTree (Free OnlyMade Ready Under)

variable {p q : Path} {n text : String} {t u v : FileTree}

/-- A directory is made, with those before it, or it is there. -/
theorem ensureDirectory_makes (ht : t.WellFormed) (h : FileTree.Makeable t q) :
    ∃ v, (ensureDirectory q : Action (StateM FileTree) Unit).run t = (.ok (), v) ∧
      ∀ l ∈ t.way q, v.find? l = some .directory := by
  have hexists : (liftM (existsAt q : StateM FileTree Bool) :
      Action (StateM FileTree) Bool).run t = (.ok (t.existsAt q), t) := rfl
  unfold ensureDirectory
  rw [Action.run_bind_ok hexists]
  cases hthere : t.existsAt q with
  | false =>
    obtain ⟨hok, hway⟩ := FileTree.makeDirectories_makes ht h
    refine ⟨(t.makeDirectories q).2, ?_, hway⟩
    change ((t.makeDirectories q).1.mapError _, (t.makeDirectories q).2) = _
    rw [hok]
    rfl
  | true =>
    obtain ⟨hresolve, e, he⟩ := FileTree.entry_of_existsAt hthere
    have hdirectory : t.find? (t.locate q) = some .directory := by
      rw [he]
      cases e with
      | directory => rfl
      | file text =>
        exact absurd he (FileTree.not_file_of_textAt? (h.noFile _ (t.locate_mem_way q)) text)
    have hpassable := (FileTree.resolve_iff.1 hresolve).2.1
    rw [FileTree.route_eq, FileTree.passable_append] at hpassable
    have hask : (liftM (isDirectory q : StateM FileTree Bool) :
        Action (StateM FileTree) Bool).run t = (.ok true, t) := by
      have hentry := FileTree.entryAt_of_passable h.path hpassable.1 hdirectory
      have : t.isDirectory q = true := by rw [FileTree.isDirectory, hentry]
      rw [← this]
      rfl
    refine ⟨t, ?_, FileTree.directory_of_passable hpassable.1 (fun _ hl => hl) hdirectory⟩
    exact Action.run_bind_ok hask

/-- **The directories of a target are made**, if nothing is in its way. -/
theorem ensureParent_makes (ht : t.WellFormed) (h : Free t p) (hq : p.parent? = some q)
    (hunder : Under q p) (hstart : t.find? (t.origin p) = some .directory) :
    ∃ v, (ensureParent p : Action (StateM FileTree) Unit).run t = (.ok (), v) ∧
      ∀ l ∈ t.way q, v.find? l = some .directory := by
  rw [← hunder.origin] at hstart
  unfold ensureParent
  rw [hq]
  dsimp only
  split
  · rename_i hempty
    obtain rfl : q = "" := by simpa using hempty
    refine ⟨t, rfl, fun l hl => ?_⟩
    obtain ⟨before, hbefore, rfl⟩ := FileTree.mem_way.1 hl
    rw [List.prefix_nil.1 hbefore]
    exact hstart
  · rename_i hne
    obtain ⟨q', _, _, hmoves, hq', _, _⟩ := FileTree.under_of_named h.named
    obtain rfl : q' = q := Option.some.inj (hq'.symm.trans hq)
    exact ensureDirectory_makes ht
      ⟨h.path.of_begins (Path.parent?_begins hmoves hq) (by simpa using hne),
        Path.tidy_parent hmoves hq, hstart, hunder.short h.short,
        fun l hl => h.noFile l (hunder.mem_approach_iff.2 hl)⟩

/-- **A replacement succeeds just where nothing is in the way** of the target and of its temporary
file. -/
theorem replaceText_ok_iff (ht : t.WellFormed) (hname : p.fileName? = some n)
    (hstart : t.find? (t.origin p) = some .directory) :
    (∃ u, (replaceText p text : Action (StateM FileTree) Unit).run t = (.ok (), u)) ↔
      Free t p ∧ Free t (temporaryPath p) := by
  constructor
  · rintro ⟨u, hrun⟩
    obtain ⟨v, w, hparent, hwrite, hrename⟩ := replaceText_steps hrun
    have hv := (ensureParent_changes p).changedAt ht hparent
    obtain ⟨hw, hread⟩ := FileTree.writeText_ok hv.wellFormed hwrite
    refine ⟨(FileTree.ready_of_rename hrename).free ((hv.mono (by simp)).trans hw) ?_,
      (FileTree.ready_of_writeText hwrite).free hv nofun⟩
    intro q hq
    rw [List.mem_singleton.1 hq, ← hv.locate, ← hw.locate]
    exact ⟨text, (FileTree.readText_ok hread).2⟩
  · rintro ⟨hp, htemp⟩
    obtain ⟨q, _, _, _, hq, hunder, _⟩ := FileTree.under_of_named hp.named
    obtain ⟨v, hparent, hway⟩ := ensureParent_makes ht hp hq hunder hstart
    have hmade : OnlyMade [q] t v := by
      have := FileTree.sound.ensureParent ht p
      rw [hparent, hq] at this
      exact this
    have htarget := hp.ready hunder hmade hway
    have htemporary := htemp.ready (FileTree.under_temporaryPath hname hq) hmade hway
    obtain ⟨w, hwrite⟩ := htemporary.writeText text
    have hread := (FileTree.writeText_ok hmade.changed.wellFormed hwrite).2
    have hlater := htarget.of_writeText hmade.changed.wellFormed hwrite
    obtain ⟨u, hrename⟩ := FileTree.rename_of_named hread hlater.named hlater.reached
      hlater.noDirectory
    refine ⟨u, (Action.run_bind_ok hparent).trans ?_⟩
    exact (Action.run_bind_ok (writeTemporary_ok_iff.2 hwrite)).trans (run_change hrename)

end FileStore

end ArchSpec
