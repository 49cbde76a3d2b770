import ArchSpec.Proofs.FileTree.Basic

/-!
# What an operation changes

Every operation on a well-formed tree leaves it well-formed, keeps all directories, and changes no
file but those that its paths lead to.

* `FileTree.ChangedAt` — the change of a tree at the files of some paths.
* `writeText_ok`, `rename_ok`, `makeDirectory_ok`, `makeDirectories_changed` — the operations.
* `ChangedAt.resolve`, `ChangedAt.readText` — what paths say afterwards.
* `textAt?`, `ChangedAt.textAt?` — what the file at a location holds, before and afterwards.
-/

namespace ArchSpec.FileTree

variable {t u v : FileTree} {ps qs : List Path} {p : Path} {l d : Location} {text : String}

/-- One tree comes from another by changes of files that some paths lead to, and by new
directories. -/
structure ChangedAt (ps : List Path) (t u : FileTree) : Prop where
  wellFormed : u.WellFormed
  workingDirectory : u.workingDirectory = t.workingDirectory
  directory : ∀ l, t.find? l = some .directory → u.find? l = some .directory
  file : ∀ l, (∀ p ∈ ps, t.locate p ≠ l) →
    ∀ text, u.find? l = some (.file text) ↔ t.find? l = some (.file text)

namespace ChangedAt

theorem refl (h : t.WellFormed) : ChangedAt ps t t :=
  ⟨h, rfl, fun _ hl => hl, fun _ _ _ => Iff.rfl⟩

theorem locate (h : ChangedAt ps t u) (p : Path) : u.locate p = t.locate p :=
  locate_congr h.workingDirectory p

theorem trans (h : ChangedAt ps t u) (h' : ChangedAt ps u v) : ChangedAt ps t v where
  wellFormed := h'.wellFormed
  workingDirectory := h'.workingDirectory.trans h.workingDirectory
  directory l hl := h'.directory l (h.directory l hl)
  file l hl text := by
    refine (h'.file l ?_ text).trans (h.file l hl text)
    intro p hp
    rw [h.locate p]
    exact hl p hp

theorem mono (hsub : ps ⊆ qs) (h : ChangedAt ps t u) : ChangedAt qs t u :=
  { h with file := fun l hl => h.file l fun p hp => hl p (hsub hp) }

theorem follow {n : String} (h : ChangedAt ps t u) (hstep : t.follow l n = .ok d) :
    u.follow l n = .ok d := by
  have hl := (follow_ok hstep).1
  unfold FileTree.follow at hstep ⊢
  rw [hl] at hstep
  rw [h.directory l hl]
  exact hstep

theorem foldlM_follow {names : List String} (h : ChangedAt ps t u)
    (hnames : names.foldlM t.follow l = .ok d) : names.foldlM u.follow l = .ok d := by
  induction names generalizing l with
  | nil => exact hnames
  | cons n names ih =>
    rw [List.foldlM_cons] at hnames ⊢
    obtain ⟨m, hm, hnames⟩ := except_bind_ok hnames
    rw [h.follow hm]
    exact ih hnames

/-- A path that resolves goes on to do so. -/
theorem resolve (h : ChangedAt ps t u) (hp : t.resolve p = .ok l) : u.resolve p = .ok l := by
  obtain ⟨m, hm, hp⟩ := except_bind_ok hp
  have hstart : u.start p = .ok m := by
    rw [← hm, start, start, h.workingDirectory]
  rw [FileTree.resolve, hstart]
  exact h.foldlM_follow hp

end ChangedAt

/-- What the text of a path is: that of the file at its location. -/
theorem readText_ok (h : t.readText p = .ok text) :
    t.resolve p = .ok (t.locate p) ∧ t.find? (t.locate p) = some (.file text) := by
  unfold readText entryAt at h
  obtain ⟨e, he, h⟩ := except_bind_ok h
  obtain ⟨l, hl, he⟩ := except_bind_ok he
  rw [← resolve_eq hl]
  refine ⟨hl, ?_⟩
  cases hfind : t.find? l with
  | none =>
    rw [hfind] at he
    cases he
  | some entry =>
    rw [hfind] at he
    cases he
    cases e with
    | directory => cases h
    | file text' =>
      cases h
      rfl

theorem readText_eq (hl : t.resolve p = .ok l) (hfind : t.find? l = some (.file text)) :
    t.readText p = .ok text := by
  unfold readText entryAt
  rw [hl]
  simp only [bind, Except.bind, hfind]
  rfl

theorem existsAt_of_readText (h : t.readText p = .ok text) : t.existsAt p = true := by
  obtain ⟨e, he, _⟩ := except_bind_ok h
  rw [existsAt, he]
  rfl

/-- A path at which there is anything resolves to where it is. -/
theorem entry_of_existsAt (h : t.existsAt p = true) :
    t.resolve p = .ok (t.locate p) ∧ ∃ e, t.find? (t.locate p) = some e := by
  unfold existsAt entryAt at h
  cases hl : t.resolve p with
  | error e =>
    rw [hl] at h
    cases h
  | ok l =>
    obtain rfl := resolve_eq hl
    refine ⟨rfl, ?_⟩
    rw [hl] at h
    cases hfind : t.find? (t.locate p) with
    | none =>
      simp only [bind, Except.bind, hfind] at h
      cases h
    | some e => exact ⟨e, rfl⟩

/-- What is a directory resolves to where there is one. -/
theorem directory_of_isDirectory (h : t.isDirectory p = true) :
    t.resolve p = .ok (t.locate p) ∧ t.find? (t.locate p) = some .directory := by
  unfold isDirectory at h
  split at h
  · rename_i hentry
    obtain ⟨hresolve, e, he⟩ := entry_of_existsAt (t := t) (p := p) (by rw [existsAt, hentry]; rfl)
    refine ⟨hresolve, ?_⟩
    unfold entryAt at hentry
    rw [hresolve] at hentry
    simp only [bind, Except.bind, he] at hentry
    cases hentry
    exact he
  · cases h

/-- The text of a file that is not changed stays. -/
theorem ChangedAt.readText (h : ChangedAt ps t u) (hp : ∀ q ∈ ps, t.locate q ≠ t.locate p)
    (hread : t.readText p = .ok text) : u.readText p = .ok text := by
  obtain ⟨hl, hfind⟩ := readText_ok hread
  exact readText_eq (h.resolve hl) ((h.file _ hp text).2 hfind)

/-- What is there stays there, if it is not a file that is changed. -/
theorem ChangedAt.existsAt (h : ChangedAt ps t u) (hp : ∀ q ∈ ps, t.locate q ≠ t.locate p)
    (hthere : t.existsAt p = true) : u.existsAt p = true := by
  obtain ⟨hl, e, he⟩ := entry_of_existsAt hthere
  have hkept : u.find? (t.locate p) = some e := by
    cases e with
    | directory => exact h.directory _ he
    | file text => exact (h.file _ hp text).2 he
  unfold FileTree.existsAt entryAt
  rw [h.resolve hl]
  simp only [bind, Except.bind, hkept]
  rfl

/-- The text of the file at a location, if there is one. -/
def textAt? (t : FileTree) (l : Location) : Option String :=
  match t.find? l with
  | some (.file text) => some text
  | _ => none

theorem textAt?_eq_some : t.textAt? l = some text ↔ t.find? l = some (.file text) := by
  unfold textAt?
  split
  · rename_i h
    rw [h, Option.some.injEq, Option.some.injEq, Entry.file.injEq]
  · rename_i h
    exact iff_of_false nofun fun hfile => h text hfile

/-- A file that is not changed holds the text that it held. -/
theorem ChangedAt.textAt? (h : ChangedAt ps t u) (hl : ∀ p ∈ ps, t.locate p ≠ l) :
    u.textAt? l = t.textAt? l := by
  refine Option.ext fun text => ?_
  rw [textAt?_eq_some, textAt?_eq_some, h.file l hl]

theorem textAt?_of_readText (h : t.readText p = .ok text) :
    t.textAt? (t.locate p) = some text := textAt?_eq_some.2 (readText_ok h).2

/-! ## Paths that end in a name -/

/-- A path that ends in a name leads to that name in a directory. -/
theorem resolve_name (h : t.resolve p = .ok l) (hname : endsInName p = true) :
    ∃ d n, l = d ++ [n] ∧ t.find? d = some .directory := by
  obtain ⟨m, hm, h⟩ := except_bind_ok h
  unfold endsInName at hname
  cases hroute : (route p).getLast? with
  | none =>
    rw [hroute] at hname
    cases hname
  | some n =>
    rw [hroute] at hname
    obtain ⟨names, hnames⟩ := List.getLast?_eq_some_iff.1 hroute
    rw [hnames, List.foldlM_append] at h
    obtain ⟨d, _, h⟩ := except_bind_ok h
    rw [List.foldlM_cons] at h
    obtain ⟨x, hx, h⟩ := except_bind_ok h
    cases h
    obtain ⟨hd, hstep⟩ := follow_ok hx
    simp only [Bool.and_eq_true, decide_eq_true_eq] at hname
    rw [stepTo, if_neg hname.1, if_neg hname.2] at hstep
    exact ⟨d, n, hstep, hd⟩

/-- A new file in a directory is the only change. -/
theorem changedAt_put (h : t.WellFormed) {n : String} (hd : t.find? d = some .directory)
    (hfile : t.find? (d ++ [n]) ≠ some .directory) (hp : t.locate p = d ++ [n]) (text : String) :
    ChangedAt [p] t (t.put (d ++ [n]) (.file text)) where
  wellFormed := h.put hd (.inr hfile)
  workingDirectory := rfl
  directory l hl := by
    rw [find?_put (by simp), if_neg]
    · exact hl
    · rintro rfl
      exact hfile hl
  file l hl text' := by
    rw [find?_put (by simp), if_neg]
    rintro rfl
    exact hl p List.mem_cons_self hp

theorem readText_put {n : String} (hl : t.resolve p = .ok (d ++ [n]))
    (h : ChangedAt ps t (t.put (d ++ [n]) (.file text))) :
    (t.put (d ++ [n]) (.file text)).readText p = .ok text := by
  refine readText_eq (h.resolve hl) ?_
  rw [find?_put (by simp), if_pos rfl]

/-! ## Operations -/

/-- What is asked before a file is put at a location. -/
theorem put_unless_directory {text : String}
    (h : (match t.find? l with
      | some .directory => throw .isADirectory
      | _ => return v.put l (.file text) : Except IoError FileTree) = .ok u) :
    t.find? l ≠ some .directory ∧ u = v.put l (.file text) := by
  split at h
  · cases h
  · rename_i hne
    cases h
    exact ⟨hne, rfl⟩

/-- A path that leads to a place where no directory is leads there also with a file there. -/
theorem resolve_put (hl : t.resolve p = .ok l) (hfile : t.find? l ≠ some .directory) (e : Entry) :
    (t.put l e).resolve p = .ok l := by
  have hroot : l ≠ [] := by
    rintro rfl
    exact hfile rfl
  have hfollow : ∀ {names : List String} {d : Location}, names.foldlM t.follow d = .ok l →
      names.foldlM (t.put l e).follow d = .ok l := by
    intro names
    induction names with
    | nil => exact fun h => h
    | cons name rest ih =>
      intro d h
      rw [List.foldlM_cons] at h ⊢
      obtain ⟨d', hstep, h⟩ := except_bind_ok h
      -- what is followed is a directory, so it is not the place
      have hd : d ≠ l := by
        rintro rfl
        unfold follow at hstep
        split at hstep
        · cases hstep
        · cases hstep
        · exact hfile ‹_›
      have hsame : (t.put l e).follow d name = .ok d' := by
        rw [← hstep, follow, follow, find?_put hroot, if_neg hd]
      rw [hsame]
      exact ih h
  obtain ⟨d, hstart, hd⟩ := except_bind_ok hl
  show (t.put l e).start p >>= _ = _
  rw [show (t.put l e).start p = t.start p from rfl, hstart]
  exact hfollow hd

/-- A file can be written where a path ends in a name and no directory has it. -/
theorem writeText_eq (hl : t.resolve p = .ok l) (hname : endsInName p = true)
    (hfile : t.find? l ≠ some .directory) (text : String) :
    t.writeText p text = .ok (t.put l (.file text)) := by
  rw [writeText, hl]
  simp only [bind, Except.bind, hname]
  cases hthere : t.find? l with
  | none => rfl
  | some e =>
    cases e with
    | directory => exact absurd hthere hfile
    | file _ => rfl

theorem writeText_eq_ok (h : t.writeText p text = .ok u) : ∃ l, t.resolve p = .ok l ∧
    endsInName p = true ∧ t.find? l ≠ some .directory ∧ u = t.put l (.file text) := by
  obtain ⟨l, hl, h⟩ := except_bind_ok h
  cases hname : endsInName p with
  | false =>
    rw [hname] at h
    cases h
  | true =>
    rw [hname] at h
    obtain ⟨hfile, hu⟩ := put_unless_directory h
    exact ⟨l, hl, rfl, hfile, hu⟩

/-- Of two texts that are written one after the other only the second one counts. -/
theorem writeText_again (h : t.writeText p text = .ok u) (text' : String) :
    u.writeText p text' = t.writeText p text' := by
  obtain ⟨l, hl, hname, hfile, rfl⟩ := writeText_eq_ok h
  have hroot : l ≠ [] := by
    rintro rfl
    exact hfile rfl
  have hthere : (t.put l (.file text)).find? l ≠ some .directory := by
    rw [find?_put hroot, if_pos rfl]
    nofun
  rw [writeText_eq hl hname hfile, writeText_eq (resolve_put hl hfile _) hname hthere]
  simp [put]

/-- Whether a text can be written does not depend on the text. -/
theorem writeText_error {e : IoError} (h : t.writeText p text = .error e) (text' : String) :
    t.writeText p text' = .error e := by
  have hsame : t.writeText p text = t.writeText p text' := by
    cases hl : t.resolve p with
    | error _ => simp only [writeText, hl, bind, Except.bind]
    | ok l =>
      cases hname : endsInName p with
      | false =>
        simp only [writeText, hl, hname, bind, Except.bind]
        rfl
      | true =>
        by_cases hfile : t.find? l = some .directory
        · simp only [writeText, hl, hname, hfile, bind, Except.bind]
        · rw [writeText_eq hl hname hfile] at h
          cases h
  exact hsame ▸ h

theorem writeText_ok (h : t.WellFormed) (hw : t.writeText p text = .ok u) :
    ChangedAt [p] t u ∧ u.readText p = .ok text := by
  obtain ⟨l, hl, hname, hfile, rfl⟩ := writeText_eq_ok hw
  obtain ⟨d, n, rfl, hd⟩ := resolve_name hl hname
  have hchanged := changedAt_put h hd hfile (resolve_eq hl).symm text
  exact ⟨hchanged, readText_put hl hchanged⟩

/-- A path whose last piece is a name ends in that name. -/
theorem endsInName_of_piece (hdots : ¬((Text.split '/' p).getLast? = some "." ∨
      (Text.split '/' p).getLast? = some ".."))
    (hslash : (Text.split '/' p).getLast? ≠ some "") : endsInName p = true := by
  have hne : Text.split '/' p ≠ [] := by
    simp [Text.split, Text.splitOn_ne_nil]
  obtain ⟨n, hn⟩ : ∃ n, (Text.split '/' p).getLast? = some n :=
    ⟨_, List.getLast?_eq_some_getLast hne⟩
  obtain ⟨pieces, hpieces⟩ := List.getLast?_eq_some_iff.1 hn
  rw [hn] at hdots hslash
  have hempty : n ≠ "" := fun h => hslash (by rw [h])
  have hroute : (route p).getLast? = some n := by
    simp only [route, hn, Option.some.injEq, hempty, if_false]
    simp [hpieces, hempty]
  unfold endsInName
  rw [hroute]
  simpa using hdots

/-- What a renaming does if it succeeds. -/
theorem rename_eq {source target : Path} (hr : t.rename source target = .ok u) :
    ∃ text l, t.readText source = .ok text ∧ t.resolve target = .ok l ∧
      endsInName target = true ∧ t.find? l ≠ some .directory ∧
      u = (t.prune (t.locate source)).put l (.file text) := by
  obtain ⟨text, htext, hr⟩ := except_bind_ok hr
  rw [(readText_ok htext).1] at hr
  simp only [bind, Except.bind] at hr
  split at hr
  · split at hr <;> cases hr
  · rename_i hdots
    split at hr
    · split at hr <;> cases hr
    · rename_i hslash
      split at hr
      · cases hr
      · rename_i l hl
        obtain ⟨hfile, rfl⟩ := put_unless_directory hr
        exact ⟨text, l, htext, hl, endsInName_of_piece hdots hslash, hfile, rfl⟩

theorem ne_root_of_file (hl : t.find? l = some (.file text)) : l ≠ [] := by
  rintro rfl
  cases hl

/-- A file that is taken away is the only change. -/
theorem changedAt_prune (h : t.WellFormed) (hl : t.find? (t.locate p) = some (.file text)) :
    ChangedAt [p] t (t.prune (t.locate p)) := by
  have hroot := ne_root_of_file hl
  refine ⟨h.prune hroot, rfl, ?_, ?_⟩
  · intro d hd
    rw [find?_prune hroot, if_neg (h.not_prefix hl hd)]
    exact hd
  · intro x hx text'
    rw [find?_prune hroot]
    split
    · rename_i hpre
      rw [h.below_file hl hpre fun hsame => hx p List.mem_cons_self hsame.symm]
    · exact Iff.rfl

theorem rename_ok {source target : Path} (h : t.WellFormed)
    (hr : t.rename source target = .ok u) :
    ChangedAt [source, target] t u ∧ u.readText target = t.readText source := by
  obtain ⟨text, l, htext, hl, hname, hfile, rfl⟩ := rename_eq hr
  obtain ⟨d, n, rfl, hd⟩ := resolve_name hl hname
  have hsource := (readText_ok htext).2
  have hpruned := changedAt_prune h hsource
  have hfile' : (t.prune (t.locate source)).find? (d ++ [n]) ≠ some .directory := by
    rw [find?_prune (ne_root_of_file hsource)]
    split
    · nofun
    · exact hfile
  have hput := changedAt_put hpruned.wellFormed (hpruned.directory d hd) hfile'
    (resolve_eq (hpruned.resolve hl)).symm text
  refine ⟨(hpruned.mono (by simp)).trans (hput.mono (by simp)), ?_⟩
  rw [htext]
  exact readText_put (hpruned.resolve hl) hput

/-! ## Directories -/

theorem route_ne_nil (p : Path) : route p ≠ [] := by
  have hne : Text.split '/' p ≠ [] := by
    simp [Text.split, Text.splitOn_ne_nil]
  obtain ⟨n, hn⟩ : ∃ n, (Text.split '/' p).getLast? = some n :=
    ⟨_, List.getLast?_eq_some_getLast hne⟩
  obtain ⟨pieces, hpieces⟩ := List.getLast?_eq_some_iff.1 hn
  by_cases hempty : n = ""
  · simp [route, hn, hempty]
  · simp only [route, hn, Option.some.injEq, hempty, if_false]
    simp [hpieces, hempty]

/-- A path that resolves to where nothing is names something new in a directory. -/
theorem resolve_new (h : t.WellFormed) (hl : t.resolve p = .ok l) (hnone : t.find? l = none) :
    ∃ d n, l = d ++ [n] ∧ t.find? d = some .directory := by
  obtain ⟨m, _, hl⟩ := except_bind_ok hl
  obtain ⟨names, n, hroute⟩ : ∃ names n, route p = names ++ [n] := by
    obtain ⟨names, n, hroute⟩ := List.eq_nil_or_concat (route p) |>.resolve_left (route_ne_nil p)
    exact ⟨names, n, by simpa using hroute⟩
  rw [hroute, List.foldlM_append] at hl
  obtain ⟨d, _, hl⟩ := except_bind_ok hl
  rw [List.foldlM_cons] at hl
  obtain ⟨x, hx, hl⟩ := except_bind_ok hl
  cases hl
  obtain ⟨hd, hstep⟩ := follow_ok hx
  unfold stepTo at hstep
  split at hstep
  · rw [hstep, hd] at hnone
    cases hnone
  · split at hstep
    · rw [hstep, h.dropLast hd] at hnone
      cases hnone
    · exact ⟨d, n, hstep, hd⟩

theorem makeDirectory_ok (h : t.WellFormed) (hm : t.makeDirectory p = .ok u) :
    ChangedAt [] t u := by
  obtain ⟨l, hl, hm⟩ := except_bind_ok hm
  cases hfind : t.find? l with
  | some e =>
    rw [hfind] at hm
    cases hm
  | none =>
    rw [hfind] at hm
    cases hm
    obtain ⟨d, n, rfl, hd⟩ := resolve_new h hl hfind
    refine ⟨h.put hd (.inl rfl), rfl, ?_, ?_⟩
    · intro x hx
      rw [find?_put (by simp)]
      split
      · rfl
      · exact hx
    · intro x _ text
      rw [find?_put (by simp)]
      split
      · rename_i hx
        rw [hx, hfind]
        simp
      · exact Iff.rfl

/-- Making directories changes no file, whether all of them can be made or not. -/
theorem makeDirectoriesWithin_changed (h : t.WellFormed) (p : Path) (fuel : Nat) :
    ChangedAt [] t (t.makeDirectoriesWithin p fuel).2 := by
  induction fuel generalizing t p with
  | zero => exact .refl h
  | succ fuel ih =>
    unfold makeDirectoriesWithin
    split
    · exact .refl h
    · split
      · rename_i u hm
        exact makeDirectory_ok h hm
      · split
        · exact .refl h
        · split
          · exact .refl h
          · rename_i parent _
            have hparent := ih h parent
            split
            · rename_i hrun
              rw [hrun] at hparent
              exact hparent
            · rename_i v hrun
              rw [hrun] at hparent
              split
              · rename_i u hm
                exact hparent.trans (makeDirectory_ok hparent.wellFormed hm)
              · exact hparent

theorem makeDirectories_changed (h : t.WellFormed) (p : Path) :
    ChangedAt [] t (t.makeDirectories p).2 :=
  makeDirectoriesWithin_changed h p _

end ArchSpec.FileTree
