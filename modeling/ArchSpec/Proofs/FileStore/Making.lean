import ArchSpec.Proofs.FileStore.Directories
import ArchSpec.Proofs.FileStore.Fresh

/-!
# Directories that can be made

Directories are made from the last one back: where the directory before it is missing, that one is
made first. Only a file on the way, or a name that is too long, stops this. Where neither is, all
directories on the way are there afterwards, two dots or not.

* `FileTree.passable_iff` — names can be followed from directory to directory.
* `FileTree.foldlM_follow_or` — where no file is on the way, only something missing stops a path.
* `Path.Tidy` — paths that say something last; `FileTree.under_parent` — what parents leave out.
* `FileTree.approach` — the locations that a path leads through before its end.
* `FileTree.Makeable` — directories that can be made.
* `FileTree.makeDirectories_makes` — they are made, with all those on the way.
-/

namespace ArchSpec

/-! ## Paths that say something last -/

namespace Path

variable {p q : Path} {n : String} {ms : List Step} {s : Step}

/-- A path makes no moves, or its last piece makes one. -/
def Tidy (p : Path) : Prop :=
  p.moves = [] ∨ ∃ front piece s, Text.splitOn '/' p.toList = front ++ [piece] ∧
    stepOf? piece = some s

/-- A parent is tidy. -/
theorem tidy_parent (h : p.moves = ms ++ [s]) (hq : p.parent? = some q) : Tidy q := by
  rw [parent?_eq_of_moves h] at hq
  obtain rfl := Option.some.inj hq
  have hfront := (moves_piecesBeforeLast h).2
  cases hpieces : piecesBeforeLast p with
  | nil =>
    cases isAbsolute p with
    | false => exact .inl rfl
    | true => exact .inl rfl
  | cons piece rest =>
    rcases dropSilent_head hpieces with ⟨rfl, rfl⟩ | ⟨s', hs'⟩
    · refine .inl ?_
      rw [ofPieces, moves, String.toList_ofList]
      rfl
    · refine .inr ⟨rest.reverse, piece, s', ?_, hs'⟩
      rw [hpieces] at hfront
      rw [ofPieces, String.toList_ofList, ← List.reverse_cons]
      refine Text.splitOn_joinSep (by simp) fun x hx => ?_
      exact Text.not_mem_of_mem_splitOn (hfront.subset hx)

/-- Pieces that make no moves are dots. -/
theorem eq_dot_of_silent {pieces : List (List Char)} (hne : ∀ x ∈ pieces, x ≠ [])
    (h : pieces.filterMap stepOf? = []) : ∀ d ∈ pieces.map String.ofList, d = "." := by
  intro d hd
  obtain ⟨x, hx, rfl⟩ := List.mem_map.1 hd
  have hsilent := stepOf?_eq_none.1 (List.filterMap_eq_nil_iff.1 h x hx)
  rw [hsilent.resolve_left (hne x hx)]

theorem length_filter_splitOn_le (c : Char) (cs : List Char) :
    ((Text.splitOn c cs).filter (· ≠ [])).length ≤ cs.length := by
  fun_induction Text.splitOn c cs with
  | case1 => simp
  | case2 rest ih => simpa using Nat.le_succ_of_le ih
  | case3 x rest _ hsplit _ => exact absurd hsplit (Text.splitOn_ne_nil c rest)
  | case4 x rest _ piece more hsplit ih =>
    rw [hsplit, List.filter_cons] at ih
    split at ih
    · simpa using Nat.le_succ_of_le ih
    · simpa using ih

/-- A path makes no more moves than it has characters. -/
theorem length_moves_le (p : Path) : p.moves.length ≤ p.length := by
  rw [moves_eq, ← String.length_toList]
  exact (List.length_filterMap_le _ _).trans (length_filter_splitOn_le '/' p.toList)

theorem piece_ne_nil {x : List Char} (h : x ∈ p.pieces) : x ≠ [] := by
  simpa using (List.mem_filter.1 h).2

end Path

namespace FileTree

open ArchSpec.Path (Tidy isAbsolute)

variable {t u v : FileTree} {p q : Path} {l : Location} {names : List String}

theorem namesOf_of_moves (h : p.moves = []) : ∀ d ∈ namesOf p, d = "." :=
  Path.eq_dot_of_silent (fun _ hx => Path.piece_ne_nil hx) (by rw [← Path.moves_eq, h])

/-- A path says what another one says, dots, and one name more. -/
structure Under (q p : Path) : Prop where
  absolute : isAbsolute q = isAbsolute p
  names : ∃ dots n, (∀ d ∈ dots, d = ".") ∧ namesOf p = namesOf q ++ dots ++ [n]

/-- **A tidy path is under its parent.** -/
theorem under_parent {ms : List Step} {s : Step} (h : Tidy p) (hmoves : p.moves = ms ++ [s]) :
    ∃ q, p.parent? = some q ∧ q.moves = ms ∧ Under q p := by
  obtain ⟨q, hq, hqmoves, habs, others, hothers, hpieces⟩ := Path.parent?_of_moves hmoves
  obtain ⟨front, piece, s', hsplit, hpiece⟩ := h.resolve_left (by simp [hmoves])
  have hlast : p.pieces = front.filter (· ≠ []) ++ [piece] := by
    have hne : piece ≠ [] := by
      rintro rfl
      cases hpiece
    rw [Path.pieces, hsplit, List.filter_append]
    simp [hne]
  obtain ⟨dots, last, rfl⟩ := (List.eq_nil_or_concat' others).resolve_left hothers
  rw [hpieces, ← List.append_assoc] at hlast
  obtain rfl : last = piece := (List.cons.inj (List.append_inj' hlast rfl).2).1
  -- the last piece makes the last move, so the others make none
  have hsilent : dots.filterMap Path.stepOf? = [] := by
    rw [Path.moves_eq, hpieces, List.filterMap_append, List.filterMap_append, ← Path.moves_eq,
      hqmoves, List.filterMap_cons_some hpiece] at hmoves
    have hone : dots.filterMap Path.stepOf? ++ [s'] = [] ++ [s] := List.append_cancel_left hmoves
    exact (List.append_inj' hone rfl).1
  refine ⟨q, hq, hqmoves, habs, dots.map String.ofList, String.ofList last,
    Path.eq_dot_of_silent (fun x hx => ?_) hsilent, ?_⟩
  · exact Path.piece_ne_nil (p := p) (by simp [hpieces, hx])
  · rw [namesOf, hpieces, namesOf]
    simp

/-! ## Names that can be followed -/

/-- A name is short enough, or no name. -/
def Short (n : String) : Prop := n = "." ∨ n = ".." ∨ n.utf8ByteSize ≤ maxName

instance (n : String) : Decidable (Short n) :=
  inferInstanceAs (Decidable (n = "." ∨ n = ".." ∨ n.utf8ByteSize ≤ maxName))

/-- **Names can be followed** if they are short and each but the last leads to a directory. -/
theorem passable_iff : Passable t l names ↔ (∀ n ∈ names, Short n) ∧
    ∀ before n after, names = before ++ n :: after →
      t.find? (before.foldl stepTo l) = some .directory := by
  constructor
  · intro h
    refine ⟨fun n hn => h.short hn, ?_⟩
    rintro before n after rfl
    exact (passable_append.1 h).2.directory (List.cons_ne_nil n after)
  · rintro ⟨hshort, hdirectory⟩
    induction names generalizing l with
    | nil => exact .nil l
    | cons n names ih =>
      refine .cons (hdirectory [] n names rfl) (hshort n List.mem_cons_self)
        (ih (fun m hm => hshort m (List.mem_cons_of_mem _ hm)) ?_)
      rintro before m after rfl
      exact hdirectory (n :: before) m after rfl

theorem foldl_stepTo_dots (hdots : ∀ d ∈ names, d = ".") (l : Location) :
    names.foldl stepTo l = l := by
  induction names with
  | nil => rfl
  | cons d names ih =>
    obtain rfl := hdots d List.mem_cons_self
    exact ih fun d hd => hdots d (List.mem_cons_of_mem _ hd)

theorem passable_dots (hdots : ∀ d ∈ names, d = ".") (hl : t.find? l = some .directory) :
    Passable t l names := by
  refine passable_iff.2 ⟨fun d hd => .inl (hdots d hd), ?_⟩
  rintro before n after rfl
  rwa [foldl_stepTo_dots fun d hd => hdots d (List.mem_append_left _ hd)]

theorem not_file_of_textAt? (h : t.textAt? l = none) (text : String) :
    t.find? l ≠ some (.file text) := by
  intro hfile
  rw [textAt?_eq_some.2 hfile] at h
  cases h

/-- **Where no file is on the way**, names can be followed, or something is missing. -/
theorem foldlM_follow_or (hshort : ∀ n ∈ names, Short n)
    (hfile : ∀ before n after, names = before ++ n :: after →
      t.textAt? (before.foldl stepTo l) = none) :
    Passable t l names ∨ names.foldlM t.follow l = .error .notFound := by
  induction names generalizing l with
  | nil => exact .inl (.nil l)
  | cons n names ih =>
    have hn := hshort n List.mem_cons_self
    cases hfind : t.find? l with
    | none =>
      refine .inr ?_
      rw [List.foldlM_cons, follow, hfind]
      rfl
    | some e =>
      cases e with
      | file text => exact absurd hfind (not_file_of_textAt? (hfile [] n names rfl) text)
      | directory =>
        have hstep : t.follow l n = .ok (stepTo l n) := follow_iff.2 ⟨hfind, hn, rfl⟩
        refine (ih (l := stepTo l n) (fun m hm => hshort m (List.mem_cons_of_mem _ hm)) ?_).imp
          (fun h => .cons hfind hn h) fun h => ?_
        · rintro before m after rfl
          exact hfile (n :: before) m after rfl
        · rw [List.foldlM_cons, hstep]
          exact h

/-! ## Ways of directories -/

/-- The way to a directory leads through directories if it can be gone, also when there are more. -/
theorem directory_of_passable (h : Passable t (t.origin q) (namesOf q))
    (hkept : ∀ l, t.find? l = some .directory → u.find? l = some .directory)
    (hdirectory : u.find? (t.locate q) = some .directory) :
    ∀ l ∈ t.way q, u.find? l = some .directory := by
  intro l hl
  obtain ⟨before, ⟨rest, hrest⟩, rfl⟩ := mem_way.1 hl
  cases rest with
  | nil =>
    rw [List.append_nil] at hrest
    rwa [hrest, foldl_namesOf]
  | cons n after => exact hkept _ ((passable_iff.1 h).2 before n after hrest.symm)

/-- A way through directories can be gone. -/
theorem passable_of_way (hshort : ∀ n ∈ namesOf q, Short n)
    (hway : ∀ l ∈ t.way q, t.find? l = some .directory) :
    Passable t (t.origin q) (namesOf q) :=
  passable_iff.2 ⟨hshort, fun before n after h =>
    hway _ (mem_way.2 ⟨before, ⟨n :: after, h.symm⟩, rfl⟩)⟩

/-- The locations that a path leads through before its end. -/
def approach (t : FileTree) (p : Path) : List Location :=
  (namesOf p).dropLast.inits.map fun names => names.foldl stepTo (t.origin p)

theorem mem_approach : l ∈ t.approach p ↔ ∃ names, names <+: (namesOf p).dropLast ∧
    names.foldl stepTo (t.origin p) = l := by
  simp [approach]

namespace Under

theorem origin (h : Under q p) (t : FileTree) : t.origin q = t.origin p := by
  rw [FileTree.origin, FileTree.origin, h.absolute]

theorem front (h : Under q p) : Front q p := by
  obtain ⟨dots, n, _, hnames⟩ := h.names
  rw [List.append_assoc] at hnames
  exact ⟨h.absolute, dots ++ [n], hnames.symm⟩

theorem short (h : Under q p) (hshort : ∀ n ∈ namesOf p, Short n) : ∀ n ∈ namesOf q, Short n :=
  fun n hn => hshort n (h.front.2.subset hn)

/-- A way through directories goes on to what is under it. -/
theorem passable (h : Under q p) (hshort : ∀ n ∈ namesOf p, Short n)
    (hway : ∀ l ∈ t.way q, t.find? l = some .directory) :
    Passable t (t.origin p) (namesOf p) := by
  obtain ⟨dots, n, hdots, hnames⟩ := h.names
  have hplace := hway _ (t.locate_mem_way q)
  have hbefore : Passable t (t.origin q) (namesOf q) :=
    passable_of_way (h.short hshort) hway
  rw [hnames, ← h.origin, passable_append, passable_append, List.foldl_append, foldl_namesOf,
    foldl_stepTo_dots hdots]
  exact ⟨⟨hbefore, passable_dots hdots hplace⟩, .cons hplace (hshort n (by simp [hnames])) (.nil _)⟩

/-- The way before the end of a path is that of what it is under. -/
theorem mem_approach_iff (h : Under q p) : l ∈ t.approach p ↔ l ∈ t.way q := by
  obtain ⟨dots, n, hdots, hnames⟩ := h.names
  rw [mem_approach, hnames, List.dropLast_concat]
  constructor
  · rintro ⟨before, hbefore, rfl⟩
    rcases List.prefix_or_prefix_of_prefix hbefore (List.prefix_append _ dots) with
      hfront | ⟨more, rfl⟩
    · exact mem_way.2 ⟨before, hfront, by rw [h.origin]⟩
    · -- dots lead nowhere else
      have hmore : ∀ d ∈ more, d = "." := fun d hd =>
        hdots d (((List.prefix_append_right_inj _).1 hbefore).subset hd)
      rw [List.foldl_append, ← h.origin, foldl_namesOf, foldl_stepTo_dots hmore]
      exact t.locate_mem_way q
  · intro hl
    obtain ⟨before, hbefore, rfl⟩ := mem_way.1 hl
    exact ⟨before, hbefore.trans (List.prefix_append _ _), by rw [h.origin]⟩

end Under

/-- A path whose names can be followed to a directory resolves. -/
theorem resolve_of_passable (hq : IsPath q) (hpassable : Passable t (t.origin q) (namesOf q))
    (hdirectory : t.find? (t.locate q) = some .directory) : t.resolve q = .ok (t.locate q) := by
  refine resolve_iff.2 ⟨start_iff.2 hq, ?_, rfl⟩
  rw [route_eq, passable_append, foldl_namesOf]
  refine ⟨hpassable, ?_⟩
  split
  · exact .cons hdirectory (.inl rfl) (.nil _)
  · exact .nil _

theorem entryAt_of_passable (hq : IsPath q) (hpassable : Passable t (t.origin q) (namesOf q))
    (hdirectory : t.find? (t.locate q) = some .directory) : t.entryAt q = .ok .directory := by
  unfold entryAt
  rw [resolve_of_passable hq hpassable hdirectory]
  simp only [bind, Except.bind, hdirectory]
  rfl

/-- What a directory is made under has the names of its path, but for dots. -/
theorem route_trimmed (h : Tidy q) : ∃ dots, (∀ d ∈ dots, d = ".") ∧
    route q.trimmed = namesOf q ++ dots ∧ (q.moves ≠ [] → dots = []) := by
  rcases h with hmoves | ⟨front, piece, s, hsplit, hpiece⟩
  · refine ⟨_, ?_, by rw [route_eq, namesOf_trimmed], fun hne => absurd hmoves hne⟩
    intro d hd
    split at hd
    · exact List.mem_singleton.1 hd
    · cases hd
  · have hne : piece ≠ [] := by
      rintro rfl
      cases hpiece
    have hsame : q.trimmed = q := by
      rcases q.trimmed_cases with hsame | ⟨_, ds, hds, hq⟩
      · exact hsame
      · rcases List.eq_nil_or_concat' ds with rfl | ⟨ds, c, rfl⟩
        · rw [List.append_nil] at hq
          exact String.toList_injective hq
        · -- a separator at the end would leave an empty piece there
          obtain rfl := hds c (by simp)
          rw [← hq, ← List.append_assoc, Text.splitOn_append] at hsplit
          exact absurd (List.cons.inj (List.append_inj' hsplit rfl).2).1.symm hne
    refine ⟨[], nofun, ?_, fun _ => rfl⟩
    rw [hsame, route_eq, hsplit, List.getLast?_concat, if_neg]
    simpa using hne

theorem IsPath.trimmed (h : IsPath q) : IsPath q.trimmed := by
  rcases q.trimmed_cases with hsame | ⟨hne, ds, _, hq⟩
  · rwa [hsame]
  · exact h.of_begins ⟨ds, hq⟩ fun hempty => hne (String.toList_eq_nil_iff.2 hempty)

/-! ## Making directories -/

theorem makeDirectory_of_none (hl : t.resolve q.trimmed = .ok l) (hnone : t.find? l = none) :
    t.makeDirectory q = .ok (t.put l .directory) := by
  change (t.resolve q.trimmed >>= _) = _
  rw [hl]
  simp only [bind, Except.bind, hnone]
  rfl

theorem makeDirectory_of_some {e : Entry} (hl : t.resolve q.trimmed = .ok l)
    (he : t.find? l = some e) : t.makeDirectory q = .error .alreadyExists := by
  change (t.resolve q.trimmed >>= _) = _
  rw [hl]
  simp only [bind, Except.bind, he]
  rfl

theorem makeDirectory_of_error {e : IoError} (h : t.resolve q.trimmed = .error e) :
    t.makeDirectory q = .error e := by
  change (t.resolve q.trimmed >>= _) = _
  rw [h]
  rfl

/-- A directory can be made at a path, together with those before it. -/
structure Makeable (t : FileTree) (q : Path) : Prop where
  path : IsPath q
  tidy : Tidy q
  start : t.find? (t.origin q) = some .directory
  short : ∀ n ∈ namesOf q, Short n
  noFile : ∀ l ∈ t.way q, t.textAt? l = none

namespace Makeable

/-- What can be made can still be made with more directories. -/
theorem of_changedAt (h : Makeable t q) (hchanged : ChangedAt [] t u) : Makeable u q where
  path := h.path
  tidy := h.tidy
  start := by
    rw [origin, hchanged.workingDirectory]
    exact hchanged.directory _ h.start
  short := h.short
  noFile l hl := by
    rw [way_congr hchanged.workingDirectory] at hl
    rw [hchanged.textAt? fun _ hp => absurd hp List.not_mem_nil]
    exact h.noFile l hl

theorem start_trimmed (h : Makeable t q) : t.start q.trimmed = .ok (t.origin q.trimmed) :=
  start_iff.2 h.path.trimmed

theorem passable_of_moves (h : Makeable t q) (hmoves : q.moves = []) :
    Passable t (t.origin q) (namesOf q) := passable_dots (namesOf_of_moves hmoves) h.start

theorem resolve_trimmed (h : Makeable t q) (hpassable : Passable t (t.origin q) (namesOf q)) :
    t.resolve q.trimmed = .ok (t.locate q) := by
  obtain ⟨dots, hdots, hroute, hnone⟩ := route_trimmed h.tidy
  refine resolve_iff.2 ⟨h.start_trimmed, ?_, (t.locate_trimmed q).symm⟩
  rw [origin_trimmed, hroute, passable_append, foldl_namesOf]
  refine ⟨hpassable, ?_⟩
  by_cases hmoves : q.moves = []
  · rw [← foldl_namesOf, foldl_stepTo_dots (namesOf_of_moves hmoves)]
    exact passable_dots hdots h.start
  · rw [hnone hmoves]
    exact .nil _

/-- Only what is missing is in the way of a directory that can be made. -/
theorem resolve_trimmed_missing (h : Makeable t q)
    (hpassable : ¬Passable t (t.origin q) (namesOf q)) :
    t.resolve q.trimmed = .error .notFound := by
  obtain ⟨dots, _, hroute, hnone⟩ := route_trimmed h.tidy
  rw [hnone fun hmoves => hpassable (h.passable_of_moves hmoves), List.append_nil] at hroute
  have hmissing := (foldlM_follow_or h.short fun before n after hnames =>
    h.noFile _ (mem_way.2 ⟨before, ⟨n :: after, hnames.symm⟩, rfl⟩)).resolve_left hpassable
  rw [resolve, h.start_trimmed, origin_trimmed, hroute]
  exact hmissing

/-- Where the names before it can be followed, the directory is made, or is there. -/
theorem makeDirectory (h : Makeable t q) (hpassable : Passable t (t.origin q) (namesOf q)) :
    (∃ u, t.makeDirectory q = .ok u ∧ u.find? (t.locate q) = some .directory) ∨
      (t.makeDirectory q = .error .alreadyExists ∧
        t.unlessDirectory q .alreadyExists = .ok () ∧
        t.find? (t.locate q) = some .directory) := by
  have hresolve := h.resolve_trimmed hpassable
  cases hfind : t.find? (t.locate q) with
  | none =>
    refine .inl ⟨_, makeDirectory_of_none hresolve hfind, ?_⟩
    rw [find?_put, if_pos rfl]
    intro hroot
    rw [hroot] at hfind
    cases hfind
  | some e =>
    cases e with
    | file text =>
      exact absurd hfind (not_file_of_textAt? (h.noFile _ (t.locate_mem_way q)) text)
    | directory =>
      refine .inr ⟨makeDirectory_of_some hresolve hfind, ?_, rfl⟩
      rw [unlessDirectory, isDirectory, entryAt_of_passable h.path hpassable hfind]
      rfl

/-- What is missing before a directory that can be made can be made too. -/
theorem parent (h : Makeable t q) (hpassable : ¬Passable t (t.origin q) (namesOf q)) :
    ∃ parent, q.parent? = some parent ∧ parent.moves.length < q.moves.length ∧ Under parent q ∧
      Makeable t parent := by
  obtain ⟨ms, s, hms⟩ := (List.eq_nil_or_concat' q.moves).resolve_left fun hmoves =>
    hpassable (h.passable_of_moves hmoves)
  obtain ⟨parent, hparent, hmoves, hunder⟩ := under_parent h.tidy hms
  refine ⟨parent, hparent, by simp [hmoves, hms], hunder, ?_⟩
  have hstart : t.find? (t.origin parent) = some .directory := by
    rw [hunder.origin]
    exact h.start
  have hne : parent ≠ "" := by
    rintro rfl
    refine hpassable (hunder.passable h.short fun l hl => ?_)
    obtain ⟨before, hbefore, rfl⟩ := mem_way.1 hl
    rw [List.prefix_nil.1 hbefore]
    exact hstart
  exact ⟨h.path.of_begins (Path.parent?_begins hms hparent) hne, Path.tidy_parent hms hparent,
    hstart, hunder.short h.short, fun l hl => h.noFile l (hunder.front.way t hl)⟩

end Makeable

/-- **Directories are made on the whole way**, if no file is there. -/
theorem makeDirectoriesWithin_makes (ht : t.WellFormed) (h : Makeable t q) {fuel : Nat}
    (hfuel : q.moves.length < fuel) : (t.makeDirectoriesWithin q fuel).1 = .ok () ∧
      ∀ l ∈ t.way q, (t.makeDirectoriesWithin q fuel).2.find? l = some .directory := by
  induction fuel generalizing q with
  | zero => exact absurd hfuel (Nat.not_lt_zero _)
  | succ fuel ih =>
    unfold makeDirectoriesWithin
    rw [if_neg (by simpa using h.path.nonempty)]
    by_cases hpassable : Passable t (t.origin q) (namesOf q)
    · rcases h.makeDirectory hpassable with ⟨u, hmake, hplace⟩ | ⟨hmake, hthere, hplace⟩
      · rw [hmake]
        exact ⟨rfl, directory_of_passable hpassable (makeDirectory_ok ht hmake).directory hplace⟩
      · rw [hmake]
        exact ⟨hthere, directory_of_passable hpassable (fun _ hl => hl) hplace⟩
    · have hmissing := makeDirectory_of_error (h.resolve_trimmed_missing hpassable)
      obtain ⟨parent, hparent, hshorter, hunder, hmakeable⟩ := h.parent hpassable
      have hmade := makeDirectoriesWithin_changed ht parent fuel
      obtain ⟨hok, hway⟩ := ih hmakeable (Nat.lt_of_lt_of_le hshorter (Nat.le_of_lt_succ hfuel))
      simp only [hmissing, hparent, ne_eq, not_true_eq_false, if_false]
      cases hrun : t.makeDirectoriesWithin parent fuel with
      | mk r v =>
        rw [hrun] at hmade hok hway
        obtain rfl : r = .ok () := hok
        have hlater := h.of_changedAt hmade
        have hpassable : Passable v (v.origin q) (namesOf q) :=
          hunder.passable h.short (by rwa [way_congr hmade.workingDirectory])
        rw [← way_congr hmade.workingDirectory]
        rcases hlater.makeDirectory hpassable with ⟨u, hmake, hplace⟩ | ⟨hmake, hthere, hplace⟩
        · simp only [hmake]
          exact ⟨trivial, directory_of_passable hpassable
            (makeDirectory_ok hmade.wellFormed hmake).directory hplace⟩
        · simp only [hmake]
          exact ⟨hthere, directory_of_passable hpassable (fun _ hl => hl) hplace⟩

theorem makeDirectories_makes (ht : t.WellFormed) (h : Makeable t q) :
    (t.makeDirectories q).1 = .ok () ∧
      ∀ l ∈ t.way q, (t.makeDirectories q).2.find? l = some .directory :=
  makeDirectoriesWithin_makes ht h (Nat.lt_succ_of_le q.length_moves_le)

end FileTree

end ArchSpec
