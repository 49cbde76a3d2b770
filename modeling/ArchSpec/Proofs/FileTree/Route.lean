import ArchSpec.Proofs.FileTree.Change
import ArchSpec.Proofs.FileTree.Locate

/-!
# Which paths resolve

A path resolves if all its names can be followed, one after the other. Of two paths that begin in
the same way, one thus resolves as far as the other does, and below a directory everything that is
there can be reached.

* `FileTree.Passable` — names that can be followed; `resolve_iff` — when a path resolves.
* `FileTree.resolve_of_entry` — what is below a directory that can be reached can be reached itself.
* `FileTree.passable_before` — the way of a path leads to the directory of its last name.
-/

namespace ArchSpec.FileTree

open ArchSpec.Path (isAbsolute join pieces)

variable {t u v w : FileTree} {p q base : Path} {l d : Location} {names rest : List String}

/-! ## Names that can be followed -/

/-- Names can be followed from a directory, each of them to the next one. -/
inductive Passable (t : FileTree) : Location → List String → Prop
  | nil (l : Location) : Passable t l []
  | cons {l : Location} {n : String} {rest : List String} (directory : t.find? l = some .directory)
    (short : n = "." ∨ n = ".." ∨ n.utf8ByteSize ≤ maxName) (tail : Passable t (stepTo l n) rest) :
    Passable t l (n :: rest)

theorem passable_cons {n : String} : Passable t l (n :: rest) ↔ t.find? l = some .directory ∧
    (n = "." ∨ n = ".." ∨ n.utf8ByteSize ≤ maxName) ∧ Passable t (stepTo l n) rest := by
  constructor
  · rintro ⟨⟩
    exact ⟨‹_›, ‹_›, ‹_›⟩
  · rintro ⟨hdirectory, hshort, hrest⟩
    exact .cons hdirectory hshort hrest

theorem follow_iff {n : String} : t.follow l n = .ok d ↔ t.find? l = some .directory ∧
    (n = "." ∨ n = ".." ∨ n.utf8ByteSize ≤ maxName) ∧ d = stepTo l n := by
  constructor
  · intro h
    obtain ⟨hl, hd⟩ := follow_ok h
    refine ⟨hl, ?_, hd⟩
    by_contra hlong
    rw [not_or, not_or, Nat.not_le] at hlong
    unfold follow at h
    rw [hl] at h
    simp only [hlong.1, hlong.2.1, if_false] at h
    rw [if_pos hlong.2.2] at h
    cases h
  · rintro ⟨hl, hshort, rfl⟩
    unfold follow stepTo
    rw [hl]
    simp only
    split
    · rfl
    · rename_i hdot
      split
      · rfl
      · rename_i hup
        rw [if_neg]
        exact Nat.not_lt.2 ((hshort.resolve_left hdot).resolve_left hup)

theorem foldlM_follow_iff : names.foldlM t.follow l = .ok d ↔
    Passable t l names ∧ d = names.foldl stepTo l := by
  induction names generalizing l with
  | nil => exact ⟨fun h => ⟨.nil l, (Except.ok.inj h).symm⟩, fun h => congrArg _ h.2.symm⟩
  | cons n names ih =>
    rw [List.foldlM_cons, passable_cons, List.foldl_cons]
    constructor
    · intro h
      obtain ⟨m, hm, h⟩ := except_bind_ok h
      obtain ⟨hl, hshort, rfl⟩ := follow_iff.1 hm
      exact ⟨⟨hl, hshort, (ih.1 h).1⟩, (ih.1 h).2⟩
    · rintro ⟨⟨hl, hshort, hrest⟩, hd⟩
      rw [follow_iff.2 ⟨hl, hshort, rfl⟩]
      exact ih.2 ⟨hrest, hd⟩

theorem passable_append : Passable t l (names ++ rest) ↔
    Passable t l names ∧ Passable t (names.foldl stepTo l) rest := by
  induction names generalizing l with
  | nil => exact ⟨fun h => ⟨.nil l, h⟩, fun h => h.2⟩
  | cons n names ih =>
    rw [List.cons_append, passable_cons, passable_cons, ih, List.foldl_cons, and_assoc, and_assoc]

/-- Where names go on, there is a directory. -/
theorem Passable.directory (h : Passable t l names) (hne : names ≠ []) :
    t.find? l = some .directory := by
  cases h with
  | nil => exact absurd rfl hne
  | cons hdirectory => exact hdirectory

theorem Passable.short (h : Passable t l names) {n : String} (hn : n ∈ names) :
    n = "." ∨ n = ".." ∨ n.utf8ByteSize ≤ maxName := by
  induction h with
  | nil => cases hn
  | cons _ hshort _ ih =>
    rcases List.mem_cons.1 hn with rfl | hn
    · exact hshort
    · exact ih hn

theorem foldl_stepTo_plain (hplain : ∀ n ∈ names, n ≠ "." ∧ n ≠ "..") (l : Location) :
    names.foldl stepTo l = l ++ names := by
  induction names generalizing l with
  | nil => simp
  | cons n names ih =>
    obtain ⟨hdot, hup⟩ := hplain n List.mem_cons_self
    rw [List.foldl_cons, ih (fun m hm => hplain m (List.mem_cons_of_mem _ hm)), stepTo, if_neg hdot,
      if_neg hup, List.append_assoc]
    rfl

/-- The way to something that is there can be followed. -/
theorem passable_of_entry (ht : t.WellFormed) (hplain : ∀ n ∈ names, n ≠ "." ∧ n ≠ "..")
    (hshort : ∀ n ∈ names, n.utf8ByteSize ≤ maxName) (hfind : t.find? (l ++ names) ≠ none) :
    Passable t l names := by
  induction names generalizing l with
  | nil => exact .nil l
  | cons n names ih =>
    obtain ⟨hdot, hup⟩ := hplain n List.mem_cons_self
    refine .cons (ht.ancestor (List.cons_ne_nil n names) hfind)
      (.inr (.inr (hshort n List.mem_cons_self))) ?_
    rw [stepTo, if_neg hdot, if_neg hup]
    refine ih (fun m hm => hplain m (List.mem_cons_of_mem _ hm))
      (fun m hm => hshort m (List.mem_cons_of_mem _ hm)) ?_
    rwa [List.append_assoc]

/-! ## Paths that resolve -/

/-- Where a path starts. -/
def origin (t : FileTree) (p : Path) : Location := if isAbsolute p then [] else t.workingDirectory

theorem locate_eq_route (t : FileTree) (p : Path) :
    t.locate p = (route p).foldl stepTo (t.origin p) := rfl

/-- **A path resolves** if it is a path at all and its names can be followed. -/
theorem resolve_iff : t.resolve p = .ok l ↔
    t.start p = .ok (t.origin p) ∧ Passable t (t.origin p) (route p) ∧ l = t.locate p := by
  constructor
  · intro h
    obtain ⟨m, hm, h⟩ := except_bind_ok h
    obtain rfl : m = t.origin p := start_ok hm
    exact ⟨hm, foldlM_follow_iff.1 h⟩
  · rintro ⟨hstart, hpassable, rfl⟩
    rw [resolve, hstart]
    exact foldlM_follow_iff.2 ⟨hpassable, rfl⟩

theorem start_congr (h : u.workingDirectory = t.workingDirectory) (p : Path) :
    u.start p = t.start p := by
  rw [start, start, h]

/-- The names of a path. -/
def namesOf (p : Path) : List String := p.pieces.map String.ofList

/-- The route of a path: its names, and a dot for a separator at its end. -/
theorem route_eq (p : Path) : route p = namesOf p ++
    if (Text.splitOn '/' p.toList).getLast? = some [] then ["."] else [] := by
  have hnames : (Text.split '/' p).filter (· ≠ "") = namesOf p := by
    rw [Text.split, namesOf, pieces, List.filter_map]
    congr 2
    funext piece
    have hempty : String.ofList piece = "" ↔ piece = [] := by
      rw [← String.toList_inj, String.toList_ofList]
      rfl
    simp [hempty]
  have hlast : (Text.split '/' p).getLast? = some "" ↔
      (Text.splitOn '/' p.toList).getLast? = some [] := by
    rw [Text.split, List.getLast?_map, Option.map_eq_some_iff]
    constructor
    · rintro ⟨piece, hpiece, hempty⟩
      rw [hpiece, ← String.toList_ofList (l := piece), hempty]
      rfl
    · exact fun h => ⟨[], h, rfl⟩
  unfold route
  simp only [hnames, hlast]
  split
  · rfl
  · rw [List.append_nil]

/-- Below a path, the route of another follows its names. -/
theorem route_join (base : Path) (h : isAbsolute q = false) :
    route (join base q) = namesOf base ++ route q := by
  obtain ⟨front, hsplit, _⟩ := Path.splitOn_join base h
  have hlast : (Text.splitOn '/' (join base q).toList).getLast? =
      (Text.splitOn '/' q.toList).getLast? := by
    rw [hsplit, List.getLast?_append, List.getLast?_eq_some_getLast (Text.splitOn_ne_nil '/' _)]
    rfl
  rw [route_eq, route_eq q, hlast, namesOf, Path.pieces_join h, List.map_append, List.append_assoc]
  rfl

theorem origin_join (t : FileTree) (base : Path) (h : isAbsolute q = false) :
    t.origin (join base q) = t.origin base := by
  rw [origin, Path.isAbsolute_join h, origin]

/-- **What is below a directory that can be reached can be reached itself**, if its path can be
written at all. -/
theorem resolve_of_entry {q' : Path} {l' : Location} (hv : v.WellFormed)
    (hq : isAbsolute q = false) (hq' : isAbsolute q' = false)
    (hplain : ∀ n ∈ route q, n ≠ "." ∧ n ≠ "..")
    (hbeside : v.resolve (join base q') = .ok l')
    (hwd : w.workingDirectory = v.workingDirectory) (hw : w.resolve (join base q) = .ok l)
    (hentry : v.find? (v.locate (join base q)) ≠ none) :
    v.resolve (join base q) = .ok (v.locate (join base q)) := by
  obtain ⟨hstart, hpassable, _⟩ := resolve_iff.1 hw
  obtain ⟨_, hbase, _⟩ := resolve_iff.1 hbeside
  have horigin : w.origin (join base q) = v.origin (join base q) := by
    rw [origin, origin, hwd]
  rw [start_congr hwd, horigin] at hstart
  rw [route_join base hq] at hpassable
  rw [route_join base hq', origin_join v base hq', ← origin_join v base hq] at hbase
  refine resolve_iff.2 ⟨hstart, ?_, rfl⟩
  rw [route_join base hq, passable_append]
  refine ⟨(passable_append.1 hbase).1, passable_of_entry hv hplain (fun n hn => ?_) ?_⟩
  · have hshort := hpassable.short (List.mem_append_right _ hn)
    exact (hshort.resolve_left (hplain n hn).1).resolve_left (hplain n hn).2
  · rwa [← foldl_stepTo_plain hplain, ← List.foldl_append, ← route_join base hq]

/-- **What is read afterwards was there before**, if it has not been changed and the way to it could
be followed already. -/
theorem readText_before {ps : List Path} {text : String} (h : ChangedAt ps t u)
    (hp : ∀ q ∈ ps, t.locate q ≠ t.locate p) (hpassable : Passable t (t.origin p) (route p))
    (hread : u.readText p = .ok text) : t.readText p = .ok text := by
  obtain ⟨hresolve, hfile⟩ := readText_ok hread
  rw [h.locate, h.file _ hp] at hfile
  have hstart := (resolve_iff.1 hresolve).1
  rw [start_congr h.workingDirectory, origin, h.workingDirectory] at hstart
  exact readText_eq (resolve_iff.2 ⟨hstart, hpassable, rfl⟩) hfile

/-! ## The directory of a file -/

/-- The path of a file makes moves. -/
theorem moves_ne_nil_of_file {text : String} (h : t.resolve p = .ok l)
    (hfile : t.find? l = some (.file text)) : p.moves ≠ [] := by
  obtain ⟨_, hpassable, hl⟩ := resolve_iff.1 h
  intro hmoves
  rw [hl, locate_eq, hmoves] at hfile
  have hdirectory := hpassable.directory (route_ne_nil p)
  rw [origin] at hdirectory
  rw [List.foldl_nil, hdirectory] at hfile
  cases hfile

/-- **The way of a path leads to the directory of its last name.** -/
theorem passable_before (h : t.resolve p = .ok l) (hmoves : p.moves ≠ []) :
    ∃ q, p.parent? = some q ∧ isAbsolute q = isAbsolute p ∧
      Passable t (t.origin q) (namesOf q) ∧
      t.find? ((namesOf q).foldl stepTo (t.origin q)) = some .directory := by
  obtain ⟨ms, s, hms⟩ := (List.eq_nil_or_concat p.moves).resolve_left hmoves
  rw [List.concat_eq_append] at hms
  obtain ⟨q, hq, _, habs, others, hothers, hpieces⟩ := Path.parent?_of_moves hms
  obtain ⟨_, hpassable, _⟩ := resolve_iff.1 h
  have horigin : t.origin q = t.origin p := by
    rw [origin, origin, habs]
  rw [route_eq, namesOf, hpieces, List.map_append, List.append_assoc, passable_append,
    ← horigin] at hpassable
  refine ⟨q, hq, habs, hpassable.1, hpassable.2.directory ?_⟩
  intro hnil
  exact hothers (List.map_eq_nil_iff.1 (List.append_eq_nil_iff.1 hnil).1)

/-- The way to a file leads to the directory that it is in. -/
theorem passable_parent {text : String} (h : t.resolve p = .ok l)
    (hfile : t.find? l = some (.file text)) : ∃ q, p.parent? = some q ∧
      isAbsolute q = isAbsolute p ∧ Passable t (t.origin q) (namesOf q) ∧
      t.find? ((namesOf q).foldl stepTo (t.origin q)) = some .directory :=
  passable_before h (moves_ne_nil_of_file h hfile)

end ArchSpec.FileTree
