import Mathlib.Data.List.DropRight
import Mathlib.Data.List.Infix
import ArchSpec.Proofs.FileStore.Replace
import ArchSpec.Proofs.FileTree.Separate

/-!
# Which directories are made

A directory is made together with those on the way to it, and a way may lead through places that
the directory is not below: two dots leave a directory that has to be there. So a replacement makes
directories on the way to its target only, but wherever that way leads.

* `FileTree.way` — the locations that a path leads through; `Front.way` — those of its front.
* `FileTree.directory_of_mem_way` — what stands there, if the path resolves.
* `FileTree.MadeAlong` — a tree whose new directories are on the ways of some paths.
* `makeDirectories_madeAlong`, `FileStore.replaceText_madeAlong` — the operations.
* `FileTree.mem_way_below` — the way to a file below a base.
-/

namespace ArchSpec

namespace Path

variable {p q : Path}

/-- A path that makes no moves has nothing before its last step. -/
theorem piecesBeforeLast_of_moves (h : p.moves = []) : piecesBeforeLast p = [] := by
  have hsilent : (dropSilent (Text.splitOn '/' p.toList).reverse).filterMap stepOf? = [] := by
    rw [filterMap_dropSilent, List.filterMap_reverse]
    exact (congrArg List.reverse h).trans rfl
  unfold piecesBeforeLast
  cases hdrop : dropSilent (Text.splitOn '/' p.toList).reverse with
  | nil => rfl
  | cons piece rest =>
    rcases dropSilent_head hdrop with ⟨_, rfl⟩ | ⟨s, hs⟩
    · rfl
    · rw [hdrop, List.filterMap_cons_some hs] at hsilent
      cases hsilent

/-- What a parent says, its path says first. -/
theorem pieces_parent? (h : p.parent? = some q) :
    q.pieces <+: p.pieces ∧ isAbsolute q = isAbsolute p := by
  rcases List.eq_nil_or_concat p.moves with hmoves | ⟨ms, s, hmoves⟩
  · obtain ⟨first, hsteps, hfirst⟩ := p.steps_eq
    rw [hmoves, List.append_nil] at hsteps
    rcases hfirst with ⟨_, rfl⟩ | ⟨hrelative, rfl | rfl⟩
    · rw [parent?, hsteps] at h
      cases h
    · rw [parent?, hsteps] at h
      cases h
    · rw [parent?_eq (s := .here) (by rw [hsteps]; rfl) nofun, piecesBeforeLast_of_moves hmoves,
        hrelative] at h
      cases h
      exact ⟨List.nil_prefix, hrelative.symm⟩
  · rw [List.concat_eq_append] at hmoves
    obtain ⟨q', hq', _, habs, others, _, hpieces⟩ := parent?_of_moves hmoves
    obtain rfl : q' = q := Option.some.inj (hq'.symm.trans h)
    exact ⟨⟨others, hpieces.symm⟩, habs⟩

/-- Separators at the end of a text say nothing. -/
theorem splitOn_append_separators {cs ds : List Char} (h : ∀ c ∈ ds, c = '/') :
    (Text.splitOn '/' (cs ++ ds)).filter (· ≠ []) = (Text.splitOn '/' cs).filter (· ≠ []) := by
  induction ds generalizing cs with
  | nil => rw [List.append_nil]
  | cons d ds ih =>
    obtain rfl := h d List.mem_cons_self
    have hds := @ih [] fun c hc => h c (List.mem_cons_of_mem _ hc)
    rw [List.nil_append] at hds
    rw [Text.splitOn_append, List.filter_append, hds]
    simp [Text.splitOn]

/-- A path without the separators at its end, unless it consists of them. -/
def trimmed (p : Path) : Path :=
  if (String.ofList (p.toList.rdropWhile (· = '/'))).isEmpty then p
  else String.ofList (p.toList.rdropWhile (· = '/'))

/-- A path is what is left of it, and separators. -/
theorem trimmed_cases (p : Path) : p.trimmed = p ∨ (p.trimmed.toList ≠ [] ∧
    ∃ ds : List Char, (∀ c ∈ ds, c = '/') ∧ p.trimmed.toList ++ ds = p.toList) := by
  unfold trimmed
  split
  · exact .inl rfl
  · rename_i hne
    refine .inr ⟨fun hnil => hne (by rw [String.toList_eq_nil_iff.1 hnil]; rfl), ?_⟩
    rw [String.toList_ofList]
    exact ⟨_, fun _ hc => by simpa using List.mem_rtakeWhile_imp hc,
      List.rdropWhile_append_rtakeWhile⟩

theorem pieces_trimmed (p : Path) : p.trimmed.pieces = p.pieces := by
  rcases p.trimmed_cases with hsame | ⟨_, ds, hds, hp⟩
  · rw [hsame]
  · rw [pieces, pieces, ← hp, splitOn_append_separators hds]

theorem isAbsolute_trimmed (p : Path) : isAbsolute p.trimmed = isAbsolute p := by
  rcases p.trimmed_cases with hsame | ⟨hne, ds, _, hp⟩
  · rw [hsame]
  · obtain ⟨c, cs, hcs⟩ := List.exists_cons_of_ne_nil hne
    rw [isAbsolute, isAbsolute, ← hp, hcs]
    rfl

end Path

namespace FileTree

open ArchSpec.Path (isAbsolute join)

variable {t u v : FileTree} {p q base : Path} {ps qs : List Path} {l : Location} {text : String}

/-! ## Ways -/

/-- The locations that a path leads through, from where it starts on. -/
def way (t : FileTree) (p : Path) : List Location :=
  (namesOf p).inits.map fun names => names.foldl stepTo (t.origin p)

theorem mem_way : l ∈ t.way p ↔ ∃ names, names <+: namesOf p ∧
    names.foldl stepTo (t.origin p) = l := by
  simp [way]

theorem locate_mem_way (t : FileTree) (p : Path) : t.locate p ∈ t.way p :=
  mem_way.2 ⟨_, List.prefix_rfl, foldl_namesOf t p⟩

theorem way_congr (h : u.workingDirectory = t.workingDirectory) (p : Path) :
    u.way p = t.way p := by
  rw [way, way, origin, origin, h]

/-- One path says what another says first. -/
def Front (q p : Path) : Prop := isAbsolute q = isAbsolute p ∧ namesOf q <+: namesOf p

instance (q p : Path) : Decidable (Front q p) :=
  inferInstanceAs (Decidable (isAbsolute q = isAbsolute p ∧ namesOf q <+: namesOf p))

/-- The way of a path begins with that of its front. -/
theorem Front.way (h : Front q p) (t : FileTree) : t.way q ⊆ t.way p := by
  intro l hl
  obtain ⟨names, hnames, hl⟩ := mem_way.1 hl
  rw [origin, h.1] at hl
  exact mem_way.2 ⟨names, hnames.trans h.2, hl⟩

theorem front_parent (h : p.parent? = some q) : Front q p := by
  obtain ⟨hpieces, habs⟩ := Path.pieces_parent? h
  exact ⟨habs, hpieces.map String.ofList⟩

theorem namesOf_trimmed (p : Path) : namesOf p.trimmed = namesOf p := by
  rw [namesOf, Path.pieces_trimmed, ← namesOf]

theorem origin_trimmed (t : FileTree) (p : Path) : t.origin p.trimmed = t.origin p := by
  rw [origin, Path.isAbsolute_trimmed, ← origin]

theorem locate_trimmed (t : FileTree) (p : Path) : t.locate p.trimmed = t.locate p := by
  rw [← foldl_namesOf, ← foldl_namesOf, namesOf_trimmed, origin_trimmed]

/-- A way that can be gone leads through directories, before what is below them. -/
theorem directory_of_mem_way (h : t.resolve (join base p) = .ok l) (hp : isAbsolute p = false)
    {d : Location} (hd : d ∈ t.way base) : t.find? d = some .directory := by
  obtain ⟨_, hpassable, _⟩ := resolve_iff.1 h
  obtain ⟨names, ⟨rest, hrest⟩, hd⟩ := mem_way.1 hd
  rw [route_join base hp, origin_join t base hp, ← hrest, List.append_assoc, passable_append,
    hd] at hpassable
  refine hpassable.2.directory fun hnil => ?_
  exact route_ne_nil p (List.append_eq_nil_iff.1 hnil).2

/-! ## New directories -/

/-- One tree comes from another, and its new directories are on the ways of some paths. -/
structure MadeAlong (ps : List Path) (t u : FileTree) : Prop where
  workingDirectory : u.workingDirectory = t.workingDirectory
  directory : ∀ l, u.find? l = some .directory →
    t.find? l = some .directory ∨ ∃ p ∈ ps, l ∈ t.way p

namespace MadeAlong

theorem refl (ps : List Path) (t : FileTree) : MadeAlong ps t t := ⟨rfl, fun _ hl => .inl hl⟩

theorem trans (h : MadeAlong ps t u) (h' : MadeAlong ps u v) : MadeAlong ps t v where
  workingDirectory := h'.workingDirectory.trans h.workingDirectory
  directory l hl := by
    rcases h'.directory l hl with hl | ⟨p, hp, hl⟩
    · exact h.directory l hl
    · rw [way_congr h.workingDirectory] at hl
      exact .inr ⟨p, hp, hl⟩

theorem mono (hsub : ps ⊆ qs) (h : MadeAlong ps t u) : MadeAlong qs t u where
  workingDirectory := h.workingDirectory
  directory l hl := (h.directory l hl).imp_right fun ⟨p, hp, hway⟩ => ⟨p, hsub hp, hway⟩

/-- What is made on the way of the front of a path is made on the way of the path. -/
theorem of_front (h : MadeAlong [q] t u) (hq : Front q p) : MadeAlong [p] t u where
  workingDirectory := h.workingDirectory
  directory l hl := by
    refine (h.directory l hl).imp_right fun ⟨q', hq', hway⟩ => ?_
    rw [List.mem_singleton.1 hq'] at hway
    exact ⟨p, List.mem_singleton_self p, hq.way t hway⟩

end MadeAlong

/-- Files do not count as new directories. -/
theorem madeAlong_put_file (hl : l ≠ []) (text : String) :
    MadeAlong ps t (t.put l (.file text)) where
  workingDirectory := rfl
  directory x hx := by
    rw [find?_put hl] at hx
    split at hx
    · cases hx
    · exact .inl hx

theorem madeAlong_prune (hl : l ≠ []) : MadeAlong ps t (t.prune l) where
  workingDirectory := rfl
  directory x hx := by
    rw [find?_prune hl] at hx
    split at hx
    · cases hx
    · exact .inl hx

theorem writeText_madeAlong (h : t.writeText p text = .ok u) : MadeAlong ps t u := by
  obtain ⟨l, hl, hname, _, rfl⟩ := writeText_eq_ok h
  obtain ⟨d, n, rfl, _⟩ := resolve_name hl hname
  exact madeAlong_put_file (by simp) text

theorem rename_madeAlong (h : t.rename p q = .ok u) : MadeAlong ps t u := by
  obtain ⟨text, l, htext, hl, hname, _, rfl⟩ := rename_eq h
  obtain ⟨d, n, rfl, _⟩ := resolve_name hl hname
  exact (madeAlong_prune (ne_root_of_file (readText_ok htext).2)).trans
    (madeAlong_put_file (by simp) text)

theorem makeDirectory_madeAlong (h : t.makeDirectory p = .ok u) : MadeAlong [p] t u := by
  obtain ⟨l, hl, h⟩ := except_bind_ok h
  have hlocate : l = t.locate p := (resolve_eq hl).trans (t.locate_trimmed p)
  cases hfind : t.find? l with
  | some e =>
    rw [hfind] at h
    cases h
  | none =>
    rw [hfind] at h
    cases h
    have hroot : l ≠ [] := by
      rintro rfl
      cases hfind
    refine ⟨rfl, fun x hx => ?_⟩
    rw [find?_put hroot] at hx
    split at hx
    · rename_i heq
      rw [heq, hlocate]
      exact .inr ⟨p, List.mem_singleton_self p, t.locate_mem_way p⟩
    · exact .inl hx

/-- **Directories are made on the way to the last of them**, whether all can be made or not. -/
theorem makeDirectoriesWithin_madeAlong (t : FileTree) (p : Path) (fuel : Nat) :
    MadeAlong [p] t (t.makeDirectoriesWithin p fuel).2 := by
  induction fuel generalizing t p with
  | zero => exact .refl _ t
  | succ fuel ih =>
    unfold makeDirectoriesWithin
    split
    · exact .refl _ t
    · split
      · rename_i u hm
        exact makeDirectory_madeAlong hm
      · split
        · exact .refl _ t
        · split
          · exact .refl _ t
          · rename_i parent hparent
            have hbefore := (ih t parent).of_front (front_parent hparent)
            split
            · rename_i hrun
              rw [hrun] at hbefore
              exact hbefore
            · rename_i v hrun
              rw [hrun] at hbefore
              split
              · rename_i u hm
                exact hbefore.trans (makeDirectory_madeAlong hm)
              · exact hbefore

theorem makeDirectories_madeAlong (t : FileTree) (p : Path) :
    MadeAlong [p] t (t.makeDirectories p).2 :=
  makeDirectoriesWithin_madeAlong t p _

/-! ## Below a base -/

/-- The names of the parent of a file below a base are those of the base and of the file, without
the last ones. -/
theorem Plain.namesOf_parent (hp : Plain p) (hq : (join base p).parent? = some q) :
    isAbsolute q = isAbsolute base ∧
      ∃ others, others ≠ [] ∧ namesOf q ++ others = namesOf base ++ namesOf p := by
  have hmoves : (join base p).moves ≠ [] := by
    intro hnil
    rw [Path.moves_join hp.relative, List.append_eq_nil_iff] at hnil
    have hlocate := hp.locate (.fresh []) base
    rw [locate_join _ base hp.relative, hnil.2] at hlocate
    exact route_ne_nil p (List.append_right_eq_self.1 hlocate.symm)
  obtain ⟨ms, s, hms⟩ := (List.eq_nil_or_concat _).resolve_left hmoves
  rw [List.concat_eq_append] at hms
  obtain ⟨q', hq', _, habs, others, hothers, hpieces⟩ := Path.parent?_of_moves hms
  obtain rfl : q' = q := Option.some.inj (hq'.symm.trans hq)
  refine ⟨habs.trans (Path.isAbsolute_join hp.relative), others.map String.ofList, ?_, ?_⟩
  · exact fun hnil => hothers (List.map_eq_nil_iff.1 hnil)
  · rw [namesOf, ← List.map_append, ← hpieces, Path.pieces_join hp.relative, List.map_append]
    rfl

/-- **The way to a file below a base** leads through the places on the way of the base, and through
the names of the file that come before the last. -/
theorem mem_way_below (hp : Plain p) (hq : (join base p).parent? = some q) (hl : l ∈ t.way q) :
    l ∈ t.way base ∨ ∃ names, names.length < (route p).length ∧ l = t.locate base ++ names := by
  obtain ⟨habs, others, hothers, hall⟩ := hp.namesOf_parent hq
  obtain ⟨names, hnames, hl⟩ := mem_way.1 hl
  rw [origin, habs, ← origin] at hl
  have hfront : names <+: namesOf base ++ namesOf p :=
    hnames.trans (hall ▸ List.prefix_append _ _)
  have hshort : names.length < (namesOf base).length + (namesOf p).length := by
    rw [← List.length_append, ← hall, List.length_append]
    have := hnames.length_le
    have := List.length_pos_of_ne_nil hothers
    omega
  rcases List.prefix_or_prefix_of_prefix hfront (List.prefix_append _ _) with hbase | ⟨rest, rfl⟩
  · exact .inl (mem_way.2 ⟨names, hbase, hl⟩)
  · have hrest : rest <+: route p := hp.route_eq ▸ (List.prefix_append_right_inj _).1 hfront
    have hplain : ∀ n ∈ rest, n ≠ "." ∧ n ≠ ".." := fun n hn => hp.noDots n (hrest.subset hn)
    rw [List.length_append, ← hp.route_eq] at hshort
    rw [List.foldl_append, foldl_namesOf, foldl_stepTo_plain hplain] at hl
    exact .inr ⟨rest, Nat.lt_of_add_lt_add_left hshort, hl.symm⟩

end FileTree

namespace FileStore

open FileTree (MadeAlong)

variable {t u : FileTree} {p : Path} {text : String}

theorem ensureParent_madeAlong (p : Path) (t : FileTree) :
    MadeAlong p.parent?.toList t ((ensureParent p : Action (StateM FileTree) Unit).run t).2 := by
  refine ensureParent_lasting (P := fun u => MadeAlong p.parent?.toList t u) (fun q hq => ?_)
    (.refl _ t)
  rw [hq]
  exact ⟨fun _ hu => hu, fun _ hu => hu,
    fun u hu => hu.trans (FileTree.makeDirectories_madeAlong u q)⟩

/-- **A text is replaced** with new directories on the way to the parent of its target only. -/
theorem replaceText_madeAlong
    (h : (replaceText p text : Action (StateM FileTree) Unit).run t = (.ok (), u)) :
    MadeAlong (Path.parent? p).toList t u := by
  obtain ⟨v, w, hparent, hwrite, hrename⟩ := replaceText_steps h
  have hv := ensureParent_madeAlong p t
  rw [hparent] at hv
  exact (hv.trans (FileTree.writeText_madeAlong hwrite)).trans
    (FileTree.rename_madeAlong hrename)

end FileStore

end ArchSpec
