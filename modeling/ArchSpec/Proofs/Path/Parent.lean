import ArchSpec.Proofs.Path.Normal

/-!
# The directory of a path

The parent of a name below a path is the beginning of that path: the whole of it if it ends in a
piece that says something, and otherwise what comes before the dots at its end.

* `Path.EndsInPiece` — paths that do not end in a separator.
* `Path.parent?_begins` — the parent of a path is its beginning.
* `Path.parent?_join` — the parent of a name below a path.
* `Path.parent?_join_join` — the parent of a name below another name.
-/

namespace ArchSpec.Path

variable {p q base : Path} {n m : String}

/-! ## Names -/

instance (n : String) : Decidable (IsName n) :=
  decidable_of_iff ('/' ∉ n.toList ∧ n ≠ "" ∧ n ≠ "." ∧ n ≠ "..")
    ⟨fun h => ⟨h.1, h.2⟩, fun h => ⟨h.noSlash, h.noDots⟩⟩

namespace IsName

theorem moves (h : IsName n) : moves n = [.name n] := (moves_of_name h.noSlash h.noDots).1

theorem relative (h : IsName n) : isAbsolute n = false := (moves_of_name h.noSlash h.noDots).2

theorem splitOn (h : IsName n) : Text.splitOn '/' n.toList = [n.toList] :=
  Text.splitOn_of_not_mem h.noSlash

/-- A name says something. -/
theorem not_silent (h : IsName n) : ¬(n.toList = [] ∨ n.toList = ['.']) := by
  have hmoves := h.moves
  rw [Path.moves, h.splitOn] at hmoves
  intro hsilent
  rw [List.filterMap_cons, stepOf?_eq_none.2 hsilent] at hmoves
  cases hmoves

end IsName

/-! ## Parents -/

/-- A path ends in a piece rather than in a separator. -/
def EndsInPiece (p : Path) : Prop := ∃ c, p.toList.getLast? = some c ∧ c ≠ '/'

theorem EndsInPiece.nonempty (h : EndsInPiece p) : p ≠ "" := by
  rintro rfl
  obtain ⟨c, hc, _⟩ := h
  cases hc

/-- Below a path that ends in a piece stands another one after a separator. -/
theorem EndsInPiece.join_eq (h : EndsInPiece base) (hp : isAbsolute p = false) :
    join base p = base ++ "/" ++ p := by
  obtain ⟨c, hc, hslash⟩ := h
  rw [join, if_neg (by simp [hp]), if_neg]
  have hempty : base.isEmpty = false := by
    have hne := EndsInPiece.nonempty ⟨c, hc, hslash⟩
    simpa using hne
  simp [hempty, hc, hslash]

/-- What is in a joined path is in one of its parts, or stands between them. -/
theorem mem_join {c : Char} (h : c ∈ (join base p).toList) :
    c ∈ base.toList ∨ c = '/' ∨ c ∈ p.toList := by
  unfold join at h
  split at h
  · exact .inr (.inr h)
  · split at h <;> simp only [String.toList_append, List.mem_append] at h
    · exact h.imp_right .inr
    · rcases h with (h | h) | h
      · exact .inl h
      · exact .inr (.inl (List.mem_singleton.1 h))
      · exact .inr (.inr h)

theorem endsInPiece_join (base : Path) (hne : n ≠ "") (hslash : '/' ∉ n.toList) :
    EndsInPiece (join base n) := by
  obtain ⟨c, hc⟩ : ∃ c, n.toList.getLast? = some c :=
    ⟨_, List.getLast?_eq_some_getLast fun hnil => hne (String.toList_eq_nil_iff.1 hnil)⟩
  refine ⟨c, ?_, fun heq => hslash (heq ▸ List.mem_of_getLast? hc)⟩
  have hlast : ∀ cs : List Char, (cs ++ n.toList).getLast? = some c := fun cs => by
    rw [List.getLast?_append, hc]
    rfl
  unfold join
  split
  · exact hc
  · split <;> simpa only [String.toList_append] using hlast _

theorem splitOn_join_name (h : EndsInPiece base) (hn : IsName n) :
    Text.splitOn '/' (join base n).toList = Text.splitOn '/' base.toList ++ [n.toList] := by
  rw [h.join_eq hn.relative, String.toList_append, String.toList_append, List.append_assoc,
    ← hn.splitOn]
  exact Text.splitOn_append '/' base.toList n.toList

/-- The pieces before a name are those of the path that it stands below. -/
theorem piecesBeforeLast_join (h : EndsInPiece base) (hn : IsName n) :
    piecesBeforeLast (join base n) = dropSilent (Text.splitOn '/' base.toList).reverse := by
  rw [piecesBeforeLast, splitOn_join_name h hn, List.reverse_append, List.reverse_singleton,
    List.singleton_append, dropSilent, if_neg hn.not_silent]
  · rfl
  · exact fun hdot _ => hn.not_silent (.inr hdot)

/-- The beginning of some pieces is the beginning of their text. -/
theorem joinSep_begins {xs ys : List (List Char)} (hne : xs ≠ []) (h : xs <+: ys) :
    Text.joinSep '/' xs <+: Text.joinSep '/' ys := by
  obtain ⟨zs, rfl⟩ := h
  induction xs with
  | nil => exact absurd rfl hne
  | cons x xs ih =>
    cases xs with
    | nil =>
      cases zs with
      | nil => exact List.prefix_rfl
      | cons z zs => exact List.prefix_append _ _
    | cons y xs =>
      exact (List.prefix_append_right_inj x).2 (List.cons_prefix_cons.2 ⟨rfl, ih nofun⟩)

/-- A path of the pieces that a path begins with is the beginning of that path. -/
theorem ofPieces_begins {pieces : List (List Char)}
    (h : pieces.reverse <+: Text.splitOn '/' p.toList) :
    (ofPieces (isAbsolute p) pieces).toList <+: p.toList := by
  cases pieces with
  | nil =>
    cases hslash : isAbsolute p with
    | false => exact List.nil_prefix
    | true =>
      obtain ⟨rest, hrest⟩ := List.head?_eq_some_iff.1 (of_decide_eq_true hslash)
      exact ⟨rest, hrest.symm⟩
  | cons piece pieces =>
    have := joinSep_begins (by simp) h
    rw [Text.joinSep_splitOn] at this
    simpa only [ofPieces, String.toList_ofList] using this

/-- The parent of a path that makes moves is its beginning. -/
theorem parent?_begins {ms : List Step} {s : Step} (h : p.moves = ms ++ [s])
    (hq : p.parent? = some q) : q.toList <+: p.toList := by
  rw [parent?_eq_of_moves h] at hq
  obtain rfl := Option.some.inj hq
  exact ofPieces_begins (moves_piecesBeforeLast h).2

/-- What the parent of a name below a path is. -/
theorem parent?_join_eq (h : EndsInPiece base) (hn : IsName n) : (join base n).parent? =
    some (ofPieces (isAbsolute base) (dropSilent (Text.splitOn '/' base.toList).reverse)) := by
  have hmoves : (join base n).moves = base.moves ++ [.name n] := by
    rw [moves_join hn.relative, hn.moves]
  have hparent := parent?_eq_of_moves hmoves
  rwa [piecesBeforeLast_join h hn, isAbsolute_join hn.relative] at hparent

/-- **The parent of a name below a path** is the beginning of that path, and makes its moves. -/
theorem parent?_join (h : EndsInPiece base) (hn : IsName n) :
    ∃ q, (join base n).parent? = some q ∧ q.moves = base.moves ∧ isAbsolute q = isAbsolute base ∧
      q.toList <+: base.toList := by
  have hmoves : (join base n).moves = base.moves ++ [.name n] := by
    rw [moves_join hn.relative, hn.moves]
  obtain ⟨q, hq, hqmoves, habs, _⟩ := parent?_of_moves hmoves
  rw [isAbsolute_join hn.relative] at habs
  refine ⟨q, hq, hqmoves, habs, ?_⟩
  rw [parent?_join_eq h hn] at hq
  obtain rfl := Option.some.inj hq
  refine ofPieces_begins ?_
  rw [← List.reverse_suffix, List.reverse_reverse]
  exact dropSilent_suffix _

/-- **The parent of a name below another name** is that name. -/
theorem parent?_join_join (base : Path) (hm : IsName m) (hn : IsName n) :
    (join (join base m) n).parent? = some (join base m) := by
  obtain ⟨front, hfront, _⟩ := splitOn_join base hm.relative
  rw [parent?_join_eq (endsInPiece_join base hm.noDots.1 hm.noSlash) hn, hfront, hm.splitOn,
    List.reverse_append, List.reverse_singleton, List.singleton_append, dropSilent,
    if_neg hm.not_silent]
  · simp only [ofPieces, List.reverse_cons, List.reverse_reverse, ← hm.splitOn, ← hfront,
      Text.joinSep_splitOn, String.ofList_toList]
  · exact fun hdot _ => hm.not_silent (.inr hdot)

end ArchSpec.Path
