import Mathlib.Data.List.Induction
import ArchSpec.Path
import ArchSpec.Proofs.Text

/-!
# What paths say

A path says where to start and which moves to make from there. Joining two paths makes the moves of
one after those of the other, and the parent of a path makes all its moves but the last.

* `Path.moves` — the moves of a path; `moves_join`, `parent?_of_moves` — those of composed paths.
* `Path.fileName?_eq_some` — a path that ends in a name makes a last move to it.
-/

namespace ArchSpec

/-! ## Moves -/

/-- Where a step leads from a list of names. -/
def Step.move (l : List String) : Step → List String
  | .root => []
  | .here => l
  | .up => l.dropLast
  | .name n => l ++ [n]

namespace Path

variable {p q base : Path} {n : String} {ms : List Step}

/-- What stands between the separators of a path. -/
def pieces (p : Path) : List (List Char) := (Text.splitOn '/' p.toList).filter (· ≠ [])

/-- The moves of a path: its steps, but for what it begins with. -/
def moves (p : Path) : List Step := (Text.splitOn '/' p.toList).filterMap stepOf?

/-- Empty pieces make no moves. -/
theorem moves_eq (p : Path) : p.moves = p.pieces.filterMap stepOf? := by
  unfold moves pieces
  rw [List.filterMap_filter]
  congr 1
  funext piece
  by_cases h : piece = [] <;> simp [h, stepOf?]

theorem stepOf?_eq_none {piece : List Char} :
    stepOf? piece = none ↔ piece = [] ∨ piece = ['.'] := by
  unfold stepOf?
  split
  · rename_i h
    exact iff_of_true rfl h
  · rename_i h
    refine iff_of_false ?_ h
    split <;> nofun

theorem stepOf?_ne_root {piece : List Char} : stepOf? piece ≠ some .root := by
  unfold stepOf?
  split
  · nofun
  · split <;> nofun

/-- No move of a path starts anew. -/
theorem root_not_mem_moves (p : Path) : .root ∉ p.moves := by
  intro h
  obtain ⟨piece, _, hpiece⟩ := List.mem_filterMap.1 h
  exact stepOf?_ne_root hpiece

/-- The steps of a path are where it starts and its moves. -/
theorem steps_eq (p : Path) : ∃ first : List Step, p.steps = first ++ p.moves ∧
    ((isAbsolute p = true ∧ first = [.root]) ∨
      (isAbsolute p = false ∧ (first = [] ∨ first = [.here]))) := by
  unfold steps moves isAbsolute
  split
  · rename_i rest hp
    exact ⟨[.root], by rw [hp]; simp [Text.splitOn, stepOf?], .inl ⟨by rw [hp]; rfl, rfl⟩⟩
  · rename_i hp
    have hrelative : decide (p.toList.head? = some '/') = false := by
      rw [decide_eq_false_iff_not]
      intro hhead
      obtain ⟨rest, hrest⟩ := List.head?_eq_some_iff.1 hhead
      exact hp rest hrest
    unfold stepsOfPieces
    split
    · rename_i rest hpieces
      refine ⟨[.here], ?_, .inr ⟨hrelative, .inr rfl⟩⟩
      rw [hpieces]
      simp [stepOf?]
    · exact ⟨[], rfl, .inr ⟨hrelative, .inl rfl⟩⟩

theorem not_isAbsolute_of_isArtifactPath (h : isArtifactPath p = true) :
    isAbsolute p = false := by
  simp only [isArtifactPath, Bool.and_eq_true, Bool.not_eq_true'] at h
  exact h.1.1

/-- A path ends in a name just when its last move leads to it. -/
theorem fileName?_eq_some : p.fileName? = some n ↔ p.moves.getLast? = some (.name n) := by
  obtain ⟨first, hsteps, hfirst⟩ := p.steps_eq
  have hlast : p.steps.getLast? = p.moves.getLast?.or first.getLast? := by
    rw [hsteps, List.getLast?_append]
  unfold fileName?
  rw [hlast]
  cases hm : p.moves.getLast? with
  | some s => cases s <;> simp
  | none =>
    rcases hfirst with ⟨_, rfl⟩ | ⟨_, rfl | rfl⟩ <;> simp

/-! ## Composed paths -/

theorem isAbsolute_join (h : isAbsolute q = false) :
    isAbsolute (join base q) = isAbsolute base := by
  unfold join
  rw [if_neg (by simp [h])]
  by_cases hempty : base = ""
  · subst hempty
    simpa [isAbsolute] using h
  · have hne : base.toList ≠ [] := fun h => hempty (String.toList_eq_nil_iff.1 h)
    obtain ⟨c, cs, hbase⟩ := List.exists_cons_of_ne_nil hne
    unfold isAbsolute
    split <;> simp [hbase]

/-- What stands between separators, below a path. -/
theorem splitOn_join (base : Path) (h : isAbsolute q = false) : ∃ front,
    Text.splitOn '/' (join base q).toList = front ++ Text.splitOn '/' q.toList ∧
      front.filter (· ≠ []) = base.pieces := by
  unfold join
  rw [if_neg (by simp [h])]
  split
  · rename_i hbase
    rw [Bool.or_eq_true] at hbase
    rcases hbase with hempty | hslash
    · have hempty : base = "" := by simpa using hempty
      subst hempty
      exact ⟨[], by simp, rfl⟩
    · -- the separator at the end of the base stands between the two
      obtain ⟨cs, hcs⟩ := List.getLast?_eq_some_iff.1 (of_decide_eq_true hslash)
      refine ⟨Text.splitOn '/' cs, ?_, ?_⟩
      · rw [String.toList_append, hcs, List.append_assoc, List.singleton_append,
          Text.splitOn_append]
      · rw [pieces, hcs, Text.splitOn_append, List.filter_append]
        simp [Text.splitOn]
  · refine ⟨Text.splitOn '/' base.toList, ?_, rfl⟩
    rw [String.toList_append, String.toList_append, List.append_assoc]
    exact Text.splitOn_append '/' base.toList q.toList

theorem pieces_join (h : isAbsolute q = false) :
    (join base q).pieces = base.pieces ++ q.pieces := by
  obtain ⟨front, hsplit, hfront⟩ := splitOn_join base h
  rw [pieces, hsplit, List.filter_append, hfront, ← pieces]

/-- Below a path, the moves of another follow its own. -/
theorem moves_join (h : isAbsolute q = false) : (join base q).moves = base.moves ++ q.moves := by
  rw [moves_eq, pieces_join h, List.filterMap_append, ← moves_eq, ← moves_eq]

/-- A name without separators is a path of one move. -/
theorem moves_of_name (hslash : '/' ∉ n.toList) (hdots : n ≠ "" ∧ n ≠ "." ∧ n ≠ "..") :
    moves n = [.name n] ∧ isAbsolute n = false := by
  have hne : n.toList ≠ [] := fun h => hdots.1 (String.toList_eq_nil_iff.1 h)
  have hdot : n.toList ≠ ['.'] := fun h => hdots.2.1 (String.toList_injective h)
  have hup : n.toList ≠ ['.', '.'] := fun h => hdots.2.2 (String.toList_injective h)
  refine ⟨?_, ?_⟩
  · simp [moves, Text.splitOn_of_not_mem hslash, stepOf?, hne, hdot, hup]
  · rw [isAbsolute, decide_eq_false_iff_not]
    intro hhead
    obtain ⟨rest, hrest⟩ := List.head?_eq_some_iff.1 hhead
    exact hslash (hrest ▸ List.mem_cons_self)

/-- A name that a path moves to is not empty and has no separators. -/
theorem name_of_moves (h : .name n ∈ p.moves) : n ≠ "" ∧ '/' ∉ n.toList := by
  obtain ⟨piece, hpiece, hstep⟩ := List.mem_filterMap.1 h
  unfold stepOf? at hstep
  split at hstep
  · cases hstep
  · rename_i hsilent
    split at hstep
    · cases hstep
    · cases hstep
      refine ⟨fun h => hsilent (.inl ?_), ?_⟩
      · simpa using congrArg String.toList h
      · rw [String.toList_ofList]
        exact Text.not_mem_of_mem_splitOn hpiece

/-- A path that ends in a suffix of some length ends in a name. -/
theorem fileName?_append (s suffix : String) (hslash : '/' ∉ suffix.toList)
    (hlength : 2 < suffix.length) : ∃ n, fileName? (s ++ suffix) = some n := by
  obtain ⟨others, last, hsplit⟩ := Text.splitOn_append_of_not_mem hslash s.toList
  have hlong : 2 < (last ++ suffix.toList).length := by
    rw [List.length_append, String.length_toList]
    omega
  have hstep : stepOf? (last ++ suffix.toList) =
      some (.name (String.ofList (last ++ suffix.toList))) := by
    unfold stepOf?
    rw [if_neg, if_neg]
    · intro h
      rw [h] at hlong
      simp at hlong
    · rintro (h | h)
      · rw [h] at hlong
        simp at hlong
      · rw [h] at hlong
        simp at hlong
  refine ⟨String.ofList (last ++ suffix.toList), fileName?_eq_some.2 ?_⟩
  rw [moves, String.toList_append, hsplit, List.filterMap_append, List.getLast?_append,
    List.filterMap_cons_some hstep]
  rfl

/-! ## Parents -/

theorem filterMap_dropSilent (pieces : List (List Char)) :
    (dropSilent pieces).filterMap stepOf? = pieces.filterMap stepOf? := by
  fun_induction dropSilent pieces with
  | case1 => rfl
  | case2 piece rest _ hsilent ih => rw [ih, List.filterMap_cons, stepOf?_eq_none.2 hsilent]
  | case3 => rfl
  | case4 => rfl

theorem dropSilent_suffix (pieces : List (List Char)) : dropSilent pieces <:+ pieces := by
  fun_induction dropSilent pieces with
  | case1 => exact List.suffix_rfl
  | case2 piece rest _ _ ih => exact ih.trans (List.suffix_cons piece rest)
  | case3 => exact List.suffix_rfl
  | case4 => exact List.suffix_rfl

/-- What is left of pieces begins with one that says something, or is a single dot. -/
theorem dropSilent_head {pieces : List (List Char)} {piece : List Char}
    {rest : List (List Char)} (h : dropSilent pieces = piece :: rest) :
    (piece = ['.'] ∧ rest = []) ∨ ∃ s, stepOf? piece = some s := by
  fun_induction dropSilent pieces with
  | case1 =>
    cases h
    exact .inl ⟨rfl, rfl⟩
  | case2 _ _ _ _ ih => exact ih h
  | case3 first more _ hsays =>
    cases h
    exact .inr (Option.ne_none_iff_exists'.1 fun hnone => hsays (stepOf?_eq_none.1 hnone))
  | case4 => cases h

/-- The pieces before the last step of a path make all its moves but the last. -/
theorem moves_piecesBeforeLast {s : Step} (h : p.moves = ms ++ [s]) :
    (piecesBeforeLast p).reverse.filterMap stepOf? = ms ∧
      (piecesBeforeLast p).reverse <+: Text.splitOn '/' p.toList := by
  have hreverse : (Text.splitOn '/' p.toList).reverse.filterMap stepOf? = s :: ms.reverse := by
    rw [List.filterMap_reverse]
    exact (congrArg List.reverse h).trans (by simp)
  rw [← filterMap_dropSilent] at hreverse
  unfold piecesBeforeLast
  cases hdrop : dropSilent (Text.splitOn '/' p.toList).reverse with
  | nil =>
    rw [hdrop] at hreverse
    cases hreverse
  | cons piece rest =>
    rw [hdrop] at hreverse
    have hsuffix : dropSilent rest <:+ (Text.splitOn '/' p.toList).reverse :=
      (dropSilent_suffix rest).trans
        ((List.suffix_cons piece rest).trans (hdrop ▸ dropSilent_suffix _))
    refine ⟨?_, ?_⟩
    · rcases dropSilent_head hdrop with ⟨rfl, rfl⟩ | ⟨s', hs'⟩
      · cases hreverse
      · rw [List.filterMap_cons_some hs'] at hreverse
        rw [List.drop_one, List.tail_cons, List.filterMap_reverse, filterMap_dropSilent,
          (List.cons.inj hreverse).2, List.reverse_reverse]
    · rw [List.drop_one, List.tail_cons]
      simpa using List.reverse_prefix.2 hsuffix

/-- A path is absolute just when its first piece is empty and not the only one. -/
theorem isAbsolute_iff : isAbsolute p = true ↔
    ∃ piece more, Text.splitOn '/' p.toList = [] :: piece :: more := by
  unfold isAbsolute
  cases p.toList with
  | nil => simp [Text.splitOn]
  | cons c cs =>
    rw [Text.splitOn]
    cases hs : Text.splitOn '/' cs with
    | nil => exact absurd hs (Text.splitOn_ne_nil '/' cs)
    | cons piece more => by_cases hc : c = '/' <;> simp [hc]

/-- The path of pieces that are given from its end on. -/
def ofPieces (absolute : Bool) : List (List Char) → Path
  | [] => if absolute then "/" else ""
  | piece :: pieces => String.ofList (Text.joinSep '/' (piece :: pieces).reverse)

theorem parent?_eq {s : Step} (hlast : p.steps.getLast? = some s) (hroot : s ≠ .root) :
    p.parent? = some (ofPieces (isAbsolute p) (piecesBeforeLast p)) := by
  unfold parent?
  rw [hlast]
  cases s with
  | root => exact absurd rfl hroot
  | _ => cases hpieces : piecesBeforeLast p <;> rfl

/-- The parent of a path that makes moves. -/
theorem parent?_eq_of_moves {s : Step} (h : p.moves = ms ++ [s]) :
    p.parent? = some (ofPieces (isAbsolute p) (piecesBeforeLast p)) := by
  obtain ⟨first, hsteps, _⟩ := p.steps_eq
  have hlast : p.steps.getLast? = some s := by
    rw [hsteps, h, ← List.append_assoc, List.getLast?_concat]
  have hroot : s ≠ .root := by
    rintro rfl
    exact root_not_mem_moves p (by simp [h])
  exact parent?_eq hlast hroot

/-- The pieces before the last step begin at the root just when the path does. -/
theorem isAbsolute_piecesBeforeLast (hne : piecesBeforeLast p ≠ [])
    (hfront : (piecesBeforeLast p).reverse <+: Text.splitOn '/' p.toList)
    (hq : Text.splitOn '/' q.toList = (piecesBeforeLast p).reverse) :
    isAbsolute q = isAbsolute p := by
  rw [Bool.eq_iff_iff, isAbsolute_iff, isAbsolute_iff, hq]
  obtain ⟨others, hothers⟩ := hfront
  rw [← hothers]
  constructor
  · rintro ⟨piece, more, hpieces⟩
    exact ⟨piece, more ++ others, by rw [hpieces]; rfl⟩
  · rintro ⟨piece, more, hpieces⟩
    obtain ⟨last, before, hlast⟩ := List.exists_cons_of_ne_nil hne
    rw [hlast, List.reverse_cons] at hpieces ⊢
    -- the last of these pieces says something, so the first, which is empty, is another one
    cases hbefore : before.reverse with
    | nil =>
      rw [hbefore] at hpieces
      have hempty : last = [] := (List.cons.inj hpieces).1
      rcases dropSilent_head hlast with ⟨hdot, _⟩ | ⟨s, hs⟩
      · rw [hdot] at hempty
        cases hempty
      · rw [hempty] at hs
        cases hs
    | cons first between =>
      rw [hbefore] at hpieces
      have hempty : first = [] := (List.cons.inj hpieces).1
      cases between with
      | nil => exact ⟨last, [], by rw [hempty]; rfl⟩
      | cons second between => exact ⟨second, between ++ [last], by rw [hempty]; rfl⟩

/-- **The parent of a path makes all its moves but the last**, and what it says is said in the path
too. -/
theorem parent?_of_moves {s : Step} (h : p.moves = ms ++ [s]) :
    ∃ q, p.parent? = some q ∧ q.moves = ms ∧ isAbsolute q = isAbsolute p ∧
      ∃ others, others ≠ [] ∧ p.pieces = q.pieces ++ others := by
  obtain ⟨hmoves, hfront⟩ := moves_piecesBeforeLast h
  -- a path with more moves has more to say
  have hmore : ∀ {q : Path} {others}, q.moves = ms → p.pieces = q.pieces ++ others →
      others ≠ [] := by
    rintro q others hq hpieces rfl
    rw [List.append_nil] at hpieces
    rw [moves_eq, hpieces, ← moves_eq, hq] at h
    exact absurd (congrArg List.length h) (by simp)
  refine ⟨_, parent?_eq_of_moves h, ?_⟩
  cases hpieces : piecesBeforeLast p with
  | nil =>
    rw [hpieces] at hmoves
    have hempty : ∀ q : Path, q.pieces = [] → q.moves = ms := by
      intro q hq
      rw [moves_eq, hq, ← hmoves]
      rfl
    cases isAbsolute p with
    | false => exact ⟨hempty "" rfl, rfl, _, hmore (hempty "" rfl) rfl, rfl⟩
    | true => exact ⟨hempty "/" rfl, rfl, _, hmore (hempty "/" rfl) rfl, rfl⟩
  | cons last before =>
    have hq : Text.splitOn '/' (String.ofList (Text.joinSep '/' (last :: before).reverse)).toList =
        (piecesBeforeLast p).reverse := by
      rw [String.toList_ofList, ← hpieces]
      refine Text.splitOn_joinSep (by simp [hpieces]) fun piece hpiece => ?_
      exact Text.not_mem_of_mem_splitOn (hfront.subset hpiece)
    have hparent := (congrArg (List.filterMap stepOf?) hq).trans hmoves
    obtain ⟨rest, hrest⟩ := hfront
    refine ⟨hparent, isAbsolute_piecesBeforeLast (by simp [hpieces]) ⟨rest, hrest⟩ hq,
      rest.filter (· ≠ []), hmore hparent ?_, ?_⟩
    all_goals
      show pieces p = pieces (String.ofList _) ++ _
      rw [pieces, pieces, hq, ← List.filter_append, hrest]

end Path

end ArchSpec
