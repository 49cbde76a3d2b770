import ArchSpec.Proofs.Path.Climb

/-!
# Paths without dots

The steps of a path without dots begin at the root or nowhere, and then go down from name to name.
Written as a path and taken apart again they are the same steps, so whether one path lies within
another can be told from their steps alone. A path that never leaves its base lies within every
base.

* `Path.Normal` — such steps; `normal_normalSteps` — those of a normalized path.
* `Path.steps_normalize` — the steps of a normalized path.
* `Path.normalSteps_join` — a path below a base makes its own steps after those of the base.
* `Path.isSafe_of_isArtifactPath` — the path of a generated file is safe below every base.
-/

namespace ArchSpec.Path

variable {p q base : Path} {n : String} {ss : List Step}

/-! ## Steps that go down -/

/-- Whether a text is the name of something in a directory. -/
structure IsName (n : String) : Prop where
  noSlash : '/' ∉ n.toList
  noDots : n ≠ "" ∧ n ≠ "." ∧ n ≠ ".."

/-- Steps that begin at the root or nowhere and go down from name to name. -/
def Normal (ss : List Step) : Prop :=
  ∃ (first : List Step) (names : List String), ss = first ++ names.map Step.name ∧
    (first = [] ∨ first = [.root]) ∧ ∀ n ∈ names, IsName n

theorem isName_of_stepOf? {piece : List Char} (hslash : '/' ∉ piece)
    (h : stepOf? piece = some (.name n)) : IsName n := by
  unfold stepOf? at h
  split at h
  · cases h
  · rename_i hsilent
    split at h
    · cases h
    · rename_i hup
      cases h
      obtain ⟨hempty, hdot⟩ := not_or.1 hsilent
      refine ⟨by rwa [String.toList_ofList], ?_, ?_, ?_⟩
      · exact fun he => hempty (by simpa using congrArg String.toList he)
      · exact fun he => hdot (by simpa using congrArg String.toList he)
      · exact fun he => hup (by simpa using congrArg String.toList he)

/-- A path only moves to names. -/
theorem isName_of_mem_moves (h : .name n ∈ p.moves) : IsName n := by
  obtain ⟨piece, hpiece, hstep⟩ := List.mem_filterMap.1 h
  exact isName_of_stepOf? (Text.not_mem_of_mem_splitOn hpiece) hstep

theorem Normal.dropLast (h : Normal ss) : Normal ss.dropLast := by
  obtain ⟨first, names, rfl, hfirst, hnames⟩ := h
  cases names using List.reverseRecOn with
  | nil =>
    refine ⟨[], [], ?_, .inl rfl, nofun⟩
    rcases hfirst with rfl | rfl <;> rfl
  | append_singleton names n =>
    refine ⟨first, names, ?_, hfirst, fun m hm => hnames m (List.mem_append_left _ hm)⟩
    rw [List.map_append, ← List.append_assoc]
    exact List.dropLast_concat

theorem Normal.concat (h : Normal ss) (hn : IsName n) : Normal (ss ++ [.name n]) := by
  obtain ⟨first, names, rfl, hfirst, hnames⟩ := h
  refine ⟨first, names ++ [n], by simp, hfirst, fun m hm => ?_⟩
  rcases List.mem_append.1 hm with hm | hm
  · exact hnames m hm
  · rwa [List.mem_singleton.1 hm]

/-- Where a path starts, as a step. -/
def origin (p : Path) : List Step := if isAbsolute p then [.root] else []

/-- A normalized path makes its moves from where it starts. -/
theorem normalSteps_eq (p : Path) : p.normalSteps = p.moves.foldl applyStep p.origin := by
  obtain ⟨first, hsteps, hfirst⟩ := p.steps_eq
  rw [normalSteps, hsteps, List.foldl_append, origin]
  rcases hfirst with ⟨habs, rfl⟩ | ⟨hrel, rfl | rfl⟩
  · rw [if_pos habs]
    rfl
  all_goals
    rw [if_neg (by rw [hrel]; exact Bool.false_ne_true)]
    rfl

theorem normal_foldl_applyStep {ms : List Step} (hss : Normal ss) (hroot : .root ∉ ms)
    (hnames : ∀ n, .name n ∈ ms → IsName n) : Normal (ms.foldl applyStep ss) := by
  induction ms generalizing ss with
  | nil => exact hss
  | cons s ms ih =>
    rw [List.foldl_cons]
    refine ih ?_ (fun h => hroot (List.mem_cons_of_mem _ h))
      fun n hn => hnames n (List.mem_cons_of_mem _ hn)
    cases s with
    | root => exact absurd List.mem_cons_self hroot
    | here => exact hss
    | up => exact hss.dropLast
    | name n => exact hss.concat (hnames n List.mem_cons_self)

/-- **A normalized path goes down only.** -/
theorem normal_normalSteps (p : Path) : Normal p.normalSteps := by
  rw [normalSteps_eq]
  refine normal_foldl_applyStep ?_ (root_not_mem_moves p) fun n => isName_of_mem_moves
  unfold origin
  split
  · exact ⟨[.root], [], rfl, .inr rfl, nofun⟩
  · exact ⟨[], [], rfl, .inl rfl, nofun⟩

/-! ## Steps written as a path -/

/-- What a path says before it makes its moves. -/
def leading (p : Path) : List Step :=
  if isAbsolute p then [.root]
  else if (Text.splitOn '/' p.toList).head? = some ['.'] then [.here]
  else []

theorem steps_eq_leading (p : Path) : p.steps = p.leading ++ p.moves := by
  unfold steps leading moves isAbsolute
  split
  · rename_i rest hp
    rw [hp]
    simp [Text.splitOn, stepOf?]
  · rename_i hp
    have hrelative : ¬decide (p.toList.head? = some '/') = true := by
      rw [decide_eq_true_iff]
      intro hhead
      obtain ⟨rest, hrest⟩ := List.head?_eq_some_iff.1 hhead
      exact hp rest hrest
    rw [if_neg hrelative]
    unfold stepsOfPieces
    split
    · rename_i rest hpieces
      rw [hpieces]
      simp [stepOf?]
    · rename_i hpieces
      rw [if_neg]
      · rfl
      · intro hhead
        obtain ⟨rest, hrest⟩ := List.head?_eq_some_iff.1 hhead
        exact hpieces rest hrest

/-- What is put below a path does not change how the path begins. -/
theorem leading_join (h : isAbsolute q = false) (hbase : base ≠ "") :
    (join base q).leading = base.leading := by
  have hhead : (Text.splitOn '/' (join base q).toList).head? =
      (Text.splitOn '/' base.toList).head? := by
    unfold join
    rw [if_neg (by simp [h])]
    split
    · rename_i hslash
      rw [Bool.or_eq_true] at hslash
      have hlast := of_decide_eq_true (hslash.resolve_left (by simpa using hbase))
      obtain ⟨cs, hcs⟩ := List.getLast?_eq_some_iff.1 hlast
      obtain ⟨first, more, hfirst⟩ := List.exists_cons_of_ne_nil (Text.splitOn_ne_nil '/' cs)
      rw [String.toList_append, hcs, List.append_assoc, List.singleton_append,
        Text.splitOn_append, Text.splitOn_append, hfirst]
      rfl
    · obtain ⟨first, more, hfirst⟩ :=
        List.exists_cons_of_ne_nil (Text.splitOn_ne_nil '/' base.toList)
      rw [String.toList_append, String.toList_append, List.append_assoc,
        show "/".toList ++ q.toList = '/' :: q.toList from rfl, Text.splitOn_append, hfirst]
      rfl
  unfold leading
  rw [isAbsolute_join h, hhead]

/-- Below a path, the moves of another follow its steps. -/
theorem steps_join (h : isAbsolute q = false) (hbase : base ≠ "") :
    (join base q).steps = base.steps ++ q.moves := by
  rw [steps_eq_leading, steps_eq_leading, leading_join h hbase, moves_join h, List.append_assoc]

theorem steps_of_isName (hn : IsName n) : steps n = [.name n] := by
  obtain ⟨hmoves, hrelative⟩ := moves_of_name hn.noSlash hn.noDots
  have hdot : n.toList ≠ ['.'] := fun h => hn.noDots.2.1 (String.toList_injective h)
  have hleading : leading n = [] := by
    unfold leading
    rw [Text.splitOn_of_not_mem hn.noSlash, hrelative]
    simpa using hdot
  rw [steps_eq_leading, hleading, hmoves]
  rfl

theorem join_ne_empty (hn : IsName n) : join base n ≠ "" := by
  intro h
  have hname := (moves_of_name hn.noSlash hn.noDots)
  have hmoves := congrArg moves h
  rw [moves_join hname.2, hname.1] at hmoves
  exact absurd hmoves (by simp [moves, Text.splitOn, stepOf?])

theorem steps_foldl_join (names : List String) (hnames : ∀ n ∈ names, IsName n)
    (hbase : base ≠ "") :
    (((names.map Step.name).foldl (fun acc s => join acc s.text) base).steps) =
      base.steps ++ names.map Step.name := by
  induction names generalizing base with
  | nil => simp
  | cons n names ih =>
    obtain ⟨hn, hnames⟩ := List.forall_mem_cons.1 hnames
    obtain ⟨hmoves, hrelative⟩ := moves_of_name hn.noSlash hn.noDots
    rw [List.map_cons, List.foldl_cons, Step.text, ih hnames (join_ne_empty hn),
      steps_join hrelative hbase, hmoves, List.append_assoc]
    rfl

/-- **Steps that go down are those of the path that they are written as.** -/
theorem steps_ofSteps (h : Normal ss) : (ofSteps ss).steps = ss := by
  obtain ⟨first, names, rfl, hfirst, hnames⟩ := h
  rw [ofSteps, List.foldl_append]
  rcases hfirst with rfl | rfl
  · cases names with
    | nil => rfl
    | cons n names =>
      obtain ⟨hn, hnames⟩ := List.forall_mem_cons.1 hnames
      have hjoin : join "" n = n := by
        unfold join
        split
        · rfl
        · exact String.empty_append
      have hne : n ≠ "" := hn.noDots.1
      rw [List.foldl_nil, List.map_cons, List.foldl_cons, Step.text, hjoin,
        steps_foldl_join names hnames hne, steps_of_isName hn]
      rfl
  · exact steps_foldl_join names hnames (by decide)

theorem steps_normalize (p : Path) : (normalize p).steps = p.normalSteps :=
  steps_ofSteps p.normal_normalSteps

/-- Whether a normalized path lies within another can be told from their steps. -/
theorem isWithin_normalize (base p : Path) :
    isWithin (normalize base) (normalize p) = base.normalSteps.isPrefixOf p.normalSteps := by
  rw [isWithin, steps_normalize, steps_normalize]

/-! ## Paths that never leave their base -/

/-- **A path that never leaves its base** makes its own steps after those of the base. -/
theorem normalSteps_join (base : Path) (h : isArtifactPath p = true) :
    (join base p).normalSteps = base.normalSteps ++ p.normalSteps := by
  have hrelative := not_isAbsolute_of_isArtifactPath h
  have horigin : (join base p).origin = base.origin := by
    rw [origin, origin, isAbsolute_join hrelative]
  have hbelow := @foldl_applyStep_below p.moves base.normalSteps [] (staysBelow_moves h)
  rw [List.append_nil] at hbelow
  rw [normalSteps_eq, horigin, moves_join hrelative, List.foldl_append, ← normalSteps_eq, hbelow,
    normalSteps_eq p, origin, hrelative]
  rfl

/-- **The path of a generated file is safe below every base.** -/
theorem isSafe_of_isArtifactPath (base : Path) (h : isArtifactPath p = true) :
    isSafe base p = true := by
  rw [isSafe, if_neg (by simp [not_isAbsolute_of_isArtifactPath h]), isWithin_normalize,
    normalSteps_join base h, List.isPrefixOf_iff_prefix]
  exact List.prefix_append _ _

end ArchSpec.Path
