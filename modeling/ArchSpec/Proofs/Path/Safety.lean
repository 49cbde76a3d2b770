import ArchSpec.Proofs.Path.Normal

/-!
# When a safe path is below its base

Whether a path is safe is told from two normalized paths. A normalized path has forgotten how far
it climbs above where it starts, and one that starts at the root has forgotten even that if it
climbs. So a path that is safe does lead below its base if both start at the root, or if both start
at the same place and climb to the same height; otherwise there is a working directory from which
it leads elsewhere.

* `Path.landing`, `Path.LeadsBelow` — where paths lead, and what it is to lead below a base.
* `Path.normalSteps_eq_landing`, `Path.landing_join` — what a normalized path remembers of that.
* `Path.Level` — when a path climbs no further than its base.
* `Path.isSafe_spec` — when the answer is right; `Path.safe_dots_escape` — when it is not.
-/

namespace ArchSpec.Path

variable {p q base cwd : Path} {names xs ys : List String}

/-! ## Where paths lead -/

/-- The names that lead from the root to where a path ends. Dots say nothing, and two dots undo the
name before them, or stay at the root. -/
def landing (p : Path) : List String := p.moves.foldl Step.move []

/-- Seen from a working directory, a path that is taken below a base leads to where the base leads
or below that. -/
def LeadsBelow (cwd base p : Path) : Prop :=
  landing (join cwd base) <+: landing (join cwd (join base p))

instance (cwd base p : Path) : Decidable (LeadsBelow cwd base p) :=
  inferInstanceAs (Decidable (_ <+: _))

/-- How far a path climbs above where it starts. -/
def climb (p : Path) : Nat := climbs 0 p.moves

/-- A path that is taken below a base starts where the base starts, and climbs no further. -/
structure Level (base p : Path) : Prop where
  start : isAbsolute (join base p) = isAbsolute base
  height : climb (join base p) = climb base

theorem join_of_isAbsolute (base : Path) (h : isAbsolute p = true) : join base p = p := if_pos h

/-- What of a working directory stays before the landing of a path. -/
def lead (cwd p : Path) : List String :=
  if isAbsolute p then [] else cwd.landing.take (cwd.landing.length - climb p)

/-- **A path leads below what it leaves of the working directory.** -/
theorem landing_join (cwd p : Path) : landing (join cwd p) = lead cwd p ++ landing p := by
  unfold lead
  split
  · rename_i habs
    rw [join_of_isAbsolute cwd habs]
    rfl
  · rename_i hrel
    rw [Bool.not_eq_true] at hrel
    rw [landing, moves_join hrel, List.foldl_append]
    have := foldl_move_climbs cwd.landing (r := []) (root_not_mem_moves p)
    rwa [List.append_nil] at this

/-- **A normalized path remembers where a path lands, and that it starts at the root if it does not
climb.** -/
theorem normalSteps_eq_landing (p : Path) : p.normalSteps =
    p.origin.take (p.origin.length - climb p) ++ p.landing.map Step.name := by
  have hroot := root_not_mem_moves p
  have := @foldl_applyStep_climbs p.moves p.origin [] hroot
  rw [List.append_nil] at this
  rw [normalSteps_eq, this, landing, map_foldl_move [] hroot]
  rfl

/-! ## What safety tells -/

theorem isSafe_iff : isSafe base p = true ↔ base.normalSteps <+: (join base p).normalSteps := by
  have hjoin : (if isAbsolute p then p else join base p) = join base p := by
    split
    · rename_i habs
      exact (join_of_isAbsolute base habs).symm
    · rfl
  rw [isSafe, hjoin, isWithin_normalize, List.isPrefixOf_iff_prefix]

theorem map_name_prefix_iff : xs.map Step.name <+: ys.map Step.name ↔ xs <+: ys := by
  refine ⟨fun h => ?_, fun h => h.map _⟩
  obtain ⟨zs, hzs, heq⟩ := List.prefix_map_iff.1 h
  rwa [(List.map_inj_right fun _ _ => Step.name.inj).1 heq]

/-- **For a path that is level with its base the answer is exact**, from every working directory. -/
theorem Level.isSafe_iff (h : Level base p) (cwd : Path) :
    isSafe base p = true ↔ LeadsBelow cwd base p := by
  have horigin : (join base p).origin = base.origin := by rw [origin, h.start, origin]
  have hlead : lead cwd (join base p) = lead cwd base := by rw [lead, h.start, h.height, lead]
  rw [Path.isSafe_iff, normalSteps_eq_landing, normalSteps_eq_landing, horigin, h.height,
    List.prefix_append_right_inj, map_name_prefix_iff, LeadsBelow, landing_join cwd base,
    landing_join cwd (join base p), hlead, List.prefix_append_right_inj]

theorem origin_take (p : Path) (k : Nat) :
    p.origin.take k = [] ∨ p.origin.take k = [.root] := by
  unfold origin
  split
  · cases k with
    | zero => exact .inl rfl
    | succ k => exact .inr (by simp)
  · exact .inl (by simp)

/-- A safe path ends in the names that its base ends in, and more. -/
theorem landing_prefix_of_isSafe (h : isSafe base p = true) :
    landing base <+: landing (join base p) := by
  rw [isSafe_iff, normalSteps_eq_landing, normalSteps_eq_landing] at h
  rw [← map_name_prefix_iff]
  rcases base.origin_take _ with hbase | hbase <;>
    rcases (join base p).origin_take _ with hjoin | hjoin <;> rw [hbase, hjoin] at h
  · exact h
  · -- a base that climbs above the root, and then goes nowhere
    rcases List.prefix_cons_iff.1 h with hempty | ⟨names, hnames, _⟩
    · rw [List.nil_append] at hempty
      rw [hempty]
      exact List.nil_prefix
    · obtain ⟨n, _, hn⟩ := List.mem_map.1
        (show Step.root ∈ (landing base).map Step.name by
          rw [← List.nil_append ((landing base).map Step.name), hnames]
          exact List.mem_cons_self)
      cases hn
  · have hroot : Step.root ∈ (landing (join base p)).map Step.name :=
      h.subset (List.mem_append_left _ List.mem_cons_self)
    obtain ⟨n, _, hn⟩ := List.mem_map.1 hroot
    cases hn
  · exact (List.prefix_append_right_inj _).1 h

/-- What is safe below a base that starts at the root leads below it from every working directory.
-/
theorem leadsBelow_of_isAbsolute (hbase : isAbsolute base = true) (h : isSafe base p = true)
    (cwd : Path) : LeadsBelow cwd base p := by
  have hjoin : isAbsolute (join base p) = true := by
    cases hp : isAbsolute p with
    | true => rwa [join_of_isAbsolute base hp]
    | false => rwa [isAbsolute_join hp]
  rw [LeadsBelow, join_of_isAbsolute cwd hbase, join_of_isAbsolute cwd hjoin]
  exact landing_prefix_of_isSafe h

/-! ## Working directories -/

/-- The path from the root along some names. -/
def rooted (names : List String) : Path := ofSteps (.root :: names.map Step.name)

theorem foldl_move_names (l names : List String) :
    (names.map Step.name).foldl Step.move l = l ++ names := by
  induction names generalizing l with
  | nil => simp
  | cons n names ih =>
    rw [List.map_cons, List.foldl_cons, Step.move, ih, List.append_assoc]
    rfl

theorem rooted_spec (h : ∀ n ∈ names, IsName n) :
    isAbsolute (rooted names) = true ∧ landing (rooted names) = names := by
  have hsteps : steps (rooted names) = .root :: names.map Step.name :=
    steps_ofSteps ⟨[.root], names, rfl, .inr rfl, h⟩
  obtain ⟨first, hfirst, hstart⟩ := steps_eq (rooted names)
  rw [hsteps] at hfirst
  rcases hstart with ⟨habs, rfl⟩ | ⟨_, rfl | rfl⟩
  · refine ⟨habs, ?_⟩
    rw [List.singleton_append] at hfirst
    rw [landing, ← (List.cons.inj hfirst).2, foldl_move_names, List.nil_append]
  · rw [List.nil_append] at hfirst
    exact absurd (hfirst ▸ List.mem_cons_self) (root_not_mem_moves (rooted names))
  · cases hfirst

/-- A working directory as deep as one likes, all of whose names are the same. -/
theorem rooted_replicate {n : String} (hn : IsName n) (k : Nat) :
    isAbsolute (rooted (List.replicate k n)) = true ∧
      landing (rooted (List.replicate k n)) = List.replicate k n :=
  rooted_spec fun _ hm => List.eq_of_mem_replicate hm ▸ hn

/-- A path from the root leads elsewhere than below a base that is taken from deep enough. -/
theorem not_leadsBelow_of_isAbsolute (hbase : isAbsolute base = false)
    (hp : isAbsolute p = true) : ∃ cwd, isAbsolute cwd = true ∧ ¬LeadsBelow cwd base p := by
  obtain ⟨habs, hlanding⟩ := rooted_replicate (n := "x") ⟨by decide, by decide⟩
    (climb base + (landing p).length + 1)
  refine ⟨_, habs, fun h => ?_⟩
  have hlength := h.length_le
  rw [join_of_isAbsolute base hp, join_of_isAbsolute _ hp, landing_join, lead, hbase, hlanding]
    at hlength
  simp only [Bool.false_eq_true, if_false, List.length_append, List.length_take,
    List.length_replicate] at hlength
  omega

/-- Where a path climbs further than its base, the last names of the base's place have to be found
again on the path. -/
theorem head?_landing_of_leadsBelow {n : String} (hn : IsName n) (hbase : isAbsolute base = false)
    (hp : isAbsolute p = false) (hclimb : climb base < climb (join base p))
    (h : LeadsBelow (rooted (List.replicate (climb (join base p)) n)) base p) :
    (landing (join base p)).head? = some n := by
  obtain ⟨_, hlanding⟩ := rooted_replicate hn (climb (join base p))
  rw [LeadsBelow, landing_join, landing_join, lead, lead, isAbsolute_join hp, hbase, hlanding] at h
  simp only [Bool.false_eq_true, if_false, List.length_replicate, Nat.sub_self,
    List.take_replicate, Nat.zero_min, List.replicate_zero, List.nil_append] at h
  obtain ⟨k, hk⟩ : ∃ k, min (climb (join base p) - climb base) (climb (join base p)) = k + 1 :=
    ⟨climb (join base p) - climb base - 1, by omega⟩
  rw [hk, List.replicate_succ] at h
  obtain ⟨rest, hrest⟩ := h
  rw [← hrest]
  rfl

/-- A path that leads below a relative base from everywhere is level with it. -/
theorem level_of_leadsBelow (hbase : isAbsolute base = false)
    (h : ∀ cwd, isAbsolute cwd = true → LeadsBelow cwd base p) : Level base p := by
  cases hp : isAbsolute p with
  | true =>
    obtain ⟨cwd, hcwd, hnot⟩ := not_leadsBelow_of_isAbsolute hbase hp
    exact absurd (h cwd hcwd) hnot
  | false =>
    refine ⟨isAbsolute_join hp, ?_⟩
    have hle : climb base ≤ climb (join base p) := by
      rw [climb, climb, moves_join hp]
      exact climbs_le_append 0 base.moves p.moves
    by_contra hne
    have hhead : ∀ {n}, IsName n → (landing (join base p)).head? = some n := fun hn =>
      head?_landing_of_leadsBelow hn hbase hp (by omega) (h _ (rooted_replicate hn _).1)
    -- the place of the base can be made to end in either of two names
    have hx := hhead (n := "x") ⟨by decide, by decide⟩
    have hy := hhead (n := "y") ⟨by decide, by decide⟩
    exact absurd (Option.some.inj (hx.symm.trans hy)) (by decide)

/-- **When safety means what it says.** For a path that is level with its base the answer is exact,
whatever the working directory. A path that is safe leads below its base from every working
directory just when the base starts at the root or the path is level with it. -/
theorem isSafe_spec (base p : Path) :
    (Level base p → ∀ cwd, isAbsolute cwd = true →
      (isSafe base p = true ↔ LeadsBelow cwd base p)) ∧
    (isSafe base p = true →
      ((∀ cwd, isAbsolute cwd = true → LeadsBelow cwd base p) ↔
        isAbsolute base = true ∨ Level base p)) := by
  refine ⟨fun hlevel cwd _ => hlevel.isSafe_iff cwd, fun hsafe => ⟨fun h => ?_, ?_⟩⟩
  · cases hbase : isAbsolute base with
    | true => exact .inl rfl
    | false => exact .inr (level_of_leadsBelow hbase h)
  · rintro (hbase | hlevel) cwd _
    · exact leadsBelow_of_isAbsolute hbase hsafe cwd
    · exact (hlevel.isSafe_iff cwd).1 hsafe

/-- The directory beside the working directory and the page in it are level, and the page is safe.
-/
theorem isSafe_spec_beside :
    (Level "../out" "docs/./a/../b.md" ∧ isSafe "../out" "docs/./a/../b.md" = true ∧
      isAbsolute "/home/me" = true) ∧
    (isSafe "../out" "docs/./a/../b.md" = true ↔
      LeadsBelow "/home/me" "../out" "docs/./a/../b.md") ∧
    ∀ cwd, isAbsolute cwd = true → LeadsBelow cwd "../out" "docs/./a/../b.md" := by
  have hlevel : Level "../out" "docs/./a/../b.md" := ⟨by decide +kernel, by decide +kernel⟩
  have hsafe : isSafe "../out" "docs/./a/../b.md" = true := by decide +kernel
  have hcwd : isAbsolute "/home/me" = true := by decide +kernel
  obtain ⟨hexact, hsound⟩ := isSafe_spec "../out" "docs/./a/../b.md"
  exact ⟨⟨hlevel, hsafe, hcwd⟩, hexact hlevel _ hcwd, (hsound hsafe).2 (.inr hlevel)⟩

/-- **Dots escape from the working directory.** Below `.` a path out of the working directory and
a path from the root are both safe, but neither leads into it. -/
theorem safe_dots_escape :
    (isSafe "." "../x" = true ∧ ¬LeadsBelow "/home/me" "." "../x") ∧
    (isSafe "." "/etc/passwd" = true ∧ ¬LeadsBelow "/home/me" "." "/etc/passwd") ∧
    isAbsolute "/home/me" = true := by
  decide +kernel

end ArchSpec.Path
