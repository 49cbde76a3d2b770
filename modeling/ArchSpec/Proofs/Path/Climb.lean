import ArchSpec.Proofs.Path

/-!
# How far moves climb

Two dots undo the name before them. Where there is none left to undo, moves climb above the place
that they start from, and how often they do so says all about what they do to the names before
that place: so many of the last ones are lost, and the others stay.

* `Path.climbs` — how often moves climb; `climbs_le_iff` — that is the largest excess of moves up
  over names in a beginning of the moves.
* `Path.staysBelow_iff` — moves stay below where they start if they never climb.
* `Path.foldl_applyStep_climbs`, `Path.foldl_move_climbs` — what moves leave of what stands before
  them; `Path.foldl_move_below` — all of it, if they never climb.
-/

namespace ArchSpec

/-- Whether a step goes up. -/
def Step.isUp (s : Step) : Bool := s = .up

/-- Whether a step goes down to a name. -/
def Step.isName : Step → Bool
  | .name _ => true
  | _ => false

namespace Path

variable {depth k : Nat} {ms : List Step}

/-- How often moves go above where they start, when there are some names to undo already. -/
def climbs (depth : Nat) : List Step → Nat
  | [] => 0
  | .name _ :: rest => climbs (depth + 1) rest
  | .up :: rest => match depth with
    | 0 => climbs 0 rest + 1
    | depth + 1 => climbs depth rest
  | .here :: rest => climbs depth rest
  | .root :: rest => climbs depth rest

theorem climbs_append (depth : Nat) (ms ns : List Step) :
    ∃ d, climbs depth (ms ++ ns) = climbs depth ms + climbs d ns := by
  induction ms generalizing depth with
  | nil => exact ⟨depth, (Nat.zero_add _).symm⟩
  | cons s ms ih =>
    cases s with
    | name n => exact ih (depth + 1)
    | up =>
      cases depth with
      | zero =>
        obtain ⟨d, hd⟩ := ih 0
        refine ⟨d, ?_⟩
        rw [List.cons_append, climbs, climbs, hd, Nat.add_right_comm]
      | succ depth => exact ih depth
    | here => exact ih depth
    | root => exact ih depth

/-- Later moves do not take back what earlier ones have climbed. -/
theorem climbs_le_append (depth : Nat) (ms ns : List Step) :
    climbs depth ms ≤ climbs depth (ms ++ ns) := by
  obtain ⟨d, hd⟩ := climbs_append depth ms ns
  omega

/-- **Moves climb as often as some beginning of them goes up more than down.** -/
theorem climbs_le_iff : climbs depth ms ≤ k ↔
    ∀ front, front <+: ms → front.countP Step.isUp ≤ depth + front.countP Step.isName + k := by
  induction ms generalizing depth k with
  | nil => simp [climbs]
  | cons s ms ih =>
    -- the empty beginning asks for nothing, and the others begin with the first move
    have hcons : (∀ front, front <+: s :: ms →
        front.countP Step.isUp ≤ depth + front.countP Step.isName + k) ↔
        ∀ front, front <+: ms → (s :: front).countP Step.isUp ≤
          depth + (s :: front).countP Step.isName + k := by
      constructor
      · exact fun h front hfront => h _ (List.cons_prefix_cons.2 ⟨rfl, hfront⟩)
      · intro h front hfront
        rcases List.prefix_cons_iff.1 hfront with rfl | ⟨rest, rfl, hrest⟩
        · simp
        · exact h rest hrest
    rw [hcons]
    cases s with
    | name n =>
      rw [climbs, ih]
      simp only [List.countP_cons, Step.isUp, Step.isName]
      exact forall₂_congr fun front _ => by simp; omega
    | up =>
      cases depth with
      | zero =>
        cases k with
        | zero =>
          refine iff_of_false (by simp [climbs]) fun h => ?_
          exact absurd (h [] List.nil_prefix) (by simp [Step.isUp, Step.isName])
        | succ k =>
          rw [climbs, Nat.add_le_add_iff_right, ih]
          simp only [List.countP_cons, Step.isUp, Step.isName]
          exact forall₂_congr fun front _ => by simp; omega
      | succ depth =>
        rw [climbs, ih]
        simp only [List.countP_cons, Step.isUp, Step.isName]
        exact forall₂_congr fun front _ => by simp; omega
    | here =>
      rw [climbs, ih]
      simp [Step.isUp, Step.isName]
    | root =>
      rw [climbs, ih]
      simp [Step.isUp, Step.isName]

/-- Moves stay below where they start if they never climb, and never start anew. -/
theorem staysBelow_iff : staysBelow depth ms = true ↔ .root ∉ ms ∧ climbs depth ms = 0 := by
  induction ms generalizing depth with
  | nil => simp [staysBelow, climbs]
  | cons s ms ih =>
    cases s with
    | root => simp [staysBelow]
    | name n => simp [staysBelow, climbs, ih]
    | here => simp [staysBelow, climbs, ih]
    | up => cases depth <;> simp [staysBelow, climbs, ih]

theorem staysBelow_moves {p : Path} (h : isArtifactPath p = true) :
    staysBelow 0 p.moves = true := by
  simp only [isArtifactPath, Bool.and_eq_true] at h
  obtain ⟨first, hsteps, ⟨habs, _⟩ | ⟨_, rfl | rfl⟩⟩ := p.steps_eq
  · rw [habs] at h
    cases h.1.1
  all_goals
    rw [hsteps] at h
    exact h.2

/-! ## What moves leave -/

/-- **Moves take away as much of what stands before them as they climb**, and leave the rest. -/
theorem foldl_applyStep_climbs (before : List Step) {walk : List Step} (hroot : .root ∉ ms) :
    ms.foldl applyStep (before ++ walk) =
      before.take (before.length - climbs walk.length ms) ++ ms.foldl applyStep walk := by
  induction ms generalizing before walk with
  | nil => simp [climbs]
  | cons s ms ih =>
    have hs : .root ≠ s := fun h => hroot (h ▸ List.mem_cons_self)
    replace hroot := fun h => hroot (List.mem_cons_of_mem s h)
    rw [List.foldl_cons, List.foldl_cons]
    cases s with
    | root => exact absurd rfl hs
    | here => exact ih before hroot
    | name n =>
      have hdown : ∀ w, applyStep w (.name n) = w ++ [.name n] := fun _ => rfl
      rw [hdown, hdown, List.append_assoc, ih before hroot, List.length_append]
      rfl
    | up =>
      rw [applyStep, applyStep]
      cases walk using List.reverseRecOn with
      | nil =>
        -- the step goes above the start, and takes the last step before it
        have hbefore := @ih before.dropLast [] hroot
        rw [List.append_nil] at hbefore ⊢
        rw [hbefore, List.dropLast_eq_take, List.take_take, List.length_take]
        congr 2
        simp only [List.length_nil, climbs]
        omega
      | append_singleton walk s =>
        rw [List.dropLast_append_of_ne_nil (by simp), List.dropLast_concat, ih before hroot,
          List.length_append]
        rfl

/-- Moves lead from name to name as they do from step to step. -/
theorem map_foldl_move (l : List String) (hroot : .root ∉ ms) :
    (ms.foldl Step.move l).map Step.name = ms.foldl applyStep (l.map Step.name) := by
  induction ms generalizing l with
  | nil => rfl
  | cons s ms ih =>
    have hs : .root ≠ s := fun h => hroot (h ▸ List.mem_cons_self)
    replace hroot := fun h => hroot (List.mem_cons_of_mem s h)
    rw [List.foldl_cons, List.foldl_cons, ih _ hroot]
    congr 1
    cases s with
    | root => exact absurd rfl hs
    | here => rfl
    | up => exact List.map_dropLast
    | name n => exact List.map_append

theorem foldl_move_climbs (l : List String) {r : List String} (hroot : .root ∉ ms) :
    ms.foldl Step.move (l ++ r) =
      l.take (l.length - climbs r.length ms) ++ ms.foldl Step.move r := by
  refine (List.map_inj_right fun _ _ => Step.name.inj).1 ?_
  rw [map_foldl_move _ hroot, List.map_append, foldl_applyStep_climbs _ hroot, List.map_append,
    map_foldl_move _ hroot, List.map_take, List.length_map, List.length_map]

/-- Moves that never go above where they start do not touch the steps before them. -/
theorem foldl_applyStep_below (before : List Step) {walk : List Step}
    (h : staysBelow walk.length ms = true) :
    ms.foldl applyStep (before ++ walk) = before ++ ms.foldl applyStep walk := by
  obtain ⟨hroot, hclimbs⟩ := staysBelow_iff.1 h
  rw [foldl_applyStep_climbs before hroot, hclimbs, Nat.sub_zero, List.take_length]

/-- Moves that never go above where they start are made below it. -/
theorem foldl_move_below (l : List String) {r : List String}
    (h : staysBelow r.length ms = true) :
    ms.foldl Step.move (l ++ r) = l ++ ms.foldl Step.move r := by
  obtain ⟨hroot, hclimbs⟩ := staysBelow_iff.1 h
  rw [foldl_move_climbs l hroot, hclimbs, Nat.sub_zero, List.take_length]

end Path

end ArchSpec
