import Mathlib.Control.Monad.Basic
import ArchSpec.Yaml.Lexer

/-!
# Reading at a later place

What is read from characters depends on the line and the column at which they stand, but not on how
many characters there are before them: at a later index the same is read, and it ends as much later.

* `Mark.later`, `Piece.later` — the same place and the same piece, with more characters before.
* `readPlain_later`, `readQuoted_later`, `readBlock_later` — texts.
* `readAnchorName_later`, `readTag_later`, `readDirective_later` — the other tokens that are more
  than an indicator.
-/

namespace ArchSpec.Yaml

variable {α β : Type} {n : Nat} {cs : List Char} {m : Mark}

/-! ## Places and pieces -/

/-- The same place, with `n` more characters before it. -/
def Mark.later (m : Mark) (n : Nat) : Mark := { m with index := m.index + n }

namespace Mark

@[simp] theorem index_later : (m.later n).index = m.index + n := by
  cases m
  rfl

@[simp] theorem line_later : (m.later n).line = m.line := by
  cases m
  rfl

@[simp] theorem column_later : (m.later n).column = m.column := by
  cases m
  rfl

@[simp] theorem next_later : (m.later n).next = m.next.later n := by
  simp [next, later, Nat.add_right_comm]

@[simp] theorem nextLine_later : (m.later n).nextLine = m.nextLine.later n := by
  simp [nextLine, later, Nat.add_right_comm]

@[simp] theorem skip_later (k : Nat) : (m.later n).skip k = (m.skip k).later n := by
  simp [skip, later, Nat.add_right_comm]

end Mark

/-- The same piece, with `n` more characters before it. -/
def Piece.later (n : Nat) (p : Piece α) : Piece α := { p with mark := p.mark.later n }

@[simp] theorem Piece.later_mk (a : α) : Piece.later n ⟨a, cs, m⟩ = ⟨a, cs, m.later n⟩ := rfl
@[simp] theorem Piece.value_later (p : Piece α) : (p.later n).value = p.value := rfl
@[simp] theorem Piece.rest_later (p : Piece α) : (p.later n).rest = p.rest := rfl
@[simp] theorem Piece.mark_later (p : Piece α) : (p.later n).mark = p.mark.later n := rfl

@[simp] theorem atMarker_later : atMarker cs (m.later n) = atMarker cs m := rfl

/-- What is done to the result of a choice is done to the choices. -/
theorem map_ite_except {ε : Type} (c : Prop) [Decidable c] (f : α → β) (x y : Except ε α) :
    f <$> (if c then x else y) = if c then f <$> x else f <$> y := apply_ite _ _ _ _

@[simp] theorem map_throw {ε : Type} (f : α → β) (e : ε) :
    f <$> (throw e : Except ε α) = throw e := rfl

/-! ## Anchors, tags and directives -/

theorem readAnchorName_later : readAnchorName cs (m.later n) =
    Piece.later n <$> readAnchorName cs m := by
  unfold readAnchorName
  dsimp only
  rw [map_ite_except]
  simp

theorem readTagText_later (verbatim mayBeEmpty : Bool) :
    readTagText verbatim mayBeEmpty cs (m.later n) =
      Piece.later n <$> readTagText verbatim mayBeEmpty cs m := by
  unfold readTagText
  rw [map_bind]
  congr 1
  funext r
  dsimp only
  split <;> simp

theorem readTagParts_later : readTagParts cs (m.later n) =
    Piece.later n <$> readTagParts cs m := by
  unfold readTagParts
  split
  · rw [Mark.skip_later, readTagText_later, bind_map_left, map_bind]
    congr 1
    funext p
    simp only [Piece.rest_later]
    split <;> simp
  · dsimp only
    split
    · simp [readTagText_later]
    · rw [Mark.next_later, readTagText_later, bind_map_left, map_bind]
      congr 1
      funext p
      rw [map_ite_except]
      simp

theorem readTag_later (inFlow : Bool) : readTag inFlow cs (m.later n) =
    Piece.later n <$> readTag inFlow cs m := by
  unfold readTag
  rw [readTagParts_later, bind_map_left, map_bind]
  congr 1
  funext p
  simp only [Piece.rest_later, map_ite_except]
  rfl

theorem readSmallNumber_later : readSmallNumber cs (m.later n) =
    Piece.later n <$> readSmallNumber cs m := by
  unfold readSmallNumber
  dsimp only
  split
  · rfl
  · simp

@[simp] theorem skipBlanks_later : skipBlanks cs (m.later n) =
    ((skipBlanks cs m).1, (skipBlanks cs m).2.later n) := by
  simp [skipBlanks]

theorem readVersion_later : readVersion cs (m.later n) =
    Piece.later n <$> readVersion cs m := by
  unfold readVersion
  rw [skipBlanks_later]
  simp only [readSmallNumber_later, bind_map_left, map_bind, Piece.rest_later]
  congr 1
  funext p
  split <;> simp [readSmallNumber_later]

theorem readHandleDirective_later : readHandleDirective cs (m.later n) =
    Piece.later n <$> readHandleDirective cs m := by
  unfold readHandleDirective
  rw [skipBlanks_later]
  dsimp only
  split
  · rfl
  · split
    · rfl
    · split
      · split
        · rfl
        · simp only [skipBlanks_later, Mark.skip_later, readTagText_later, bind_map_left, map_bind]
          congr 1
          funext p
          simp only [Piece.rest_later, Piece.value_later, Piece.mark_later, map_ite_except]
          rfl
      · rfl

theorem endLine_later (fault : Fault) : endLine fault cs (m.later n) =
    (fun r => (r.1, r.2.later n)) <$> endLine fault cs m := by
  unfold endLine
  rw [skipBlanks_later]
  dsimp only
  split
  · simp
  · split <;> simp

theorem readDirective_later : readDirective cs (m.later n) =
    Piece.later n <$> readDirective cs m := by
  unfold readDirective
  dsimp only
  split
  · rfl
  · split
    · simp [readVersion_later, endLine_later]
    · split
      · simp [readHandleDirective_later, endLine_later]
      · rfl

/-! ## Texts -/

theorem readQuoted_later (double : Bool) (out : List Char) (gap : Gap) (cs : List Char)
    (m : Mark) : readQuoted double out gap cs (m.later n) =
      Piece.later n <$> readQuoted double out gap cs m := by
  fun_induction readQuoted double out gap cs m <;> simp_all +zetaDelta [readQuoted]

@[simp] theorem plainEnd_later (out : List Char) (gap : Gap) :
    plainEnd out gap cs (m.later n) = (plainEnd out gap cs m).later n := rfl

theorem readPlain_later (inFlow : Bool) (indent : Int) (out : List Char) (gap : Gap)
    (cs : List Char) (m : Mark) :
    readPlain inFlow indent out gap cs (m.later n) =
      Piece.later n <$> readPlain inFlow indent out gap cs m := by
  induction cs generalizing out gap m with
  | nil => rfl
  | cons c rest ih =>
    simp only [readPlain, Mark.column_later, Mark.next_later, Mark.nextLine_later, atMarker_later,
      plainEnd_later, ih, map_ite_except, Except.map_ok, Except.map_error]

theorem readBlockHeader_later : readBlockHeader cs (m.later n) =
    Piece.later n <$> readBlockHeader cs m := by
  unfold readBlockHeader
  simp only [Mark.next_later, Mark.skip_later]
  repeat' split
  all_goals simp

theorem readBlockBreaks_later (limit : Option Nat) (deepest : Nat) (breaks cs : List Char)
    (m : Mark) : readBlockBreaks limit deepest breaks cs (m.later n) =
      Piece.later n <$> readBlockBreaks limit deepest breaks cs m := by
  induction cs generalizing deepest breaks m with
  | nil => simp [readBlockBreaks]
  | cons c rest ih =>
    simp only [readBlockBreaks, Mark.column_later, Mark.next_later, Mark.nextLine_later,
      ih, map_ite_except, Except.map_ok, Except.map_error, Piece.later_mk]

theorem readBlockLines_later (folded : Bool) (chomp : Chomp) (indent fuel : Nat) (out : List Char)
    (first : Option Char) (breaks : List Char) (blankBefore : Bool) (cs : List Char) (m : Mark) :
    readBlockLines folded chomp indent fuel out first breaks blankBefore cs (m.later n) =
      Piece.later n <$>
        readBlockLines folded chomp indent fuel out first breaks blankBefore cs m := by
  induction fuel generalizing out first breaks blankBefore cs m with
  | zero => rfl
  | succ fuel ih =>
    simp only [readBlockLines, Mark.column_later, Mark.skip_later]
    split
    · split
      · exact ih ..
      · rw [Mark.nextLine_later, readBlockBreaks_later, bind_map_left, map_bind]
        simp only [ih, Piece.mark_later, Piece.rest_later, Piece.value_later]
    · rfl

theorem readBlock_later (folded : Bool) (parent : Int) : readBlock folded parent cs (m.later n) =
    Piece.later n <$> readBlock folded parent cs m := by
  simp [readBlock, readBlockHeader_later, endLine_later, readBlockBreaks_later,
    readBlockLines_later]

end ArchSpec.Yaml
