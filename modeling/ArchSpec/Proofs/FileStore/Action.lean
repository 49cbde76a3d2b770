import ArchSpec.FileStore.Basic

/-!
# Programs opened step by step

A program that succeeds consists of steps that succeed, one after the other; one that fails leaves
the store as its last step left it.

* `except_bind_ok`, `Action.bind_ok`, `Action.bind_error` — a program is opened at its first step.
* `Action.ofFault_ok`, `Action.ofStore_ok`, `Action.within_ok` — a step that succeeds is opened.
* `Action.run_bind_ok`, `Action.run_bind_error` — a program whose first step has been run.
* `Action.run_bind_state` — what is kept by the steps of a program is kept by the program.
-/

namespace ArchSpec

variable {σ : Type}

theorem except_bind_ok {ε α β : Type} {x : Except ε α} {f : α → Except ε β} {b : β}
    (h : x >>= f = .ok b) : ∃ a, x = .ok a ∧ f a = .ok b := by
  cases x with
  | error e => cases h
  | ok a => exact ⟨a, rfl, h⟩

theorem eq_ok_of_toOption {ε α : Type} {x : Except ε α} {a : α} (h : x.toOption = some a) :
    x = .ok a := by
  cases x with
  | error e => cases h
  | ok b => rw [Option.some.inj h]

/-- What a program answers and leaves, if what it answers is known. -/
theorem eq_pair_of_toOption {ε α : Type} {x : Except ε α × σ} {a : α}
    (h : x.1.toOption = some a) : x = (.ok a, x.2) :=
  Prod.ext (eq_ok_of_toOption h) rfl

theorem bind_apply {α β : Type} (x : StateM σ α) (f : α → StateM σ β) (t : σ) :
    (x >>= f) t = (f (x t).1) (x t).2 := rfl

namespace Action

variable {α β : Type} {x : Action (StateM σ) α} {f : α → Action (StateM σ) β} {a : α} {b : β}
  {e : Failure} {t u : σ}

theorem run_bind_ok (h : x.run t = (.ok a, u)) : (x >>= f).run t = (f a).run u := by
  rw [ExceptT.run_bind, bind_apply, h]

theorem run_bind_error (h : x.run t = (.error e, u)) : (x >>= f).run t = (.error e, u) := by
  rw [ExceptT.run_bind, bind_apply, h]
  rfl

/-- What a program leaves has a property if its first step leaves what has it and the rest keeps
it. -/
theorem run_bind_state {P : σ → Prop} (hx : P (x.run t).2)
    (hf : ∀ a u, P u → P ((f a).run u).2) : P ((x >>= f).run t).2 := by
  cases hrun : x.run t with
  | mk r u =>
    rw [hrun] at hx
    cases r with
    | error e => rwa [run_bind_error hrun]
    | ok a =>
      rw [run_bind_ok hrun]
      exact hf a u hx

/-- A last step that only answers changes nothing. -/
theorem run_bind_pure (x : Action (StateM σ) α) (g : α → β) (t : σ) :
    ((x >>= fun a => pure (g a)).run t).2 = (x.run t).2 :=
  run_bind_state (P := fun u => u = (x.run t).2) rfl fun _ _ hu => hu

/-- A program that succeeds consists of two that succeed, one after the other. -/
theorem bind_ok (h : (x >>= f).run t = (.ok b, u)) :
    ∃ a v, x.run t = (.ok a, v) ∧ (f a).run v = (.ok b, u) := by
  cases hx : x.run t with
  | mk r v =>
    cases r with
    | error e =>
      rw [run_bind_error hx] at h
      cases h
    | ok a => exact ⟨a, v, rfl, by rw [← h, run_bind_ok hx]⟩

/-- A program that fails does so in its first step or after it. -/
theorem bind_error (h : (x >>= f).run t = (.error e, u)) : x.run t = (.error e, u) ∨
    ∃ a v, x.run t = (.ok a, v) ∧ (f a).run v = (.error e, u) := by
  cases hx : x.run t with
  | mk r v =>
    cases r with
    | error e' =>
      rw [run_bind_error hx] at h
      cases h
      exact .inl rfl
    | ok a =>
      rw [run_bind_ok hx] at h
      exact .inr ⟨a, v, rfl, h⟩

theorem ofFault_ok {x : Except Fault α} (h : (ofFault x : Action (StateM σ) α).run t = (.ok a, u)) :
    x = .ok a := by
  cases x with
  | error e => cases h
  | ok b =>
    cases h
    rfl

theorem run_ofStore (what : String) (x : StateM σ (Except IoError α)) (t : σ) :
    (ofStore what x).run t = ((x t).1.mapError (Failure.ofIo · what), (x t).2) := rfl

theorem ofStore_ok {what : String} {x : StateM σ (Except IoError α)}
    (h : (ofStore what x).run t = (.ok a, u)) : x t = (.ok a, u) := by
  rw [run_ofStore] at h
  cases hx : x t with
  | mk r v =>
    rw [hx] at h
    cases r with
    | error e => cases h
    | ok b =>
      cases h
      rfl

theorem ofStore_error {what : String} {x : StateM σ (Except IoError α)}
    (h : (ofStore what x).run t = (.error e, u)) : ∃ e', x t = (.error e', u) := by
  rw [run_ofStore] at h
  cases hx : x t with
  | mk r v =>
    rw [hx] at h
    cases r with
    | error e' =>
      cases h
      exact ⟨e', rfl⟩
    | ok b => cases h

theorem run_within (what : String) (x : Action (StateM σ) α) (t : σ) :
    (within what x).run t = ((x.run t).1.mapError (Failure.within what), (x.run t).2) :=
  rfl

theorem within_ok {what : String} (h : (within what x).run t = (.ok a, u)) :
    x.run t = (.ok a, u) := by
  rw [run_within] at h
  cases hx : x.run t with
  | mk r v =>
    rw [hx] at h
    cases r with
    | error e => cases h
    | ok b =>
      cases h
      rfl

theorem within_error {what : String} (h : (within what x).run t = (.error e, u)) :
    ∃ e', x.run t = (.error e', u) := by
  rw [run_within] at h
  cases hx : x.run t with
  | mk r v =>
    rw [hx] at h
    cases r with
    | error e' =>
      cases h
      exact ⟨e', rfl⟩
    | ok b => cases h

end Action

end ArchSpec
