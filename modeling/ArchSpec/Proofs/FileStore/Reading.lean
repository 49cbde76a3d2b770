import ArchSpec.Configuration
import ArchSpec.Specification.Stored
import ArchSpec.Proofs.Cache.Stored

/-!
# Programs that only read

Loading a configuration, a specification or contracts asks the store and changes nothing, so it
leaves the store as it is, whether it succeeds or not. A replacement of a text fails for reasons of
the store only, never for one that the compiler declares.

* `Action.Keeps` — a program that leaves the store as it is.
* `Configuration.load_keeps`, `Specification.load_keeps`, `Contract.loadAll_state` — what reads.
* `Specification.load_of_text`, `Contract.load_of_text` — what is read if it can be.
* `Action.Undeclared` — a program whose failures are no declared ones; `replaceText_undeclared`.
-/

namespace ArchSpec

namespace Action

section

variable {σ : Type} {α β : Type} {x : Action (StateM σ) α} {f : α → Action (StateM σ) β}

/-! ## Leaving the store as it is -/

/-- A program leaves the store as it is, whatever it answers. -/
def Keeps (x : Action (StateM σ) α) : Prop := ∀ t, (x.run t).2 = t

theorem Keeps.eq (h : Keeps x) {t u : σ} {r : Except Failure α} (hx : x.run t = (r, u)) :
    u = t := by
  rw [← h t, hx]

theorem keeps_pure (a : α) : Keeps (pure a : Action (StateM σ) α) := fun _ => rfl

theorem keeps_answer (r : Except Failure α) :
    Keeps (ExceptT.mk (pure r) : Action (StateM σ) α) := fun _ => rfl

theorem keeps_ofFault (r : Except Fault α) : Keeps (ofFault r : Action (StateM σ) α) :=
  fun _ => rfl

theorem Keeps.bind (hx : Keeps x) (hf : ∀ a, Keeps (f a)) : Keeps (x >>= f) := by
  intro t
  refine run_bind_state (P := fun u => u = t) (hx t) fun a u hu => ?_
  rw [hu]
  exact hf a t

/-! ## Failures that are not declared -/

/-- A program fails for no reason that the compiler declares. -/
def Undeclared (x : Action (StateM σ) α) : Prop :=
  ∀ t e u, x.run t = (.error e, u) → ∀ f, e.cause ≠ .fault f

theorem undeclared_pure (a : α) : Undeclared (pure a : Action (StateM σ) α) := nofun

theorem undeclared_lift (q : StateM σ α) : Undeclared (ExceptT.lift q : Action (StateM σ) α) :=
  nofun

theorem undeclared_plain (message : String) :
    Undeclared (throw (.plain message) : Action (StateM σ) α) := by
  intro t e u h f
  cases h
  nofun

theorem undeclared_ofStore (what : String) (q : StateM σ (Except IoError α)) :
    Undeclared (ofStore what q) := by
  intro t e u h f
  rw [run_ofStore] at h
  cases hq : (q t).1 with
  | ok a =>
    rw [hq] at h
    cases h
  | error e' =>
    rw [hq] at h
    cases h
    nofun

theorem Undeclared.bind (hx : Undeclared x) (hf : ∀ a, Undeclared (f a)) :
    Undeclared (x >>= f) := by
  intro t e u h
  rcases bind_error h with hfirst | ⟨a, v, _, hsecond⟩
  · exact hx t e u hfirst
  · exact hf a v e u hsecond

theorem Undeclared.within (hx : Undeclared x) (what : String) : Undeclared (within what x) := by
  intro t e u h
  rw [run_within] at h
  cases hrun : x.run t with
  | mk r v =>
    rw [hrun] at h
    cases r with
    | ok a => cases h
    | error e' =>
      cases h
      exact hx t e' v hrun

end

end Action

/-! ## What only reads -/

section

open ArchSpec.Action (Keeps)

theorem keeps_existsAt (p : Path) : Keeps
    (liftM (FileStore.existsAt p : StateM FileTree Bool) : Action (StateM FileTree) Bool) :=
  fun _ => rfl

theorem keeps_readText (what : String) (p : Path) :
    Keeps (Action.ofStore what (FileStore.readText p : StateM FileTree _)) := fun _ => rfl

theorem Configuration.load_keeps (directory : Path) :
    Keeps (load directory : Action (StateM FileTree) Configuration) := by
  refine (keeps_existsAt _).bind fun there => ?_
  cases there with
  | false => exact Action.keeps_pure _
  | true => exact (keeps_readText _ _).bind fun text => Action.keeps_answer _

theorem Specification.load_keeps (path : Path) :
    Keeps (load path : Action (StateM FileTree) Specification) := by
  have hread : Keeps (Action.ofStore ("Failed to read specification: " ++ path)
      (FileStore.readText path) >>= fun source => Action.ofFault (parseFile source path) :
        Action (StateM FileTree) Specification) :=
    (keeps_readText _ path).bind fun _ => Action.keeps_ofFault _
  refine (keeps_existsAt path).bind fun there => ?_
  cases there with
  | false => exact (Action.keeps_ofFault (.error (.specNotFound path))).bind fun _ => hread
  | true => exact (Action.keeps_pure ()).bind fun _ => hread

theorem Contract.load_keeps (path : Path) :
    Keeps (load path : Action (StateM FileTree) Contract) :=
  (keeps_readText _ path).bind fun _ => Action.keeps_answer _

theorem Contract.loadAll_state : ∀ (paths : List Path) (t : FileTree),
    ((loadAll paths : StateM FileTree _) t).2 = t
  | [], _ => rfl
  | path :: rest, t => by
    rw [loadAll, bind_apply, bind_apply]
    exact (loadAll_state rest _).trans (Contract.load_keeps path t)

theorem Cache.load_keeps (path : Path) : Keeps (load path : Action (StateM FileTree) Cache) :=
  load_state path

end

/-! ## What can be read -/

theorem Specification.load_of_text {path : Path} {s : Specification} {t : FileTree} {text : String}
    (hread : t.readText path = .ok text) (hparse : parseFile text path = .ok s) :
    (load path : Action (StateM FileTree) Specification).run t = (.ok s, t) := by
  have hask : (liftM (FileStore.existsAt path : StateM FileTree Bool) :
      Action (StateM FileTree) Bool).run t = (.ok true, t) := by
    rw [← FileTree.existsAt_of_readText hread]
    rfl
  have htext : (Action.ofStore ("Failed to read specification: " ++ path)
      (FileStore.readText path : StateM FileTree _)).run t = (.ok text, t) := by
    change ((t.readText path).mapError _, t) = _
    rw [hread]
    rfl
  rw [load, Action.run_bind_ok hask]
  refine (Action.run_bind_ok htext).trans ?_
  rw [hparse]
  rfl

theorem Contract.load_of_text {path : Path} {k : Contract} {t : FileTree} {text : String}
    (hread : t.readText path = .ok text) (hcontract : OpenApi.contract text = .ok k) :
    (load path : Action (StateM FileTree) Contract).run t = (.ok k, t) := by
  have htext : (Action.ofStore ("failed to read " ++ path)
      (FileStore.readText path : StateM FileTree _)).run t = (.ok text, t) := by
    change ((t.readText path).mapError _, t) = _
    rw [hread]
    rfl
  rw [load, Action.run_bind_ok htext, hcontract]
  rfl

/-! ## Replacing a text -/

namespace FileStore

open ArchSpec.Action (Undeclared)

theorem ensureDirectory_undeclared (p : Path) :
    Undeclared (ensureDirectory p : Action (StateM FileTree) Unit) := by
  refine (Action.undeclared_lift _).bind fun there => ?_
  cases there with
  | false => exact Action.undeclared_ofStore _ _
  | true =>
    refine (Action.undeclared_lift _).bind fun directory => ?_
    cases directory with
    | false => exact Action.undeclared_plain _
    | true => exact Action.undeclared_pure _

theorem writeTemporary_undeclared (p : Path) (text : String) :
    Undeclared (writeTemporary p text : Action (StateM FileTree) Unit) :=
  (Action.undeclared_ofStore _ _).bind fun _ =>
    (Action.undeclared_ofStore _ _).bind fun _ => Action.undeclared_ofStore _ _

theorem replaceText_undeclared (p : Path) (text : String) :
    Undeclared (replaceText p text : Action (StateM FileTree) Unit) := by
  refine Undeclared.bind ?_ fun _ =>
    (writeTemporary_undeclared _ _).bind fun _ => Action.undeclared_ofStore _ _
  unfold ensureParent
  split
  · exact Action.undeclared_pure _
  · split
    · exact Action.undeclared_pure _
    · exact ensureDirectory_undeclared _

end FileStore

end ArchSpec
