import ArchSpec.Proofs.Artifact.Write
import ArchSpec.Proofs.Cache.Basic
import ArchSpec.Proofs.FileStore.Settled

/-!
# Writing what is there already

A task is settled in a tree if each artifact is either left alone or holds its text, and the cache
is up to date; then it changes no file, whether it succeeds or not.

* `WriteTask.Settled` — an artifact that is settled; `run_settled` — a task that changes no file.
-/

namespace ArchSpec.WriteTask

open FileStore (replaceText temporaryPath)
open FileTree (ChangedAt)

variable {task : WriteTask} {stale : Option (List String)} {a : Artifact} {as : List Artifact}
  {t u : FileTree}

/-- A step of a program that changes no file, after one that changes none. -/
theorem unchanged_bind {α β : Type} {x : Action (StateM FileTree) α}
    {f : α → Action (StateM FileTree) β} (hx : ChangedAt [] t (x.run t).2)
    (hf : ∀ a v, x.run t = (.ok a, v) → ChangedAt [] v ((f a).run v).2) :
    ChangedAt [] t ((x >>= f).run t).2 := by
  cases hrun : x.run t with
  | mk r v =>
    rw [hrun] at hx
    cases r with
    | error e =>
      rw [Action.run_bind_error hrun]
      exact hx
    | ok a =>
      rw [Action.run_bind_ok hrun]
      exact hx.trans (hf a v hrun)

/-- An artifact is there and is left alone, or it is there with its text and no temporary file. -/
def Settled (task : WriteTask) (t : FileTree) (a : Artifact) : Prop :=
  (a.file.strategy = .writeOnce ∧ t.existsAt (task.target a) = true) ∨
    (t.readText (task.target a) = .ok a.file.content ∧
      t.textAt? (t.locate (temporaryPath (task.target a))) = none)

theorem Settled.congr (h : Settled task t a) (hu : ChangedAt [] t u) : Settled task u a := by
  rcases h with ⟨honce, hthere⟩ | ⟨htext, htemp⟩
  · exact .inl ⟨honce, hu.existsAt nofun hthere⟩
  · refine .inr ⟨hu.readText nofun htext, ?_⟩
    rw [hu.locate, hu.textAt? nofun, htemp]

theorem writeOne_settled (stale : Option (List String)) (ht : t.WellFormed)
    (h : Settled task t a) :
    ChangedAt [] t ((task.writeOne stale a : Action (StateM FileTree) Bool).run t).2 := by
  rw [run_writeOne]
  split
  · exact .refl ht
  · rename_i hwrites
    rcases h with ⟨honce, hthere⟩ | ⟨htext, htemp⟩
    · have hkept : a.isPreserved task.force stale = true := by simp [Artifact.isPreserved, honce]
      exact absurd (by rw [hthere, hkept]; rfl) hwrites
    · rw [Action.run_bind_pure, Action.run_within]
      exact FileStore.replaceText_same ht htext htemp rfl

theorem writeAll_settled (stale : Option (List String)) (ht : t.WellFormed)
    (h : ∀ a ∈ as, Settled task t a) :
    ChangedAt [] t ((task.writeAll stale as : Action (StateM FileTree) WriteStats).run t).2 := by
  induction as generalizing t with
  | nil => exact .refl ht
  | cons a rest ih =>
    have hone := writeOne_settled stale ht (h a List.mem_cons_self)
    refine unchanged_bind hone fun done v hv => ?_
    rw [hv] at hone
    rw [Action.run_bind_pure]
    exact ih hone.wellFormed fun b hb => (h b (List.mem_cons_of_mem _ hb)).congr hone

/-- **A task that is settled changes no file**, whether it succeeds or not. -/
theorem run_settled {model : Model} (ht : t.WellFormed) (h : ∀ a ∈ as, Settled task t a)
    (hcache : ∀ path, task.cachePath = some path → ∃ c : Cache, c.version = cacheVersion ∧
      t.readText path = .ok c.text ∧ c.RemembersModel model ∧ c.recordArtifacts as = c ∧
      t.textAt? (t.locate (temporaryPath path)) = none) :
    ChangedAt [] t ((task.run model as : Action (StateM FileTree) WriteStats).run t).2 := by
  refine unchanged_bind (.refl ht) fun _ v hv => ?_
  obtain rfl : t = v := congrArg Prod.snd hv
  cases hpath : task.cachePath with
  | none => exact writeAll_settled none ht h
  | some path =>
    obtain ⟨c, hversion, htext, hremembers, hrecorded, htemp⟩ := hcache path hpath
    have hload := Cache.load_current hversion htext
    refine unchanged_bind (by rw [hload]; exact .refl ht) fun c' v hv => ?_
    rw [hload] at hv
    cases hv
    have hwrite := writeAll_settled (some (c.staleComponents model)) ht h
    refine unchanged_bind hwrite fun stats w hw => ?_
    rw [hw] at hwrite
    rw [Action.run_bind_pure, hremembers.update_eq, hrecorded]
    unfold Cache.save
    rw [Action.run_within]
    refine FileStore.replaceText_same hwrite.wellFormed (hwrite.readText nofun htext) ?_ rfl
    rw [hwrite.locate, hwrite.textAt? nofun, htemp]

end ArchSpec.WriteTask
