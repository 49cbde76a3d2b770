import ArchSpec.Proofs.Artifact.Plan
import ArchSpec.Proofs.Occurrence

/-!
# Calls of a plan

A plan is made by calls, each for one file or for all files of a generator. A call that fails leaves
what it has added before, so the calls after it may meet the files of a generator that has failed.
Whatever the calls are, a plan knows its paths by what was offered for them first.

* `Plan.performAll` — calls one after the other, whether they fail or not.
* `Attempted` — which of its files a call tries to add.
* `Plan.Made` — the files that were tried until a plan was there.
* `Plan.Made.reflects` — a plan is told by what was tried, and so is every refusal.
* `Plan.performAll_history` — this holds for all sequences of calls.
-/

namespace ArchSpec

/-! ## Calls -/

/-- A call of a plan. -/
inductive PlanCall where
  | add (offer : Artifact)
  /-- All files of a generator. -/
  | addAll (owner : String) (files : GeneratedFiles)

/-- The files that a call is for, in order. -/
def PlanCall.offers : PlanCall → List Artifact
  | .add a => [a]
  | .addAll owner files => files.entries.map fun e => ⟨owner, e.1, e.2⟩

namespace Plan

/-- Try to add a file; a plan that refuses it stays as it is. -/
def attempt (p : Plan) (a : Artifact) : Plan × Option Fault :=
  match p.add a.owner a.path a.file with
  | .ok q => (q, none)
  | .error f => (p, some f)

def perform (p : Plan) : PlanCall → Plan × Except Fault Unit
  | .add a =>
    match p.add a.owner a.path a.file with
    | .ok q => (q, .ok ())
    | .error f => (p, .error f)
  | .addAll owner files => p.addAll owner files

/-- Perform calls in order, and keep the result of each. -/
def performAll : Plan → List PlanCall → Plan × List (Except Fault Unit)
  | p, [] => (p, [])
  | p, c :: rest =>
    let (q, result) := p.perform c
    let (q, results) := q.performAll rest
    (q, result :: results)

end Plan

/-! ## Attempts -/

/-- A file that a plan was to take, and what it was refused with, if it was. -/
structure Attempt where
  offer : Artifact
  refusal : Option Fault

/-- Files are tried in order up to and including the first that is refused, and with what result. -/
inductive Attempted : List Artifact → List Attempt → Except Fault Unit → Prop
  | done : Attempted [] [] (.ok ())
  | added {a : Artifact} {rest : List Artifact} {log : List Attempt} {result : Except Fault Unit} :
    Attempted rest log result → Attempted (a :: rest) (⟨a, none⟩ :: log) result
  | refused {a : Artifact} {rest : List Artifact} {f : Fault} :
    Attempted (a :: rest) [⟨a, some f⟩] (.error f)

/-- What a file is refused with after others have been offered. -/
def Artifact.refusalAfter (earlier : List Artifact) (a : Artifact) : Option Fault :=
  if a.path = "" then some (Plan.emptyPath a.owner)
  else (first? Artifact.path earlier a.path).map fun first =>
    .artifactConflict a.path first.owner a.owner

namespace Artifact

variable {earlier : List Artifact} {a : Artifact}

theorem refusalAfter_eq_none_iff : a.refusalAfter earlier = none ↔
    a.path ≠ "" ∧ first? Artifact.path earlier a.path = none := by
  by_cases hpath : a.path = "" <;> simp [refusalAfter, hpath]

/-- What is refused is never what comes first for a path. -/
theorem first?_of_refused {f : Fault} (h : a.refusalAfter earlier = some f) {k : String}
    (hk : k ≠ "") : first? Artifact.path (earlier ++ [a]) k = first? Artifact.path earlier k := by
  unfold refusalAfter at h
  split at h
  · rename_i hpath
    have hother : a.path ≠ k := fun heq => hk (heq ▸ hpath)
    rw [first?_concat, if_neg hother, Option.or_none]
  · obtain ⟨first, hfirst, _⟩ := Option.map_eq_some_iff.1 h
    exact first?_concat_of_some hfirst k

end Artifact

namespace Plan

/-- A plan that comes out of attempts. -/
inductive Made : Plan → List Attempt → Prop
  | start : Made empty []
  | step {p q : Plan} {log : List Attempt} {a : Artifact} {refusal : Option Fault} :
    Made p log → p.attempt a = (q, refusal) → Made q (log ++ [⟨a, refusal⟩])

/-- A plan holds what was offered first for each path. Its size is the number of files that were
taken, and all others were refused because of what was offered before. -/
structure Reflects (p : Plan) (log : List Attempt) : Prop where
  found : ∀ k, p.byPath.get? k =
    if k = "" then none else first? Artifact.path (log.map (·.offer)) k
  size : p.size = log.countP (·.refusal.isNone)
  refusals : ∀ (i : Nat) (x : Attempt), log[i]? = some x →
    x.refusal = x.offer.refusalAfter ((log.take i).map (·.offer))

variable {p q : Plan} {a : Artifact} {log : List Attempt} {refusal : Option Fault}

theorem reflects_empty : empty.Reflects [] := by
  refine ⟨fun k => ?_, rfl, nofun⟩
  split <;> rfl

theorem Reflects.keyed (h : p.Reflects log) : p.Keyed := by
  intro k a hk
  rw [h.found] at hk
  split at hk
  · cases hk
  · exact (first?_eq_some_iff.1 hk).1

theorem Reflects.mem_toList (h : p.Reflects log) : a ∈ p.toList ↔
    a.path ≠ "" ∧ first? Artifact.path (log.map (·.offer)) a.path = some a := by
  rw [h.keyed.mem_toList, h.found]
  by_cases hpath : a.path = "" <;> simp [hpath]

/-- The next file is refused because of what was offered before, or it is put under its path. -/
theorem Reflects.attempt (h : p.Reflects log) (a : Artifact) : p.attempt a =
    match a.refusalAfter (log.map (·.offer)) with
    | some f => (p, some f)
    | none => (⟨p.byPath.insert a.path a⟩, none) := by
  unfold Plan.attempt add Artifact.refusalAfter
  rw [h.found]
  by_cases hpath : a.path = ""
  · simp [hpath]
  · have hnamed : a.path.isEmpty = false := by simpa using hpath
    rw [hnamed, if_neg hpath, if_neg hpath]
    cases first? Artifact.path (log.map (·.offer)) a.path <;> rfl

/-- An attempt at the end has the refusal that it should have. -/
theorem Reflects.refusals_concat (h : p.Reflects log) {x y : Attempt}
    (hx : x.refusal = x.offer.refusalAfter (log.map (·.offer))) {i : Nat}
    (hy : (log ++ [x])[i]? = some y) :
    y.refusal = y.offer.refusalAfter (((log ++ [x]).take i).map (·.offer)) := by
  rcases Nat.lt_trichotomy i log.length with hi | rfl | hi
  · rw [List.getElem?_append_left hi] at hy
    rw [List.take_append_of_le_length (Nat.le_of_lt hi)]
    exact h.refusals i y hy
  · obtain rfl : x = y := by simpa using hy
    rw [List.take_left]
    exact hx
  · have hlength : (log ++ [x]).length ≤ i := by
      rw [List.length_append, List.length_singleton]
      omega
    rw [List.getElem?_eq_none hlength] at hy
    cases hy

/-- **One attempt** keeps a plan told by what was tried. -/
theorem Reflects.step (h : p.Reflects log) (ha : p.attempt a = (q, refusal)) :
    q.Reflects (log ++ [⟨a, refusal⟩]) := by
  rw [h.attempt a] at ha
  cases hafter : a.refusalAfter (log.map (·.offer)) with
  | some f =>
    rw [hafter] at ha
    obtain ⟨rfl, rfl⟩ := Prod.mk.inj ha
    refine ⟨fun k => ?_, ?_, fun i y => h.refusals_concat hafter.symm⟩
    · rw [h.found, List.map_append]
      split
      · rfl
      · rename_i hk
        exact (Artifact.first?_of_refused hafter hk).symm
    · simp [h.size]
  | none =>
    rw [hafter] at ha
    obtain ⟨rfl, rfl⟩ := Prod.mk.inj ha
    obtain ⟨hpath, hnew⟩ := Artifact.refusalAfter_eq_none_iff.1 hafter
    have hfree : p.byPath.get? a.path = none := by rw [h.found, if_neg hpath, hnew]
    refine ⟨fun k => ?_, ?_, fun i y => h.refusals_concat hafter.symm⟩
    · rw [SortedMap.get?_insert, h.found, List.map_append, List.map_singleton, first?_concat]
      by_cases hk : a.path = k
      · subst hk
        rw [if_pos rfl, if_neg hpath, hnew, if_pos rfl]
        rfl
      · rw [if_neg hk, if_neg hk, Option.or_none]
    · show (p.byPath.insert a.path a).size = _
      have hsize : p.byPath.size = _ := h.size
      rw [SortedMap.size_insert hfree, hsize]
      simp

/-- **A plan is told by what was tried** until it was there. -/
theorem Made.reflects (h : Made p log) : p.Reflects log := by
  induction h with
  | start => exact reflects_empty
  | step _ ha ih => exact ih.step ha

/-! ## What is kept -/

/-- All artifacts of a plan are in another one. -/
def Keeps (p q : Plan) : Prop := ∀ k a, p.byPath.get? k = some a → q.byPath.get? k = some a

theorem Keeps.refl (p : Plan) : p.Keeps p := fun _ _ h => h

theorem Keeps.trans {r : Plan} (h : p.Keeps q) (h' : q.Keeps r) : p.Keeps r :=
  fun k a hk => h' k a (h k a hk)

theorem keeps_attempt (h : p.attempt a = (q, refusal)) : p.Keeps q := by
  unfold attempt at h
  split at h
  · rename_i hadd
    cases h
    exact fun k b hk => add_keeps hadd hk
  · cases h
    exact Keeps.refl p

theorem attempt_refused {f : Fault} (h : p.attempt a = (q, some f)) : q = p := by
  unfold attempt at h
  split at h <;> cases h
  rfl

/-- Of what was tried, each file met a plan of which everything was kept. -/
theorem Made.before (h : Made p log) {i : Nat} {x : Attempt} (hx : log[i]? = some x) :
    ∃ before after, Made before (log.take i) ∧ before.attempt x.offer = (after, x.refusal) ∧
      Made after (log.take (i + 1)) ∧ after.Keeps p := by
  -- over the run: the attempt is one of the earlier ones, or the last
  induction h with
  | start => cases hx
  | @step p q log a refusal hmade ha ih =>
    rcases Nat.lt_or_ge i log.length with hi | hi
    · rw [List.getElem?_append_left hi] at hx
      rw [List.take_append_of_le_length (Nat.le_of_lt hi), List.take_append_of_le_length hi]
      obtain ⟨before, after, hbefore, hattempt, hafter, hkeeps⟩ := ih hx
      exact ⟨before, after, hbefore, hattempt, hafter, hkeeps.trans (keeps_attempt ha)⟩
    · have hlast : i = log.length ∧ ⟨a, refusal⟩ = x := by
        rw [List.getElem?_append_right hi, List.getElem?_singleton] at hx
        split at hx
        · exact ⟨by omega, Option.some.inj hx⟩
        · cases hx
      obtain ⟨rfl, rfl⟩ := hlast
      refine ⟨p, q, ?_, ha, ?_, Keeps.refl q⟩
      · rwa [List.take_left]
      · rw [List.take_of_length_le (by simp)]
        exact hmade.step ha

/-! ## Runs of calls -/

/-- The files of a generator are tried in order. -/
theorem Made.addEntries (hp : Made p log) (owner : String) (es : List (String × GeneratedFile)) :
    ∃ attempts, Attempted (es.map fun e => ⟨owner, e.1, e.2⟩) attempts (p.addEntries owner es).2 ∧
      Made (p.addEntries owner es).1 (log ++ attempts) := by
  -- the files after one that was taken meet a plan with one attempt more
  induction es generalizing p log with
  | nil => exact ⟨[], .done, by rwa [List.append_nil]⟩
  | cons e es ih =>
    obtain ⟨path, file⟩ := e
    rw [Plan.addEntries]
    cases hadd : p.add owner path file with
    | error f =>
      have ha : p.attempt ⟨owner, path, file⟩ = (p, some f) := by rw [attempt, hadd]
      exact ⟨_, .refused, hp.step ha⟩
    | ok q =>
      have ha : p.attempt ⟨owner, path, file⟩ = (q, none) := by rw [attempt, hadd]
      obtain ⟨attempts, hattempts, hmade⟩ := ih (hp.step ha)
      rw [List.append_assoc] at hmade
      exact ⟨_, .added hattempts, hmade⟩

/-- A call for one file is one for a generator that makes no other. -/
theorem perform_add (p : Plan) (a : Artifact) :
    p.perform (.add a) = p.addEntries a.owner [(a.path, a.file)] := by
  rw [perform, Plan.addEntries]
  cases p.add a.owner a.path a.file <;> rfl

theorem Made.perform (hp : Made p log) (c : PlanCall) : ∃ attempts,
    Attempted c.offers attempts (p.perform c).2 ∧ Made (p.perform c).1 (log ++ attempts) := by
  cases c with
  | add a =>
    rw [perform_add]
    exact hp.addEntries a.owner [(a.path, a.file)]
  | addAll owner files => exact hp.addEntries owner files.entries

theorem keeps_addEntries (p : Plan) (owner : String) (es : List (String × GeneratedFile)) :
    p.Keeps (p.addEntries owner es).1 := by
  induction es generalizing p with
  | nil => exact Keeps.refl p
  | cons e es ih =>
    rw [Plan.addEntries]
    split
    · rename_i q hadd
      exact Keeps.trans (fun k b => add_keeps hadd) (ih q)
    · exact Keeps.refl p

theorem keeps_perform (p : Plan) (c : PlanCall) : p.Keeps (p.perform c).1 := by
  cases c with
  | add a =>
    rw [perform_add]
    exact keeps_addEntries p a.owner [(a.path, a.file)]
  | addAll owner files => exact keeps_addEntries p owner files.entries

theorem keeps_performAll (p : Plan) (calls : List PlanCall) :
    p.Keeps (p.performAll calls).1 := by
  induction calls generalizing p with
  | nil => exact Keeps.refl p
  | cons c calls ih => exact (keeps_perform p c).trans (ih _)

theorem performAll_append (p : Plan) (calls more : List PlanCall) :
    (p.performAll (calls ++ more)).1 = ((p.performAll calls).1.performAll more).1 := by
  induction calls generalizing p with
  | nil => rfl
  | cons c calls ih => exact ih _

end Plan

/-- A call with what it tried and its result. -/
structure Performed where
  call : PlanCall
  attempts : List Attempt
  result : Except Fault Unit

namespace Plan

variable {p : Plan} {log : List Attempt}

theorem Made.performAll (hp : Made p log) (calls : List PlanCall) : ∃ history : List Performed,
    history.map (·.call) = calls ∧ history.map (·.result) = (p.performAll calls).2 ∧
      (∀ x ∈ history, Attempted x.call.offers x.attempts x.result) ∧
      Made (p.performAll calls).1 (log ++ history.flatMap (·.attempts)) := by
  induction calls generalizing p log with
  | nil => exact ⟨[], rfl, rfl, nofun, by rwa [List.flatMap_nil, List.append_nil]⟩
  | cons c calls ih =>
    obtain ⟨attempts, hattempts, hq⟩ := hp.perform c
    obtain ⟨history, hcalls, hresults, hhistory, hmade⟩ := ih hq
    refine ⟨⟨c, attempts, (p.perform c).2⟩ :: history, ?_, ?_, ?_, ?_⟩
    · rw [List.map_cons, hcalls]
    · rw [List.map_cons, hresults]
      rfl
    · exact List.forall_mem_cons.2 ⟨hattempts, hhistory⟩
    · rw [List.flatMap_cons, ← List.append_assoc]
      exact hmade

/-- **What calls make of a plan**, for all sequences of calls, whether they fail or not. Each call
tries its files in order up to the first that is refused. Of all files that were tried, the plan
holds those that came first for their paths, and its size is the number of those that were taken. A
file that was refused had no path, or one that the plan had of an earlier owner, and it left the
plan as it was. Nothing is ever replaced or lost, and the artifacts are in order. -/
theorem performAll_history (calls : List PlanCall) : ∃ (history : List Performed)
    (log : List Attempt) (plan : Plan),
    log = history.flatMap (·.attempts) ∧ history.map (·.call) = calls ∧
    empty.performAll calls = (plan, history.map (·.result)) ∧
    (∀ x ∈ history, Attempted x.call.offers x.attempts x.result) ∧
    plan.Reflects log ∧
    (plan.toList.map (·.path)).Pairwise (· < ·) ∧ plan.toList.length = plan.size ∧
    (∀ a, a ∈ plan.toList ↔
      a.path ≠ "" ∧ first? Artifact.path (log.map (·.offer)) a.path = some a) ∧
    (∀ (i : Nat) (x : Attempt), log[i]? = some x → ∃ before after, Made before (log.take i) ∧
      before.attempt x.offer = (after, x.refusal) ∧ (x.refusal ≠ none → after = before) ∧
      Made after (log.take (i + 1)) ∧ after.Keeps plan) ∧
    ∀ n, (empty.performAll (calls.take n)).1.Keeps plan := by
  obtain ⟨history, hcalls, hresults, hhistory, hmade⟩ := Made.start.performAll calls
  rw [List.nil_append] at hmade
  have hreflects := hmade.reflects
  refine ⟨history, _, (empty.performAll calls).1, rfl, hcalls, Prod.ext rfl hresults.symm,
    hhistory, hreflects, hreflects.keyed.increasing, List.length_map _,
    fun a => hreflects.mem_toList, fun i x hx => ?_, fun n => ?_⟩
  · obtain ⟨before, after, hbefore, hattempt, hafter, hkeeps⟩ := hmade.before hx
    refine ⟨before, after, hbefore, hattempt, fun hrefused => ?_, hafter, hkeeps⟩
    obtain ⟨f, hf⟩ := Option.ne_none_iff_exists'.1 hrefused
    rw [hf] at hattempt
    exact attempt_refused hattempt
  · have hsplit := performAll_append empty (calls.take n) (calls.drop n)
    rw [List.take_append_drop] at hsplit
    rw [hsplit]
    exact keeps_performAll _ _

/-- The files before the one that is refused stay in the plan, and the last call meets one. -/
example : let file : GeneratedFile := ⟨"", .overwrite, none⟩
    (empty.performAll [.add ⟨"docs", "m", file⟩,
      .addAll "pages" (.ofList [("z", file), ("m", file), ("a", file)]),
      .add ⟨"late", "a", file⟩, .add ⟨"late", "", file⟩]).map (·.toList) id =
    ([⟨"pages", "a", file⟩, ⟨"docs", "m", file⟩],
      [.ok (), .error (.artifactConflict "m" "docs" "pages"),
        .error (.artifactConflict "a" "pages" "late"), .error (emptyPath "late")]) := by
  rfl

end Plan

end ArchSpec
