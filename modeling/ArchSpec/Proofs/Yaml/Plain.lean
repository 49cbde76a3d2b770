import Mathlib.Tactic.FinCases
import ArchSpec.Proofs.FileStore.Action
import ArchSpec.Proofs.Yaml.Following
import ArchSpec.Yaml.Scalar

/-!
# Texts without quotes

A text that is put behind the colon of a key without quotes is read as it is written, if nothing in
it is an indicator where it stands and it ends with its line. What it means is another question: it
may be read as a number, say, and what follows on the next lines does not depend on it.

* `IsPlainLine` — texts that are read as they are written; `IsPlainText` — and mean themselves.
* `readPlain_line` — such a text with the end of its line.
* `Lexer.step_value` — the token of such a text, and the state behind it.
* `tokens_value` — the tokens of a document in which one value is such a text.
-/

namespace ArchSpec.Yaml

open Lexer (Follows startsPlain)

variable {cs more : List Char} {c d : Char} {m : Mark} {k : Nat}

/-- Whether a text without quotes goes on as it is written to the end of its line. -/
def staysPlain (blankBefore : Bool) : List Char → Bool
  | [] => !blankBefore
  | c :: rest =>
    if isBlank c then staysPlain true rest
    else !(blankBefore && c = '#') && !(c = ':' && endsWord rest) && staysPlain false rest

/-- Whether a text without quotes begins as it is written. -/
def beginsPlain : List Char → Bool
  | [] => false
  | c :: rest => startsPlain false c rest && !(c = '-' && endsWord rest)

/-- Whether a character stands for itself; a break of another form than a line feed does not. -/
def isSimple (c : Char) : Bool := isAllowed c && !(c = '\r' || c = '\u0085')

/-- A text that is read as it is written, without quotes behind the colon of a key. -/
structure IsPlainLine (s : String) : Prop where
  simple : s.toList.all isSimple = true
  oneLine : s.toList.any isBreak = false
  begins : beginsPlain s.toList = true
  stays : staysPlain false s.toList = true

/-- A text that means itself, without quotes behind the colon of a key. -/
structure IsPlainText (s : String) : Prop extends IsPlainLine s where
  means : plainValue s = .ok (.text s)

/-- A text that means a text means itself. -/
theorem plainValue_text {s other : String} (h : plainValue s = .ok (.text other)) : s = other := by
  have hdecimal : ∀ v, decimal? s = some v → v ≠ .text other := by
    unfold decimal?
    split
    · rintro _ ⟨⟩
      nofun
    · split <;> simp only [Option.map_eq_some_iff] <;> rintro _ ⟨_, _, rfl⟩ <;> nofun
  have hinteger : ∀ v, integerValue? s = .ok (some v) → v ≠ .text other := by
    unfold integerValue?
    split
    · nofun
    · split
      · rintro _ ⟨⟩
        nofun
      · split <;> nofun
  unfold plainValue at h
  split at h
  · cases h
  · split at h
    · cases h
    · obtain ⟨i, hi, h⟩ := except_bind_ok h
      cases i with
      | some v =>
        cases h
        exact absurd rfl (hinteger _ hi)
      | none =>
        change (if isZeroPadded s = true then Except.ok (.text s)
          else .ok ((decimal? s).getD (.text s))) = .ok (.text other) at h
        split at h
        · cases h
          rfl
        · cases hd : decimal? s with
          | none =>
            rw [hd] at h
            cases h
            rfl
          | some v =>
            rw [hd] at h
            cases h
            exact absurd rfl (hdecimal _ hd)

instance (s : String) : Decidable (IsPlainLine s) :=
  decidable_of_iff (s.toList.all isSimple = true ∧ s.toList.any isBreak = false ∧
      beginsPlain s.toList = true ∧ staysPlain false s.toList = true)
    ⟨fun h => ⟨h.1, h.2.1, h.2.2.1, h.2.2.2⟩, fun h => ⟨h.simple, h.oneLine, h.begins, h.stays⟩⟩

/-! ## Reading to the end of a line -/

theorem endsWord_append (cs more : List Char) :
    endsWord (cs ++ '\n' :: more) = endsWord cs := by
  cases cs <;> rfl

section

variable {indent : Int} (hk : (k : Int) < indent) (hblank : isBlank d = false)
  (hbreak : isBreak d = false)

include hk hblank hbreak

/-- A text ends at a line that is not indented further. -/
theorem readPlain_nextLine (out : List Char) (j : Nat) (hm : m.column + j = k) :
    readPlain false indent out (.breaks (some '\n') []) (List.replicate j ' ' ++ d :: more) m =
      .ok ⟨(out.reverse, true), d :: more, ⟨m.index + j, m.line, k⟩⟩ := by
  induction j generalizing m with
  | zero =>
    have hcolumn : (m.column : Int) < indent := by omega
    simp [readPlain, hblank, hbreak, Gap.isNone, hcolumn, plainEnd, Gap.hasBreak, ← hm]
  | succ j ih =>
    have hblank : isBlank ' ' = true := rfl
    rw [List.replicate_succ, List.cons_append, readPlain, if_pos hblank, if_neg (by simp)]
    refine (ih (m := m.next) (by simp only [Mark.next]; omega)).trans ?_
    simp only [Mark.next, Nat.add_assoc, Nat.add_comm 1 j]

/-- **A text without quotes is read as it is written** to the end of its line. `out` was read before
it, and `bs` are the blanks since then, latest first. -/
theorem readPlain_line (out bs : List Char) (hline : cs.any isBreak = false)
    (hstays : staysPlain (!bs.isEmpty) cs = true) (hcolumn : indent ≤ m.column)
    (hinside : 0 < m.column) :
    readPlain false indent out (.blanks bs)
        (cs ++ '\n' :: (List.replicate k ' ' ++ d :: more)) m =
      .ok ⟨(out.reverse ++ (bs.reverse ++ cs), true), d :: more,
        ⟨m.index + cs.length + 1 + k, m.line + 1, k⟩⟩ := by
  induction cs generalizing out bs m with
  | nil =>
    have hbs : bs = [] := by simpa [staysPlain] using hstays
    subst hbs
    have hend : isBlank '\n' = false ∧ isBreak '\n' = true := ⟨rfl, rfl⟩
    rw [List.nil_append, readPlain, hend.1, hend.2, if_neg Bool.false_ne_true, if_pos rfl]
    refine (readPlain_nextLine hk hblank hbreak out k (by simp [Mark.nextLine])).trans ?_
    simp [Mark.nextLine]
  | cons c cs ih =>
    rw [List.any_cons, Bool.or_eq_false_iff] at hline
    have hnext : indent ≤ (m.next.column : Int) ∧ 0 < m.next.column := by
      simp only [Mark.next]
      omega
    have hplace : m.next.index + cs.length = m.index + (c :: cs).length := by
      simp only [Mark.next, List.length_cons]
      omega
    rw [List.cons_append, readPlain]
    rw [staysPlain] at hstays
    split at hstays
    · -- a blank inside the text, if more of it follows
      rename_i hc
      rw [if_pos hc, if_neg (by simp [Gap.hasBreak]), Gap.addBlank,
        ih out (c :: bs) hline.2 hstays hnext.1 hnext.2, hplace]
      simp [Mark.next]
    · rename_i hc
      simp only [Bool.and_eq_true, Bool.not_eq_true', Bool.and_eq_false_imp, decide_eq_true_eq,
        Bool.not_eq_true', decide_eq_false_iff_not] at hstays
      obtain ⟨⟨hcomment, hcolon⟩, hstays⟩ := hstays
      have hinGap : (!(Gap.blanks bs).isNone && (!false && decide ((m.column : Int) < indent) ||
          atMarker (c :: (cs ++ '\n' :: (List.replicate k ' ' ++ d :: more))) m ||
            decide (c = '#'))) = false := by
        cases bs with
        | nil => rfl
        | cons b bs =>
          have : ¬(m.column : Int) < indent := by omega
          simp [atMarker, this, Nat.ne_of_gt hinside, hcomment]
      have hends : (decide (c = ':') && endsWord (cs ++ '\n' :: (List.replicate k ' ' ++ d :: more))
          || false && isFlowIndicator c) = false := by
        simpa [endsWord_append] using hcolon
      rw [if_neg hc, hline.1, if_neg Bool.false_ne_true, hinGap, if_neg Bool.false_ne_true,
        Bool.false_and, Bool.false_and, if_neg Bool.false_ne_true, hends,
        if_neg Bool.false_ne_true]
      refine (ih (c :: (bs ++ out)) [] hline.2 hstays hnext.1 hnext.2).trans ?_
      rw [hplace]
      simp [Mark.next]

end

namespace Lexer

variable {s u v : Lexer} {fuel : Nat} {ts : List Token}

/-! ## Runs -/

theorem run_mono {more : Nat} (hrun : run fuel s = .ok ts) (hle : fuel ≤ more) :
    run more s = .ok ts := by
  induction fuel generalizing s more with
  | zero => cases hrun
  | succ fuel ih =>
    cases more with
    | zero => cases hle
    | succ more =>
      rw [run] at hrun ⊢
      cases hstep : s.step with
      | error e =>
        rw [hstep] at hrun
        cases hrun
      | ok u =>
        rw [hstep] at hrun
        simp only [bind, Except.bind] at hrun ⊢
        split at hrun
        · rename_i hdone
          rw [if_pos hdone]
          exact hrun
        · rename_i hdone
          rw [if_neg hdone]
          exact ih hrun (Nat.le_of_succ_le_succ hle)

/-- Some steps, none of which is the last. -/
def steps : Nat → Lexer → Except Fault Lexer
  | 0, s => .ok s
  | k + 1, s => do
    let s ← s.step
    if s.done then throw .unexpectedToken else steps k s

theorem run_of_steps {k : Nat} (hsteps : steps k s = .ok u) (hrun : run fuel u = .ok ts) :
    run (k + fuel) s = .ok ts := by
  induction k generalizing s with
  | zero =>
    cases hsteps
    rwa [Nat.zero_add]
  | succ k ih =>
    rw [steps] at hsteps
    rw [Nat.succ_add, run]
    cases hstep : s.step with
    | error e =>
      rw [hstep] at hsteps
      cases hsteps
    | ok v =>
      rw [hstep] at hsteps
      simp only [bind, Except.bind] at hsteps ⊢
      split at hsteps
      · cases hsteps
      · rename_i hdone
        rw [if_neg hdone]
        exact ih hsteps

theorem steps_succ {k : Nat} (hsteps : steps k s = .ok u) (hstep : u.step = .ok v)
    (hdone : v.done = false) : steps (k + 1) s = .ok v := by
  induction k generalizing s with
  | zero =>
    cases hsteps
    rw [steps, hstep]
    simp only [bind, Except.bind, hdone]
    rfl
  | succ k ih =>
    rw [steps] at hsteps ⊢
    cases hfirst : s.step with
    | error e =>
      rw [hfirst] at hsteps
      cases hsteps
    | ok w =>
      rw [hfirst] at hsteps
      simp only [bind, Except.bind] at hsteps ⊢
      split at hsteps
      · cases hsteps
      · rename_i hnot
        rw [if_neg hnot]
        exact ih hsteps

/-! ## The text of a key -/

theorem takeToken_plain {c : Char} {rest : List Char} (hflow : s.inFlow = false)
    (hcolumn : s.mark.column ≠ 0) (hbegins : startsPlain false c rest = true)
    (hdash : c = '-' → endsWord rest = false) : s.takeToken c rest = s.takePlain := by
  have hindicator : ∀ i ∈ ['[', ']', '{', '}', ',', '*', '&', '!', '|', '>', '\'', '"'],
      c ≠ i := by
    rintro i hi rfl
    fin_cases hi <;> simp [startsPlain, isBlank] at hbegins
  have hword : c = '?' ∨ c = ':' → endsWord rest = false := by
    rintro (rfl | rfl) <;> simpa [startsPlain, isBlank] using hbegins
  simp only [List.forall_mem_cons, List.not_mem_nil, false_implies, implies_true, and_true]
    at hindicator
  have hentry : ¬(c = '-' ∧ endsWord rest = true) := fun h => by simp [hdash h.1] at h
  have hkey : ¬(c = '?' ∧ endsWord rest = true) := fun h => by simp [hword (.inl h.1)] at h
  have hvalue : ¬(c = ':' ∧ endsWord rest = true) := fun h => by simp [hword (.inr h.1)] at h
  simp only [takeToken, hflow, hcolumn, hbegins, hindicator, hentry, hkey, hvalue, decide_false,
    Bool.false_and, Bool.false_or, Bool.and_eq_true, decide_eq_true_eq, Bool.false_eq_true,
    if_false, if_true]

/-- A step from where the next token begins. -/
theorem step_of_skip {allowed : Bool}
    (hskip : skipToToken s.inFlow false s.keyAllowed s.rest s.mark = (more, m, allowed))
    (hstale : dropStale { s with rest := more, mark := m, keyAllowed := allowed } = .ok u) :
    s.step = match (u.unroll u.mark.column).rest with
      | [] => (u.unroll u.mark.column).takeEnd
      | c :: rest => (u.unroll u.mark.column).takeToken c rest := by
  rw [step, hskip]
  simp only [hstale]
  rfl

/-- The state behind the colon of a key: what follows is no key itself. -/
def behindColon (rest : List Char) (m : Mark) (ts : List Token) (indent : Int) (outer : List Int)
    (key : KeyStart) : Lexer :=
  ⟨rest, m, ts, ts.length, indent, outer, false, { key with possible := false }, [], false⟩

/-- The state at a line in a block, before which no characters and no tokens count. -/
def atLine (line column : Nat) (indent : Int) (outer : List Int) (rest : List Char) : Lexer :=
  ⟨rest, ⟨0, line, column⟩, [], 0, indent, outer, true, .none, [], false⟩

theorem startsPlain_append (c : Char) (cs more : List Char) :
    startsPlain false c (cs ++ '\n' :: more) = startsPlain false c cs := by
  cases cs <;> rfl

theorem skipToToken_plain {c : Char} {rest : List Char} (hbegins : startsPlain false c rest = true)
    (hline : isBreak c = false) (m : Mark) :
    skipToToken false false false (' ' :: c :: rest) m = (c :: rest, m.next, false) := by
  have hword : ∀ i ∈ [' ', '\t', '#'], c ≠ i := by
    rintro i hi rfl
    fin_cases hi <;> simp [startsPlain, isBlank] at hbegins
  have hblank : isBreak ' ' = false := rfl
  simp only [List.forall_mem_cons, List.not_mem_nil, false_implies, implies_true, and_true]
    at hword
  simp [skipToToken, hblank, hline, hword]

/-- The next token behind the colon of a key is a text without quotes, if it begins as one. -/
theorem step_behindColon {c : Char} {rest : List Char} {indent : Int} {ts : List Token}
    {outer : List Int} {key : KeyStart} (hbegins : startsPlain false c rest = true)
    (hdash : c = '-' → endsWord rest = false) (hline : isBreak c = false)
    (hinside : indent ≤ m.column) :
    (behindColon (' ' :: c :: rest) m ts indent outer key).step =
      (behindColon (c :: rest) m.next ts indent outer key).takePlain := by
  have hcolumn : indent ≤ (m.next.column : Int) ∧ m.next.column ≠ 0 := by
    simp only [Mark.next]
    omega
  generalize hu : behindColon (c :: rest) m.next ts indent outer key = u
  have hstale : u.dropStale = .ok u := by
    rw [← hu]
    rfl
  -- the text stands deeper than the block of the key, so no block ends before it
  have hunroll : u.unroll m.next.column = u := by
    rw [← hu]
    cases outer <;> simp [behindColon, unroll, inFlow, closeBlocks, hcolumn.1]
  have htoken : u.takeToken c rest = u.takePlain := by
    rw [← hu]
    exact takeToken_plain rfl hcolumn.2 hbegins hdash
  have hstep := step_of_skip (s := behindColon (' ' :: c :: rest) m ts indent outer key)
    (skipToToken_plain hbegins hline m) ((congrArg dropStale hu).trans hstale)
  have hplace : u.mark = m.next ∧ u.rest = c :: rest := by
    rw [← hu]
    exact ⟨rfl, rfl⟩
  rw [hstep, hplace.1, hunroll, hplace.2]
  exact htoken

/-- **The value of a key is read as it is written** if it is a text without quotes, and what follows
on the next line is read as if nothing stood before it. -/
theorem step_value {indent : Int} (ts : List Token) (outer : List Int) (key : KeyStart)
    (more : List Char) (hbegins : beginsPlain cs = true) (hstays : staysPlain false cs = true)
    (hline : cs.any isBreak = false) (hinside : indent ≤ m.column) (hk : (k : Int) ≤ indent)
    (hblank : isBlank d = false) (hbreak : isBreak d = false) :
    ∃ u n, (behindColon (' ' :: (cs ++ '\n' :: (List.replicate k ' ' ++ d :: more))) m ts indent
        outer key).step = .ok u ∧ u.done = false ∧
      Follows n (.scalar (String.ofList cs) .plain :: ts)
        (atLine (m.line + 1) k indent outer (d :: more)) u := by
  obtain ⟨c, rest, rfl⟩ : ∃ c rest, cs = c :: rest := by
    cases cs with
    | nil => cases hbegins
    | cons c rest => exact ⟨c, rest, rfl⟩
  obtain ⟨hstart, hdash⟩ := Bool.and_eq_true_iff.1 hbegins
  have hcolumn : indent + 1 ≤ (m.next.column : Int) ∧ 0 < m.next.column := by
    simp only [Mark.next]
    omega
  have hread : readPlain false (indent + 1) [] (.blanks [])
      (c :: rest ++ '\n' :: (List.replicate k ' ' ++ d :: more)) m.next = _ :=
    readPlain_line (by omega) hblank hbreak [] [] hline hstays hcolumn.1 hcolumn.2
  generalize htail : '\n' :: (List.replicate k ' ' ++ d :: more) = tail at hread ⊢
  have hstart' : startsPlain false c (rest ++ tail) = true := by
    rwa [← htail, startsPlain_append]
  have hstep : (behindColon (' ' :: (c :: rest ++ tail)) m ts indent outer key).step = _ :=
    step_behindColon hstart' (fun hc => by simpa [← htail, hc, endsWord_append] using hdash)
      (Bool.or_eq_false_iff.1 hline).1 hinside
  refine ⟨⟨d :: more, ⟨m.next.index + (c :: rest).length + 1 + k, m.next.line + 1, k⟩,
    .scalar (String.ofList (c :: rest)) .plain :: ts, ts.length + 1, indent, outer, true,
    { key with possible := false }, [], false⟩,
    m.next.index + (c :: rest).length + 1 + k, ?_, rfl, ?_⟩
  · rw [hstep]
    change (readPlain false (indent + 1) [] (.blanks []) (c :: rest ++ tail) m.next >>= _) = _
    rw [hread]
    rfl
  · exact ⟨rfl, by simp [atLine, Mark.later, Mark.next], rfl, rfl, by simp [atLine], rfl, rfl, rfl,
      KeyStart.shifted_of_not_possible rfl rfl, .nil, rfl⟩

end Lexer

theorem unifyBreaks_simple (h : cs.all isSimple = true) : unifyBreaks cs = cs := by
  have hsimple : ∀ c ∈ cs, c ≠ '\r' ∧ c ≠ '\u0085' := by
    intro c hc
    have := List.all_eq_true.1 h c hc
    simpa [isSimple] using (Bool.and_eq_true_iff.1 this).2
  clear h
  induction cs with
  | nil => rfl
  | cons c cs ih =>
    obtain ⟨⟨hreturn, hnext⟩, hrest⟩ := List.forall_mem_cons.1 hsimple
    rw [unifyBreaks, ih hrest, if_neg (not_or.2 ⟨hreturn, hnext⟩)]
    rintro _ rfl
    exact absurd rfl hreturn

/-- **The tokens of a text in which one value is a text without quotes**: those before it, the text,
and those after it, which do not depend on it. -/
theorem tokens_value {name text : String} {front rest : List Char} {ts later : List Token}
    {indent : Int} {outer : List Int} {key : KeyStart} {j fuel : Nat} (hname : IsPlainLine name)
    (hfront : ∀ cs, Lexer.steps j (.start (front ++ ' ' :: cs)) =
      .ok (.behindColon (' ' :: cs) m ts indent outer key))
    (hlater : Lexer.run fuel (.atLine (m.line + 1) k indent outer rest) = .ok later)
    (hinside : k ≤ indent ∧ indent ≤ m.column) (hfuel : j + fuel ≤ front.length + rest.length)
    (hbegins : rest.head?.any (fun d => !isBlank d && !isBreak d) = true)
    (hsimple : (front ++ rest).all isSimple = true)
    (htext : text.toList =
      front ++ ' ' :: (name.toList ++ '\n' :: (List.replicate k ' ' ++ rest))) :
    tokens text = .ok (ts.reverse ++ .scalar name .plain :: later) := by
  have hall : text.toList.all isSimple = true := by
    simp only [List.all_append, Bool.and_eq_true] at hsimple
    have hblanks : (List.replicate k ' ').all isSimple = true := by simp [isSimple, isAllowed]
    have hother : isSimple ' ' = true ∧ isSimple '\n' = true := by decide
    simp [htext, hsimple, hname.simple, hblanks, hother]
  have hallowed : text.toList.all isAllowed = true :=
    List.all_eq_true.2 fun c hc => (Bool.and_eq_true_iff.1 (List.all_eq_true.1 hall c hc)).1
  obtain ⟨d, more, rfl⟩ : ∃ d more, rest = d :: more := by
    cases rest with
    | nil => cases hbegins
    | cons d more => exact ⟨d, more, rfl⟩
  have hd : isBlank d = false ∧ isBreak d = false := by simpa using hbegins
  obtain ⟨u, n, hstep, hdone, hfollows⟩ := Lexer.step_value ts outer key more hname.begins
    hname.stays hname.oneLine hinside.2 hinside.1 hd.1 hd.2
  have hrun := Lexer.run_of_steps (k := j + 1) (s := .start text.toList) (u := u)
    (by rw [htext]; exact Lexer.steps_succ (hfront _) hstep hdone) (hfollows.run hlater)
  rw [tokens, if_pos hallowed, unifyBreaks_simple hall]
  refine (Lexer.run_mono hrun ?_).trans ?_
  · rw [htext]
    simp only [List.length_append, List.length_cons] at hfuel ⊢
    omega
  · simp

end ArchSpec.Yaml
