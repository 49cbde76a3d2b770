import Mathlib.Data.List.Forall2
import Mathlib.Tactic.SplitIfs
import ArchSpec.Proofs.Yaml.Later

/-!
# Tokens that follow

The tokens of a text are found one after the other, and what has been found and passed over by then
makes no difference to those that follow: they depend on the characters that are left, on the open
blocks and brackets, and on where on its line the text goes on.

* `Matches` — two readings, of which the second succeeds wherever the first does.
* `Lexer.Follows` — a state like another one, with more characters and tokens before it.
* `Follows.step`, `Follows.run` — one more token, and all that follow.
-/

namespace ArchSpec.Yaml

variable {α β : Type}

/-! ## Results that match -/

/-- Where the first reading succeeds, the second does, with a result that is like the first. -/
def Matches (r : α → β → Prop) (x : Except Fault α) (y : Except Fault β) : Prop :=
  ∀ a, x = .ok a → ∃ b, y = .ok b ∧ r a b

namespace Matches

variable {γ δ : Type} {r : α → β → Prop} {q : γ → δ → Prop} {a : α} {b : β}

theorem ok (h : r a b) : Matches r (.ok a) (.ok b) := by
  rintro _ ⟨⟩
  exact ⟨b, rfl, h⟩

theorem error (e : Fault) (y : Except Fault β) : Matches r (.error e) y := nofun

theorem ite {c : Prop} [Decidable c] {x x' : Except Fault α} {y y' : Except Fault β}
    (hx : Matches r x y) (hx' : Matches r x' y') :
    Matches r (if c then x else x') (if c then y else y') := by
  split
  · exact hx
  · exact hx'

theorem map (f : α → β) (x : Except Fault α) : Matches (fun a b => b = f a) x (f <$> x) := by
  rintro a rfl
  exact ⟨f a, rfl, rfl⟩

theorem bind {x : Except Fault α} {y : Except Fault β} {f : α → Except Fault γ}
    {g : β → Except Fault δ} (hx : Matches r x y) (hf : ∀ a b, r a b → Matches q (f a) (g b)) :
    Matches q (x >>= f) (y >>= g) := by
  cases x with
  | error e => exact error e _
  | ok a =>
    obtain ⟨b, rfl, hab⟩ := hx a rfl
    exact hf a b hab

theorem mapM {f : α → Except Fault γ} {g : β → Except Fault δ} {as : List α} {bs : List β}
    (h : List.Forall₂ r as bs) (hf : ∀ a b, r a b → Matches q (f a) (g b)) :
    Matches (List.Forall₂ q) (as.mapM f) (bs.mapM g) := by
  induction h with
  | nil => exact ok .nil
  | cons hab _ ih =>
    rw [List.mapM_cons, List.mapM_cons]
    exact (hf _ _ hab).bind fun c d hcd => ih.bind fun cs ds hall => ok (.cons hcd hall)

end Matches

/-! ## States that differ in what stands before -/

/-- A possible key start, with more characters and more tokens before it. -/
structure KeyStart.Shifted (n k : Nat) (a b : KeyStart) : Prop where
  possible : b.possible = a.possible
  start : a.possible = true →
    b.required = a.required ∧ b.token = a.token + k ∧ b.mark = a.mark.later n

theorem KeyStart.shifted_of_not_possible {n k : Nat} {a b : KeyStart} (ha : a.possible = false)
    (hb : b.possible = false) : Shifted n k a b :=
  ⟨hb.trans ha.symm, fun h => by rw [ha] at h; cases h⟩

namespace Lexer

variable {n k : Nat} {before : List Token} {s u : Lexer} {a b : KeyStart}

theorem shifted_atPlace (h : KeyStart.Shifted n k a b) {m m' : Mark} (hm : m' = m.later n) :
    Matches (KeyStart.Shifted n k) (KeyStart.atPlace m a) (KeyStart.atPlace m' b) := by
  have hstale : (b.possible &&
        (b.mark.line < m'.line || b.mark.index + maxKey < m'.index : Bool)) =
      (a.possible && (a.mark.line < m.line || a.mark.index + maxKey < m.index)) := by
    have hindex : a.mark.index + n + maxKey < m.index + n ↔ a.mark.index + maxKey < m.index := by
      omega
    cases ha : a.possible with
    | false => simp [h.possible, ha]
    | true => simp [h.possible, ha, (h.start ha).2.2, hm, hindex]
  unfold KeyStart.atPlace
  rw [hstale]
  split
  · rename_i hpossible
    rw [Bool.and_eq_true] at hpossible
    rw [(h.start hpossible.1).1]
    split
    · exact .error _ _
    · exact .ok (KeyStart.shifted_of_not_possible rfl rfl)
  · exact .ok h

theorem skipToToken_later (inFlow comment allowed : Bool) (cs : List Char) (m : Mark) :
    skipToToken inFlow comment allowed cs (m.later n) =
      ((skipToToken inFlow comment allowed cs m).1,
        (skipToToken inFlow comment allowed cs m).2.1.later n,
        (skipToToken inFlow comment allowed cs m).2.2) := by
  induction cs generalizing comment allowed m with
  | nil => rfl
  | cons c rest ih =>
    simp only [skipToToken, Mark.next_later, Mark.nextLine_later, ih]
    split_ifs <;> rfl

/-- A state like another one, with more characters and with the tokens `before` before it. -/
structure Follows (n : Nat) (before : List Token) (s u : Lexer) : Prop where
  rest : u.rest = s.rest
  mark : u.mark = s.mark.later n
  tokens : u.tokens = s.tokens ++ before
  counted : s.count = s.tokens.length
  count : u.count = s.count + before.length
  indent : u.indent = s.indent
  outer : u.outer = s.outer
  keyAllowed : u.keyAllowed = s.keyAllowed
  keyStart : KeyStart.Shifted n before.length s.keyStart u.keyStart
  outerKeys : List.Forall₂ (KeyStart.Shifted n before.length) s.outerKeys u.outerKeys
  done : u.done = s.done

namespace Follows

theorem inFlow (h : Follows n before s u) : u.inFlow = s.inFlow := by
  have hkeys := h.outerKeys
  unfold Lexer.inFlow
  generalize s.outerKeys = ks at hkeys ⊢
  generalize u.outerKeys = ls at hkeys ⊢
  cases hkeys <;> rfl

theorem push (h : Follows n before s u) (t : Token) : Follows n before (s.push t) (u.push t) where
  __ := h
  tokens := congrArg (t :: ·) h.tokens
  counted := congrArg (· + 1) h.counted
  count := by
    simp only [Lexer.push, h.count]
    omega

theorem insertAt (h : Follows n before s u) (k : Nat) (t : Token) :
    Follows n before (s.insertAt k t) (u.insertAt (k + before.length) t) where
  __ := h
  tokens := by
    have hlater : s.count - k ≤ s.tokens.length := h.counted ▸ Nat.sub_le _ _
    simp only [Lexer.insertAt, h.tokens, h.count, Nat.add_sub_add_right]
    rw [List.take_append_of_le_length hlater, List.drop_append_of_le_length hlater,
      List.append_assoc, List.cons_append]
  counted := by
    simp only [Lexer.insertAt, List.length_append, List.length_cons, List.length_take,
      List.length_drop, h.counted]
    omega
  count := by
    simp only [Lexer.insertAt, h.count]
    omega

theorem advance (h : Follows n before s u) (k : Nat) :
    Follows n before (s.advance k) (u.advance k) where
  __ := h
  rest := congrArg (List.drop k) h.rest
  mark := by
    simp only [Lexer.advance, h.mark, Mark.skip_later]

theorem after (h : Follows n before s u) (p : Piece α) :
    Follows n before (s.after p) (u.after (p.later n)) where
  __ := h
  rest := rfl
  mark := rfl

theorem allow (h : Follows n before s u) (allowed : Bool) :
    Follows n before { s with keyAllowed := allowed } { u with keyAllowed := allowed } where
  __ := h
  keyAllowed := rfl

/-- Both may go on at the same characters. -/
theorem moved (h : Follows n before s u) (rest : List Char) (m : Mark) (allowed : Bool) :
    Follows n before { s with rest, mark := m, keyAllowed := allowed }
      { u with rest, mark := m.later n, keyAllowed := allowed } where
  __ := h
  rest := rfl
  mark := rfl
  keyAllowed := rfl

theorem closeBlocks (h : Follows n before s u) (column : Int) (outer : List Int) :
    Follows n before (closeBlocks column s outer) (closeBlocks column u outer) := by
  induction outer generalizing s u with
  | nil => exact h
  | cons o outer ih =>
    simp only [Lexer.closeBlocks, h.indent]
    split
    · exact ih { h.push .blockEnd with indent := rfl, outer := rfl }
    · exact h

theorem unroll (h : Follows n before s u) (column : Int) :
    Follows n before (s.unroll column) (u.unroll column) := by
  simp only [Lexer.unroll, h.inFlow, h.outer]
  split
  · exact h
  · exact h.closeBlocks column s.outer

/-- A block begins where it begins. -/
theorem deepen (h : Follows n before s u) (column : Int) :
    Follows n before { s with outer := s.indent :: s.outer, indent := column }
      { u with outer := u.indent :: u.outer, indent := column } where
  __ := h
  indent := rfl
  outer := congrArg₂ _ h.indent h.outer

theorem roll (h : Follows n before s u) (column : Nat) (t : Token) :
    Follows n before (s.roll column none t) (u.roll column none t) := by
  unfold Lexer.roll
  rw [h.inFlow, h.indent]
  split
  · exact h
  · have := (h.deepen column).push t
    rwa [h.indent] at this

theorem rollAt (h : Follows n before s u) (column k : Nat) (t : Token) :
    Follows n before (s.roll column (some k) t) (u.roll column (some (k + before.length)) t) := by
  unfold Lexer.roll
  rw [h.inFlow, h.indent]
  split
  · exact h
  · have := (h.deepen column).insertAt k t
    rwa [h.indent] at this

theorem dropStale (h : Follows n before s u) :
    Matches (Follows n before) s.dropStale u.dropStale :=
  (Matches.mapM h.outerKeys fun _ _ hkey => shifted_atPlace hkey h.mark).bind
    fun _ _ houter => (shifted_atPlace h.keyStart h.mark).bind
      fun _ _ hkey => .ok { h with outerKeys := houter, keyStart := hkey }

/-- A key start that is given up is no possible one. -/
theorem withoutKey (h : Follows n before s u) :
    Follows n before { s with keyStart := { s.keyStart with possible := false } }
      { u with keyStart := { u.keyStart with possible := false } } where
  __ := h
  keyStart := KeyStart.shifted_of_not_possible rfl rfl

theorem dropKey (h : Follows n before s u) :
    Matches (Follows n before) s.dropKey u.dropKey := by
  have hneeded : (u.keyStart.possible && u.keyStart.required) =
      (s.keyStart.possible && s.keyStart.required) := by
    cases hs : s.keyStart.possible with
    | false => rw [h.keyStart.possible, hs, Bool.false_and, Bool.false_and]
    | true => rw [h.keyStart.possible, hs, (h.keyStart.start hs).1]
  unfold Lexer.dropKey
  rw [hneeded]
  split
  · exact .error _ _
  · exact .ok h.withoutKey

theorem saveKey (h : Follows n before s u) :
    Matches (Follows n before) s.saveKey u.saveKey := by
  unfold Lexer.saveKey
  rw [h.keyAllowed]
  split
  · exact .ok h
  · refine h.dropKey.bind fun s' u' h' => .ok { h' with keyStart := ⟨rfl, fun _ => ?_⟩ }
    refine ⟨?_, h'.count, h'.mark⟩
    simp only [h.inFlow, h.indent, h.mark, Mark.column_later]

/-! ### Tokens -/

theorem takeEnd (h : Follows n before s u) : Matches (Follows n before) s.takeEnd u.takeEnd :=
  (h.unroll (-1)).dropKey.bind fun _ _ h' =>
    .ok { (h'.push .streamEnd).allow false with done := rfl }

/-- A token that is more than an indicator is read at the same characters. -/
theorem read (h : Follows n before s u) {f : List Char → Mark → Except Fault (Piece α)}
    (hf : ∀ cs m, f cs (m.later n) = Piece.later n <$> f cs m) (k : Nat) (t : α → Token)
    (allowed : α → Bool) : Matches (Follows n before)
      (f (s.rest.drop k) (s.mark.skip k) >>= fun p =>
        .ok { (s.after p).push (t p.value) with keyAllowed := allowed p.value })
      (f (u.rest.drop k) (u.mark.skip k) >>= fun p =>
        .ok { (u.after p).push (t p.value) with keyAllowed := allowed p.value }) := by
  rw [h.rest, h.mark, Mark.skip_later, hf]
  refine (Matches.map _ _).bind fun p _ hp => ?_
  rw [hp]
  exact .ok (((h.after p).push _).allow _)

theorem takeDirective (h : Follows n before s u) :
    Matches (Follows n before) s.takeDirective u.takeDirective :=
  (h.unroll (-1)).dropKey.bind fun _ _ h' =>
    h'.read (f := readDirective) (fun _ _ => readDirective_later) 1 id fun _ => false

theorem takeMarker (h : Follows n before s u) (t : Token) :
    Matches (Follows n before) (s.takeMarker t) (u.takeMarker t) :=
  (h.unroll (-1)).dropKey.bind fun _ _ h' => .ok (((h'.advance 3).push t).allow false)

theorem takeOpen (h : Follows n before s u) (t : Token) :
    Matches (Follows n before) (s.takeOpen t) (u.takeOpen t) :=
  h.saveKey.bind fun _ _ h' => .ok { ((h'.advance 1).push t).allow true with
    keyStart := KeyStart.shifted_of_not_possible rfl rfl
    outerKeys := .cons h'.keyStart h'.outerKeys }

theorem takeClose (h : Follows n before s u) (t : Token) :
    Matches (Follows n before) (s.takeClose t) (u.takeClose t) := by
  refine h.dropKey.bind fun s' u' h' => .ok ?_
  have hkeys := h'.outerKeys
  refine ((Follows.advance ?_ 1).push t).allow false
  cases hs : s'.outerKeys with
  | nil =>
    rw [hs] at hkeys
    rw [List.forall₂_nil_left_iff.1 hkeys]
    exact h'
  | cons k ks =>
    rw [hs] at hkeys
    obtain ⟨l, ls, hkey, hrest, hu⟩ := List.forall₂_cons_left_iff.1 hkeys
    rw [hu]
    exact { h' with keyStart := hkey, outerKeys := hrest }

theorem takeComma (h : Follows n before s u) :
    Matches (Follows n before) s.takeComma u.takeComma :=
  h.dropKey.bind fun _ _ h' => .ok (((h'.advance 1).push .flowEntry).allow true)

theorem takeEntry (h : Follows n before s u) :
    Matches (Follows n before) s.takeEntry u.takeEntry := by
  unfold Lexer.takeEntry
  rw [h.inFlow, h.keyAllowed, h.mark, Mark.column_later]
  split
  · exact .error _ _
  · exact (h.roll _ _).dropKey.bind fun _ _ h' =>
      .ok (((h'.advance 1).push .blockEntry).allow true)

theorem takeKey (h : Follows n before s u) :
    Matches (Follows n before) s.takeKey u.takeKey := by
  unfold Lexer.takeKey
  rw [h.inFlow, h.keyAllowed, h.mark, Mark.column_later]
  split
  · exact .error _ _
  · refine (h.roll _ _).dropKey.bind fun s' u' h' => .ok ?_
    rw [h'.inFlow]
    exact ((h'.advance 1).push .key).allow _

theorem takeValue (h : Follows n before s u) :
    Matches (Follows n before) s.takeValue u.takeValue := by
  unfold Lexer.takeValue
  dsimp only
  rw [h.keyStart.possible]
  split
  · rename_i hs
    obtain ⟨_, htoken, hmark⟩ := h.keyStart.start hs
    rw [htoken, hmark, Mark.column_later]
    exact .ok { ((((h.insertAt _ .key).rollAt _ _ _).advance 1).push .value).allow false with
      keyStart := KeyStart.shifted_of_not_possible rfl rfl }
  · rw [h.inFlow, h.keyAllowed, h.mark, Mark.column_later]
    split
    · exact .error _ _
    · have h' := h.roll s.mark.column .blockMapping
      rw [h'.inFlow]
      exact .ok (((h'.advance 1).push .value).allow _)

theorem takeAnchor (h : Follows n before s u) (t : String → Token) :
    Matches (Follows n before) (s.takeAnchor t) (u.takeAnchor t) :=
  h.saveKey.bind fun _ _ h' => h'.read (f := readAnchorName)
    (fun _ _ => readAnchorName_later) 1 t fun _ => false

theorem takeTag (h : Follows n before s u) :
    Matches (Follows n before) s.takeTag u.takeTag := by
  refine h.saveKey.bind fun s' u' h' => ?_
  rw [h'.inFlow]
  exact h'.read (f := readTag s'.inFlow) (fun _ _ => readTag_later s'.inFlow) 0
    (fun t => .tag t.1 t.2) fun _ => false

theorem takeBlock (h : Follows n before s u) (style : Style) :
    Matches (Follows n before) (s.takeBlock style) (u.takeBlock style) := by
  refine h.dropKey.bind fun s' u' h' => ?_
  rw [h'.indent]
  exact h'.read (f := readBlock (style = .folded) s'.indent)
    (fun _ _ => readBlock_later _ s'.indent) 1
    (fun cs => .scalar (String.ofList cs) style) fun _ => true

theorem takeQuoted (h : Follows n before s u) (style : Style) :
    Matches (Follows n before) (s.takeQuoted style) (u.takeQuoted style) :=
  h.saveKey.bind fun _ _ h' => h'.read (f := readQuoted (style = .double) [] .none)
    (readQuoted_later _ [] .none) 1
    (fun cs => .scalar (String.ofList cs) style) fun _ => false

theorem takePlain (h : Follows n before s u) :
    Matches (Follows n before) s.takePlain u.takePlain := by
  refine h.saveKey.bind fun s' u' h' => ?_
  rw [h'.indent, h'.inFlow]
  exact h'.read (f := readPlain s'.inFlow (s'.indent + 1) [] .none)
    (readPlain_later s'.inFlow (s'.indent + 1) [] .none) 0
    (fun r => .scalar (String.ofList r.1) .plain) (·.2)

theorem takeToken (h : Follows n before s u) (c : Char) (rest : List Char) :
    Matches (Follows n before) (s.takeToken c rest) (u.takeToken c rest) := by
  unfold Lexer.takeToken
  rw [h.inFlow, h.mark, Mark.column_later]
  repeat' apply Matches.ite
  · exact h.takeDirective
  · exact h.takeMarker _
  · exact h.takeMarker _
  · exact h.takeOpen _
  · exact h.takeOpen _
  · exact h.takeClose _
  · exact h.takeClose _
  · exact h.takeComma
  · exact h.takeEntry
  · exact h.takeKey
  · exact h.takeValue
  · exact h.takeAnchor _
  · exact h.takeAnchor _
  · exact h.takeTag
  · exact h.takeBlock _
  · exact h.takeBlock _
  · exact h.takeQuoted _
  · exact h.takeQuoted _
  · exact h.takePlain
  · exact .error _ _

/-- **What stands before makes no difference** to the next token. -/
theorem step (h : Follows n before s u) : Matches (Follows n before) s.step u.step := by
  unfold Lexer.step
  rw [h.inFlow, h.keyAllowed, h.rest, h.mark, skipToToken_later]
  obtain ⟨rest, m, allowed⟩ := skipToToken s.inFlow false s.keyAllowed s.rest s.mark
  refine (h.moved rest m allowed).dropStale.bind fun s' u' h' => ?_
  dsimp only
  have hclosed := h'.unroll s'.mark.column
  rw [h'.mark, Mark.column_later, hclosed.rest]
  cases (s'.unroll s'.mark.column).rest with
  | nil => exact hclosed.takeEnd
  | cons c rest => exact hclosed.takeToken c rest

/-- **What stands before makes no difference** to the tokens that follow. -/
theorem run (h : Follows n before s u) {fuel : Nat} {ts : List Token}
    (hrun : run fuel s = .ok ts) : Lexer.run fuel u = .ok (before.reverse ++ ts) := by
  induction fuel generalizing s u with
  | zero => cases hrun
  | succ fuel ih =>
    cases hstep : s.step with
    | error e =>
      rw [Lexer.run, hstep] at hrun
      cases hrun
    | ok s' =>
      obtain ⟨u', hu', h'⟩ := h.step s' hstep
      rw [Lexer.run, hstep] at hrun
      rw [Lexer.run, hu']
      simp only [bind, Except.bind, h'.done] at hrun ⊢
      split at hrun
      · rename_i hdone
        cases hrun
        rw [if_pos hdone, h'.tokens, List.reverse_append]
        rfl
      · rename_i hdone
        rw [if_neg hdone]
        exact ih h' hrun

end Follows

end Lexer

end ArchSpec.Yaml
