import Mathlib.Data.List.Basic
import ArchSpec.Json.Reader
import ArchSpec.Json.Writer
import ArchSpec.Proofs.Text

/-!
# JSON tokens, written and read

Texts and integers are the tokens whose written form has no fixed length. A text ends at its
closing quote, since no escape begins with one; an integer ends where no digit follows.

* `readText_escaped` — a quoted text reads as what was quoted.
* `quote_append_inj`, `intDigits_append_inj` — no two tokens are written alike, whatever follows.
* `readNumber_natDigits` — the digits of an integer of 64 bits read as that integer.
-/

namespace ArchSpec.Json

/-! ## Texts -/

theorem hexValue?_hexDigit : ∀ n < 16, hexValue? (hexDigit n) = some n := by decide

/-- A character that needs no escape reads as itself. -/
theorem readText_plain {c : Char} (hquote : c ≠ '"') (hslash : c ≠ '\\') (hcode : 32 ≤ c.toNat)
    (rest : List Char) : readText (c :: rest) = (readText rest).map fun r => (c :: r.1, r.2) := by
  rw [readText.eq_def]
  split
  · rename_i heq
    cases heq
  · rename_i heq
    exact absurd (List.cons.inj heq).1 hquote
  · rename_i heq
    exact absurd (List.cons.inj heq).1 hslash
  · rename_i heq
    exact absurd (List.cons.inj heq).1 hslash
  · rename_i heq
    obtain ⟨rfl, rfl⟩ := List.cons.inj heq
    rw [if_neg (by omega), if_neg hslash]

/-- One escaped character reads as that character. -/
theorem readText_escapeChar (c : Char) (rest : List Char) :
    readText (escapeChar c ++ rest) = (readText rest).map fun r => (c :: r.1, r.2) := by
  unfold escapeChar
  by_cases h₁ : c = '"'
  · subst h₁; simp [readText, simpleEscape?]
  by_cases h₂ : c = '\\'
  · subst h₂; simp [readText, simpleEscape?]
  by_cases h₃ : c = '\x08'
  · subst h₃; simp [readText, simpleEscape?]
  by_cases h₄ : c = '\t'
  · subst h₄; simp [readText, simpleEscape?]
  by_cases h₅ : c = '\n'
  · subst h₅; simp [readText, simpleEscape?]
  by_cases h₆ : c = '\x0c'
  · subst h₆; simp [readText, simpleEscape?]
  by_cases h₇ : c = '\r'
  · subst h₇; simp [readText, simpleEscape?]
  by_cases h₈ : c.toNat < 32
  · have hhigh := hexValue?_hexDigit (c.toNat / 16) (by omega)
    have hlow := hexValue?_hexDigit (c.toNat % 16) (by omega)
    have hzero : hexValue? '0' = some 0 := by decide
    have hcode : hexValue4? '0' '0' (hexDigit (c.toNat / 16)) (hexDigit (c.toNat % 16)) =
        some c.toNat := by
      simp only [hexValue4?, hzero, hhigh, hlow, Option.bind_eq_bind, Option.bind_some,
        Option.pure_def, Option.some.injEq]
      omega
    have hplain : c.toNat < 0xD800 ∨ 0xDFFF < c.toNat := by omega
    simp only [h₁, h₂, h₃, h₄, h₅, h₆, h₇, h₈, if_true, if_false, List.cons_append,
      List.nil_append]
    rw [readText, hcode]
    simp only [hplain, if_true, Char.ofNat_toNat]
  · simp only [h₁, h₂, h₃, h₄, h₅, h₆, h₇, h₈, if_false, List.cons_append, List.nil_append]
    exact readText_plain h₁ h₂ (by omega) rest

/-- A quoted text, from its first character on, reads as what was quoted. -/
theorem readText_escaped (s rest : List Char) :
    readText (s.flatMap escapeChar ++ '"' :: rest) = .ok (s, rest) := by
  induction s with
  | nil => simp [readText]
  | cons c cs ih =>
    rw [List.flatMap_cons, List.append_assoc, readText_escapeChar, ih]
    rfl

theorem quote_append (s r : List Char) :
    quote s ++ r = '"' :: (s.flatMap escapeChar ++ '"' :: r) := by
  simp [quote]

/-- No two texts are quoted alike, whatever follows. -/
theorem quote_append_inj {s s' r r' : List Char} (h : quote s ++ r = quote s' ++ r') :
    s = s' ∧ r = r' := by
  rw [quote_append, quote_append] at h
  have hread := congrArg readText (List.cons.inj h).2
  rw [readText_escaped, readText_escaped, Except.ok.injEq, Prod.mk.injEq] at hread
  exact hread

/-! ## Integers -/

/-- Nothing but the end of a list or object, a comma or a line break follows. -/
def EndsValue (r : List Char) : Prop := ∀ c, r.head? = some c → c ∈ [',', ']', '\x7d', '\n']

theorem endsValue_nil : EndsValue [] := nofun

theorem endsValue_cons {c : Char} {r : List Char} (h : c ∈ [',', ']', '\x7d', '\n']) :
    EndsValue (c :: r) := by
  intro d hd
  cases hd
  exact h

theorem isDigit_of_mem_natDigits {n : Nat} {c : Char} (h : c ∈ natDigits n) :
    isDigit c = true :=
  Nat.isDigit_of_mem_toDigits (by omega) (by omega) h

theorem EndsValue.not_isDigit {r : List Char} (hr : EndsValue r) :
    ∀ c, r.head? = some c → isDigit c = false := by
  intro c hc
  have hmark := hr c hc
  simp only [List.mem_cons, List.not_mem_nil, or_false] at hmark
  rcases hmark with rfl | rfl | rfl | rfl <;> rfl

/-- The digits of a number are all the digits before what follows it. -/
theorem takeWhile_natDigits (n : Nat) {r : List Char} (hr : EndsValue r) :
    (natDigits n ++ r).takeWhile isDigit = natDigits n :=
  Text.takeWhile_append_of_head? (fun _ => isDigit_of_mem_natDigits) hr.not_isDigit

theorem dropWhile_natDigits (n : Nat) {r : List Char} (hr : EndsValue r) :
    (natDigits n ++ r).dropWhile isDigit = r :=
  Text.dropWhile_append_of_head? (fun _ => isDigit_of_mem_natDigits) hr.not_isDigit

theorem natDigits_inj {n n' : Nat} (h : natDigits n = natDigits n') : n = n' := by
  have hn := @Nat.ofDigitChars_ten_toDigits n
  rw [show Nat.toDigits 10 n = Nat.toDigits 10 n' from h, Nat.ofDigitChars_ten_toDigits] at hn
  exact hn.symm

/-- No two numbers are written alike, whatever follows that ends a value. -/
theorem natDigits_append_inj {n n' : Nat} {r r' : List Char} (hr : EndsValue r)
    (hr' : EndsValue r') (h : natDigits n ++ r = natDigits n' ++ r') : n = n' ∧ r = r' := by
  have hdigits := congrArg (List.takeWhile isDigit) h
  have hrest := congrArg (List.dropWhile isDigit) h
  rw [takeWhile_natDigits n hr, takeWhile_natDigits n' hr'] at hdigits
  rw [dropWhile_natDigits n hr, dropWhile_natDigits n' hr'] at hrest
  exact ⟨natDigits_inj hdigits, hrest⟩

theorem natDigits_head_ne_minus (n : Nat) (r s : List Char) : natDigits n ++ r ≠ '-' :: s := by
  intro h
  cases hd : natDigits n with
  | nil => exact Nat.toDigits_ne_nil hd
  | cons c cs =>
    rw [hd] at h
    have hc : isDigit c = true := isDigit_of_mem_natDigits (n := n) (by simp [hd])
    rw [(List.cons.inj h).1] at hc
    exact absurd hc (by decide)

/-- No two integers are written alike, whatever follows that ends a value. -/
theorem intDigits_append_inj {i j : Int} {r r' : List Char} (hr : EndsValue r)
    (hr' : EndsValue r') (h : intDigits i ++ r = intDigits j ++ r') : i = j ∧ r = r' := by
  unfold intDigits at h
  split at h <;> split at h
  · obtain ⟨habs, hrest⟩ := natDigits_append_inj hr hr' (List.cons.inj h).2
    exact ⟨by omega, hrest⟩
  · exact absurd h.symm (natDigits_head_ne_minus _ _ _)
  · exact absurd h (natDigits_head_ne_minus _ _ _)
  · obtain ⟨habs, hrest⟩ := natDigits_append_inj hr hr' h
    exact ⟨by omega, hrest⟩

/-! ## Reading integers -/

theorem le_ofDigitChars (n : Nat) (ds : List Char) : n ≤ Nat.ofDigitChars 10 ds n := by
  induction ds generalizing n with
  | nil => simp
  | cons c ds ih =>
    rw [Nat.ofDigitChars_cons]
    have := ih (10 * n + (c.toNat - '0'.toNat))
    omega

/-- Digits of a number of 64 bits are all used. -/
theorem appendDigits_eq (n : Nat) (ds : List Char) (h : Nat.ofDigitChars 10 ds n ≤ maxWord) :
    appendDigits n ds = (Nat.ofDigitChars 10 ds n, ds.length) := by
  induction ds generalizing n with
  | nil => simp [appendDigits]
  | cons c ds ih =>
    have hzero : '0'.toNat = 48 := by decide
    rw [Nat.ofDigitChars_cons, hzero, Nat.mul_comm] at h
    have hle := le_ofDigitChars (n * 10 + (c.toNat - 48)) ds
    rw [appendDigits, if_pos (by omega), ih _ h, Nat.ofDigitChars_cons, hzero, Nat.mul_comm]
    rfl

/-- What ends a value ends a number as an integer. -/
theorem readAfterInteger_endsValue (negative : Bool) (n : Nat) {r : List Char}
    (hr : EndsValue r) : readAfterInteger negative n 0 r =
      if !negative then .ok (.int n, r)
      else if n = 0 ∨ n > Nat.pow 2 63 then .ok (.float (Binary64.ofNat n).negate, r)
      else .ok (.int (-n), r) := by
  unfold readAfterInteger
  split
  · exact absurd (hr _ rfl) (by decide)
  · exact absurd (hr _ rfl) (by decide)
  · exact absurd (hr _ rfl) (by decide)
  · simp

/-- The digits of a number of 64 bits read as that number. -/
theorem readNumber_natDigits (negative : Bool) {n : Nat} (hn : n ≤ maxWord) {r : List Char}
    (hr : EndsValue r) :
    readNumber negative (natDigits n ++ r) = readAfterInteger negative n 0 r := by
  unfold readNumber
  simp only [takeWhile_natDigits n hr, dropWhile_natDigits n hr]
  split
  · rename_i h
    exact absurd h Nat.toDigits_ne_nil
  · rename_i h
    rw [(Text.toDigits_eq_zero_cons h).1]
  · rename_i hne h
    exact absurd (Text.toDigits_eq_zero_cons h).2 hne
  · have hvalue : Nat.ofDigitChars 10 (natDigits n) 0 = n := Nat.ofDigitChars_ten_toDigits
    rw [appendDigits_eq 0 _ (by rw [hvalue]; exact hn), hvalue]
    simp

end ArchSpec.Json
