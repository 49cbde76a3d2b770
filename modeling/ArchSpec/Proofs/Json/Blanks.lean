import ArchSpec.Proofs.Json.Compact
import ArchSpec.Proofs.Json.Layout

/-!
# A layout only adds blanks

Outside of texts, blanks of a JSON text say nothing. Without them, what is laid out on lines is the
compact form, so the layout of a value determines it as well.

* `strip` — a text without the blanks that stand outside of quoted texts.
* `strip_prettyChars` — what is left of a layout.
* `pretty_inj` — the layout determines the value.
-/

namespace ArchSpec.Json

/-! ## Taking blanks out -/

mutual

/-- A text without its blanks, but for those inside of quoted texts. -/
def strip : List Char → List Char
  | [] => []
  | c :: rest =>
    if c = '"' then c :: stripQuoted rest
    else if isSpace c then strip rest
    else c :: strip rest

/-- What is inside of a quoted text stays as it is, up to the closing quote. -/
def stripQuoted : List Char → List Char
  | [] => []
  | '\\' :: c :: rest => '\\' :: c :: stripQuoted rest
  | c :: rest => if c = '"' then c :: strip rest else c :: stripQuoted rest

end

/-- Characters that are neither blanks nor quotes stay. -/
theorem strip_append {cs : List Char} (h : ∀ c ∈ cs, c ≠ '"' ∧ isSpace c = false) (r : List Char) :
    strip (cs ++ r) = cs ++ strip r := by
  induction cs with
  | nil => rfl
  | cons c cs ih =>
    obtain ⟨hquote, hspace⟩ := h c List.mem_cons_self
    rw [List.cons_append, strip, if_neg hquote, hspace,
      ih fun d hd => h d (List.mem_cons_of_mem _ hd)]
    rfl

theorem strip_cons {c : Char} (hquote : c ≠ '"') (hspace : isSpace c = false) (r : List Char) :
    strip (c :: r) = c :: strip r := by
  rw [strip, if_neg hquote, hspace]
  rfl

theorem strip_newline (level : Nat) (r : List Char) : strip (newline level ++ r) = strip r := by
  have hblanks : ∀ n, strip (List.replicate n ' ' ++ r) = strip r := by
    intro n
    induction n with
    | zero => rfl
    | succ n ih => exact ih
  exact hblanks _

theorem stripQuoted_plain {c : Char} (hquote : c ≠ '"') (hslash : c ≠ '\\') (r : List Char) :
    stripQuoted (c :: r) = c :: stripQuoted r := by
  rw [stripQuoted.eq_def]
  split
  · rename_i heq
    cases heq
  · rename_i heq
    exact absurd (List.cons.inj heq).1 hslash
  · rename_i heq
    obtain ⟨rfl, rfl⟩ := List.cons.inj heq
    rw [if_neg hquote]

theorem stripQuoted_escape (c : Char) (r : List Char) :
    stripQuoted ('\\' :: c :: r) = '\\' :: c :: stripQuoted r := by
  rw [stripQuoted]

theorem hexDigit_plain : ∀ n < 16, hexDigit n ≠ '"' ∧ hexDigit n ≠ '\\' := by decide

/-- What is written for a character inside of a quoted text stays. -/
theorem stripQuoted_escapeChar (c : Char) (r : List Char) :
    stripQuoted (escapeChar c ++ r) = escapeChar c ++ stripQuoted r := by
  unfold escapeChar
  split
  · exact stripQuoted_escape _ r
  rename_i hquote
  split
  · exact stripQuoted_escape _ r
  rename_i hslash
  split
  · exact stripQuoted_escape _ r
  split
  · exact stripQuoted_escape _ r
  split
  · exact stripQuoted_escape _ r
  split
  · exact stripQuoted_escape _ r
  split
  · exact stripQuoted_escape _ r
  split
  · have hhigh := hexDigit_plain (c.toNat / 16) (by omega)
    have hlow := hexDigit_plain (c.toNat % 16) (by omega)
    simp only [List.cons_append, List.nil_append]
    rw [stripQuoted_escape, stripQuoted_plain (by decide) (by decide),
      stripQuoted_plain (by decide) (by decide), stripQuoted_plain hhigh.1 hhigh.2,
      stripQuoted_plain hlow.1 hlow.2]
  · exact stripQuoted_plain hquote hslash r

/-- A quoted text stays. -/
theorem strip_quote (s r : List Char) : strip (quote s ++ r) = quote s ++ strip r := by
  have hinside : stripQuoted (s.flatMap escapeChar ++ '"' :: r) =
      s.flatMap escapeChar ++ '"' :: strip r := by
    induction s with
    | nil => rfl
    | cons c s ih =>
      rw [List.flatMap_cons, List.append_assoc, stripQuoted_escapeChar, ih, List.append_assoc]
  rw [quote_append, quote_append, strip, if_pos rfl, hinside]

/-! ## Layouts -/

/-- The characters of an integer are digits and a sign. -/
theorem strip_intDigits (i : Int) (r : List Char) :
    strip (intDigits i ++ r) = intDigits i ++ strip r := by
  refine strip_append (fun c hc => ?_) r
  have hdigit : ∀ {d : Char}, isDigit d = true → d ≠ '"' ∧ isSpace d = false := by
    intro d hd
    refine ⟨?_, isSpace_of_isDigit hd⟩
    rintro rfl
    exact absurd hd (by decide)
  unfold intDigits at hc
  split at hc
  · rcases List.mem_cons.1 hc with rfl | hc
    · exact ⟨by decide, rfl⟩
    · exact hdigit (isDigit_of_mem_natDigits hc)
  · exact hdigit (isDigit_of_mem_natDigits hc)

section

open prettyChars compactChars

/-- That the layout of a value without its blanks is the compact form. -/
def Strips (v : Value) : Prop :=
  ∀ level r, strip (prettyChars level v ++ r) = compactChars v ++ strip r

theorem strip_prettyItems {items : List Value} (h : ∀ v ∈ items, Strips v) (level : Nat)
    (r : List Char) : strip (prettyItems level items ++ r) = compactItems items ++ strip r := by
  induction items with
  | nil => rfl
  | cons v rest ih =>
    have hv := h v List.mem_cons_self level
    cases rest with
    | nil => rw [prettyItems, List.append_assoc, strip_newline, hv, compactItems]
    | cons w rest =>
      rw [prettyItems_cons_cons, List.append_assoc, strip_newline, List.append_assoc, hv,
        List.cons_append, strip_cons (by decide) rfl,
        ih fun u hu => h u (List.mem_cons_of_mem _ hu), compactItems_cons v, moreItems,
        List.append_assoc, List.cons_append]

theorem strip_prettyFields {fields : List (String × Value)} (h : ∀ f ∈ fields, Strips f.2)
    (level : Nat) (r : List Char) :
    strip (prettyFields level fields ++ r) = compactFields fields ++ strip r := by
  induction fields with
  | nil => rfl
  | cons f rest ih =>
    obtain ⟨k, v⟩ := f
    have hv := h (k, v) List.mem_cons_self level
    have hcolon : ∀ cs, strip (':' :: ' ' :: cs) = ':' :: strip cs := fun _ => rfl
    cases rest with
    | nil =>
      rw [prettyFields, List.append_assoc, List.append_assoc, strip_newline, strip_quote,
        List.cons_append, List.cons_append, hcolon, hv, compactFields, List.append_assoc]
      rfl
    | cons g rest =>
      rw [prettyFields_cons_cons, List.append_assoc, strip_newline, List.append_assoc, strip_quote,
        List.cons_append, List.cons_append, hcolon, List.append_assoc, hv, List.cons_append,
        strip_cons (by decide) rfl, ih fun g hg => h g (List.mem_cons_of_mem _ hg),
        compactFields_cons k, moreFields, List.append_assoc, List.cons_append, List.append_assoc,
        List.cons_append]

/-- **The layout of a value without its blanks is the compact form.** -/
theorem strip_prettyChars {v : Value} (h : Exact v) : Strips v := by
  induction h with
  | null => exact fun _ _ => rfl
  | bool b => cases b <;> exact fun _ _ => rfl
  | int i => exact fun _ r => strip_intDigits i r
  | text s => exact fun _ r => strip_quote s.toList r
  | @list items _ ih =>
    intro level r
    cases items with
    | nil => rfl
    | cons v rest =>
      have htext : prettyChars level (.list (v :: rest)) ++ r =
          '[' :: (prettyItems (level + 1) (v :: rest) ++ (newline level ++ ']' :: r)) := by
        simp [prettyChars]
      rw [htext, strip_cons (by decide) rfl, strip_prettyItems ih, strip_newline,
        strip_cons (by decide) rfl, compactChars, List.cons_append, List.append_assoc]
      rfl
  | @object fields _ ih =>
    intro level r
    cases fields with
    | nil => rfl
    | cons f rest =>
      have htext : prettyChars level (.object (f :: rest)) ++ r = '\x7b' ::
          (prettyFields (level + 1) (f :: rest) ++ (newline level ++ '\x7d' :: r)) := by
        simp [prettyChars]
      rw [htext, strip_cons (by decide) rfl, strip_prettyFields ih, strip_newline,
        strip_cons (by decide) rfl, compactChars, List.cons_append, List.append_assoc]
      rfl

end

theorem strip_pretty {v : Value} (h : Exact v) :
    strip (pretty v).toList = (compact v).toList := by
  have hv := strip_prettyChars h 0 []
  rw [List.append_nil, show strip [] = [] from rfl, List.append_nil] at hv
  rw [pretty, compact, String.toList_ofList, String.toList_ofList, hv]

/-- **The layout determines the value**, as the compact form does. -/
theorem pretty_inj {v w : Value} (hv : Exact v) (hw : Exact w) (h : pretty v = pretty w) :
    v = w := by
  refine compact_inj hv hw (String.toList_injective ?_)
  rw [← strip_pretty hv, ← strip_pretty hw, h]

end ArchSpec.Json
