import Mathlib.Data.List.TakeWhile
import ArchSpec.Proofs.Specification.Typing
import ArchSpec.Proofs.Text

/-!
# Places of declarations

The places of declarations are not in a document that has been read, so they are looked for in its
text: in lines that begin with an `id` key, be it in a list, behind a brace or in quotes. Here it is
said what such lines consist of, and that each ID of a list gets those of them that are its own, one
after the other.

* `IdChar`, `Key`, `KeyLine` — the parts of a line; `keyOnLine?_eq_some_iff` — a key is found where
  they are.
* `Places` — the lines of an ID; `places_placesOf` — these are found.
* `getElem?_pair` — the place that an ID in a list gets.
* `locate_pairs` — what this means for all entries of a list.
-/

namespace ArchSpec.Locate

/-! ## Lines with a key -/

/-- Nothing but blanks. -/
def Blanks (cs : List Char) : Prop := ∀ c ∈ cs, c ∈ Text.whiteSpace

/-- A quote or nothing. -/
def MaybeQuote (cs : List Char) : Prop := cs = [] ∨ cs = ['"'] ∨ cs = ['\'']

/-- The dash of a list entry and the blanks after it, or nothing. -/
def MaybeDash (cs : List Char) : Prop :=
  cs = [] ∨ ∃ c bs, c ∈ Text.whiteSpace ∧ Blanks bs ∧ cs = '-' :: c :: bs

/-- An opening brace and the blanks after it, or nothing. -/
def MaybeBrace (cs : List Char) : Prop := cs = [] ∨ ∃ bs, Blanks bs ∧ cs = '{' :: bs

/-- What may stand in an ID. -/
def IdChar (c : Char) : Prop := c ∉ Text.whiteSpace ∧ c ∉ ['"', '\'', ',', '#', '}']

/-- The parts of a text that begins with an `id` key: what the pattern
`["']?id["']?\s*:\s*["']?([^"'\s,#}]+)` matches, and the rest. -/
structure Key where
  opening : List Char
  closing : List Char
  gap : List Char
  margin : List Char
  quote : List Char
  /-- The value of the key. -/
  id : List Char
  rest : List Char
  maybe_opening : MaybeQuote opening
  maybe_closing : MaybeQuote closing
  blanks_gap : Blanks gap
  blanks_margin : Blanks margin
  maybe_quote : MaybeQuote quote
  id_ne_nil : id ≠ []
  id_chars : ∀ c ∈ id, IdChar c
  /-- The value is as long as it can be. -/
  ends : ∀ c, rest.head? = some c → ¬IdChar c

def Key.text (k : Key) : List Char :=
  k.opening ++ 'i' :: 'd' :: (k.closing ++ (k.gap ++ ':' ::
    (k.margin ++ (k.quote ++ (k.id ++ k.rest)))))

/-- The parts of a line that begins with an `id` key: what `^\s*(?:-\s+)?(?:\{\s*)?` matches, and
the key. -/
structure KeyLine extends Key where
  indent : List Char
  dash : List Char
  brace : List Char
  blanks_indent : Blanks indent
  maybe_dash : MaybeDash dash
  maybe_brace : MaybeBrace brace

def KeyLine.before (k : KeyLine) : List Char := k.indent ++ k.dash ++ k.brace

def KeyLine.line (k : KeyLine) : List Char := k.before ++ k.text

/-! ### What is passed over -/

variable {cs bs : List Char}

theorem blanks_iff : Blanks bs ↔ ∀ c ∈ bs, Text.isBlank c = true := by
  simp only [Blanks, Text.isBlank_iff]

theorem exists_blanks (cs : List Char) : ∃ bs, Blanks bs ∧ cs = bs ++ dropBlanks cs :=
  ⟨cs.takeWhile Text.isBlank, blanks_iff.2 fun _ hc => List.mem_takeWhile_imp hc,
    List.takeWhile_append_dropWhile.symm⟩

theorem exists_quote (cs : List Char) : ∃ q, MaybeQuote q ∧ cs = q ++ dropQuote cs := by
  unfold dropQuote
  split
  · exact ⟨['"'], .inr (.inl rfl), rfl⟩
  · exact ⟨['\''], .inr (.inr rfl), rfl⟩
  · exact ⟨[], .inl rfl, rfl⟩

theorem exists_dash (cs : List Char) : ∃ d, MaybeDash d ∧ cs = d ++ dropDash cs := by
  unfold dropDash
  split
  · rename_i c rest
    split
    · rename_i hc
      obtain ⟨bs, hbs, hrest⟩ := exists_blanks rest
      refine ⟨'-' :: c :: bs, .inr ⟨c, bs, Text.isBlank_iff.1 hc, hbs, rfl⟩, ?_⟩
      rw [List.cons_append, List.cons_append, ← hrest]
    · exact ⟨[], .inl rfl, rfl⟩
  · exact ⟨[], .inl rfl, rfl⟩

theorem exists_brace (cs : List Char) : ∃ b, MaybeBrace b ∧ cs = b ++ dropBrace cs := by
  unfold dropBrace
  split
  · rename_i rest
    obtain ⟨bs, hbs, hrest⟩ := exists_blanks rest
    refine ⟨'{' :: bs, .inr ⟨bs, hbs, rfl⟩, ?_⟩
    rw [List.cons_append, ← hrest]
  · exact ⟨[], .inl rfl, rfl⟩

theorem Blanks.head {c d : Char} (hbs : Blanks bs) (h : (bs ++ d :: cs).head? = some c) :
    Text.isBlank c = true ∨ c = d := by
  cases bs with
  | nil => exact .inr (Option.some.inj h).symm
  | cons b bs => exact .inl (blanks_iff.1 hbs c (by simpa using .inl (Option.some.inj h).symm))

theorem dropBlanks_append (hbs : Blanks bs)
    (hcs : ∀ c, cs.head? = some c → Text.isBlank c = false) : dropBlanks (bs ++ cs) = cs :=
  Text.dropWhile_append_of_head? (blanks_iff.1 hbs) hcs

theorem dropQuote_append {q : List Char} (hq : MaybeQuote q)
    (hcs : ∀ c, cs.head? = some c → c ≠ '"' ∧ c ≠ '\'') : dropQuote (q ++ cs) = cs := by
  rcases hq with rfl | rfl | rfl
  · show dropQuote cs = cs
    unfold dropQuote
    split
    · exact absurd rfl (hcs _ rfl).1
    · exact absurd rfl (hcs _ rfl).2
    · rfl
  · rfl
  · rfl

theorem dropDash_append {d : List Char} (hd : MaybeDash d)
    (hcs : ∀ c, cs.head? = some c → Text.isBlank c = false ∧ c ≠ '-') :
    dropDash (d ++ cs) = cs := by
  rcases hd with rfl | ⟨c, bs, hc, hbs, rfl⟩
  · show dropDash cs = cs
    unfold dropDash
    split
    · exact absurd rfl (hcs _ rfl).2
    · rfl
  · show dropDash ('-' :: c :: (bs ++ cs)) = cs
    rw [dropDash, if_pos (Text.isBlank_iff.2 hc), dropBlanks_append hbs fun c hc => (hcs c hc).1]

theorem dropBrace_append {b : List Char} (hb : MaybeBrace b)
    (hcs : ∀ c, cs.head? = some c → Text.isBlank c = false ∧ c ≠ '{') :
    dropBrace (b ++ cs) = cs := by
  rcases hb with rfl | ⟨bs, hbs, rfl⟩
  · show dropBrace cs = cs
    unfold dropBrace
    split
    · exact absurd rfl (hcs _ rfl).2
    · rfl
  · show dropBlanks (bs ++ cs) = cs
    exact dropBlanks_append hbs fun c hc => (hcs c hc).1

/-! ### Keys -/

theorem isIdChar_iff {c : Char} : isIdChar c = true ↔ IdChar c := by
  simp [isIdChar, IdChar, ← Text.isBlank_iff]

namespace Key

/-- The value begins with a character of its own. -/
theorem head_id (k : Key) {tail : List Char} {c : Char} (h : (k.id ++ tail).head? = some c) :
    IdChar c := by
  obtain ⟨d, ds, hd⟩ := List.exists_cons_of_ne_nil k.id_ne_nil
  have hc : d = c := by simpa [hd] using h
  exact k.id_chars c (by simp [hd, hc])

theorem head_value (k : Key) {c : Char} (h : (k.quote ++ (k.id ++ k.rest)).head? = some c) :
    Text.isBlank c = false := by
  rcases k.maybe_quote with hq | hq | hq
  · rw [hq] at h
    exact Bool.eq_false_iff.2 fun hblank => (k.head_id h).1 (Text.isBlank_iff.1 hblank)
  · obtain rfl : '"' = c := by simpa [hq] using h
    decide
  · obtain rfl : '\'' = c := by simpa [hq] using h
    decide

/-- A key begins with none of the characters that are passed over before it. -/
theorem head_text (k : Key) {c : Char} (h : k.text.head? = some c) :
    Text.isBlank c = false ∧ c ≠ '-' ∧ c ≠ '{' := by
  rcases k.maybe_opening with hq | hq | hq
  · obtain rfl : 'i' = c := by simpa [text, hq] using h
    decide
  · obtain rfl : '"' = c := by simpa [text, hq] using h
    decide
  · obtain rfl : '\'' = c := by simpa [text, hq] using h
    decide

theorem idValue?_text (k : Key) : idValue? k.text = some k.id := by
  have hopening : dropQuote k.text = 'i' :: 'd' :: (k.closing ++ (k.gap ++ ':' ::
      (k.margin ++ (k.quote ++ (k.id ++ k.rest))))) :=
    dropQuote_append k.maybe_opening fun c hc => by
      obtain rfl : 'i' = c := by simpa using hc
      decide
  have hclosing : dropQuote (k.closing ++ (k.gap ++ ':' ::
      (k.margin ++ (k.quote ++ (k.id ++ k.rest))))) =
        k.gap ++ ':' :: (k.margin ++ (k.quote ++ (k.id ++ k.rest))) :=
    dropQuote_append k.maybe_closing fun c hc => by
      rcases k.blanks_gap.head hc with hblank | rfl
      · constructor <;> rintro rfl <;> exact absurd hblank (by decide)
      · decide
  have hgap : dropBlanks (k.gap ++ ':' :: (k.margin ++ (k.quote ++ (k.id ++ k.rest)))) =
      ':' :: (k.margin ++ (k.quote ++ (k.id ++ k.rest))) :=
    dropBlanks_append k.blanks_gap fun c hc => by
      obtain rfl : ':' = c := by simpa using hc
      decide
  have hmargin : dropBlanks (k.margin ++ (k.quote ++ (k.id ++ k.rest))) =
      k.quote ++ (k.id ++ k.rest) :=
    dropBlanks_append k.blanks_margin fun _ => k.head_value
  have hquote : dropQuote (k.quote ++ (k.id ++ k.rest)) = k.id ++ k.rest :=
    dropQuote_append k.maybe_quote fun c hc => by
      have hquotes := (k.head_id hc).2
      simp only [List.mem_cons, not_or] at hquotes
      exact ⟨hquotes.1, hquotes.2.1⟩
  have hid := Text.takeWhile_append_of_head? (fun c hc => isIdChar_iff.2 (k.id_chars c hc))
    fun c hc => Bool.eq_false_iff.2 fun h => k.ends c hc (isIdChar_iff.1 h)
  have hne : k.id.isEmpty = false := by simpa using k.id_ne_nil
  simp only [idValue?, hopening, hclosing, hgap, hmargin, hquote, hid, hne]
  rfl

/-- Where a value is read, there is a key with it. -/
theorem exists_of_idValue? {cs id : List Char} (h : idValue? cs = some id) :
    ∃ k : Key, k.text = cs ∧ k.id = id := by
  unfold idValue? at h
  split at h
  · rename_i rest hname
    split at h
    · rename_i tail hcolon
      obtain ⟨opening, hopening, hcs⟩ := exists_quote cs
      obtain ⟨closing, hclosing, hrest⟩ := exists_quote rest
      obtain ⟨gap, hgap, hgapRest⟩ := exists_blanks (dropQuote rest)
      obtain ⟨margin, hmargin, htail⟩ := exists_blanks tail
      obtain ⟨quote, hquote, hvalue⟩ := exists_quote (dropBlanks tail)
      dsimp only at h
      split at h
      · cases h
      · rename_i hne
        cases h
        refine ⟨{
          opening, closing, gap, margin, quote
          id := (dropQuote (dropBlanks tail)).takeWhile isIdChar
          rest := (dropQuote (dropBlanks tail)).dropWhile isIdChar
          maybe_opening := hopening
          maybe_closing := hclosing
          blanks_gap := hgap
          blanks_margin := hmargin
          maybe_quote := hquote
          id_ne_nil := fun hnil => hne (List.isEmpty_iff.2 hnil)
          id_chars := fun c hc => isIdChar_iff.1 (List.mem_takeWhile_imp hc)
          ends := fun c hc => ?_ }, ?_, rfl⟩
        · rw [← isIdChar_iff]
          simpa [hc] using List.head?_dropWhile_not isIdChar (dropQuote (dropBlanks tail))
        · rw [text, List.takeWhile_append_dropWhile, ← hvalue, ← htail, ← hcolon, ← hgapRest,
            ← hrest, ← hname, ← hcs]
    · cases h
  · cases h

end Key

/-! ### Lines -/

namespace KeyLine

theorem head_brace (k : KeyLine) {c : Char} (h : (k.brace ++ k.text).head? = some c) :
    Text.isBlank c = false ∧ c ≠ '-' := by
  rcases k.maybe_brace with hb | ⟨bs, _, hb⟩
  · rw [hb] at h
    exact ⟨(k.head_text h).1, (k.head_text h).2.1⟩
  · obtain rfl : '{' = c := by simpa [hb] using h
    decide

theorem head_dash (k : KeyLine) {c : Char} (h : (k.dash ++ (k.brace ++ k.text)).head? = some c) :
    Text.isBlank c = false := by
  rcases k.maybe_dash with hd | ⟨d, bs, _, _, hd⟩
  · rw [hd] at h
    exact (k.head_brace h).1
  · obtain rfl : '-' = c := by simpa [hd] using h
    decide

theorem keyOnLine?_line (k : KeyLine) :
    keyOnLine? k.line = some (String.ofList k.id, k.before.length) := by
  have hline : k.line = k.indent ++ (k.dash ++ (k.brace ++ k.text)) := by
    simp [line, before]
  have hrest : dropBrace (dropDash (dropBlanks k.line)) = k.text := by
    -- each part ends where the next one begins, with a character that it does not have
    rw [hline, dropBlanks_append k.blanks_indent fun _ => k.head_dash,
      dropDash_append k.maybe_dash fun _ => k.head_brace,
      dropBrace_append k.maybe_brace fun _ hc => ⟨(k.head_text hc).1, (k.head_text hc).2.2⟩]
  have hlength : k.line.length - k.text.length = k.before.length := by
    rw [line, List.length_append]
    omega
  show (idValue? (dropBrace (dropDash (dropBlanks k.line)))).map _ = _
  rw [hrest, k.idValue?_text, Option.map_some, hlength]

end KeyLine

/-- **A key is found on a line** exactly if the line has the parts of one. The ID is its value, and
the characters before it are counted. -/
theorem keyOnLine?_eq_some_iff {line : List Char} {id : String} {n : Nat} :
    keyOnLine? line = some (id, n) ↔
      ∃ k : KeyLine, k.line = line ∧ String.ofList k.id = id ∧ k.before.length = n := by
  constructor
  · intro h
    obtain ⟨value, hvalue, heq⟩ := Option.map_eq_some_iff.1 h
    obtain ⟨rfl, rfl⟩ := Prod.mk.inj heq
    obtain ⟨k, htext, rfl⟩ := Key.exists_of_idValue? hvalue
    obtain ⟨indent, hindent, hline⟩ := exists_blanks line
    obtain ⟨dash, hdash, hentry⟩ := exists_dash (dropBlanks line)
    obtain ⟨brace, hbrace, hflow⟩ := exists_brace (dropDash (dropBlanks line))
    have hparts : indent ++ dash ++ brace ++ k.text = line := by
      rw [htext, List.append_assoc, ← hflow, List.append_assoc, ← hentry, ← hline]
    refine ⟨⟨k, indent, dash, brace, hindent, hdash, hbrace⟩, hparts, rfl, ?_⟩
    have hlength := congrArg List.length hparts
    rw [List.length_append] at hlength
    rw [← htext, ← hlength, Nat.add_sub_cancel]
    rfl
  · rintro ⟨k, rfl, rfl, rfl⟩
    exact k.keyOnLine?_line

/-! ## The lines of an ID -/

/-- The places where an ID is declared on lines, in order. -/
structure Places (lines : List (List Char)) (file id : String) (ps : List Position) : Prop where
  increasing : ps.Pairwise (·.line < ·.line)
  mem_iff : ∀ p, p ∈ ps ↔ ∃ (i : Nat) (k : KeyLine), lines[i]? = some k.line ∧
    String.ofList k.id = id ∧ p = ⟨file, i + 1, k.before.length + 1⟩

/-- What is found of an ID. -/
def placesOf (found : List (String × Position)) (id : String) : List Position :=
  (found.filter (·.1 = id)).map (·.2)

variable {lines : List (List Char)} {file id : String}

/-- An occurrence is what is found on a line, with the number of that line. -/
theorem mem_occurrences_iff {number : Nat} {o : String × Position} :
    o ∈ occurrences file number lines ↔ ∃ (i : Nat) (line : List Char) (n : Nat),
      lines[i]? = some line ∧ keyOnLine? line = some (o.1, n) ∧
        o.2 = ⟨file, number + i, n + 1⟩ := by
  induction lines generalizing number with
  | nil => simp [occurrences]
  | cons first lines ih =>
    have hcons : o ∈ occurrences file number (first :: lines) ↔
        (∃ n, keyOnLine? first = some (o.1, n) ∧ o.2 = ⟨file, number, n + 1⟩) ∨
          o ∈ occurrences file (number + 1) lines := by
      rw [occurrences]
      cases keyOnLine? first with
      | none => simp
      | some found => simp [Prod.ext_iff, eq_comm]
    rw [hcons, ih]
    constructor
    · rintro (⟨n, hkey, hplace⟩ | ⟨i, line, n, hline, hkey, hplace⟩)
      · exact ⟨0, first, n, rfl, hkey, hplace⟩
      · exact ⟨i + 1, line, n, hline, hkey, by rw [hplace, Nat.add_right_comm, Nat.add_assoc]⟩
    · rintro ⟨_ | i, line, n, hline, hkey, hplace⟩
      · obtain rfl : first = line := Option.some.inj hline
        exact .inl ⟨n, hkey, hplace⟩
      · refine .inr ⟨i, line, n, hline, hkey, ?_⟩
        rw [hplace, Nat.add_right_comm, Nat.add_assoc]

theorem pairwise_occurrences (file : String) (number : Nat) (lines : List (List Char)) :
    (occurrences file number lines).Pairwise (·.2.line < ·.2.line) := by
  induction lines generalizing number with
  | nil => exact List.Pairwise.nil
  | cons first lines ih =>
    rw [occurrences]
    split
    · exact ih _
    · refine List.pairwise_cons.2 ⟨fun o ho => ?_, ih _⟩
      obtain ⟨i, _, _, _, _, hplace⟩ := mem_occurrences_iff.1 ho
      rw [hplace]
      show number < number + 1 + i
      omega

/-- **What is found of an ID are its lines.** -/
theorem places_placesOf (lines : List (List Char)) (file id : String) :
    Places lines file id (placesOf (occurrences file 1 lines) id) := by
  constructor
  · exact List.pairwise_map.2 ((pairwise_occurrences file 1 lines).sublist List.filter_sublist)
  · intro p
    unfold placesOf
    rw [List.mem_map]
    constructor
    · rintro ⟨o, ho, rfl⟩
      obtain ⟨ho, hid⟩ := List.mem_filter.1 ho
      obtain ⟨i, line, n, hline, hkey, hplace⟩ := mem_occurrences_iff.1 ho
      obtain ⟨k, rfl, hk, rfl⟩ := keyOnLine?_eq_some_iff.1 hkey
      refine ⟨i, k, hline, hk.trans (of_decide_eq_true hid), ?_⟩
      rw [hplace, Nat.add_comm 1]
    · rintro ⟨i, k, hline, hid, rfl⟩
      refine ⟨(id, _), List.mem_filter.2 ⟨mem_occurrences_iff.2 ?_, decide_eq_true rfl⟩, rfl⟩
      refine ⟨i, k.line, k.before.length, hline, ?_, by rw [Nat.add_comm 1]⟩
      rw [k.keyOnLine?_line, hid]

/-! ## Pairing -/

theorem takeFirst_fst (id : String) (found : List (String × Position)) :
    (takeFirst id found).1 = (placesOf found id)[0]? := by
  induction found with
  | nil => rfl
  | cons o found ih =>
    rw [takeFirst]
    by_cases hid : o.1 = id
    · simp [placesOf, hid]
    · simpa [placesOf, hid] using ih

/-- Taking an occurrence of an ID leaves those of all others. -/
theorem placesOf_takeFirst (id id' : String) (found : List (String × Position)) :
    placesOf (takeFirst id found).2 id' =
      if id = id' then (placesOf found id').tail else placesOf found id' := by
  induction found with
  | nil => simp [takeFirst, placesOf]
  | cons o found ih =>
    rw [takeFirst]
    by_cases hid : o.1 = id
    · subst hid
      by_cases hid' : o.1 = id' <;> simp [placesOf, hid']
    · rw [if_neg hid]
      by_cases hid' : o.1 = id'
      · have hne : id ≠ id' := fun h => hid (hid'.trans h.symm)
        simpa [placesOf, hid', hne] using ih
      · simpa [placesOf, hid'] using ih

/-- **An ID in a list gets the place that is its turn.** -/
theorem getElem?_pair (found : List (String × Position)) (ids : List String) (i : Nat) :
    (pair found ids)[i]? = ids[i]?.map fun id => (placesOf found id)[(ids.take i).count id]? := by
  induction ids generalizing found i with
  | nil => rfl
  | cons first ids ih =>
    rw [pair]
    cases i with
    | zero => simp [takeFirst_fst]
    | succ i =>
      simp only [List.getElem?_cons_succ, ih, List.take_succ_cons, List.count_cons,
        placesOf_takeFirst]
      congr 1
      funext id
      by_cases hid : first = id <;> simp [hid]

/-- The entries of an ID in a list. -/
def entriesOf (ids : List String) (entries : List (Option Position)) (id : String) :
    List (Option Position) :=
  ((ids.zip entries).filter (·.1 = id)).map (·.2)

/-- The entries of an ID depend on how often it is in the list, and on nothing else there. -/
theorem entriesOf_pair (found : List (String × Position)) (ids : List String) (id : String) :
    entriesOf ids (pair found ids) id =
      (List.range (ids.count id)).map fun k => (placesOf found id)[k]? := by
  induction ids generalizing found with
  | nil => rfl
  | cons first ids ih =>
    have hrest := ih (takeFirst first found).2
    rw [placesOf_takeFirst] at hrest
    unfold entriesOf at hrest ⊢
    rw [pair, List.zip_cons_cons, List.count_cons]
    by_cases hid : first = id
    · subst hid
      rw [List.filter_cons_of_pos (by simp), List.map_cons, hrest, takeFirst_fst]
      simp [List.range_succ_eq_map]
    · rw [List.filter_cons_of_neg (by simpa using hid), hrest]
      simp [hid]

/-! ## All entries -/

variable {source : String} {ids : List String}

/-- An entry with a place is that of a line of its ID. -/
theorem exists_of_getElem?_locate {i : Nat} {p : Position}
    (h : (locate source file ids)[i]? = some (some p)) : ∃ id, ids[i]? = some id ∧
      (placesOf (occurrences file 1 (Text.lines source)) id)[(ids.take i).count id]? = some p := by
  rw [locate, getElem?_pair] at h
  obtain ⟨id, hid, hp⟩ := Option.map_eq_some_iff.1 h
  exact ⟨id, hid, hp⟩

/-- Later entries of an ID are on later lines. -/
theorem line_lt_of_same_id {i j : Nat} {id : String} {p q : Position} (hij : i < j)
    (hi : ids[i]? = some id) (hj : ids[j]? = some id)
    (hp : (locate source file ids)[i]? = some (some p))
    (hq : (locate source file ids)[j]? = some (some q)) : p.line < q.line := by
  obtain ⟨id', hid', hp⟩ := exists_of_getElem?_locate hp
  obtain ⟨id'', hid'', hq⟩ := exists_of_getElem?_locate hq
  obtain rfl : id = id' := Option.some.inj (hi.symm.trans hid')
  obtain rfl : id = id'' := Option.some.inj (hj.symm.trans hid'')
  obtain ⟨hplt, rfl⟩ := List.getElem?_eq_some_iff.1 hp
  obtain ⟨hqlt, rfl⟩ := List.getElem?_eq_some_iff.1 hq
  apply List.pairwise_iff_getElem.1 (places_placesOf (Text.lines source) file id).increasing
  -- the ID itself is counted between the two
  have htake : (ids.take (i + 1)).count id ≤ (ids.take j).count id :=
    (List.take_sublist_take_left hij).count_le id
  rw [List.take_add_one, hi] at htake
  simp only [Option.toList_some, List.count_append, List.count_singleton_self] at htake
  omega

/-- A line gives its place to one ID only. -/
theorem Places.id_eq {id' : String} {ps qs : List Position} (hps : Places lines file id ps)
    (hqs : Places lines file id' qs) {p q : Position} (hp : p ∈ ps) (hq : q ∈ qs)
    (hline : p.line = q.line) : id = id' := by
  obtain ⟨i, k, hi, rfl, rfl⟩ := (hps.mem_iff p).1 hp
  obtain ⟨j, l, hj, rfl, rfl⟩ := (hqs.mem_iff q).1 hq
  obtain rfl : i = j := Nat.succ.inj hline
  have hsame : k.line = l.line := Option.some.inj (hi.symm.trans hj)
  have hkeys := k.keyOnLine?_line
  rw [hsame, l.keyOnLine?_line] at hkeys
  exact (Prod.mk.inj (Option.some.inj hkeys)).1.symm

/-- No line gives its place to two entries. -/
theorem line_ne {i j : Nat} {p q : Position} (hij : i < j)
    (hp : (locate source file ids)[i]? = some (some p))
    (hq : (locate source file ids)[j]? = some (some q)) : p.line ≠ q.line := by
  intro hline
  obtain ⟨id, hi, hmem⟩ := exists_of_getElem?_locate hp
  obtain ⟨id', hj, hmem'⟩ := exists_of_getElem?_locate hq
  obtain rfl := (places_placesOf (Text.lines source) file id).id_eq (places_placesOf _ file id')
    (List.mem_of_getElem? hmem) (List.mem_of_getElem? hmem') hline
  exact Nat.ne_of_lt (line_lt_of_same_id hij hi hj hp hq) hline

/-- **IDs are paired with lines in order.** The entry of an ID that comes the first time in the list
has the first line with its key, the entry of the second time the second one, and so on, as long as
there are such lines. So later entries of an ID are on later lines, no line is used twice, and the
entries of an ID are the same in every list in which it is as often. -/
theorem locate_pairs (source file : String) (ids : List String) :
    (locate source file ids).length = ids.length ∧
    (∃ lines, Text.Lines source.toList lines ∧ ∀ id, ∃ ps, Places lines file id ps ∧
      ∀ i, ids[i]? = some id →
        (locate source file ids)[i]? = some ps[(ids.take i).count id]? ∧
        ((locate source file ids)[i]? = some none ↔ ps.length < (ids.take i).count id + 1)) ∧
    (∀ (i j : Nat) (id : String) (p q : Position), i < j → ids[i]? = some id →
      ids[j]? = some id → (locate source file ids)[i]? = some (some p) →
      (locate source file ids)[j]? = some (some q) → p.line < q.line) ∧
    (∀ (i j : Nat) (p q : Position), i ≠ j → (locate source file ids)[i]? = some (some p) →
      (locate source file ids)[j]? = some (some q) → p.line ≠ q.line) ∧
    ∀ (ids' : List String) (id : String), ids'.count id = ids.count id →
      entriesOf ids' (locate source file ids') id =
        entriesOf ids (locate source file ids) id := by
  refine ⟨length_pair _ ids, ⟨Text.lines source, Text.lines_iff.2 rfl, fun id => ?_⟩, ?_, ?_, ?_⟩
  · refine ⟨_, places_placesOf (Text.lines source) file id, fun i hi => ?_⟩
    have hentry : (locate source file ids)[i]? = some
        (placesOf (occurrences file 1 (Text.lines source)) id)[(ids.take i).count id]? := by
      rw [locate, getElem?_pair, hi]
      rfl
    refine ⟨hentry, ?_⟩
    rw [hentry, Option.some.injEq, List.getElem?_eq_none_iff, Nat.lt_succ_iff]
  · intro i j id p q hij hi hj hp hq
    exact line_lt_of_same_id hij hi hj hp hq
  · intro i j p q hij hp hq
    rcases Nat.lt_or_gt_of_ne hij with hlt | hgt
    · exact line_ne hlt hp hq
    · exact (line_ne hgt hq hp).symm
  · intro ids' id hcount
    rw [locate, locate, entriesOf_pair, entriesOf_pair, hcount]

/-- Two lines for one ID, and between them one that is indented by a wide blank. Two lines end with
a carriage return. -/
def sample : String := "- id: a\r\n\u3000- \x7b \"id\" : 'b' \x7d\r\n  id: a#\n"

/-- Indentation is counted in characters, and the end of a line does not belong to its ID. -/
theorem locate_pairs_sample :
    locate sample "s.yaml" ["a", "b", "a", "a"] =
      [some ⟨"s.yaml", 1, 3⟩, some ⟨"s.yaml", 2, 6⟩, some ⟨"s.yaml", 3, 3⟩, none] ∧
    ∃ lines, Text.Lines sample.toList lines ∧
      Places lines "s.yaml" "a" [⟨"s.yaml", 1, 3⟩, ⟨"s.yaml", 3, 3⟩] := by
  have hlocate : locate sample "s.yaml" ["a", "b", "a", "a"] =
      [some ⟨"s.yaml", 1, 3⟩, some ⟨"s.yaml", 2, 6⟩, some ⟨"s.yaml", 3, 3⟩, none] := by
    decide +kernel
  obtain ⟨_, ⟨lines, hlines, hpairs⟩, _⟩ := locate_pairs sample "s.yaml" ["a", "b", "a", "a"]
  obtain ⟨ps, hps, hentries⟩ := hpairs "a"
  rw [hlocate] at hentries
  have hfirst : some ⟨"s.yaml", 1, 3⟩ = ps[0]? := Option.some.inj (hentries 0 rfl).1
  have hsecond : some ⟨"s.yaml", 3, 3⟩ = ps[1]? := Option.some.inj (hentries 2 rfl).1
  have hno : none = ps[2]? := Option.some.inj (hentries 3 rfl).1
  have hlength : ps.length ≤ 2 := List.getElem?_eq_none_iff.1 hno.symm
  obtain rfl : ps = [⟨"s.yaml", 1, 3⟩, ⟨"s.yaml", 3, 3⟩] := by
    refine List.ext_getElem? fun i => ?_
    match i with
    | 0 => exact hfirst.symm
    | 1 => exact hsecond.symm
    | i + 2 => exact List.getElem?_eq_none (Nat.le_trans hlength (Nat.le_add_left 2 i))
  exact ⟨hlocate, lines, hlines, hps⟩

end ArchSpec.Locate
