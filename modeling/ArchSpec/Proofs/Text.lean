import ArchSpec.Text.Basic

/-!
# Beginnings, pieces, lines and digits of texts

* `begins_iff`, `beginsWith_iff` — texts that begin with another one.
* `takeWhile_append_of_head?` — texts that begin with characters of a kind.
* `splitOn_append`, `splitOn_joinSep` — the pieces of texts that are put together.
* `all_splitOn_iff` — texts all of whose pieces pass a test.
* `Lines`, `lines_iff` — the lines of a text; `toList_ofLines` — a text of given lines.
* `whiteSpace`, `isBlank_iff` — blank characters.
* `number?_ten`, `exists_toDigits_iff` — decimal numbers, which have no zero in front.
* `sortedTexts` — a list of texts in order.
-/

namespace ArchSpec.Text

/-! ## Beginnings -/

/-- What follows a beginning is a text of its own. -/
theorem begins_iff (start s : String) :
    (∃ rest, s.toList = start.toList ++ rest) ↔ ∃ rest, s = start ++ rest := by
  constructor
  · rintro ⟨rest, hrest⟩
    refine ⟨String.ofList rest, String.toList_inj.1 ?_⟩
    rw [hrest, String.toList_append, String.toList_ofList]
  · rintro ⟨rest, rfl⟩
    exact ⟨rest.toList, String.toList_append⟩

theorem beginsWith_iff {start s : String} :
    beginsWith start s = true ↔ ∃ rest, s = start ++ rest := by
  rw [beginsWith, List.isPrefixOf_iff_prefix, ← begins_iff]
  simp only [List.IsPrefix, eq_comm]

variable {test : Char → Bool} {cs rest : List Char}

/-- Characters that pass a test are all that pass it, if the next one does not. -/
theorem takeWhile_append_of_head? (hcs : ∀ c ∈ cs, test c = true)
    (hrest : ∀ c, rest.head? = some c → test c = false) : (cs ++ rest).takeWhile test = cs := by
  rw [List.takeWhile_append_of_pos hcs]
  cases rest with
  | nil => exact List.append_nil cs
  | cons c rest => rw [List.takeWhile_cons_of_neg (by simp [hrest c rfl]), List.append_nil]

theorem dropWhile_append_of_head? (hcs : ∀ c ∈ cs, test c = true)
    (hrest : ∀ c, rest.head? = some c → test c = false) : (cs ++ rest).dropWhile test = rest := by
  rw [List.dropWhile_append_of_pos hcs]
  cases rest with
  | nil => rfl
  | cons c rest => rw [List.dropWhile_cons_of_neg (by simp [hrest c rfl])]

/-! ## Pieces -/

theorem splitOn_append (sep : Char) (a b : List Char) :
    splitOn sep (a ++ sep :: b) = splitOn sep a ++ splitOn sep b := by
  induction a with
  | nil => simp [splitOn]
  | cons c a ih =>
    rw [List.cons_append, splitOn, splitOn, ih]
    split
    · rfl
    · cases hs : splitOn sep a with
      | nil => exact absurd hs (splitOn_ne_nil sep a)
      | cons piece more => rfl

/-- A text without separators is one piece. -/
theorem splitOn_of_not_mem {sep : Char} {cs : List Char} (h : sep ∉ cs) :
    splitOn sep cs = [cs] := by
  induction cs with
  | nil => rfl
  | cons c cs ih =>
    have hc : c ≠ sep := fun e => h (e ▸ List.mem_cons_self)
    rw [splitOn, if_neg hc, ih fun hm => h (List.mem_cons_of_mem _ hm)]

theorem not_mem_of_mem_splitOn {sep : Char} {cs piece : List Char}
    (h : piece ∈ splitOn sep cs) : sep ∉ piece := by
  induction cs generalizing piece with
  | nil =>
    rw [splitOn, List.mem_singleton] at h
    rw [h]
    exact List.not_mem_nil
  | cons c cs ih =>
    rw [splitOn] at h
    split at h
    · rcases List.mem_cons.1 h with rfl | h
      · exact List.not_mem_nil
      · exact ih h
    · rename_i hc
      cases hs : splitOn sep cs with
      | nil => exact absurd hs (splitOn_ne_nil sep cs)
      | cons first more =>
        rw [hs] at h ih
        rcases List.mem_cons.1 h with rfl | h
        · intro hm
          rcases List.mem_cons.1 hm with rfl | hm
          · exact hc rfl
          · exact ih List.mem_cons_self hm
        · exact ih (List.mem_cons_of_mem _ h)

/-- Pieces without separators are the pieces of the text that they are joined to. -/
theorem splitOn_joinSep {sep : Char} {pieces : List (List Char)} (hne : pieces ≠ [])
    (h : ∀ piece ∈ pieces, sep ∉ piece) : splitOn sep (joinSep sep pieces) = pieces := by
  induction pieces with
  | nil => exact absurd rfl hne
  | cons piece more ih =>
    have hpiece := splitOn_of_not_mem (h piece List.mem_cons_self)
    cases more with
    | nil => exact hpiece
    | cons next more =>
      have hmore := ih (List.cons_ne_nil _ _) fun q hq => h q (List.mem_cons_of_mem _ hq)
      rw [joinSep, splitOn_append, hpiece, hmore]
      · rfl
      · exact List.cons_ne_nil _ _

theorem joinSep_cons (sep : Char) (piece : List Char) (more : List (List Char)) :
    joinSep sep (piece :: more) = piece ++ more.flatMap (sep :: ·) := by
  induction more generalizing piece with
  | nil => simp [joinSep]
  | cons next more ih => simp [joinSep, ih]

theorem not_mem_joinSep {sep c : Char} (hc : c ≠ sep) {pieces : List (List Char)}
    (h : ∀ piece ∈ pieces, c ∉ piece) : c ∉ joinSep sep pieces := by
  induction pieces with
  | nil => exact List.not_mem_nil
  | cons piece more ih =>
    obtain ⟨hpiece, hmore⟩ := List.forall_mem_cons.1 h
    cases more with
    | nil => exact hpiece
    | cons next more => simpa [joinSep, hpiece, hc] using ih hmore

/-- What is put behind a text is put behind its last piece. -/
theorem splitOn_append_of_not_mem {sep : Char} {b : List Char} (h : sep ∉ b) (a : List Char) :
    ∃ others last, splitOn sep (a ++ b) = others ++ [last ++ b] := by
  induction a with
  | nil => exact ⟨[], [], splitOn_of_not_mem h⟩
  | cons c a ih =>
    obtain ⟨others, last, hsplit⟩ := ih
    rw [List.cons_append, splitOn, hsplit]
    split
    · exact ⟨[] :: others, last, rfl⟩
    · cases others with
      | nil => exact ⟨[], c :: last, rfl⟩
      | cons first others => exact ⟨(c :: first) :: others, last, rfl⟩

/-- All pieces of a text pass a test exactly if the text is joined from such pieces, when a piece
that passes has no separators. -/
theorem all_splitOn_iff {sep : Char} {test : List Char → Bool}
    (hsep : ∀ piece, test piece = true → sep ∉ piece) {cs : List Char} :
    (splitOn sep cs).all test = true ↔
      ∃ pieces, pieces ≠ [] ∧ (∀ piece ∈ pieces, test piece = true) ∧ cs = joinSep sep pieces := by
  rw [List.all_eq_true]
  constructor
  · intro h
    exact ⟨splitOn sep cs, splitOn_ne_nil sep cs, h, (joinSep_splitOn sep cs).symm⟩
  · rintro ⟨pieces, hne, h, rfl⟩
    rwa [splitOn_joinSep hne fun piece hpiece => hsep piece (h piece hpiece)]

theorem cut_of_not_mem {sep : Char} {cs : List Char} (h : sep ∉ cs) : cut sep cs = (cs, none) := by
  induction cs with
  | nil => rfl
  | cons c cs ih =>
    have hc : c ≠ sep := fun e => h (e ▸ List.mem_cons_self)
    rw [cut, if_neg hc, ih fun hm => h (List.mem_cons_of_mem _ hm)]

/-! ## Lines -/

/-- The lines of a text. A line ends at a line feed, which a carriage return may precede; what is
left after the last line feed is a line if it is not empty. -/
inductive Lines : List Char → List (List Char) → Prop where
  | nil : Lines [] []
  | last {line : List Char} (hne : line ≠ []) (h : '\n' ∉ line) : Lines line [line]
  | feed {line rest : List Char} {ls : List (List Char)} (h : '\n' ∉ line)
    (hend : line.getLast? ≠ some '\r') (hrest : Lines rest ls) :
    Lines (line ++ '\n' :: rest) (line :: ls)
  | returnFeed {line rest : List Char} {ls : List (List Char)} (h : '\n' ∉ line)
    (hrest : Lines rest ls) : Lines (line ++ '\r' :: '\n' :: rest) (line :: ls)

theorem lines_of_not_mem {cs : List Char} (h : '\n' ∉ cs) :
    lines (String.ofList cs) = if cs = [] then [] else [cs] := by
  unfold lines
  rw [String.toList_ofList, splitOn_of_not_mem h]
  cases cs <;> rfl

theorem lines_append {line : List Char} (h : '\n' ∉ line) (rest : List Char) :
    lines (String.ofList (line ++ '\n' :: rest)) =
      dropReturn line :: lines (String.ofList rest) := by
  unfold lines
  rw [String.toList_ofList, String.toList_ofList, splitOn_append, splitOn_of_not_mem h]
  obtain ⟨piece, more, hrest⟩ := List.exists_cons_of_ne_nil (splitOn_ne_nil '\n' rest)
  simp only [hrest, List.singleton_append, List.dropLast_cons_cons, List.getLast?_cons_cons]
  split <;> rfl

/-- A line that a line feed ends, with or without a carriage return before it. -/
theorem Lines.ended {line rest : List Char} {ls : List (List Char)} (h : '\n' ∉ line)
    (hrest : Lines rest ls) : Lines (line ++ '\n' :: rest) (dropReturn line :: ls) := by
  unfold dropReturn
  split
  · rename_i hend
    obtain ⟨front, rfl⟩ := List.getLast?_eq_some_iff.1 hend
    rw [List.dropLast_concat, List.append_assoc]
    exact .returnFeed (fun hmem => h (List.mem_append_left _ hmem)) hrest
  · rename_i hend
    exact .feed h hend hrest

theorem lines_joinSep : ∀ {pieces : List (List Char)}, (∀ piece ∈ pieces, '\n' ∉ piece) →
    Lines (joinSep '\n' pieces) (lines (String.ofList (joinSep '\n' pieces)))
  | [], _ => .nil
  | [last], h => by
    have hlast := h last List.mem_cons_self
    rw [joinSep, lines_of_not_mem hlast]
    split
    · rename_i hnil
      rw [hnil]
      exact .nil
    · rename_i hne
      exact .last hne hlast
  | piece :: next :: more, h => by
    obtain ⟨hpiece, hmore⟩ := List.forall_mem_cons.1 h
    rw [joinSep, lines_append hpiece]
    · exact (lines_joinSep hmore).ended hpiece
    · exact List.cons_ne_nil _ _

theorem Lines.eq_lines {cs : List Char} {ls : List (List Char)} (h : Lines cs ls) :
    ls = lines (String.ofList cs) := by
  induction h with
  | nil => rfl
  | last hne h => rw [lines_of_not_mem h, if_neg hne]
  | feed h hend _ ih => rw [lines_append h, ← ih, dropReturn, if_neg hend]
  | @returnFeed line rest ls h _ ih =>
    -- the carriage return is a character of the piece that is cut off
    have hpiece : '\n' ∉ line ++ ['\r'] := by simpa using h
    have hcut := lines_append hpiece rest
    rw [List.append_assoc, List.singleton_append, ← ih] at hcut
    rw [hcut]
    simp [dropReturn]

/-- **A text is cut into its lines.** -/
theorem lines_iff {s : String} {ls : List (List Char)} : Lines s.toList ls ↔ ls = lines s := by
  constructor
  · intro h
    simpa using h.eq_lines
  · rintro rfl
    have h := lines_joinSep fun piece (hpiece : piece ∈ splitOn '\n' s.toList) =>
      not_mem_of_mem_splitOn hpiece
    rwa [joinSep_splitOn, String.ofList_toList] at h

/-- A text that is put together from lines has the characters of each and a line feed behind it. -/
theorem toList_ofLines (ls : List String) : (String.join (ls.map (· ++ "\n"))).toList =
    ls.flatMap fun line => line.toList ++ ['\n'] := by
  simp [String.toList_join, List.flatMap_map]

/-! ## Blanks -/

/-- The characters with the property White_Space. -/
def whiteSpace : List Char :=
  ['\t', '\n', '\x0b', '\x0c', '\r', ' ', '\x85', '\xa0', '\u1680', '\u2000', '\u2001', '\u2002',
    '\u2003', '\u2004', '\u2005', '\u2006', '\u2007', '\u2008', '\u2009', '\u200a', '\u2028',
    '\u2029', '\u202f', '\u205f', '\u3000']

theorem isBlank_iff {c : Char} : isBlank c = true ↔ c ∈ whiteSpace := by
  constructor
  · intro h
    have hcode : c.toNat ∈ whiteSpace.map Char.toNat := by
      simp only [isBlank, blankRanges, List.any_cons, List.any_nil, Bool.or_eq_true,
        Bool.and_eq_true, decide_eq_true_eq, Bool.or_false] at h
      simp only [whiteSpace, List.map_cons, List.map_nil, List.mem_cons, List.not_mem_nil, or_false,
        Char.reduceToNat]
      omega
    obtain ⟨d, hd, heq⟩ := List.mem_map.1 hcode
    exact Char.toNat_inj.1 heq ▸ hd
  · have hall : whiteSpace.all isBlank = true := by decide
    exact List.all_eq_true.1 hall c

/-! ## Digits -/

theorem digit_bounds {c : Char} (h : c.isDigit = true) : 48 ≤ c.toNat ∧ c.toNat ≤ 57 := by
  simpa [Char.isDigit, UInt32.le_iff_toNat_le] using h

theorem digitValue?_of_isDigit {c : Char} (h : c.isDigit = true) :
    digitValue? c = some (c.toNat - 48) := by
  unfold digitValue?
  exact if_pos h

/-- Digits are read as the number that they write. -/
theorem number?_ten {cs : List Char} (hne : cs ≠ []) (h : ∀ c ∈ cs, c.isDigit = true) :
    number? 10 cs = some (Nat.ofDigitChars 10 cs 0) := by
  unfold number?
  rw [if_neg (by simpa using hne)]
  clear hne
  -- the digits read so far
  generalize 0 = n
  induction cs generalizing n with
  | nil => rfl
  | cons c cs ih =>
    obtain ⟨hc, hcs⟩ := List.forall_mem_cons.1 h
    have hlt : c.toNat - 48 < 10 := by have := digit_bounds hc; omega
    rw [List.foldl_cons, digitValue?_of_isDigit hc, Nat.ofDigitChars_cons]
    simp only [hlt, if_true]
    rw [ih hcs, Nat.mul_comm]
    rfl

/-- Only the number zero is written with a zero in front. -/
theorem toDigits_eq_zero_cons {n : Nat} {ds : List Char} (h : Nat.toDigits 10 n = '0' :: ds) :
    n = 0 ∧ ds = [] := by
  induction n using Nat.strongRecOn generalizing ds with
  | _ n ih =>
    rw [Nat.toDigits_eq_if (by omega)] at h
    split at h
    · rename_i hlt
      have hzero : ∀ k < 10, Nat.digitChar k = '0' → k = 0 := by decide
      exact ⟨hzero n hlt (List.cons.inj h).1, (List.cons.inj h).2.symm⟩
    · cases hd : Nat.toDigits 10 (n / 10) with
      | nil => exact absurd hd Nat.toDigits_ne_nil
      | cons c cs =>
        rw [hd] at h
        have hc : c = '0' := (List.cons.inj h).1
        have := (ih (n / 10) (by omega) (hc ▸ hd)).1
        omega

theorem toDigits_digit {c : Char} (h : c.isDigit = true) :
    Nat.toDigits 10 (c.toNat - 48) = [c] := by
  have hbounds := digit_bounds h
  rw [Nat.toDigits_of_lt_base (by omega)]
  refine congrArg (fun d => [d]) (Char.toNat_inj.1 ?_)
  rw [Nat.toNat_digitChar_of_lt_ten (by omega)]
  omega

/-- Digits behind those of a number that is not zero write a number in turn. -/
theorem toDigits_append {n : Nat} (hn : 0 < n) {cs : List Char} (h : ∀ c ∈ cs, c.isDigit = true) :
    Nat.toDigits 10 n ++ cs = Nat.toDigits 10 (Nat.ofDigitChars 10 cs n) := by
  induction cs generalizing n with
  | nil => simp
  | cons c cs ih =>
    obtain ⟨hc, hcs⟩ := List.forall_mem_cons.1 h
    have hlt : c.toNat - 48 < 10 := by have := digit_bounds hc; omega
    have hlast := Nat.toDigits_append_toDigits (b := 10) (by decide) hn hlt
    rw [toDigits_digit hc] at hlast
    rw [Nat.ofDigitChars_cons, ← ih (by omega) hcs, ← List.singleton_append, ← List.append_assoc,
      hlast]
    rfl

/-- **Digits are those of a number exactly if there is no zero in front of others.** -/
theorem exists_toDigits_iff {cs : List Char} : (∃ n, cs = Nat.toDigits 10 n) ↔
    cs ≠ [] ∧ (∀ c ∈ cs, c.isDigit = true) ∧ (cs.head? = some '0' → cs = ['0']) := by
  constructor
  · rintro ⟨n, rfl⟩
    refine ⟨Nat.toDigits_ne_nil, fun c hc => ?_, fun hzero => ?_⟩
    · exact Nat.isDigit_of_mem_toDigits (by decide) (by decide) hc
    · obtain ⟨ds, hds⟩ := List.head?_eq_some_iff.1 hzero
      rw [hds, (toDigits_eq_zero_cons hds).2]
  · rintro ⟨hne, hdigits, hzero⟩
    obtain ⟨c, ds, rfl⟩ := List.exists_cons_of_ne_nil hne
    obtain ⟨hc, hds⟩ := List.forall_mem_cons.1 hdigits
    by_cases hpos : 0 < c.toNat - 48
    · refine ⟨Nat.ofDigitChars 10 ds (c.toNat - 48), ?_⟩
      rw [← toDigits_append hpos hds, toDigits_digit hc]
      rfl
    · have hc0 : c = '0' := by
        have := digit_bounds hc
        exact Char.toNat_inj.1 (show c.toNat = 48 by omega)
      subst hc0
      exact ⟨0, by rw [hzero rfl]; rfl⟩

end ArchSpec.Text

namespace ArchSpec

/-! ## Lists of texts in order -/

/-- A list of texts in order. -/
def sortedTexts (xs : List String) : List String := xs.mergeSort fun a b => decide (a ≤ b)

theorem sortedTexts_perm (xs : List String) : (sortedTexts xs).Perm xs := List.mergeSort_perm _ _

theorem pairwise_sortedTexts (xs : List String) : (sortedTexts xs).Pairwise (· ≤ ·) := by
  have h : (sortedTexts xs).Pairwise fun a b => decide (a ≤ b) = true := by
    apply List.pairwise_mergeSort
    · intro a b c hab hbc
      rw [decide_eq_true_eq] at hab hbc ⊢
      exact String.le_trans hab hbc
    · intro a b
      simpa using String.le_total a b
  simp only [decide_eq_true_eq] at h
  exact h

end ArchSpec
