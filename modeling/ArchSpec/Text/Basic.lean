/-!
# Cutting and joining text

The small text operations that paths, bindings, documents and reports share. They work on lists of
characters, where a cut is ordinary recursion; the `String` forms only convert.

* `splitOn` — the pieces between separators; `joinSep_splitOn` puts them together again.
* `cut` — the text before the first separator and the text after it.
* `lines` — lines as positions count them: a line feed ends a line, a carriage return before it
  belongs to the ending.
* `isBlank` — the characters that position recovery skips, whatever the language of the document.
-/

namespace ArchSpec.Text

/-- The pieces of `cs` between the characters `sep`; there is always one piece at least. -/
def splitOn (sep : Char) : List Char → List (List Char)
  | [] => [[]]
  | c :: rest =>
    if c = sep then [] :: splitOn sep rest
    else match splitOn sep rest with
      | [] => [[c]]
      | piece :: more => (c :: piece) :: more

/-- Pieces joined by `sep`. -/
def joinSep (sep : Char) : List (List Char) → List Char
  | [] => []
  | [piece] => piece
  | piece :: more => piece ++ sep :: joinSep sep more

theorem splitOn_ne_nil (sep : Char) (cs : List Char) : splitOn sep cs ≠ [] := by
  cases cs with
  | nil => simp [splitOn]
  | cons c rest =>
    unfold splitOn
    split
    · simp
    · split <;> simp

theorem joinSep_cons_cons (sep c : Char) (p : List Char) (ps : List (List Char)) :
    joinSep sep ((c :: p) :: ps) = c :: joinSep sep (p :: ps) := by
  cases ps <;> simp [joinSep]

/-- Cutting at a separator and joining with it loses nothing. -/
theorem joinSep_splitOn (sep : Char) (cs : List Char) : joinSep sep (splitOn sep cs) = cs := by
  induction cs with
  | nil => rfl
  | cons c rest ih =>
    unfold splitOn
    cases hs : splitOn sep rest with
    | nil => exact absurd hs (splitOn_ne_nil sep rest)
    | cons p ps =>
      rw [hs] at ih
      by_cases hc : c = sep
      · rw [if_pos hc, joinSep, List.nil_append, ih, hc]
        simp
      · simp [hc, joinSep_cons_cons, ih]

/-- The pieces of a text between the characters `sep`. -/
def split (sep : Char) (s : String) : List String := (splitOn sep s.toList).map String.ofList

/-- The characters before the first `sep`, and those after it if there is one. -/
def cut (sep : Char) : List Char → List Char × Option (List Char)
  | [] => ([], none)
  | c :: rest =>
    if c = sep then ([], some rest)
    else ((c :: (cut sep rest).1), (cut sep rest).2)

theorem cut_append (sep : Char) (p rest : List Char) (h : sep ∉ p) :
    cut sep (p ++ sep :: rest) = (p, some rest) := by
  induction p with
  | nil => simp [cut]
  | cons c p ih =>
    have hc : c ≠ sep := fun e => h (e ▸ List.mem_cons_self)
    simp [cut, hc, ih (fun hm => h (List.mem_cons_of_mem _ hm))]

/-- What a cut means: the first part is free of the separator, and the two parts give the text. -/
theorem cut_spec (sep : Char) (cs : List Char) :
    sep ∉ (cut sep cs).1 ∧
      cs = match (cut sep cs).2 with
        | none => (cut sep cs).1
        | some rest => (cut sep cs).1 ++ sep :: rest := by
  induction cs with
  | nil => simp [cut]
  | cons c rest ih =>
    unfold cut
    by_cases hc : c = sep
    · simp [hc]
    · refine ⟨?_, ?_⟩
      · simp [hc, ih.1, Ne.symm hc]
      · have h2 := ih.2
        cases hr : (cut sep rest).2 with
        | none => rw [hr] at h2; simp [hc, ← h2]
        | some t => rw [hr] at h2; simp [hc, ← h2]

theorem cut_eq_some {sep : Char} {cs p rest : List Char} (h : cut sep cs = (p, some rest)) :
    sep ∉ p ∧ cs = p ++ sep :: rest := by
  have hspec := cut_spec sep cs
  rw [h] at hspec
  exact hspec

def beginsWith (start s : String) : Bool := start.toList.isPrefixOf s.toList

def containsList (part : List Char) : List Char → Bool
  | [] => part.isEmpty
  | c :: rest => part.isPrefixOf (c :: rest) || containsList part rest

def contains (part s : String) : Bool := containsList part.toList s.toList

/-- Replace every occurrence of the non-empty `part` from the left; `skip` counts the characters
of the occurrence being passed over. -/
def replaceList (part new : List Char) : List Char → Nat → List Char
  | [], _ => []
  | _ :: rest, skip + 1 => replaceList part new rest skip
  | c :: rest, 0 =>
    if part.isPrefixOf (c :: rest) then new ++ replaceList part new rest (part.length - 1)
    else c :: replaceList part new rest 0

/-- Replace every occurrence of the non-empty `part` in `s` by `new`. -/
def replace (part new s : String) : String :=
  String.ofList (replaceList part.toList new.toList s.toList 0)

/-- A line without the carriage return that ends it, if it ends in one. -/
def dropReturn (line : List Char) : List Char :=
  if line.getLast? = some '\r' then line.dropLast else line

/-- The lines of a text: cut at line feeds, without a carriage return before the cut. -/
def lines (s : String) : List (List Char) :=
  let pieces := splitOn '\n' s.toList
  let ended := pieces.dropLast.map dropReturn
  match pieces.getLast? with
  | none => ended
  | some [] => ended
  | some last => ended ++ [last]

def join (sep : String) (pieces : List String) : String := String.intercalate sep pieces

def times (n : Nat) (s : String) : String := String.join (List.replicate n s)

/-- The first character of a non-empty text. -/
def first? (s : String) : Option Char := s.toList.head?

/-- The ranges of the characters with the property White_Space. -/
def blankRanges : List (Nat × Nat) :=
  [(0x09, 0x0D), (0x20, 0x20), (0x85, 0x85), (0xA0, 0xA0), (0x1680, 0x1680), (0x2000, 0x200A),
   (0x2028, 0x2029), (0x202F, 0x202F), (0x205F, 0x205F), (0x3000, 0x3000)]

/-- Whether `c` has the property White_Space. -/
def isBlank (c : Char) : Bool := blankRanges.any fun r => r.1 ≤ c.toNat && c.toNat ≤ r.2

/-- Whether `c` is one of `0` to `9`. -/
def isDigit (c : Char) : Bool := '0' ≤ c && c ≤ '9'

/-- The value of a digit of a base up to 36, letters counting in either case. -/
def digitValue? (c : Char) : Option Nat :=
  if '0' ≤ c && c ≤ '9' then some (c.toNat - 48)
  else if 'a' ≤ c && c ≤ 'z' then some (c.toNat - 87)
  else if 'A' ≤ c && c ≤ 'Z' then some (c.toNat - 55)
  else none

/-- The number written by `cs` in base `base`, if every character is one of its digits. -/
def number? (base : Nat) (cs : List Char) : Option Nat :=
  if cs.isEmpty then none
  else cs.foldl (fun acc c => match acc, digitValue? c with
    | some n, some d => if d < base then some (n * base + d) else none
    | _, _ => none) (some 0)

end ArchSpec.Text
