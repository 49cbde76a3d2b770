import Mathlib.Data.List.Basic
import ArchSpec.Proofs.Text
import ArchSpec.Specification.Schema

/-!
# Pointers into documents

A pointer is empty, or a list of tokens with a slash before each. Inside a token a slash is written
`~1` and a tilde `~0`. A token leads into an object by a key, or into a list by a number without
zeros in front; reading a token first puts the slashes back and then the tildes, so that `~01`
stands for `~1`.

* `Pointer.unescape`, `Pointer.tokens?`, `Value.resolve?` — what a pointer says, and where it leads.
* `Pointer.unescape_escape` — a key that is written into a pointer is read back from it.
* `Pointer.tokens?_child`, `Value.resolve?_child`, `Value.resolve?_item` — pointers to what is in
  an object or a list.
-/

namespace ArchSpec

open Schema (child escape escapeChar item)

namespace Pointer

variable {path key : String} {ts : List String} {n : Nat}

/-! ## Tokens -/

/-- What a token stands for. -/
def unescape (token : String) : String :=
  Text.replace "~0" "~" (Text.replace "~1" "/" token)

/-- The tokens of a pointer, if it is one. -/
def tokens? (pointer : String) : Option (List String) :=
  match pointer.toList with
  | [] => some []
  | '/' :: rest => some ((Text.splitOn '/' rest).map fun token => unescape (String.ofList token))
  | _ => none

/-- A character of a key once the slashes are put back. -/
def escapeTilde (c : Char) : List Char := if c = '~' then ['~', '0'] else [c]

theorem replaceList_slashes (cs : List Char) :
    Text.replaceList ['~', '1'] ['/'] (cs.flatMap escapeChar) 0 = cs.flatMap escapeTilde := by
  induction cs with
  | nil => rfl
  | cons c cs ih =>
    rw [List.flatMap_cons, List.flatMap_cons]
    by_cases htilde : c = '~'
    · subst htilde
      simpa [escapeChar, escapeTilde, Text.replaceList] using ih
    · by_cases hslash : c = '/'
      · subst hslash
        simpa [escapeChar, escapeTilde, Text.replaceList] using ih
      · simpa [escapeChar, escapeTilde, htilde, hslash, Text.replaceList, Ne.symm htilde] using ih

theorem replaceList_tildes (cs : List Char) :
    Text.replaceList ['~', '0'] ['~'] (cs.flatMap escapeTilde) 0 = cs := by
  induction cs with
  | nil => rfl
  | cons c cs ih =>
    rw [List.flatMap_cons]
    by_cases htilde : c = '~'
    · subst htilde
      simpa [escapeTilde, Text.replaceList] using ih
    · simpa [escapeTilde, htilde, Text.replaceList, Ne.symm htilde] using ih

theorem toList_escape (key : String) : (escape key).toList = key.toList.flatMap escapeChar :=
  String.toList_ofList

/-- **A key that is written into a pointer is read back from it.** -/
theorem unescape_escape (key : String) : unescape (escape key) = key := by
  have hslashes : Text.replace "~1" "/" (escape key) =
      String.ofList (key.toList.flatMap escapeTilde) := by
    unfold Text.replace
    rw [toList_escape, ← replaceList_slashes]
    rfl
  have htildes : Text.replace "~0" "~" (String.ofList (key.toList.flatMap escapeTilde)) = key := by
    unfold Text.replace
    rw [String.toList_ofList (l := key.toList.flatMap escapeTilde)]
    exact (congrArg String.ofList (replaceList_tildes key.toList)).trans String.ofList_toList
  rw [unescape, hslashes, htildes]

theorem slash_not_mem_escape (key : String) : '/' ∉ (escape key).toList := by
  rw [toList_escape, List.mem_flatMap]
  rintro ⟨c, _, hc⟩
  unfold escapeChar at hc
  split at hc
  · simp at hc
  · split at hc
    · simp at hc
    · rename_i hslash
      exact hslash (List.mem_singleton.1 hc).symm

/-- A key behind a pointer is its last token. -/
theorem tokens?_child (h : tokens? path = some ts) (key : String) :
    tokens? (child path key) = some (ts ++ [key]) := by
  have hkey : Text.splitOn '/' (escape key).toList = [(escape key).toList] :=
    Text.splitOn_of_not_mem (slash_not_mem_escape key)
  have hchild : (child path key).toList = path.toList ++ '/' :: (escape key).toList := by
    simp [child]
  unfold tokens? at h ⊢
  rw [hchild]
  split at h
  · rename_i hpath
    cases h
    rw [hpath]
    simp [hkey, unescape_escape]
  · rename_i rest hpath
    cases h
    rw [hpath]
    simp [Text.splitOn_append, hkey, unescape_escape]
  · cases h

/-- Pointers to the fields of one object are different. -/
theorem child_inj {key' : String} (h : child path key = child path key') : key = key' := by
  rw [child, child, String.append_right_inj] at h
  rw [← unescape_escape key, h, unescape_escape]

/-! ## Numbers -/

/-- The number that a token writes, without zeros in front. -/
def index? (token : String) : Option Nat :=
  (Text.number? 10 token.toList).filter fun n => toString n = token

theorem index?_toString (n : Nat) : index? (toString n) = some n := by
  have hdigits : (toString n).toList = Nat.toDigits 10 n := Nat.toList_repr
  rw [index?, hdigits, Text.number?_ten Nat.toDigits_ne_nil fun c hc =>
    Nat.isDigit_of_mem_toDigits (by decide) (by decide) hc, Nat.ofDigitChars_ten_toDigits]
  simp

theorem toString_inj {m : Nat} (h : toString m = toString n) : m = n := by
  have hindex := congrArg index? h
  rw [index?_toString, index?_toString] at hindex
  exact Option.some.inj hindex

/-- Digits are written into a pointer as they are. -/
theorem item_eq_child (path : String) (n : Nat) : item path n = child path (toString n) := by
  have hdigits : (toString n).toList = Nat.toDigits 10 n := Nat.toList_repr
  have hplain : ∀ c ∈ Nat.toDigits 10 n, escapeChar c = [c] := by
    intro c hc
    have hdigit := Nat.isDigit_of_mem_toDigits (by decide) (by decide) hc
    unfold escapeChar
    rw [if_neg, if_neg]
    · rintro rfl
      cases hdigit
    · rintro rfl
      cases hdigit
  rw [item, child, escape, hdigits, List.flatMap_congr hplain, List.flatMap_singleton',
    ← hdigits, String.ofList_toList]

theorem tokens?_item (h : tokens? path = some ts) (n : Nat) :
    tokens? (item path n) = some (ts ++ [toString n]) := by
  rw [item_eq_child, tokens?_child h]

end Pointer

/-! ## Where pointers lead -/

namespace Value

variable {document v : Value} {path key : String} {fields : List (String × Value)}
  {items : List Value} {n : Nat}

/-- Where a token leads in a value. -/
def child? (v : Value) (token : String) : Option Value :=
  match v with
  | .object fields => findEntry token fields
  | .list items => (Pointer.index? token).bind fun n => items[n]?
  | _ => none

/-- The value that a pointer leads to. -/
def resolve? (document : Value) (pointer : String) : Option Value :=
  (Pointer.tokens? pointer).bind fun tokens => tokens.foldlM child? document

theorem resolve?_root (document : Value) : document.resolve? "" = some document := rfl

theorem resolve?_of_child? (h : document.resolve? path = some v) (token : String) :
    document.resolve? (child path token) = v.child? token := by
  obtain ⟨ts, hts, hv⟩ := Option.bind_eq_some_iff.1 h
  rw [resolve?, Pointer.tokens?_child hts, Option.bind_some, List.foldlM_append, hv]
  simp

theorem resolve?_child (h : document.resolve? path = some (.object fields))
    (hv : findEntry key fields = some v) : document.resolve? (child path key) = some v := by
  rw [resolve?_of_child? h, child?, hv]

theorem resolve?_item (h : document.resolve? path = some (.list items))
    (hv : items[n]? = some v) : document.resolve? (item path n) = some v := by
  rw [Pointer.item_eq_child, resolve?_of_child? h, child?, Pointer.index?_toString,
    Option.bind_some, hv]

end Value

end ArchSpec
