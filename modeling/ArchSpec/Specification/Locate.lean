import ArchSpec.Position
import ArchSpec.Text.Basic

/-!
# Where components are declared

A component is declared where a line begins with its `id` key. Lines are paired with the declared
IDs in order: the second component of an ID is at the second line with that ID.

* `keyOnLine?` — the ID on a line, and how many characters stand before its key.
* `locate` — the places of a list of IDs.
-/

namespace ArchSpec.Locate

/-- Text without the blanks at its front. -/
def dropBlanks (cs : List Char) : List Char := cs.dropWhile Text.isBlank

/-- Text without the quote at its front, if there is one. -/
def dropQuote : List Char → List Char
  | '"' :: rest => rest
  | '\'' :: rest => rest
  | cs => cs

/-- Text without the dash of a list entry and the blanks after it; a dash without a blank is none.
-/
def dropDash : List Char → List Char
  | '-' :: c :: rest => if Text.isBlank c then dropBlanks rest else '-' :: c :: rest
  | cs => cs

/-- Text without an opening brace and the blanks after it. -/
def dropBrace : List Char → List Char
  | '{' :: rest => dropBlanks rest
  | cs => cs

/-- Whether `c` may stand in an ID as it is found on a line. -/
def isIdChar (c : Char) : Bool := !(Text.isBlank c || ['"', '\'', ',', '#', '}'].contains c)

/-- What an `id` key gives as its value, if the text begins with one. -/
def idValue? (cs : List Char) : Option (List Char) :=
  match dropQuote cs with
  | 'i' :: 'd' :: rest =>
    match dropBlanks (dropQuote rest) with
    | ':' :: rest =>
      let id := (dropQuote (dropBlanks rest)).takeWhile isIdChar
      if id.isEmpty then none else some id
    | _ => none
  | _ => none

/-- The ID whose key a line begins with, and the number of characters before that key. -/
def keyOnLine? (line : List Char) : Option (String × Nat) :=
  let rest := dropBrace (dropDash (dropBlanks line))
  (idValue? rest).map fun id => (String.ofList id, line.length - rest.length)

/-- The IDs found on lines, with their places; `number` is the number of the first line. -/
def occurrences (file : String) (number : Nat) : List (List Char) → List (String × Position)
  | [] => []
  | line :: rest =>
    match keyOnLine? line with
    | none => occurrences file (number + 1) rest
    | some (id, before) => (id, ⟨file, number, before + 1⟩) :: occurrences file (number + 1) rest

/-- Take the first occurrence of an ID out of a list. -/
def takeFirst (id : String) : List (String × Position) →
    Option Position × List (String × Position)
  | [] => (none, [])
  | o :: rest =>
    if o.1 = id then (some o.2, rest)
    else
      let r := takeFirst id rest
      (r.1, o :: r.2)

/-- Pair IDs with occurrences, each of which is used once. -/
def pair : List (String × Position) → List String → List (Option Position)
  | _, [] => []
  | found, id :: ids =>
    let r := takeFirst id found
    r.1 :: pair r.2 ids

/-- The places where IDs are declared in a source text. -/
def locate (source file : String) (ids : List String) : List (Option Position) :=
  pair (occurrences file 1 (Text.lines source)) ids

end ArchSpec.Locate
