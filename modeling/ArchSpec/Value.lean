import ArchSpec.SortedMap
import ArchSpec.Decimal.Binary64

/-!
# Document values

What a document says before anything is known about its meaning: nulls, truth values, numbers,
texts, lists and objects. The fields of an object are kept in key order, one per key; every
constructor of objects goes through `Value.object`, which keeps the last of two equal keys.

* `Value.field?_ofFields` — the field of an object is the last one that it was given under its key.
-/

namespace ArchSpec

/-- A value of a document. -/
inductive Value where
  | null
  | bool (b : Bool)
  | int (i : Int)
  | float (x : Binary64)
  | text (s : String)
  | list (items : List Value)
  | object (fields : List (String × Value))
  deriving Inhabited

namespace Value

/-- The object with these fields; of two fields with one key the later one stays. -/
def ofFields (fields : List (String × Value)) : Value :=
  .object (fields.foldl (fun acc f => insertEntry f.1 f.2 acc) [])

/-- The field of an object, if the value is an object that has it. -/
def field? (key : String) : Value → Option Value
  | .object fields => findEntry key fields
  | _ => none

theorem field?_ofFields (key : String) (fields : List (String × Value)) :
    (ofFields fields).field? key = findEntry key fields.reverse := by
  rw [ofFields, field?, findEntry_foldl]
  exact Option.or_none

def text? : Value → Option String
  | .text s => some s
  | _ => none

def list? : Value → Option (List Value)
  | .list items => some items
  | _ => none

def fields? : Value → Option (List (String × Value))
  | .object fields => some fields
  | _ => none

/-- The text of a text field; anything else counts as the empty text. -/
def textField (key : String) (v : Value) : String := ((v.field? key).bind text?).getD ""

def texts (xs : List String) : Value := .list (xs.map .text)

def ofText? : Option String → Value
  | none => .null
  | some s => .text s

def ofNat (n : Nat) : Value := .int n

/-- An integer as a number that fits 64 bits signed. -/
def fitsSigned (i : Int) : Bool := Binary64.minInteger ≤ i && i ≤ Binary64.maxInteger

end Value

end ArchSpec
