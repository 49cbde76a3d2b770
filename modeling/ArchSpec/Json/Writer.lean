import ArchSpec.Value
import ArchSpec.Decimal.Shortest

/-!
# Written JSON

Two layouts of one value: `Json.compact`, without any space, which is what gets hashed, and
`Json.pretty`, with two spaces of indentation for each level, which is what gets saved. Object
fields come in key order because values keep them so.
-/

namespace ArchSpec.Json

def hexDigit (n : Nat) : Char := if n < 10 then Char.ofNat (48 + n) else Char.ofNat (87 + n)

def escapeChar (c : Char) : List Char :=
  if c = '"' then ['\\', '"']
  else if c = '\\' then ['\\', '\\']
  else if c = '\x08' then ['\\', 'b']
  else if c = '\t' then ['\\', 't']
  else if c = '\n' then ['\\', 'n']
  else if c = '\x0c' then ['\\', 'f']
  else if c = '\r' then ['\\', 'r']
  else if c.toNat < 32 then ['\\', 'u', '0', '0', hexDigit (c.toNat / 16), hexDigit (c.toNat % 16)]
  else [c]

def quote (s : List Char) : List Char := '"' :: (s.flatMap escapeChar ++ ['"'])

def natDigits (n : Nat) : List Char := Nat.toDigits 10 n

def intDigits (i : Int) : List Char :=
  if i < 0 then '-' :: natDigits i.natAbs else natDigits i.natAbs

/-- The written form of a number with a fraction; what is not finite is written as null. -/
def floatDigits (x : Binary64) : List Char :=
  if x.isFinite then (Shortest.render x).toList else "null".toList

/-- The text of a value without layout. -/
def compactChars : Value → List Char
  | .null => "null".toList
  | .bool b => if b then "true".toList else "false".toList
  | .int i => intDigits i
  | .float x => floatDigits x
  | .text s => quote s.toList
  | .list items => '[' :: (compactItems items ++ [']'])
  | .object fields => '\x7b' :: (compactFields fields ++ ['\x7d'])
where
  /-- The items of a list with commas between them. -/
  compactItems : List Value → List Char
    | [] => []
    | [v] => compactChars v
    | v :: rest => compactChars v ++ ',' :: compactItems rest
  /-- The fields of an object with commas between them. -/
  compactFields : List (String × Value) → List Char
    | [] => []
    | [(k, v)] => quote k.toList ++ ':' :: compactChars v
    | (k, v) :: rest => quote k.toList ++ ':' :: (compactChars v ++ ',' :: compactFields rest)

/-- A value without layout. -/
def compact (v : Value) : String := String.ofList (compactChars v)

/-- A line break and the indentation of a level. -/
def newline (level : Nat) : List Char := '\n' :: List.replicate (2 * level) ' '

/-- The text of a value laid out at an indentation level. -/
def prettyChars (level : Nat) : Value → List Char
  | .null => "null".toList
  | .bool b => if b then "true".toList else "false".toList
  | .int i => intDigits i
  | .float x => floatDigits x
  | .text s => quote s.toList
  | .list [] => ['[', ']']
  | .list items => '[' :: (prettyItems (level + 1) items ++ newline level ++ [']'])
  | .object [] => ['\x7b', '\x7d']
  | .object fields => '\x7b' :: (prettyFields (level + 1) fields ++ newline level ++ ['\x7d'])
where
  /-- The items of a list, each on a line of its own. -/
  prettyItems (level : Nat) : List Value → List Char
    | [] => []
    | [v] => newline level ++ prettyChars level v
    | v :: rest => newline level ++ prettyChars level v ++ ',' :: prettyItems level rest
  /-- The fields of an object, each on a line of its own. -/
  prettyFields (level : Nat) : List (String × Value) → List Char
    | [] => []
    | [(k, v)] => newline level ++ quote k.toList ++ ':' :: ' ' :: prettyChars level v
    | (k, v) :: rest =>
      newline level ++ quote k.toList ++ ':' :: ' ' ::
        (prettyChars level v ++ ',' :: prettyFields level rest)

/-- A value laid out on lines. -/
def pretty (v : Value) : String := String.ofList (prettyChars 0 v)

end ArchSpec.Json
