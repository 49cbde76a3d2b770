import ArchSpec.Value

/-!
# Reading JSON

`Json.read` accepts one JSON value with blanks around it. Integers of 64 bits stay integers, other
numbers become numbers of double precision; of two fields with one key the later one stays; lists
and objects nest to a depth of 127.

A number outside the integers is read in two roundings: its leading digits, as many as 64 bits
hold, are rounded to double precision, and the result is scaled by a rounded power of ten.
-/

namespace ArchSpec.Json

/-- Why a text is not accepted. -/
inductive Fault where
  | endOfText
  | unexpected
  | badNumber
  | outOfRange
  | badEscape
  | controlCharacter
  | tooDeep
  | trailing
  deriving DecidableEq, Repr

def Fault.message : Fault → String
  | .endOfText => "the JSON text ends inside a value"
  | .unexpected => "the JSON text has a character that fits nowhere"
  | .badNumber => "the JSON text has a malformed number"
  | .outOfRange => "the JSON text has a number that is out of range"
  | .badEscape => "the JSON text has a malformed escape"
  | .controlCharacter => "the JSON text has a control character inside a text"
  | .tooDeep => "the JSON text is nested too deeply"
  | .trailing => "the JSON text goes on after its value"

def Fault.all : List Fault :=
  [.endOfText, .unexpected, .badNumber, .outOfRange, .badEscape, .controlCharacter, .tooDeep,
    .trailing]

/-- Whether `c` is a blank between JSON tokens. -/
def isSpace (c : Char) : Bool := c = ' ' || c = '\n' || c = '\t' || c = '\r'

/-- The text from the first character on that is no blank. -/
def skipSpace (cs : List Char) : List Char := cs.dropWhile isSpace

/-- Whether `c` is one of `0` to `9`. -/
def isDigit (c : Char) : Bool := '0' ≤ c && c ≤ '9'

/-! ## Numbers -/

/-- The greatest number of 64 bits without sign. -/
def maxWord : Nat := Nat.pow 2 64 - 1

/-- Append digits to `n` while the result fits 64 bits; the second part counts the digits used. -/
def appendDigits (n : Nat) : List Char → Nat × Nat
  | [] => (n, 0)
  | c :: rest =>
    let m := n * 10 + (c.toNat - 48)
    if m ≤ maxWord then
      let r := appendDigits m rest
      (r.1, r.2 + 1)
    else (n, 0)

/-- Divide by `10 ^ 308` until the exponent is at least `-308` or nothing is left. -/
def scaleDown (x : Binary64) (exponent : Int) : Nat → Binary64 × Int
  | 0 => (x, exponent)
  | fuel + 1 =>
    if exponent < -308 ∧ x.significand ≠ 0 then
      scaleDown (x.div (.nearest false (Nat.pow 10 308) 1)) (exponent + 308) fuel
    else (x, exponent)

/-- The magnitude of `digits * 10 ^ exponent`, each step rounded. -/
def magnitude (digits : Nat) (exponent : Int) : Except Fault Binary64 :=
  let x := Binary64.ofNat digits
  if x.significand = 0 then .ok x
  else if exponent > 308 then .error .outOfRange
  else if exponent ≥ 0 then
    let y := x.mul (.nearest false (Nat.pow 10 exponent.toNat) 1)
    if y.isFinite then .ok y else .error .outOfRange
  else
    let (y, e) := scaleDown x exponent 4
    if y.significand = 0 then .ok y else .ok (y.div (.nearest false (Nat.pow 10 (-e).toNat) 1))

/-- A number of double precision with its sign. -/
def signedMagnitude (negative : Bool) (digits : Nat) (exponent : Int) : Except Fault Value :=
  (magnitude digits exponent).map fun x => .float (if negative then x.negate else x)

/-- The greatest exponent that is read as a number. -/
def maxExponent : Nat := Nat.pow 2 31 - 1

/-- The exponent part after `e`, its sign and its digits. -/
def readExponent (negative : Bool) (digits : Nat) (exponent : Int) (cs : List Char) :
    Except Fault (Value × List Char) :=
  let (down, cs) : Bool × List Char := match cs with
    | '+' :: rest => (false, rest)
    | '-' :: rest => (true, rest)
    | _ => (false, cs)
  let ds := cs.takeWhile isDigit
  let rest := cs.dropWhile isDigit
  if ds.isEmpty then .error (if cs.isEmpty then .endOfText else .badNumber)
  else
    let e := ds.foldl (fun n c => n * 10 + (c.toNat - 48)) 0
    if e > maxExponent then
      if digits ≠ 0 ∧ !down then .error .outOfRange
      else .ok (.float (.ofParts negative 0), rest)
    else
      (signedMagnitude negative digits (if down then exponent - e else exponent + e)).map (·, rest)

/-- What follows the digits before the point. -/
def readAfterInteger (negative : Bool) (digits dropped : Nat) (cs : List Char) :
    Except Fault (Value × List Char) :=
  match cs with
  | '.' :: rest =>
    let ds := rest.takeWhile isDigit
    let rest := rest.dropWhile isDigit
    if ds.isEmpty then .error (if rest.isEmpty then .endOfText else .badNumber)
    else
      let (m, used) := appendDigits digits ds
      let exponent : Int := (dropped : Int) - used
      match rest with
      | 'e' :: rest => readExponent negative m exponent rest
      | 'E' :: rest => readExponent negative m exponent rest
      | _ => (signedMagnitude negative m exponent).map (·, rest)
  | 'e' :: rest => readExponent negative digits dropped rest
  | 'E' :: rest => readExponent negative digits dropped rest
  | _ =>
    if dropped ≠ 0 then (signedMagnitude negative digits dropped).map (·, cs)
    else if !negative then .ok (.int digits, cs)
    else if digits = 0 ∨ digits > Nat.pow 2 63 then .ok (.float (Binary64.ofNat digits).negate, cs)
    else .ok (.int (-digits), cs)

/-- A number, after its sign. -/
def readNumber (negative : Bool) (cs : List Char) : Except Fault (Value × List Char) :=
  let ds := cs.takeWhile isDigit
  let rest := cs.dropWhile isDigit
  match ds with
  | [] => .error (if cs.isEmpty then .endOfText else .badNumber)
  | ['0'] => readAfterInteger negative 0 0 rest
  | '0' :: _ => .error .badNumber
  | _ =>
    let (m, used) := appendDigits 0 ds
    readAfterInteger negative m (ds.length - used) rest

/-! ## Texts -/

/-- The value of a digit of base sixteen. -/
def hexValue? (c : Char) : Option Nat :=
  if '0' ≤ c && c ≤ '9' then some (c.toNat - 48)
  else if 'a' ≤ c && c ≤ 'f' then some (c.toNat - 87)
  else if 'A' ≤ c && c ≤ 'F' then some (c.toNat - 55)
  else none

/-- The number of four digits of base sixteen. -/
def hexValue4? (a b c d : Char) : Option Nat := do
  return (((← hexValue? a) * 16 + (← hexValue? b)) * 16 + (← hexValue? c)) * 16 + (← hexValue? d)

/-- The character for the letter after a backslash. -/
def simpleEscape? (c : Char) : Option Char :=
  if c = '"' then some '"'
  else if c = '\\' then some '\\'
  else if c = '/' then some '/'
  else if c = 'b' then some '\x08'
  else if c = 'f' then some '\x0c'
  else if c = 'n' then some '\n'
  else if c = 'r' then some '\r'
  else if c = 't' then some '\t'
  else none

/-- The characters of a text up to its closing quote. -/
def readText : List Char → Except Fault (List Char × List Char)
  | [] => .error .endOfText
  | '"' :: rest => .ok ([], rest)
  | '\\' :: 'u' :: a :: b :: c :: d :: rest =>
    match hexValue4? a b c d with
    | none => .error .badEscape
    | some n =>
      if n < 0xD800 ∨ 0xDFFF < n then
        (readText rest).map fun r => (Char.ofNat n :: r.1, r.2)
      else if 0xDC00 ≤ n then .error .badEscape
      else match rest with
        | '\\' :: 'u' :: a' :: b' :: c' :: d' :: rest =>
          match hexValue4? a' b' c' d' with
          | none => .error .badEscape
          | some m =>
            if 0xDC00 ≤ m ∧ m ≤ 0xDFFF then
              (readText rest).map fun r =>
                (Char.ofNat (0x10000 + (n - 0xD800) * 0x400 + (m - 0xDC00)) :: r.1, r.2)
            else .error .badEscape
        | _ => .error .badEscape
  | '\\' :: c :: rest =>
    match simpleEscape? c with
    | none => .error .badEscape
    | some e => (readText rest).map fun r => (e :: r.1, r.2)
  | c :: rest =>
    if c.toNat < 32 then .error .controlCharacter
    else if c = '\\' then .error .endOfText
    else (readText rest).map fun r => (c :: r.1, r.2)

/-! ## Values -/

/-- Take a fixed word off the front of a text. -/
def expect (word : List Char) (v : Value) (cs : List Char) : Except Fault (Value × List Char) :=
  if word.isPrefixOf cs then .ok (v, cs.drop word.length) else .error .unexpected

/-- The deepest nesting of lists and objects. -/
def maxDepth : Nat := 127

mutual

/-- A value; `depth` more levels may open, `fuel` bounds the steps. -/
def readValue (depth : Nat) : Nat → List Char → Except Fault (Value × List Char)
  | 0, _ => .error .endOfText
  | fuel + 1, cs =>
    match skipSpace cs with
    | [] => .error .endOfText
    | '"' :: rest => (readText rest).map fun r => (.text (String.ofList r.1), r.2)
    | '[' :: rest =>
      match depth with
      | 0 => .error .tooDeep
      | depth + 1 =>
        match skipSpace rest with
        | ']' :: rest => .ok (.list [], rest)
        | rest => (readItems depth fuel rest).map fun r => (.list r.1, r.2)
    | '\x7b' :: rest =>
      match depth with
      | 0 => .error .tooDeep
      | depth + 1 =>
        match skipSpace rest with
        | '\x7d' :: rest => .ok (.object [], rest)
        | rest => (readFields depth [] fuel rest).map fun r => (.object r.1, r.2)
    | 'n' :: rest => expect "ull".toList .null rest
    | 't' :: rest => expect "rue".toList (.bool true) rest
    | 'f' :: rest => expect "alse".toList (.bool false) rest
    | '-' :: rest => readNumber true rest
    | c :: rest => if isDigit c then readNumber false (c :: rest) else .error .unexpected

/-- The items of a list from its first item to its closing bracket. -/
def readItems (depth : Nat) : Nat → List Char → Except Fault (List Value × List Char)
  | 0, _ => .error .endOfText
  | fuel + 1, cs => do
    let (v, rest) ← readValue depth fuel cs
    match skipSpace rest with
    | ']' :: rest => return ([v], rest)
    | ',' :: rest =>
      let (vs, rest) ← readItems depth fuel rest
      return (v :: vs, rest)
    | [] => throw .endOfText
    | _ => throw .unexpected

/-- The fields of an object from its first key to its closing brace, added to `seen`. -/
def readFields (depth : Nat) (seen : List (String × Value)) :
    Nat → List Char → Except Fault (List (String × Value) × List Char)
  | 0, _ => .error .endOfText
  | fuel + 1, cs =>
    match skipSpace cs with
    | '"' :: rest => do
      let (key, rest) ← readText rest
      match skipSpace rest with
      | ':' :: rest =>
        let (v, rest) ← readValue depth fuel rest
        let seen := insertEntry (String.ofList key) v seen
        match skipSpace rest with
        | '\x7d' :: rest => return (seen, rest)
        | ',' :: rest => readFields depth seen fuel rest
        | [] => throw .endOfText
        | _ => throw .unexpected
      | [] => throw .endOfText
      | _ => throw .unexpected
    | [] => .error .endOfText
    | _ => .error .unexpected

end

def readChars (cs : List Char) : Except Fault Value := do
  let (v, rest) ← readValue maxDepth (cs.length + 1) cs
  if (skipSpace rest).isEmpty then return v else throw .trailing

def read (s : String) : Except Fault Value := readChars s.toList

end ArchSpec.Json
