import ArchSpec.Text.Basic
import ArchSpec.Value
import ArchSpec.Yaml.Node

/-!
# What a YAML scalar means

A text without quotes may mean a null, a truth value, an integer or a number with a fraction; a tag
may ask for one of these; every other scalar is a text.

* `integer?` — integers in bases ten, sixteen, eight and two; leading zeros make a text.
* `decimal?` — numbers with a fraction or an exponent, and the names of infinities.
* `scalarValue` — the value of a scalar.
-/

namespace ArchSpec.Yaml

def isNull (s : String) : Bool := ["null", "Null", "NULL", "~"].contains s

/-- The truth value that a text means. -/
def truth? (s : String) : Option Bool :=
  if ["true", "True", "TRUE"].contains s then some true
  else if ["false", "False", "FALSE"].contains s then some false
  else none

/-- Whether the digits `cs` have a leading zero that makes them a text. -/
def hasLeadingZero : List Char → Bool
  | '0' :: d :: rest => (d :: rest).all Text.isDigit
  | _ => false

/-- The natural number that `cs` writes, without a sign. -/
def natural? (cs : List Char) : Option Nat :=
  match cs with
  | '0' :: 'x' :: rest => Text.number? 16 rest
  | '0' :: 'o' :: rest => Text.number? 8 rest
  | '0' :: 'b' :: rest => Text.number? 2 rest
  | _ => if hasLeadingZero cs then none else Text.number? 10 cs

/-- The integer that a text means, of whatever size. -/
def integer? (s : String) : Option Int :=
  match s.toList with
  | '-' :: rest => (natural? rest).map fun n => -(n : Int)
  | '+' :: rest => (natural? rest).map fun n => (n : Int)
  | cs => (natural? cs).map fun n => (n : Int)

/-- Whether an integer fits 64 bits, with or without sign. -/
def isWord (i : Int) : Bool := -Int.pow 2 63 ≤ i && i < Int.pow 2 64

/-- Whether an integer fits 128 bits, with or without sign. -/
def isDoubleWord (i : Int) : Bool := -Int.pow 2 127 ≤ i && i < Int.pow 2 128

/-- The exponent written after an `e`. -/
def exponent? (cs : List Char) : Option Int :=
  match cs with
  | '-' :: rest => (Text.number? 10 rest).map fun n => -(n : Int)
  | '+' :: rest => (Text.number? 10 rest).map fun n => (n : Int)
  | _ => (Text.number? 10 cs).map fun n => (n : Int)

/-- The number of double precision that `cs` writes, without a sign. -/
def magnitude? (negative : Bool) (cs : List Char) : Option Binary64 := do
  let whole := cs.takeWhile Text.isDigit
  let rest := cs.dropWhile Text.isDigit
  let (part, rest) := match rest with
    | '.' :: rest => (rest.takeWhile Text.isDigit, rest.dropWhile Text.isDigit)
    | _ => ([], rest)
  let digits ← Text.number? 10 (whole ++ part)
  let exponent ← match rest with
    | [] => some 0
    | 'e' :: rest => exponent? rest
    | 'E' :: rest => exponent? rest
    | _ => none
  let x := Binary64.ofDecimal negative digits (exponent - part.length)
  if x.isFinite then some x else none

/-- A number with a fraction; infinities and what is no number have no value of their own. -/
def decimal? (s : String) : Option Value :=
  if [".inf", ".Inf", ".INF", "+.inf", "+.Inf", "+.INF", "-.inf", "-.Inf", "-.INF", ".nan", ".NaN",
      ".NAN"].contains s then some .null
  else match s.toList with
    | '-' :: rest => (magnitude? true rest).map .float
    | '+' :: rest => (magnitude? false rest).map .float
    | cs => (magnitude? false cs).map .float

/-- The value of a text that means an integer, if it means one. -/
def integerValue? (s : String) : Except Fault (Option Value) :=
  match integer? s with
  | none => .ok none
  | some i =>
    if isWord i then .ok (some (.int i))
    else if isDoubleWord i then .error .outOfRange
    else .ok none

/-- Whether a text is nothing but digits with a leading zero, after a sign. -/
def isZeroPadded (s : String) : Bool :=
  match s.toList with
  | '-' :: rest => hasLeadingZero rest
  | '+' :: rest => hasLeadingZero rest
  | cs => hasLeadingZero cs

/-- The value of a text without quotes. -/
def plainValue (s : String) : Except Fault Value := do
  if s.isEmpty || isNull s then return .null
  match truth? s with
  | some b => return .bool b
  | none =>
    match ← integerValue? s with
    | some v => return v
    | none =>
      if isZeroPadded s then return .text s
      else return (decimal? s).getD (.text s)

/-- Whether a tag is of the document's own making. -/
def isLocalTag (tag : Option String) : Bool :=
  match tag with
  | none => false
  | some t => t.toList.head? = some '!'

def boolTag : String := "tag:yaml.org,2002:bool"

def intTag : String := "tag:yaml.org,2002:int"

/-- The tag of numbers with a fraction. -/
def floatTag : String := "tag:yaml.org,2002:float"

def nullTag : String := "tag:yaml.org,2002:null"

/-- A value that a tag asks for. -/
def required (v : Option Value) : Except Fault Value :=
  match v with
  | none => .error .wrongType
  | some v => .ok v

/-- The value of a scalar. -/
def scalarValue (tag : Option String) (s : String) (style : Style) : Except Fault Value := do
  match tag with
  | none => if style = .plain then plainValue s else return .text s
  | some t =>
    if isLocalTag tag then throw .wrongType
    else if t = boolTag then required ((truth? s).map .bool)
    else if t = intTag then required (← integerValue? s)
    else if t = floatTag then required (decimal? s)
    else if t = nullTag then required (if isNull s then some .null else none)
    else return .text s

end ArchSpec.Yaml
