/-!
# Numbers of double precision

Documents hold numbers with a fraction or an exponent. They are kept as the 64 bits of the nearest
number of double precision, so equality is decidable and means "the same number of the same sign".

* `Binary64.nearest` — the number nearest to a quotient of naturals, ties to the even neighbour;
  reading a decimal, and the product and quotient of two numbers, are instances of it.
* `Binary64.truncate` — the integer part of a number, held to the range of 64-bit integers.
-/

namespace ArchSpec

/-- A number of double precision, by its bits. -/
structure Binary64 where
  bits : UInt64
  deriving DecidableEq, Repr, Inhabited

namespace Binary64

/-- The sign: `true` for numbers written with a minus. -/
def negative (x : Binary64) : Bool := decide (x.bits ≥ 0x8000000000000000)

/-- The biased exponent. -/
def biased (x : Binary64) : Nat := ((x.bits >>> 52) &&& 0x7FF).toNat

/-- The stored fraction. -/
def fraction (x : Binary64) : Nat := (x.bits &&& 0xFFFFFFFFFFFFF).toNat

def isFinite (x : Binary64) : Bool := x.biased != 0x7FF

/-- The integer `m` with `|x| = m * 2 ^ x.scale`, for a finite `x`. -/
def significand (x : Binary64) : Nat :=
  if x.biased = 0 then x.fraction else x.fraction + Nat.pow 2 52

/-- The power of two that goes with `significand`. -/
def scale (x : Binary64) : Int := if x.biased = 0 then -1074 else (x.biased : Int) - 1075

def signBit : UInt64 := 0x8000000000000000

/-- Build a number from its sign and the bits below the sign. -/
def ofParts (negative : Bool) (magnitude : Nat) : Binary64 :=
  ⟨(if negative then signBit else 0) ||| UInt64.ofNat magnitude⟩

/-- The bits of infinity, below the sign. -/
def infinityBits : Nat := 0x7FF0000000000000

/-- Division to the nearest natural, ties to the even one. -/
def roundDiv (num den : Nat) : Nat :=
  let q := num / den
  let r := num % den
  if 2 * r > den then q + 1
  else if 2 * r = den then q + q % 2
  else q

/-- The number of double precision nearest to `num / den` with the given sign. -/
def nearest (negative : Bool) (num den : Nat) : Binary64 :=
  if num = 0 then ofParts negative 0
  else
    let guess : Int := (num.log2 : Int) - (den.log2 : Int) - 52
    let fits := if guess ≥ 0 then num / (den * Nat.pow 2 guess.toNat) ≥ Nat.pow 2 52
      else num * Nat.pow 2 (-guess).toNat / den ≥ Nat.pow 2 52
    let e : Int := max (-1074) (if fits then guess else guess - 1)
    let q := if e ≥ 0 then roundDiv num (den * Nat.pow 2 e.toNat)
      else roundDiv (num * Nat.pow 2 (-e).toNat) den
    let magnitude := (e + 1074).toNat * Nat.pow 2 52 + q
    ofParts negative (min infinityBits magnitude)

/-- The number nearest to a natural. -/
def ofNat (n : Nat) : Binary64 := nearest false n 1

/-- The number nearest to an integer. -/
def ofInt (i : Int) : Binary64 := nearest (decide (i < 0)) i.natAbs 1

/-- The same number with the other sign. -/
def negate (x : Binary64) : Binary64 := ⟨x.bits ^^^ signBit⟩

/-- The number nearest to `digits * 10 ^ exponent`. The first two tests only keep the powers
small: they answer what the third would. -/
def ofDecimal (negative : Bool) (digits : Nat) (exponent : Int) : Binary64 :=
  let size : Int := (Nat.toDigits 10 digits).length + exponent
  if digits = 0 then ofParts negative 0
  else if size > 400 then ofParts negative infinityBits
  else if size < -400 then ofParts negative 0
  else if exponent ≥ 0 then nearest negative (digits * Nat.pow 10 exponent.toNat) 1
  else nearest negative digits (Nat.pow 10 (-exponent).toNat)

/-- The exact value of `|x|` as a quotient, for a finite `x`. -/
def ratio (x : Binary64) : Nat × Nat :=
  if x.scale ≥ 0 then (x.significand * Nat.pow 2 x.scale.toNat, 1)
  else (x.significand, Nat.pow 2 (-x.scale).toNat)

/-- The rounded product of two finite numbers. -/
def mul (x y : Binary64) : Binary64 :=
  nearest (x.negative != y.negative) (x.ratio.1 * y.ratio.1) (x.ratio.2 * y.ratio.2)

/-- The rounded quotient of two finite numbers, the second not zero. -/
def div (x y : Binary64) : Binary64 :=
  nearest (x.negative != y.negative) (x.ratio.1 * y.ratio.2) (x.ratio.2 * y.ratio.1)

/-- The least 64-bit integer. -/
def minInteger : Int := -Int.pow 2 63

/-- The greatest 64-bit integer. -/
def maxInteger : Int := Int.pow 2 63 - 1

/-- The integer part, held to the 64-bit range; what is not a number counts as zero. -/
def truncate (x : Binary64) : Int :=
  if x.isFinite then
    let n : Int := x.ratio.1 / x.ratio.2
    max minInteger (min maxInteger (if x.negative then -n else n))
  else if x.fraction ≠ 0 then 0
  else if x.negative then minInteger
  else maxInteger

end Binary64

end ArchSpec
