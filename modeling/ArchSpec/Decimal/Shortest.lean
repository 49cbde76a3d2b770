import ArchSpec.Decimal.Binary64

/-!
# The shortest decimal that reads back

A number of double precision stands for an interval of reals: all that round to it. Its shortest
decimal is the one with the fewest digits inside that interval, and of two such the nearer.

* `Shortest.digits` — those digits and the power of ten of the last one.
* `Shortest.render` — the written form: positional while at most sixteen places are needed before
  the point or five zeros after it, with an exponent elsewhere, and always marked as a fraction.
-/

namespace ArchSpec.Shortest

/-- A decimal `digits * 10 ^ exponent`. -/
structure Decimal where
  digits : Nat
  exponent : Int
  deriving DecidableEq, Repr

/-- `num / den` compared with `digits * 10 ^ exponent`. -/
def compareTo (num den : Nat) (d : Decimal) : Ordering :=
  if d.exponent ≥ 0 then compare num (d.digits * Nat.pow 10 d.exponent.toNat * den)
  else compare (num * Nat.pow 10 (-d.exponent).toNat) (d.digits * den)

/-- The integer part of `num / den / 10 ^ exponent`. -/
def gridFloor (num den : Nat) (exponent : Int) : Nat :=
  if exponent ≥ 0 then num / (den * Nat.pow 10 exponent.toNat)
  else num * Nat.pow 10 (-exponent).toNat / den

/-- The least `k` from `start` on with `num / den < 10 ^ k`, looking at most `fuel` steps ahead. -/
def places (num den : Nat) (start : Int) : Nat → Int
  | 0 => start
  | fuel + 1 =>
    if compareTo num den ⟨1, start⟩ = .lt then start else places num den (start + 1) fuel

/-- Distance of `num / den` from a decimal, as a natural in a unit common to one exponent. -/
def distance (num den : Nat) (d : Decimal) : Nat :=
  let a := if d.exponent ≥ 0 then num else num * Nat.pow 10 (-d.exponent).toNat
  let b := if d.exponent ≥ 0 then d.digits * Nat.pow 10 d.exponent.toNat * den else d.digits * den
  if a ≥ b then a - b else b - a

/-- The interval of reals that round to a number, with four times its significand as the unit. -/
structure Interval where
  low : Nat
  value : Nat
  high : Nat
  den : Nat
  closed : Bool

/-- The interval of `x`: half the way to each neighbour, ends included if `x` is even. -/
def interval (x : Binary64) : Interval :=
  let m := x.significand
  let gap := if x.fraction = 0 && x.biased > 1 then 1 else 2
  let up := if x.scale ≥ 2 then Nat.pow 2 (x.scale - 2).toNat else 1
  let den := if x.scale ≥ 2 then 1 else Nat.pow 2 (2 - x.scale).toNat
  ⟨(4 * m - gap) * up, 4 * m * up, (4 * m + 2) * up, den, m % 2 == 0⟩

/-- Whether a decimal lies in an interval. -/
def Interval.holds (i : Interval) (d : Decimal) : Bool :=
  match compareTo i.low i.den d, compareTo i.high i.den d with
  | .lt, .gt => true
  | .eq, .gt => i.closed
  | .lt, .eq => i.closed
  | _, _ => false

/-- The decimal of the interval on the grid with this exponent, the nearer of two. -/
def onGrid (i : Interval) (exponent : Int) : Option Decimal :=
  let n := gridFloor i.value i.den exponent
  let below : Decimal := ⟨n, exponent⟩
  let above : Decimal := ⟨n + 1, exponent⟩
  match i.holds below, i.holds above with
  | true, true =>
    let a := distance i.value i.den below
    let b := distance i.value i.den above
    if a < b || (a == b && n % 2 == 0) then some below else some above
  | true, false => some below
  | false, true => some above
  | false, false => none

/-- The first grid, from the coarsest on, that has a decimal of the interval. -/
def firstGrid (i : Interval) (exponent : Int) : Nat → Decimal
  | 0 => ⟨gridFloor i.value i.den exponent, exponent⟩
  | fuel + 1 => match onGrid i exponent with
    | some d => d
    | none => firstGrid i (exponent - 1) fuel

/-- A decimal without trailing zeros; `fuel` bounds their number. -/
def trim (d : Decimal) : Nat → Decimal
  | 0 => d
  | fuel + 1 =>
    if d.digits ≠ 0 ∧ d.digits % 10 = 0 then trim ⟨d.digits / 10, d.exponent + 1⟩ fuel else d

/-- The shortest decimal of the magnitude of a finite number that is not zero. -/
def digits (x : Binary64) : Decimal :=
  let i := interval x
  let k := places i.value i.den (-330) 700
  trim (firstGrid i (k - 1) 17) 20

/-- The written form of a finite number. -/
def render (x : Binary64) : String :=
  let sign := if x.negative then "-" else ""
  if x.significand = 0 then sign ++ "0.0"
  else
    let d := digits x
    let ds := Nat.toDigits 10 d.digits
    let point : Int := ds.length + d.exponent
    if 0 ≤ d.exponent ∧ point ≤ 16 then
      sign ++ String.ofList ds ++ String.ofList (List.replicate d.exponent.toNat '0') ++ ".0"
    else if 0 < point ∧ point ≤ 16 then
      sign ++ String.ofList (ds.take point.toNat) ++ "." ++ String.ofList (ds.drop point.toNat)
    else if -5 < point ∧ point ≤ 0 then
      sign ++ "0." ++ String.ofList (List.replicate (-point).toNat '0') ++ String.ofList ds
    else
      let e := (if point > 0 then "+" else "-") ++ toString (point - 1).natAbs
      match ds with
      | [one] => sign ++ one.toString ++ "e" ++ e
      | one :: more => sign ++ one.toString ++ "." ++ String.ofList more ++ "e" ++ e
      | [] => sign ++ "0.0"

end ArchSpec.Shortest
