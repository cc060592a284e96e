/-
Module: Duplex.Decimal.Shortest
Purpose: The text of a double: the fewest decimal digits that only this number rounds to, nearest
  to it among those.  Magnitudes from a ten-thousandth up to below ten to the sixteenth are written
  positionally with a fraction part always present, all others with an exponent.
Main exports: Shortest, shortest, Double.text
-/
import Duplex.Decimal.Double
import Duplex.Decimal.Radix

namespace Duplex.Decimal

/-- A decimal `digits * 10 ^ power`. -/
structure Shortest where
  digits : Nat
  power : Int
deriving DecidableEq, Repr, Inhabited

/-- A positive rational as numerator and denominator. -/
structure Ratio where
  num : Nat
  den : Nat
deriving DecidableEq, Repr, Inhabited

/-- The rational `m * base ^ e`. -/
def Ratio.scaled (m base : Nat) (e : Int) : Ratio :=
  if 0 ≤ e then ⟨m * base.pow e.toNat, 1⟩ else ⟨m, base.pow (-e).toNat⟩

/-- Order of two rationals, by cross multiplication. -/
def Ratio.le (a b : Ratio) : Bool :=
  decide (a.num * b.den ≤ b.num * a.den)

/-- Strict order of two rationals. -/
def Ratio.lt (a b : Ratio) : Bool :=
  decide (a.num * b.den < b.num * a.den)

/-- The rationals that round to a number, with their ends belonging to them or not. -/
structure Rounding where
  value : Ratio
  low : Ratio
  high : Ratio
  closed : Bool
deriving Repr, Inhabited

/-- What rounds to `m * 2 ^ q`: half way to either neighbour.  The lower neighbour is nearer when
    `m` is the least significand of its exponent and the exponent is not the least one; a half way
    point goes to the even significand. -/
def Rounding.of (m : Nat) (q : Int) (lowerNear : Bool) : Rounding :=
  { value := .scaled (4 * m) 2 (q - 2)
    low := .scaled (if lowerNear then 4 * m - 1 else 4 * m - 2) 2 (q - 2)
    high := .scaled (4 * m + 2) 2 (q - 2)
    closed := m % 2 == 0 }

/-- Whether a rational rounds to the number. -/
def Rounding.holds (r : Rounding) (x : Ratio) : Bool :=
  if r.closed then r.low.le x && x.le r.high else r.low.lt x && x.lt r.high

/-- Number of decimal digits of `n`. -/
def digitCount (n : Nat) : Nat :=
  (digits 10 n).length

/-- The exponent `e` with `10 ^ e ≤ x < 10 ^ (e + 1)`, for a positive rational. -/
def Ratio.magnitude (x : Ratio) : Int :=
  let guess : Int := (digitCount x.num : Int) - (digitCount x.den : Int)
  if (Ratio.scaled 1 10 guess).le x then guess else guess - 1

/-- The nearest decimal with `count` digits that rounds to the number, if the grid of such
    decimals has one; of two equally near ones the upper. -/
def Rounding.onGrid (r : Rounding) (magnitude : Int) (count : Nat) : Option Shortest :=
  let power := magnitude - (count : Int) + 1
  let unit := Ratio.scaled 1 10 power
  let below := (r.value.num * unit.den) / (r.value.den * unit.num)
  let above := below + 1
  let point := fun (d : Nat) => Ratio.scaled d 10 power
  match decide (0 < below) && r.holds (point below), r.holds (point above) with
  | true, true =>
      -- twice the value against the sum of both candidates
      let twice : Ratio := ⟨2 * r.value.num, r.value.den⟩
      if twice.lt (point (below + above)) then some ⟨below, power⟩ else some ⟨above, power⟩
  | true, false => some ⟨below, power⟩
  | false, true => some ⟨above, power⟩
  | false, false => none

/-- The fewest digits that round to the number; seventeen always do. -/
def Rounding.shortest (r : Rounding) : Shortest :=
  let magnitude := r.value.magnitude
  ((List.range 17).findSome? (fun i => r.onGrid magnitude (i + 1))).getD ⟨0, 0⟩

/-- The fewest digits of a finite double other than zero, its sign left out. -/
def shortest (x : Double) : Shortest :=
  if x.exponent = 0 then (Rounding.of x.fraction (-1074) false).shortest
  else
    let lowerNear := x.fraction == 0 && decide (1 < x.exponent)
    (Rounding.of ((1 <<< 52) + x.fraction) ((x.exponent : Int) - 1075) lowerNear).shortest

/-- Decimal digits as text. -/
def digitText (ds : List Nat) : String :=
  String.ofList (ds.map Nat.digitChar)

/-- Digits without the zeros at their end. -/
def trimZeros (ds : List Nat) : List Nat :=
  (ds.reverse.dropWhile (· == 0)).reverse

/-- `digits` with the point after the digit of weight `10 ^ exponent` first, positionally. -/
def positional (ds : List Nat) (exponent : Int) : String :=
  if exponent < 0 then
    "0." ++ digitText (List.replicate ((-exponent).toNat - 1) 0 ++ ds)
  else
    let whole := exponent.toNat + 1
    let padded := ds ++ List.replicate (whole - ds.length) 0
    let after := padded.drop whole
    digitText (padded.take whole) ++ "." ++ digitText (if after.isEmpty then [0] else after)

/-- `digits` with one digit before the point and an exponent mark; a point only before digits. -/
def exponential (ds : List Nat) (exponent : Int) : String :=
  let after := ds.drop 1
  digitText (ds.take 1) ++ (if after.isEmpty then "" else "." ++ digitText after)
    ++ "e" ++ toString exponent

/-- The magnitude of a finite double as text. -/
def magnitudeText (x : Double) : String :=
  if x.isZero then "0.0"
  else
    let s := shortest x
    let ds := digits 10 s.digits
    let exponent := s.power + (ds.length : Int) - 1
    if -5 < exponent ∧ exponent < 16 then positional (trimZeros ds) exponent
    else exponential (trimZeros ds) exponent

/-- The text of a double. -/
def Double.text (x : Double) : String :=
  if x.isNaN then "NaN"
  else
    let sign := if x.negative then "-" else ""
    if x.special then sign ++ "inf" else sign ++ magnitudeText x

end Duplex.Decimal
