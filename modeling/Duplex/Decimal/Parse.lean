/-
Module: Duplex.Decimal.Parse
Purpose: Machine integers from decimal text: an optional sign and at least one digit, nothing else,
  within the range of machine integers.
Main exports: parseInt64?
-/

namespace Duplex.Decimal

/-- The number that decimal digits denote, if they are digits and at least one. -/
def parseDigits? (cs : List Char) : Option Nat :=
  if cs.isEmpty then none
  else
    cs.foldlM (fun n c => if c.isDigit then some (n * 10 + (c.toNat - '0'.toNat)) else none) 0

/-- The machine integer that a text denotes. -/
def parseInt64? (s : String) : Option Int64 := do
  let n : Int ←
    match s.toList with
    | '-' :: rest => (parseDigits? rest).map fun n => -(n : Int)
    | '+' :: rest => (parseDigits? rest).map fun n => (n : Int)
    | cs => (parseDigits? cs).map fun n => (n : Int)
  if Int64.minValue.toInt ≤ n ∧ n ≤ Int64.maxValue.toInt then some (Int64.ofInt n) else none

end Duplex.Decimal
