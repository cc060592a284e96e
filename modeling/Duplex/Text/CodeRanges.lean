/-
Module: Duplex.Text.CodeRanges
Purpose: Sets of characters as ranges of code points, the form in which properties of characters
  are tabulated.
Main exports: CodeRanges, CodeRanges.holds
-/

namespace Duplex.Text

/-- Inclusive ranges of code points, in ascending order. -/
abbrev CodeRanges :=
  List (Nat × Nat)

/-- Whether a character lies in one of the ranges. -/
def CodeRanges.holds (rs : CodeRanges) (c : Char) : Bool :=
  rs.any fun (low, high) => decide (low ≤ c.toNat) && decide (c.toNat ≤ high)

end Duplex.Text
