/-
Module: Duplex.Decimal.Radix
Purpose: Natural numbers as digits of a positional system, most significant digit first, and the
  number that such digits denote.  Printed, digits above nine are letters; a character stands for a
  digit whatever case it has.
Main exports: digits, ofDigits, printed, digitOf?
-/

namespace Duplex.Decimal

/-- Digits of `n` in front of those already known; `radix + 2` is the base. -/
def digitsOnto (radix : Nat) (n : Nat) (known : List Nat) : List Nat :=
  if h : n < radix + 2 then n :: known
  else digitsOnto radix (n / (radix + 2)) (n % (radix + 2) :: known)
termination_by n
decreasing_by
  have : 0 < n := by omega
  exact Nat.div_lt_self this (by omega)

/-- The digits of `n` in base `radix`, most significant first; zero has the one digit `0`.  Bases
    below two have no digits, so they give nothing. -/
def digits (radix n : Nat) : List Nat :=
  match radix with
  | 0 => []
  | 1 => []
  | r + 2 => digitsOnto r n []

/-- The number that `ds` denotes in base `radix`, most significant digit first. -/
def ofDigits (radix : Nat) (ds : List Nat) : Nat :=
  ds.foldl (fun n d => n * radix + d) 0

/-- How a digit is printed: ten figures, then the letters in lower case. -/
def glyph (d : Nat) : Char :=
  if d < 10 then Char.ofNat ('0'.toNat + d) else Char.ofNat ('a'.toNat + (d - 10))

/-- What a figure or a letter in either case stands for. -/
def glyphValue? (c : Char) : Option Nat :=
  if '0' ≤ c ∧ c ≤ '9' then some (c.toNat - '0'.toNat)
  else if 'a' ≤ c ∧ c ≤ 'z' then some (c.toNat - 'a'.toNat + 10)
  else if 'A' ≤ c ∧ c ≤ 'Z' then some (c.toNat - 'A'.toNat + 10)
  else none

/-- What a character stands for, if that is a digit of the radix. -/
def digitOf? (radix : Nat) (c : Char) : Option Nat :=
  (glyphValue? c).filter (· < radix)

/-- A number as text. -/
def printed (radix n : Nat) : List Char :=
  (digits radix n).map glyph

end Duplex.Decimal
