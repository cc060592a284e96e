/-
Module: Duplex.Decimal.Double
Purpose: Binary floating point numbers of double precision, held by their sixty-four bits so that
  they can be told apart exactly, and compared by value.
Main exports: Double, Double.same, Double.ofFloat, Double.toFloat, Double.hex, Double.ofHex
-/
import Duplex.Decimal.Radix

namespace Duplex.Decimal

/-- A double precision number, by its bits: one sign bit, eleven exponent bits and fifty-two
    fraction bits. -/
structure Double where
  bits : UInt64
deriving DecidableEq, Repr, Inhabited

namespace Double

/-- The number a machine computation gave. -/
def ofFloat (x : Float) : Double :=
  ⟨x.toBits⟩

/-- The number as operand of a machine computation. -/
def toFloat (x : Double) : Float :=
  Float.ofBits x.bits

/-- Whether the sign bit is set; zeros have a sign as well. -/
def negative (x : Double) : Bool :=
  decide (1 <<< 63 ≤ x.bits.toNat)

/-- The eleven exponent bits. -/
def exponent (x : Double) : Nat :=
  x.bits.toNat / (1 <<< 52) % (1 <<< 11)

/-- The fifty-two fraction bits. -/
def fraction (x : Double) : Nat :=
  x.bits.toNat % (1 <<< 52)

/-- The bits of an infinity or of something that is not a number. -/
def special (x : Double) : Bool :=
  x.exponent == 2047

/-- The bits of something that is not a number. -/
def isNaN (x : Double) : Bool :=
  x.special && x.fraction != 0

/-- Either zero. -/
def isZero (x : Double) : Bool :=
  x.exponent == 0 && x.fraction == 0

/-- Equality by value: the two zeros are equal, and what is not a number equals nothing. -/
def same (x y : Double) : Bool :=
  !x.isNaN && !y.isNaN && (x.bits == y.bits || (x.isZero && y.isZero))

/-- The bits as sixteen hexadecimal digits, which lose nothing. -/
def hex (x : Double) : String :=
  let ds := Nat.toDigits 16 x.bits.toNat
  String.ofList (List.replicate (16 - ds.length) '0' ++ ds)

/-- The value of a lower case hexadecimal digit. -/
def hexDigit (c : Char) : Nat :=
  if c.isDigit then c.toNat - '0'.toNat else c.toNat - 'a'.toNat + 10

/-- The number whose bits are written as hexadecimal digits. -/
def ofHex (s : String) : Double :=
  ⟨(ofDigits 16 (s.toList.map hexDigit)).toUInt64⟩

end Double

end Duplex.Decimal
