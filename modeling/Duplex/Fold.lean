/-
Module: Duplex.Fold
Purpose: Gathering items into one value while reading, and taking a value apart into items again
  for writing.  A fold starts from nothing, accepts item after item or refuses one, and finishes;
  folds that lose their items have no way back unless one is attached.
Main exports: Fold, Tally, Fold.start, Tally.accept, Tally.finish, Fold.items, Folding, foldAll
-/
import Duplex.Decimal.Radix
import Duplex.Value.Basic
import Duplex.Fault

namespace Duplex

/-- The ways of gathering items. -/
inductive Fold where
  /-- All items, in order. -/
  | list
  /-- Characters into a text. -/
  | text
  /-- Texts into one text; where they met is lost. -/
  | joined
  /-- Only how many items there were. -/
  | count
  /-- Pairs into a map; a later pair replaces an earlier one with its key. -/
  | map
  /-- Digits into a machine integer. -/
  | int (radix : Nat)
  /-- Digits into an integer of any size. -/
  | big (radix : Nat)
  /-- Decimal digits after the point, added to what stands before it. -/
  | double (integral : Int64)
  /-- Machine integers added up, wrapping around. -/
  | sum (initial : Int64)
  /-- The latest item in front of everything gathered before it. -/
  | nested
  /-- The latest item. -/
  | last (initial : Value)
deriving Repr, Inhabited

/-- What a fold has gathered so far. -/
inductive Tally where
  /-- The items, the latest one first. -/
  | list (latest : List Value)
  | text (s : String)
  | count (n : Nat)
  | map (entries : List (Token × Value))
  | int (radix : Nat) (n : Int64)
  | big (radix : Nat) (n : Int)
  | double (integral : Int64) (numer denom : Nat)
  | sum (n : Int64)
  | nested (v : Value)
  | last (v : Value)
deriving Repr, Inhabited

/-- Nothing gathered yet. -/
def Fold.start : Fold → Tally
  | .list => .list []
  | .text => .text ""
  | .joined => .text ""
  | .count => .count 0
  | .map => .map []
  | .int radix => .int radix 0
  | .big radix => .big radix 0
  | .double integral => .double integral 0 1
  | .sum initial => .sum initial
  | .nested => .nested (.list [])
  | .last initial => .last initial

/-- The digit that a machine integer is taken for: its low thirty-two bits. -/
def digitOf (d : Int64) : Nat :=
  (d.toInt % UInt32.size).toNat

/-- An item as digit. -/
def Value.digit : Value → Nat
  | .int d => digitOf d
  | _ => 0

/-- Smallest machine integer. -/
def minInt : Int :=
  Int64.minValue.toInt

/-- Largest machine integer. -/
def maxInt : Int :=
  Int64.maxValue.toInt

/-- An exact result as machine integer, if it is one. -/
def machineInt? (n : Int) : Option Int64 :=
  if minInt ≤ n ∧ n ≤ maxInt then some (Int64.ofInt n) else none

/-- First number beyond the unsigned machine words. -/
def wordLimit : Nat :=
  UInt64.size

/-- An exact result as unsigned machine word, if it is one. -/
def machineWord? (n : Nat) : Option Nat :=
  if n < wordLimit then some n else none

/-- Appends a digit to a machine integer: neither the product with the radix nor its sum with the
    digit may leave the machine integers. -/
def appendDigit? (radix : Nat) (n : Int64) (d : Nat) : Option Int64 := do
  let shifted ← machineInt? (n.toInt * radix)
  machineInt? (shifted.toInt + d)

/-- Appends a decimal digit to a fraction, in machine words. -/
def appendDecimal? (numer denom d : Nat) : Option (Nat × Nat) := do
  let shifted ← machineWord? (numer * 10)
  let longer ← machineWord? (shifted + d)
  return (longer, ← machineWord? (denom * 10))

/-- Accepts one item, or refuses it.  Items of a kind that is not gathered end the whole run. -/
def Tally.accept (t : Tally) (v : Value) : Except FoldStop Tally :=
  match t, v with
  | .list latest, v => .ok (.list (v :: latest))
  | .text s, .char c => .ok (.text (s.push c))
  | .text s, .text u => .ok (.text (s ++ u))
  | .count n, _ => .ok (.count (n + 1))
  | .map entries, .tuple [k, w] =>
      match k.toToken? with
      | some key => .ok (.map (Value.insertEntry key w entries))
      | none => .error (.abort .illTyped)
  | .int radix n, .int d =>
      match appendDigit? radix n (digitOf d) with
      | some n => .ok (.int radix n)
      | none => .error (.refused (.overflow n))
  | .big radix n, .int d => .ok (.big radix (n * (radix : Int) + (digitOf d : Int)))
  | .double integral numer denom, .int d =>
      match appendDecimal? numer denom (digitOf d) with
      | some (numer, denom) => .ok (.double integral numer denom)
      | none => .error (.refused .fractionTooLong)
  | .sum n, .int m => .ok (.sum (n + m))
  | .nested before, v => .ok (.nested (.list [v, before]))
  | .last _, v => .ok (.last v)
  | _, _ => .error (.abort .illTyped)

/-- The fraction `numer / denom` added to an integral part, away from zero. -/
def joinFraction (integral : Int64) (numer denom : Nat) : Decimal.Double :=
  let fraction := numer.toUInt64.toFloat / denom.toUInt64.toFloat
  .ofFloat (if integral < 0 then integral.toFloat - fraction else integral.toFloat + fraction)

/-- The value gathered. -/
def Tally.finish : Tally → Value
  | .list latest => .list latest.reverse
  | .text s => .text s
  | .count n => .ofCount n
  | .map entries => .map entries
  | .int _ n => .int n
  | .big _ n => .big n
  | .double integral numer denom => .double (joinFraction integral numer denom)
  | .sum n => .int n
  | .nested v => v
  | .last v => v

/-- The digits of a number that is not negative: what the characters stand for that it is printed
    with.  Numbers are printed in the bases from two to thirty-six. -/
def digitItems (radix : Nat) (n : Int) : Except (Stop WriteFault) (List Value) :=
  if n < 0 then .error (.fault (.unsupported "unfold of negative integer"))
  else if 2 ≤ radix ∧ radix ≤ 36 then
    let digits := (Decimal.printed radix n.toNat).filterMap (Decimal.digitOf? radix)
    .ok (digits.map Value.ofCount)
  else .error (.halt (.abort .badRadix))

/-- The items that gather into a value. -/
def Fold.items (f : Fold) (v : Value) : Except (Stop WriteFault) (List Value) :=
  match f, v with
  | .list, .list items => .ok items
  | .text, .text s => .ok (s.toList.map .char)
  | .map, .map entries => .ok (entries.map fun (k, w) => .pair k.toValue w)
  | .int radix, .int n => digitItems radix n.toInt
  | .big radix, .big n => digitItems radix n
  | _, _ => .error (.fault (.unsupported "unfold"))

/-- First number of copies that cannot be laid out at once: characters of four bytes each would
    fill more than half of the address space. -/
def roomLimit : Nat :=
  UInt64.size / 2 / 4

/-- Copies of a value, unless there is no room for as many. -/
def copiesOf (count : Nat) (v : Value) : Except Abort (List Value) :=
  if count < roomLimit then .ok (List.replicate count v) else .error .noRoom

/-- Ways back that can be attached to a fold. -/
inductive Unfold where
  /-- As many copies of a value as the count says. -/
  | copies (v : Value)
  /-- A text as texts of one character each. -/
  | chars
  /-- The items of a list from the last to the first. -/
  | reverse
  /-- The value as the only item. -/
  | itself
deriving Repr, Inhabited

/-- The items that a way back gives. -/
def Unfold.items (u : Unfold) (v : Value) : Except Abort (List Value) :=
  match u, v with
  | .copies w, count => copiesOf count.toCount w
  | .chars, .text s => .ok (s.toList.map fun c => .text c.toString)
  | .reverse, .list items => .ok items.reverse
  | .itself, v => .ok [v]
  | _, _ => .ok []

/-- A fold, with a way back of its own or with an attached one. -/
structure Folding where
  fold : Fold
  back : Option Unfold := none

namespace Folding

/-- A fold with an attached way back. -/
def withUnfold (f : Fold) (u : Unfold) : Folding :=
  { fold := f, back := some u }

instance : Inhabited Folding := ⟨{ fold := .list }⟩

/-- The items that gather into a value. -/
def items (f : Folding) (v : Value) : Except (Stop WriteFault) (List Value) :=
  match f.back with
  | some back => (back.items v).mapError (.halt ∘ .abort)
  | none => f.fold.items v

/-- The value of no items at all. -/
def nothing (f : Folding) : Value :=
  f.fold.start.finish

end Folding

/-- Gathers all of `items`. -/
def foldAll (f : Fold) (items : List Value) : Except FoldStop Value := do
  let gathered ← items.foldlM Tally.accept f.start
  return gathered.finish

end Duplex
