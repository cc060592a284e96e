/-
Module: Duplex.Grammar.Conversion
Purpose: Conversions of values for use in grammars: arithmetic on machine integers, which wraps
  around, and rearrangements of tuples, lists and texts.  A conversion without inverse can be read
  with but not written with.
Main exports: Conversion.pure, Conversion.oneWay, Conversion.negate, Conversion.successor,
  Conversion.twice, Conversion.swap, Conversion.decimal, Conversion.code, Conversion.wrap,
  Conversion.constant, Conversion.nth, Conversion.digitFrom
-/
import Duplex.Decimal.Parse
import Duplex.Pattern.Basic

namespace Duplex.Conversion

/-- A conversion between two functions that compute without limits. -/
def pure (forward : Value → Value) (back : Value → Option Value) : Conversion :=
  ⟨fun v => .ok (forward v), fun v => .ok (back v)⟩

/-- A conversion that has no inverse. -/
def oneWay (forward : Value → Value) : Conversion :=
  .pure forward fun _ => none

/-- A function of machine integers on values; other values stay. -/
def onInt (f : Int64 → Value) : Value → Value
  | .int n => f n
  | v => v

/-- A partial function of machine integers on values. -/
def onInt? (f : Int64 → Option Value) : Value → Option Value
  | .int n => f n
  | _ => none

/-- The negative of a number. -/
def negate : Conversion :=
  .pure (onInt fun n => .int (-n)) (onInt? fun n => some (.int (-n)))

/-- The next number; only positive numbers go back. -/
def successor : Conversion :=
  .pure (onInt fun n => .int (n + 1)) (onInt? fun n => if 0 < n then some (.int (n - 1)) else none)

/-- The double of a number; only even numbers go back. -/
def twice : Conversion :=
  .pure (onInt fun n => .int (2 * n))
    (onInt? fun n => if n % 2 = 0 then some (.int (n / 2)) else none)

/-- The two parts of a pair, exchanged. -/
def exchange : Value → Value
  | .tuple [a, b] => .tuple [b, a]
  | v => v

/-- Exchanges the parts of pairs. -/
def swap : Conversion :=
  .pure exchange (fun v => some (exchange v))

/-- A machine integer as decimal text. -/
def decimal : Conversion :=
  .pure (onInt fun n => .text (toString n.toInt))
    fun v =>
      match v with
      | .text s => (Decimal.parseInt64? s).map .int
      | _ => none

/-- The character with a code point, if there is one. -/
def charOf? (n : Int) : Option Char :=
  if 0 ≤ n ∧ n.toNat.isValidChar then some (Char.ofNat n.toNat) else none

/-- A character as its code point. -/
def code : Conversion :=
  .pure
    (fun v =>
      match v with
      | .char c => .ofCount c.toNat
      | v => v)
    (onInt? fun n => (charOf? n.toInt).map .char)

/-- A value as list of its own. -/
def wrap : Conversion :=
  .pure (fun v => .list [v])
    fun v =>
      match v with
      | .list [w] => some w
      | _ => none

/-- One value for everything; going back gives another, if there is one. -/
def constant (target : Value) (back : Option Value) : Conversion :=
  .pure (fun _ => target) (fun _ => back)

/-- The parts of a tuple or list. -/
def components : Value → List Value
  | .tuple parts => parts
  | .list items => items
  | _ => []

/-- One part of a tuple or list; going back puts it into the gaps of `frame`, if there is one. -/
def nth (index : Nat) (frame : Option (List (Option Value))) : Conversion :=
  .pure (fun v => ((components v)[index]?).getD v)
    (fun v => frame.map fun parts => .tuple (parts.map fun part => part.getD v))

/-- The number of characters of a text. -/
def textLength : Conversion :=
  .oneWay fun v =>
    match v with
    | .text s => .ofCount s.length
    | v => v

/-- One part of a pair, with what gives the other part back from it. -/
def keepSecond (first : Value → Option Value) : Conversion :=
  .pure (fun v => ((components v)[1]?).getD v) (fun b => (first b).map fun a => .pair a b)

/-- The first part of a pair, with what gives the second part back from it. -/
def keepFirst (second : Value → Option Value) : Conversion :=
  .pure (fun v => ((components v)[0]?).getD v) (fun a => (second a).map fun b => .pair a b)

/-- First number beyond the digits. -/
def digitLimit : Nat :=
  UInt32.size

/-- A character as digit: its distance from `zero`, which it must not come before, plus `pad`. -/
def digitFrom (zero : Char) (pad : Nat) : Conversion where
  forward v :=
    match v with
    | .char c =>
        if c.toNat < zero.toNat then .error .digitRange
        else
          let d := c.toNat - zero.toNat + pad
          if d < digitLimit then .ok (.ofCount d) else .error .digitRange
    | v => .ok v
  back v :=
    let d := v.digit
    if d < pad then .ok none
    else
      let n := zero.toNat + (d - pad)
      if n < digitLimit then .ok ((charOf? n).map .char) else .error .digitRange

/-- A character as text of its own. -/
def charText : Conversion :=
  .pure
    (fun v =>
      match v with
      | .char c => .text c.toString
      | v => v)
    fun v =>
      match v with
      | .text s =>
          match s.toList with
          | [c] => some (.char c)
          | _ => none
      | _ => none

/-- A character and the text after it, as one text. -/
def consText : Conversion :=
  .pure
    (fun v =>
      match v with
      | .tuple [.char c, .text s] => .text (String.ofList (c :: s.toList))
      | v => v)
    fun v =>
      match v with
      | .text s =>
          match s.toList with
          | c :: rest => some (.pair (.char c) (.text (String.ofList rest)))
          | [] => none
      | _ => none

/-- A text and the character after it, as one text. -/
def snocText : Conversion :=
  .pure
    (fun v =>
      match v with
      | .tuple [.text s, .char c] => .text (s.push c)
      | v => v)
    fun v =>
      match v with
      | .text s =>
          match s.toList.getLast? with
          | some c => some (.pair (.text (String.ofList s.toList.dropLast)) (.char c))
          | none => none
      | _ => none

/-- Whether a character is a minus. -/
def isMinus : Conversion :=
  .oneWay fun v => .bool (v == .char '-')

/-- Joined items without their separators; going back puts `sep` between them. -/
def itemsOnly (sep : Value) : Conversion :=
  .pure
    (fun v =>
      match v with
      | .tuple [items, _] => items
      | v => v)
    fun v =>
      match v with
      | .list items => some (.pair v (.list (List.replicate (items.length - 1) sep)))
      | _ => none

/-- Joined items with their separating characters as one text. -/
def separatorText : Conversion :=
  .pure
    (fun v =>
      match v with
      | .tuple [items, .list seps] =>
          .pair items (.text (Token.spell (seps.filterMap Value.toToken?)))
      | v => v)
    fun v =>
      match v with
      | .tuple [items, .text s] => some (.pair items (.list (s.toList.map .char)))
      | _ => none

/-- Values as they are. -/
def identity : Conversion :=
  .pure id some

end Duplex.Conversion
