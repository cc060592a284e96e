/-
Module: Duplex.Grammar.Operators
Purpose: Operators for chains: ways to join two values, and tables of operators by their spelling.
Main exports: Joining, Joining.apply, Pattern.operatorTable
-/
import Duplex.Pattern.Basic

namespace Duplex

/-- Ways to join two operands. -/
inductive Joining where
  /-- A text with the operator between the operands, in parentheses. -/
  | tree
  | add
  | subtract
  | multiply
  | pair
deriving DecidableEq, Repr, Inhabited

namespace Joining

/-- A function of machine integers on two values; other values give the first. -/
def onInts (f : Int64 → Int64 → Int64) : Value → Value → Value
  | .int a, .int b => .int (f a b)
  | a, _ => a

/-- Joins two operands of an operator called `name`. -/
def apply (j : Joining) (name : String) (a b : Value) : Value :=
  match j with
  | .tree => .text ("(" ++ a.plain ++ name ++ b.plain ++ ")")
  | .add => onInts (· + ·) a b
  | .subtract => onInts (· - ·) a b
  | .multiply => onInts (· * ·) a b
  | .pair => .pair a b

end Joining

/-- An operator on values. -/
def Operator.named (name : String) (ordinal : Nat) (rightAssoc : Bool) (joining : Joining) :
    Operator Value :=
  ⟨name, ⟨ordinal, rightAssoc⟩, joining.apply name⟩

/-- Operators by the tokens that spell them. -/
def Pattern.operatorTable (operators : List (List Token × Operator Value)) :
    Registry Token (Operator Value) :=
  Registry.empty.insertAll operators

end Duplex
