/-
Module: Duplex.Combinator.Chain
Purpose: Chains of binary operators, joined by precedence climbing.  A higher ordinal binds
  tighter; among equal ordinals the associativity of the operator on the left decides.  An operator
  that is too weak for the level it is read on is handed to the level below, never read twice.
Main exports: Precedence, Operator, Operator.apply, Read.climb, Read.chain
-/
import Duplex.Read

namespace Duplex

/-- How tightly an operator binds. -/
structure Precedence where
  ordinal : Nat
  rightAssoc : Bool
deriving DecidableEq, Repr, Inhabited

/-- A binary operator on values `α`. -/
structure Operator (α : Type) where
  name : String
  precedence : Precedence
  join : α → α → α

namespace Operator

variable {α : Type}

/-- Operators are told apart by name and precedence; how they join cannot be compared. -/
instance : BEq (Operator α) :=
  ⟨fun a b => a.name == b.name && a.precedence == b.precedence⟩

/-- Higher ordinals bind tighter. -/
def ordinal (op : Operator α) : Nat :=
  op.precedence.ordinal

/-- Joins two operands. -/
def apply (op : Operator α) (lhs rhs : α) : α :=
  op.join lhs rhs

/-- Whether `next` takes the operand between it and `op`. -/
def yieldsTo (op next : Operator α) : Bool :=
  decide (op.ordinal < next.ordinal)
    || (next.ordinal == op.ordinal && op.precedence.rightAssoc)

/-- The least ordinal that joins onto the right operand of `op` once `next` has taken it. -/
def rightMin (op next : Operator α) : Nat :=
  if op.ordinal < next.ordinal then op.ordinal + 1 else op.ordinal

end Operator

namespace Read

variable {μ σ α : Type}

mutual

/-- Joins operators of at least `min` ordinal onto `lhs`.  Also gives the operator that stopped the
    chain, already read. -/
def climb (operator : Read μ σ (Option (Operator α)))
    (operand : α → Operator α → Read μ σ (Option α)) :
    Nat → α → Option (Operator α) → Nat → Read μ σ (Option (α × Option (Operator α)))
  | 0, _, _, _ => exhausted
  | fuel + 1, lhs, pending, min => do
      let current ←
        match pending with
        | some op => pure (some op)
        | none => operator
      match current with
      | none => return some (lhs, none)
      | some op =>
          if op.ordinal < min then return some (lhs, some op)
          else
            match ← operand lhs op with
            | none => return none
            | some rhs =>
                let next ← operator
                match ← tighten operator operand fuel op rhs next with
                | none => return none
                | some (rhs, none) => return some (op.apply lhs rhs, none)
                | some (rhs, some stop) =>
                    climb operator operand fuel (op.apply lhs rhs) (some stop) min

/-- Lets the operators that bind tighter than `op` join onto its right operand. -/
def tighten (operator : Read μ σ (Option (Operator α)))
    (operand : α → Operator α → Read μ σ (Option α)) :
    Nat → Operator α → α → Option (Operator α) → Read μ σ (Option (α × Option (Operator α)))
  | 0, _, _, _ => exhausted
  | _ + 1, _, rhs, none => return some (rhs, none)
  | fuel + 1, op, rhs, some next =>
      if op.yieldsTo next then do
        match ← climb operator operand fuel rhs (some next) (op.rightMin next) with
        | none => return none
        | some (joined, stop) => tighten operator operand fuel op joined stop
      else return some (rhs, some next)

end

section Equations

variable (operator : Read μ σ (Option (Operator α)))
  (operand : α → Operator α → Read μ σ (Option α))

theorem climb_none (fuel : Nat) (lhs : α) (min : Nat) :
    climb operator operand (fuel + 1) lhs none min =
      (do
        match ← operator with
        | none => return some (lhs, none)
        | some op => climb operator operand (fuel + 1) lhs (some op) min) := by
  unfold climb
  congr

theorem climb_some (fuel : Nat) (lhs : α) (op : Operator α) (min : Nat) :
    climb operator operand (fuel + 1) lhs (some op) min =
      (if op.ordinal < min then return some (lhs, some op)
      else do
        match ← operand lhs op with
        | none => return none
        | some rhs =>
            let next ← operator
            match ← tighten operator operand fuel op rhs next with
            | none => return none
            | some (rhs, none) => return some (op.apply lhs rhs, none)
            | some (rhs, some stop) =>
                climb operator operand fuel (op.apply lhs rhs) (some stop) min) := by
  rw [climb]
  exact pure_bind _ _

theorem tighten_none (fuel : Nat) (op : Operator α) (rhs : α) :
    tighten operator operand (fuel + 1) op rhs none = pure (some (rhs, none)) := by
  rw [tighten]

theorem tighten_some (fuel : Nat) (op : Operator α) (rhs : α) (next : Operator α) :
    tighten operator operand (fuel + 1) op rhs (some next) =
      (if op.yieldsTo next then do
        match ← climb operator operand fuel rhs (some next) (op.rightMin next) with
        | none => return none
        | some (joined, stop) => tighten operator operand fuel op joined stop
      else return some (rhs, some next)) := by
  rw [tighten]

end Equations

/-- An operand, then any number of operators each with an operand after it, joined into one value.
    `rescue` gives the operand of an operator that none follows. -/
def chain (fuel : Nat) (operand : Read μ σ (Option α)) (operator : Read μ σ (Option (Operator α)))
    (rescue : α → Operator α → Read μ σ (Option α)) : Read μ σ (Option α) := do
  match ← operand with
  | none => return none
  | some first =>
      let right := fun lhs op => do
        match ← operand with
        | some rhs => return some rhs
        | none => rescue lhs op
      match ← climb operator right fuel first none 0 with
      | none => return none
      | some (joined, _) => return some joined

end Read

end Duplex
