/-
Module: Duplex.Combinator.Sequence
Purpose: Readers one after the other, and the first of several that reads.  Neither goes back: a
  sequence that fails in its second place has taken what its first place read, and a choice offers
  its next case what the failed one left.
Main exports: Read.sequence, Read.choice, Write.inTurn
-/
import Duplex.Read
import Duplex.Write

namespace Duplex

namespace Read

variable {μ σ α : Type}

/-- All readers in order; none if one of them reads nothing. -/
def sequence : List (Read μ σ (Option α)) → Read μ σ (Option (List α))
  | [] => return some []
  | r :: rest => do
      match ← r with
      | none => return none
      | some a =>
          match ← sequence rest with
          | none => return none
          | some as => return some (a :: as)

/-- The first reader that reads, with its number; the cases are numbered from `index` on. -/
def choice (index : Nat) : List (Read μ σ (Option α)) → Read μ σ (Option (Nat × α))
  | [] => return none
  | r :: rest => do
      match ← r with
      | some a => return some (index, a)
      | none => choice (index + 1) rest

end Read

/-- Writes each value with the writer in its place, as far as both go. -/
def Write.inTurn {μ α : Type} : List (Writer μ α) → List α → Write μ (List Token)
  | w :: ws, a :: as => do
      let first ← w a
      return first ++ (← inTurn ws as)
  | _, _ => return []

end Duplex
