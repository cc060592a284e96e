/-
Module: Duplex.Combinator.Recovery
Purpose: Going on after an error.  Both ways report first, so they only come to skip anything on an
  input that keeps errors.  One skips ahead to the next place where the item reads, the other skips
  what a skipping reader takes and settles for a default.
Main exports: Read.insist, Read.settle, Read.stickyEnd
-/
import Duplex.Read

namespace Duplex.Read

variable {μ σ α β : Type} [Feed σ]

/-- Drops tokens one by one until `item` reads; none if the tokens end before that. -/
def skipTo (item : Read μ σ (Option α)) : Nat → Read μ σ (Option α)
  | 0 => exhausted
  | fuel + 1 => do
      match ← consume with
      | none => return none
      | some _ =>
          match ← item with
          | some a => return some a
          | none => skipTo item fuel

/-- The item; when it does not read, reports a message and skips ahead to where it does. -/
def insist (fuel : Nat) (message : Read μ σ String) (item : Read μ σ (Option α)) :
    Read μ σ (Option α) := do
  match ← item with
  | some a => return some a
  | none =>
      report (← message)
      skipTo item fuel

/-- Skips as long as the skipping reader reads and takes at least one token by it. -/
def skipWhile (skip : Read μ (Counted σ) (Option β)) : Nat → Read μ σ Unit
  | 0 => exhausted
  | fuel + 1 => do
      let (skipped, taken) ← counting skip
      if skipped.isNone || taken == 0 then return ()
      else skipWhile skip fuel

/-- The item; when it does not read, reports a message, skips, and gives `default`. -/
def settle (fuel : Nat) (message : Read μ σ String) (skip : Read μ (Counted σ) (Option β))
    (default : α) (item : Read μ σ (Option α)) : Read μ σ (Option α) := do
  match ← item with
  | some a => return some a
  | none =>
      report (← message)
      skipWhile skip fuel
      return some default

/-- `value` if the tokens have all been taken and the last one meets `item`; otherwise what
    `otherwise` reads.  Trying for the end takes a token where there still is one. -/
def stickyEnd (item : Read μ (Lookahead σ) (Option β)) (value : α)
    (otherwise : Read μ σ (Option α)) : Read μ σ (Option α) := do
  if ← testPeek item then
    if ← noneLeft then return some value
    else otherwise
  else otherwise

end Duplex.Read
