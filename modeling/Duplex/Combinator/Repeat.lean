/-
Module: Duplex.Combinator.Repeat
Purpose: Repetition, by count or up to a token that ends it.  Every item is handed to a fold as
  soon as it is read; a refusal is reported, and if the report is kept the repetition is not
  parsed.  The token that ends a repetition is looked at and left.
Main exports: Bounds, Read.gather, Read.repeated, Read.upTo
-/
import Duplex.Read

namespace Duplex

/-- Limits for the number of repetitions. -/
structure Bounds where
  min : Nat
  max : Nat
  /-- Greedy repetition goes on up to `max`, the other kind stops as soon as `min` is reached. -/
  greedy : Bool
deriving DecidableEq, Repr, Inhabited

namespace Bounds

/-- The largest count there is. -/
def unlimited : Nat :=
  UInt64.size - 1

/-- Once or more. -/
def some : Bounds :=
  ⟨1, unlimited, true⟩

/-- Any number of times. -/
def many : Bounds :=
  ⟨0, unlimited, true⟩

/-- Whether a number of repetitions is allowed. -/
def allows (b : Bounds) (count : Nat) : Bool :=
  decide (b.min ≤ count) && decide (count ≤ b.max)

/-- The number of repetitions after which no further item is tried. -/
def limit (b : Bounds) : Nat :=
  if b.greedy then b.max else b.min

end Bounds

namespace Read

variable {μ σ α τ : Type} [Feed σ]

/-- Hands an item to a fold; a refusal is reported and gives none.  A fold may also end the whole
    run. -/
def gather (accept : τ → α → Except FoldStop τ) (sofar : τ) (a : α) : Read μ σ (Option τ) := do
  match accept sofar a with
  | .ok next => return some next
  | .error (.refused refusal) =>
      report refusal.message
      return none
  | .error (.abort cause) => abort cause

/-- Reads items until one does not read or `limit` of them were read; none after a refusal.  The
    answer has the number of items. -/
def repeatLoop (accept : τ → α → Except FoldStop τ) (item : Read μ σ (Option α)) (limit : Nat) :
    Nat → Nat → τ → Read μ σ (Option (Nat × τ))
  | 0, _, _ => exhausted
  | fuel + 1, count, sofar => do
      if count < limit then
        match ← item with
        | none => return some (count, sofar)
        | some a =>
            match ← gather accept sofar a with
            | none => return none
            | some next => repeatLoop accept item limit fuel (count + 1) next
      else return some (count, sofar)

/-- Repetition within bounds. -/
def repeated (fuel : Nat) (accept : τ → α → Except FoldStop τ) (start : τ) (bounds : Bounds)
    (item : Read μ σ (Option α)) : Read μ σ (Option τ) := do
  match ← repeatLoop accept item bounds.limit fuel 0 start with
  | none => return none
  | some (count, gathered) => return if bounds.allows count then some gathered else none

/-- Items up to a token that `ending` reads; none if an item does not read before that. -/
def upTo {β : Type} (accept : τ → α → Except FoldStop τ)
    (ending : Read μ (Lookahead σ) (Option β)) (item : Read μ σ (Option α)) :
    Nat → τ → Read μ σ (Option τ)
  | 0, _ => exhausted
  | fuel + 1, sofar => do
      if ← testPeek ending then return some sofar
      else
        match ← item with
        | none => return none
        | some a =>
            match ← gather accept sofar a with
            | none => return none
            | some next => upTo accept ending item fuel next

end Read

end Duplex
