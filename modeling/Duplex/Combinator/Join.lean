/-
Module: Duplex.Combinator.Join
Purpose: An item between brackets, and items with separators between them.  A separator that no
  item follows ends the list if it is the optional one; otherwise a rescue may supply an item.
Main exports: Read.surround, Read.joined, Write.joined
-/
import Duplex.Read
import Duplex.Write

namespace Duplex

namespace Read

variable {μ σ α β : Type}

/-- An item between two brackets, of which only matters that they read. -/
def surround (left right : Read μ σ Bool) (item : Read μ σ (Option α)) : Read μ σ (Option α) := do
  if ← left then
    match ← item with
    | none => return none
    | some a => if ← right then return some a else return none
  else return none

/-- Goes on joining after `items` and `seps`, which are held with the latest one first.  A
    `trailing` separator without an item after it ends the list and is dropped; any other is left
    to `rescue`, which is told the items and separators so far in the same order. -/
def joinLoop (sep : Read μ σ (Option β)) (item : Read μ σ (Option α)) (trailing : β → Bool)
    (rescue : List α → List β → Read μ σ (Option α)) :
    Nat → List α → List β → Read μ σ (Option (List α × List β))
  | 0, _, _ => exhausted
  | fuel + 1, items, seps => do
      match ← sep with
      | none => return some (items.reverse, seps.reverse)
      | some s =>
          match ← item with
          | some a => joinLoop sep item trailing rescue fuel (a :: items) (s :: seps)
          | none =>
              if trailing s then return some (items.reverse, seps.reverse)
              else
                match ← rescue items (s :: seps) with
                | some a => joinLoop sep item trailing rescue fuel (a :: items) (s :: seps)
                | none => return none

/-- One or more items with separators between them. -/
def joined (fuel : Nat) (sep : Read μ σ (Option β)) (item : Read μ σ (Option α))
    (trailing : β → Bool) (rescue : List α → List β → Read μ σ (Option α)) :
    Read μ σ (Option (List α × List β)) := do
  match ← item with
  | none => return none
  | some a => joinLoop sep item trailing rescue fuel [a] []

end Read

namespace Write

variable {μ α β : Type}

/-- Separator and item by turns. -/
def alternating (sep : Writer μ β) (item : Writer μ α) : List β → List α → Write μ (List Token)
  | s :: seps, a :: items => do
      let mark ← sep s
      let body ← item a
      return mark ++ body ++ (← alternating sep item seps items)
  | _, _ => return []

/-- Items with their separators, of which there has to be one less; nothing at all is written as
    nothing. -/
def joined (sep : Writer μ β) (item : Writer μ α) (items : List α) (seps : List β) :
    Write μ (List Token) :=
  match items with
  | [] => if seps.isEmpty then return [] else fault (.separatorCount 0 seps.length)
  | a :: rest =>
      if rest.length = seps.length then do
        let first ← item a
        return first ++ (← alternating sep item seps rest)
      else fault (.separatorCount (rest.length + 1) seps.length)

end Write

end Duplex
