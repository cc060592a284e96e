/-
Module: Duplex.Combinator.Outline
Purpose: Trees laid out by indentation.  Each item is followed by the indentation of the line after
  it; an item with a tail opens a block, whose lines are indented deeper than the item.  Reading
  works line by line with the indentation of the enclosing blocks on a stack; writing puts each
  item on a line of its own, one step deeper per block.
Main exports: Outline, Read.layer, Read.outline, Outline.lines, Write.outline
-/
import Duplex.Read
import Duplex.Write

namespace Duplex

/-- A tree of items `α`, where items with a tail `β` have a block below them. -/
inductive Outline (α β : Type) where
  | root (nodes : List (Outline α β))
  | nest (item : α) (tail : β) (children : List (Outline α β))
  | term (item : α)

namespace Outline

variable {α β : Type}

instance [Inhabited α] : Inhabited (Outline α β) := ⟨.term default⟩

/-- The item of a node. -/
def item? : Outline α β → Option α
  | .root _ => none
  | .nest item _ _ => some item
  | .term item => some item

/-- The nodes directly below a node. -/
def children : Outline α β → List (Outline α β)
  | .root nodes => nodes
  | .nest _ _ nodes => nodes
  | .term _ => []

/-- One line of a written outline. -/
inductive Line (α β : Type) where
  | opening (item : α) (tail : β)
  | plain (item : α)
  /-- A root that stands below another node, which has no written form. -/
  | misplaced

mutual

/-- The lines of a node at indentation `level`, in reading order, with their indentation. -/
def lines (step level : Nat) : Outline α β → List (Nat × Line α β)
  | .root _ => [(level, .misplaced)]
  | .nest item tail children =>
      (level, .opening item tail) :: linesOf step (level + step) children
  | .term item => [(level, .plain item)]

/-- The lines of several nodes. -/
def linesOf (step level : Nat) : List (Outline α β) → List (Nat × Line α β)
  | [] => []
  | node :: rest => lines step level node ++ linesOf step level rest

end

/-- Whether a line opens a block. -/
def Line.isOpening : Line α β → Bool
  | .opening _ _ => true
  | _ => false

/-- Whether the block below every line that opens one is indented by a machine word. -/
def fits (step : Nat) (lines : List (Nat × Line α β)) : Bool :=
  lines.all fun (level, line) => !line.isOpening || decide (level + step < UInt64.size)

/-- The nodes on the top level of an outline. -/
def top : Outline α β → List (Outline α β)
  | .root nodes => nodes
  | node => [node]

end Outline

namespace Read

variable {μ σ α β : Type} [Feed σ]

/-- What an outline is read with. -/
structure OutlineParts (μ σ α β : Type) where
  /-- What may follow an item on its line and opens a block. -/
  tail : Read μ σ (Option β)
  /-- The break after an item: the indentation of the next line. -/
  layout : Read μ σ (Option Nat)
  /-- Reads the block that an item and its tail open: `body` is to be run once, with the reader of
      the items of that block. -/
  block : α → β → (body : Read μ σ (Option α) → Read μ σ (Option (Nat × List (Outline α β)))) →
    Read μ σ (Option (Nat × List (Outline α β)))
  /-- An item in diagnostics. -/
  quoted : α → String

/-- Reads the items of one block at indentation `here`, behind those already read, which are held
    with the latest one first.  Also gives the indentation that closed the block, which is below
    `here` when enclosing blocks close too. -/
def layer (parts : OutlineParts μ σ α β) :
    Nat → Read μ σ (Option α) → Nat → List (Outline α β) →
      Read μ σ (Option (Nat × List (Outline α β)))
  | 0, _, _, _ => exhausted
  | fuel + 1, item, here, nodes => do
      match ← item with
      | none => return some (here, nodes.reverse)
      | some a =>
          match ← parts.tail with
          | some tail =>
              match ← parts.layout with
              | none => return none
              | some below =>
                  if below ≤ here then
                    report s!"bad layout-open decrement ({here} => {below})"
                  match ← parts.block a tail (fun inner => layer parts fuel inner below []) with
                  | none => return none
                  | some (closed, children) =>
                      let nodes := .nest a tail children :: nodes
                      if closed < here then return some (closed, nodes.reverse)
                      else
                        if here < closed then
                          report s!"unaligned layout close ({here} => {closed})"
                        layer parts fuel item here nodes
          | none =>
              match ← parts.layout with
              | none => return none
              | some next =>
                  if here < next then
                    report (s!"illegal layout increment ({here} => {next}) near "
                      ++ parts.quoted a)
                  let nodes := .term a :: nodes
                  if next < here then return some (next, nodes.reverse)
                  else layer parts fuel item here nodes

/-- A whole outline whose top level items are indented by `base`. -/
def outline (fuel : Nat) (parts : OutlineParts μ σ α β) (item : Read μ σ (Option α)) (base : Nat) :
    Read μ σ (Option (Outline α β)) := do
  match ← layer parts fuel item base [] with
  | none => return none
  | some (closed, nodes) =>
      if closed ≠ base then report s!"terminate indent not zero: {closed}"
      return some (.root nodes)

end Read

namespace Write

variable {μ α β : Type}

/-- Writes the content of one line. -/
def outlineLine (item : Writer μ α) (tail : Writer μ β) :
    Outline.Line α β → Write μ (List Token)
  | .opening a t => do
      let first ← item a
      return first ++ (← tail t)
  | .plain a => item a
  | .misplaced => fault (.unsupported "nested layout root")

/-- Writes lines, each with the break to the next one; after the last line comes the indentation
    `base`. -/
def outlineLines (item : Writer μ α) (tail : Writer μ β) (layout : Writer μ Nat) (base : Nat) :
    List (Nat × Outline.Line α β) → Write μ (List Token)
  | [] => return []
  | (_, line) :: rest => do
      let body ← outlineLine item tail line
      let next := (rest.head?.map Prod.fst).getD base
      let gap ← layout next
      return body ++ gap ++ (← outlineLines item tail layout base rest)

/-- Writes an outline, indented by `base` and by `step` more per block. -/
def outline (item : Writer μ α) (tail : Writer μ β) (layout : Writer μ Nat) (base step : Nat)
    (tree : Outline α β) : Write μ (List Token) :=
  let lines := Outline.linesOf step base tree.top
  if Outline.fits step lines then outlineLines item tail layout base lines
  else abort .indentRange

end Write

end Duplex
