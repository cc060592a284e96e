/-
Module: Duplex.Pattern.Memory
Purpose: What a grammar remembers between reads: the definitions of its recursive patterns, the
  keys its tries have learned, and which of its patterns have been made already.
Main exports: Memory, Memory.define, Memory.trieAt, Memory.supply, Memory.forget, Memory.restore
-/
import Duplex.Pattern.Basic
import Duplex.Write

namespace Duplex

/-- The memory of a grammar.  A cell that is not in it is as its pattern starts it. -/
structure Memory where
  definitions : List (String × Pattern)
  tries : List (Nat × Registry Token Value)
  supplied : List Nat
deriving Inhabited

namespace Memory

/-- Nothing remembered. -/
def empty : Memory :=
  ⟨[], [], []⟩

/-- The definition of a name. -/
def definition? (m : Memory) (name : String) : Option Pattern :=
  m.definitions.lookup name

/-- Gives a name its definition; a name has only one. -/
def define (m : Memory) (name : String) (p : Pattern) : Except Redefined Memory :=
  if (m.definition? name).isSome then .error .alreadyDefined
  else .ok { m with definitions := (name, p) :: m.definitions }

/-- What is logged when a name is given its definition. -/
def definedNote : Note :=
  .logged .debug "recursive pattern defined"

/-- The contents of a trie cell that starts with `initial`. -/
def trieAt (m : Memory) (cell : Nat) (initial : Registry Token Value) : Registry Token Value :=
  (m.tries.lookup cell).getD initial

/-- Replaces the contents of a trie cell. -/
def setTrie (m : Memory) (cell : Nat) (r : Registry Token Value) : Memory :=
  { m with tries := (cell, r) :: m.tries.filter (fun entry => entry.1 != cell) }

/-- Whether the pattern of a cell has been made. -/
def isSupplied (m : Memory) (cell : Nat) : Bool :=
  m.supplied.contains cell

/-- Remembers that the pattern of a cell has been made. -/
def supply (m : Memory) (cell : Nat) : Memory :=
  { m with supplied := cell :: m.supplied }

/-- The memory with some cells as they start. -/
def forget (cells : List Nat) (m : Memory) : Memory :=
  { m with
    tries := m.tries.filter fun entry => !cells.contains entry.1
    supplied := m.supplied.filter fun cell => !cells.contains cell }

/-- The memory `after`, but some of its cells as in `before`. -/
def restore (cells : List Nat) (before after : Memory) : Memory :=
  let kept := after.forget cells
  { kept with
    tries := before.tries.filter (fun entry => cells.contains entry.1) ++ kept.tries
    supplied := before.supplied.filter (fun cell => cells.contains cell) ++ kept.supplied }

end Memory

/-! ### Memory at work -/

namespace Write

/-- Uses the pattern of a cell, which makes it the first time. -/
def supply (cell : Nat) : Write Memory Unit := do
  let s ← get
  unless s.memory.isSupplied cell do
    set { s with memory := s.memory.supply cell }
    note .supplied

/-- The definition of a recursive pattern. -/
def definition? (name : String) : Write Memory (Option Pattern) :=
  return (← get).memory.definition? name

/-- The contents of a trie cell. -/
def trieAt (cell : Nat) (initial : Registry Token Value) : Write Memory (Registry Token Value) :=
  return (← get).memory.trieAt cell initial

end Write

namespace Read

variable {μ σ α : Type}

/-- A write in the middle of a read, on the memory and the journal of the read. -/
def atDesk (w : Write μ α) : Read μ σ (Except (Stop WriteFault) α) := do
  let s ← get
  let (result, after) := (w.run ⟨s.memory, s.journal⟩).run
  set { s with memory := after.memory, journal := after.journal }
  return result

/-- Uses the pattern of a cell, which makes it the first time. -/
def supply (cell : Nat) : Read Memory σ Unit := do
  let _ ← atDesk (Write.supply cell)

/-- The contents of a trie cell. -/
def trieAt (cell : Nat) (initial : Registry Token Value) : Read Memory σ (Registry Token Value) :=
  return (← memory).trieAt cell initial

end Read

end Duplex
