/-
Module: Duplex.Write
Purpose: Writing as a computation on the memory of a grammar and a journal.  A writer gives the
  tokens of a value, or stops without any.
Main exports: Desk, Write, Write.fault, Write.each
-/
import Duplex.Journal

namespace Duplex

/-- What a write works on. -/
structure Desk (μ : Type) where
  memory : μ
  journal : Journal := .empty

/-- A write by grammars with memory `μ`. -/
abbrev Write (μ α : Type) :=
  ExceptT (Stop WriteFault) (StateM (Desk μ)) α

/-- A writer of values: their tokens. -/
abbrev Writer (μ α : Type) :=
  α → Write μ (List Token)

namespace Write

variable {μ α : Type}

/-- Ends the write with a fault. -/
def fault (cause : WriteFault) : Write μ α :=
  throw (.fault cause)

/-- Ends the whole run, as a computation left the numbers it is defined for. -/
def abort (cause : Abort) : Write μ α :=
  throw (.halt (.abort cause))

/-- The steps granted are used up. -/
def exhausted : Write μ α :=
  throw (.halt .exhausted)

/-- Notes what happened. -/
def note (n : Note) : Write μ Unit :=
  modify fun s => { s with journal := s.journal.add n }

/-- Writes the given values one after the other. -/
def each (w : Writer μ α) : List α → Write μ (List Token)
  | [] => return []
  | a :: rest => do
      let first ← w a
      return first ++ (← each w rest)

/-- Runs a write on a memory prepared by `enter`, and afterwards, however it ends, lets `leave`
    make the memory to go on with from the one before and the one after. -/
def scoping (enter : μ → μ) (leave : μ → μ → μ) (w : Write μ α) : Write μ α :=
  ExceptT.mk fun s =>
    let (result, after) := (w.run { s with memory := enter s.memory }).run
    (result, { after with memory := leave s.memory after.memory })

end Write

end Duplex
