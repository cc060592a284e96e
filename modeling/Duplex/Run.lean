/-
Module: Duplex.Run
Purpose: Running a grammar on whole inputs: reading a text or tokens, reading with the errors kept,
  reading from bytes, writing, and writing what was read.
Main exports: Grammar, Answer, Grammar.readFrom, Grammar.readText, Grammar.readPartial,
  Grammar.readBytes, Grammar.write, Grammar.rebuild, Grammar.testItem
-/
import Duplex.Feed.Input
import Duplex.Pattern.Read

namespace Duplex

/-- A pattern together with what it remembers. -/
structure Grammar where
  pattern : Pattern
  memory : Memory
  /-- Bound on the depth of patterns inside patterns and on the turns of each loop. -/
  fuel : Nat

/-- The answer of a run: its result or why it stopped, the memory to go on with, and what happened
    meanwhile. -/
structure Answer (ε α : Type) where
  result : Except (Stop ε) α
  memory : Memory
  notes : List Note

/-- What a read gives: its answer, and the feed behind it. -/
structure ReadAnswer (σ α : Type) extends Answer ReadFault α where
  feed : σ

namespace Grammar

/-- An answer without anything having happened. -/
def refuse {ε α : Type} (g : Grammar) (stop : Stop ε) : Answer ε α :=
  ⟨.error stop, g.memory, []⟩

/-! ### Reading -/

/-- Carries out a read on a feed. -/
def carryOut {σ α : Type} (g : Grammar) (feed : σ) (r : Read Memory σ α) : ReadAnswer σ α :=
  let (result, after) := (r.run { feed := feed, memory := g.memory }).run
  { result := result
    memory := after.memory
    notes := after.journal.toList
    feed := after.feed }

/-- Reads from a feed once. -/
def readFrom {σ : Type} [Feed σ] (g : Grammar) (feed : σ) : ReadAnswer σ (Option Value) :=
  g.carryOut feed (g.pattern.read g.fuel)

/-- Whether the grammar would read at the current token of a feed. -/
def testPeek {σ : Type} [Feed σ] (g : Grammar) (feed : σ) : ReadAnswer σ Bool :=
  g.carryOut feed (Read.testPeek (g.pattern.read g.fuel))

/-- Reads from an input that has yet to be made. -/
def readInput {σ : Type} [Feed σ] (g : Grammar) (input : Except ReadFault σ) :
    Answer ReadFault (Option Value) :=
  match input with
  | .error cause => g.refuse (.fault cause)
  | .ok feed => (g.readFrom feed).toAnswer

/-- Reads a text. -/
def readText (g : Grammar) (text : String) : Answer ReadFault (Option Value) :=
  g.readInput (Input.ofText text stringFile)

/-- Reads tokens. -/
def readTokens (g : Grammar) (tokens : List Token) : Answer ReadFault (Option Value) :=
  g.readInput (Input.ofTokens tokens)

/-- Reads from an input with the errors kept; also gives those. -/
def readPartial {σ : Type} [Feed σ] (g : Grammar) (input : Except ReadFault (Input σ)) :
    Answer ReadFault (List ErrorRecord × Option Value) :=
  match input with
  | .error cause => g.refuse (.fault cause)
  | .ok feed =>
      let answer := g.readFrom feed.collecting
      { result := answer.result.map fun v => (answer.feed.takeErrors.1, v)
        memory := answer.memory
        notes := answer.notes }

/-- Reads the text in a byte source.  Bytes that fail are a fault even if the text before them was
    read, unless reading met a fault of its own. -/
def readBytes (g : Grammar) (source : Text.ByteSource) (file : String) :
    Answer ReadFault (Option Value) :=
  match Input.ofBytes source file with
  | .error cause => g.refuse (.fault cause)
  | .ok feed =>
      let answer := g.readFrom feed
      match answer.result, answer.feed.feed.fault with
      | .ok _, some fault =>
          { result := .error (.fault (.source fault.message))
            memory := answer.memory
            notes := answer.notes }
      | _, _ => answer.toAnswer

/-- Whether the grammar reads a single token. -/
def testItem (g : Grammar) (t : Token) : Answer ReadFault Bool :=
  let answer := g.readFrom (Single.of t)
  { result := answer.result.map Option.isSome, memory := answer.memory, notes := answer.notes }

/-! ### Writing and describing -/

/-- Carries out a write. -/
def atDesk {α : Type} (g : Grammar) (w : Write Memory α) : Answer WriteFault α :=
  let (result, after) := (w.run { memory := g.memory }).run
  ⟨result, after.memory, after.journal.toList⟩

/-- The tokens of a value. -/
def write (g : Grammar) (v : Value) : Answer WriteFault (List Token) :=
  g.atDesk (g.pattern.write g.fuel v)

/-- What the grammar reads, in words. -/
def description (g : Grammar) : Answer WriteFault String :=
  g.atDesk (g.pattern.describe g.fuel [])

/-! ### There and back -/

/-- Why writing what was read stopped. -/
inductive RoundTripFault where
  | reading (cause : ReadFault)
  | writing (cause : WriteFault)
deriving DecidableEq, Repr, Inhabited

/-- The wording of a round trip fault. -/
def RoundTripFault.message : RoundTripFault → String
  | .reading cause => "read: " ++ cause.message
  | .writing cause => "show: " ++ cause.message

/-- Writes what was read from an input; nothing if nothing was read. -/
def rebuild {σ : Type} [Feed σ] (g : Grammar) (input : Except ReadFault σ) :
    Answer RoundTripFault (Option (List Token)) :=
  let answer := g.readInput input
  match answer.result with
  | .error stop => ⟨.error (stop.mapFault .reading), answer.memory, answer.notes⟩
  | .ok none => ⟨.ok none, answer.memory, answer.notes⟩
  | .ok (some v) =>
      let written := { g with memory := answer.memory }.write v
      { result := (written.result.mapError (Stop.mapFault .writing)).map some
        memory := written.memory
        notes := answer.notes ++ written.notes }

end Grammar

end Duplex
