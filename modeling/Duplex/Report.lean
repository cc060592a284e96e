/-
Module: Duplex.Report
Purpose: Everything about a read that can be seen from outside: its values, why it stopped, where
  the feed then is, and what is left on it.
Main exports: FeedReport, ReadReport, ReadOutcome, Grammar.readReport, Grammar.peekReport
-/
import Duplex.Feed.Any
import Duplex.Run

namespace Duplex

/-- What can be seen of a feed after a read, and what is left on it. -/
structure FeedReport where
  location : Option Location
  peek : Token
  atEnd : Bool
  position : Option Nat
  tally : Option UInt32
  rest : List Token
  /-- The errors kept, by a feed that keeps them. -/
  errors : Option (List ErrorRecord)
  sourceFault : Option Text.ByteFault
  lexFault : Option ReadFault
  /-- What happened while the rest was taken. -/
  notes : List Note

/-- A read seen from outside. -/
structure ReadReport (α : Type) where
  values : List α
  fault : Option ReadFault
  memory : Memory
  notes : List Note
  feed : FeedReport

/-- How a read came out that is reported. -/
inductive ReadOutcome (α : Type) where
  /-- The whole run ended, while reading or while the rest was taken. -/
  | halted (cause : Halt) (notes : List Note)
  | finished (report : ReadReport α)

/-- Several reads from one feed: their values, why they stopped early, the feed and the memory
    after them, and what happened meanwhile. -/
structure Readings (σ α : Type) where
  values : List α
  stop : Option (Stop ReadFault)
  feed : σ
  memory : Memory
  notes : List Note

namespace Grammar

/-- Takes everything left on a feed. -/
def drain (fuel : Nat) (s : AnyFeed) :
    Except (Stop ReadFault) (List Token) × Session Unit AnyFeed :=
  (ExceptT.run (Read.takeWhile fuel fun _ => true) { feed := s, memory := () }).run

/-- What can be seen of a feed on which `rest` was left, with `after` once that was taken. -/
def feedReport (s : AnyFeed) (rest : List Token) (after : Session Unit AnyFeed) : FeedReport :=
  let left := after.feed
  let afterErrors := (left.takeErrors?.map Prod.snd).getD left
  { location := Feed.location s
    peek := Feed.peek s
    atEnd := Feed.atEnd s
    position := s.position?
    tally := (Feed.state s).bind fun m => m.get? .tally
    rest := rest
    errors := if s.isCollecting then left.takeErrors?.map Prod.fst else none
    sourceFault := afterErrors.takeSourceFault.1
    lexFault := afterErrors.takeLexFault.1
    notes := after.journal.toList }

/-- Asks a feed `count` times, each time with the memory of the time before, until a stop. -/
def readings {σ α : Type} (ask : Memory → σ → ReadAnswer σ α) (memory : Memory) (s : σ) :
    Nat → Readings σ α
  | 0 => ⟨[], none, s, memory, []⟩
  | count + 1 =>
      let answer := ask memory s
      match answer.result with
      | .error stop => ⟨[], some stop, answer.feed, answer.memory, answer.notes⟩
      | .ok v =>
          let more := readings ask answer.memory answer.feed count
          { more with values := v :: more.values, notes := answer.notes ++ more.notes }

/-- Reports on reads from a feed, taking what they left on it. -/
def outcome {α : Type} (fuel : Nat) (r : Readings AnyFeed α) : ReadOutcome α :=
  let finished (fault : Option ReadFault) : ReadOutcome α :=
    match drain fuel r.feed with
    | (.error (.halt cause), after) => .halted cause (r.notes ++ after.journal.toList)
    | (.error (.fault _), after) =>
        .finished ⟨r.values, fault, r.memory, r.notes, feedReport r.feed [] after⟩
    | (.ok rest, after) =>
        .finished ⟨r.values, fault, r.memory, r.notes, feedReport r.feed rest after⟩
  match r.stop with
  | some (.halt cause) => .halted cause r.notes
  | some (.fault cause) => finished (some cause)
  | none => finished none

/-- Reads `count` times from one feed and reports. -/
def readReport (g : Grammar) (s : AnyFeed) (count : Nat) : ReadOutcome (Option Value) :=
  outcome g.fuel (readings (fun m s => { g with memory := m }.readFrom s) g.memory s count)

/-- Tests `count` times whether the grammar would read from a feed, and reports. -/
def peekReport (g : Grammar) (s : AnyFeed) (count : Nat) : ReadOutcome Bool :=
  outcome g.fuel (readings (fun m s => { g with memory := m }.testPeek s) g.memory s count)

end Grammar

end Duplex
