/-
Module: Duplex.Read
Purpose: Reading as a computation on a feed, the memory of a grammar and a journal.  A reader gives
  an optional value: none means not parsed, which combinators act upon and which does not undo what
  was taken.  A stop ends the read and keeps the feed where it is.
Main exports: Session, Read, Read.peek, Read.consume, Read.report, Read.inside, Read.peeking
-/
import Duplex.Feed.Nested

namespace Duplex

/-- What a read works on. -/
structure Session (μ σ : Type) where
  feed : σ
  memory : μ
  journal : Journal := .empty

/-- A read on feeds `σ` by grammars with memory `μ`. -/
abbrev Read (μ σ α : Type) :=
  ExceptT (Stop ReadFault) (StateM (Session μ σ)) α

namespace Read

variable {μ σ ρ α : Type}

/-! ### Ending a read -/

/-- Ends the read with a fault. -/
def fault (cause : ReadFault) : Read μ σ α :=
  throw (.fault cause)

/-- Ends the whole run. -/
def halted (cause : Halt) : Read μ σ α :=
  throw (.halt cause)

/-- Ends the whole run, as a computation left the numbers it is defined for. -/
def abort (cause : Abort) : Read μ σ α :=
  halted (.abort cause)

/-- The steps granted are used up. -/
def exhausted : Read μ σ α :=
  halted .exhausted

/-! ### The journal and the memory -/

/-- Notes what happened. -/
def note (n : Note) : Read μ σ Unit :=
  modify fun s => { s with journal := s.journal.add n }

/-- The memory of the grammar. -/
def memory : Read μ σ μ :=
  return (← get).memory

/-- Replaces the memory of the grammar. -/
def setMemory (m : μ) : Read μ σ Unit :=
  modify fun s => { s with memory := m }

/-! ### The feed -/

section Feed

variable [Feed σ]

/-- The current token. -/
def peek : Read μ σ Token :=
  return Feed.peek (← get).feed

/-- Takes a token, if one is left. -/
def consume : Read μ σ (Option Token) := do
  let s ← get
  let taken := Feed.consume s.feed
  set { s with feed := taken.feed, journal := s.journal.addAll taken.notes }
  match taken.halt with
  | some cause => halted cause
  | none => return taken.token

/-- Takes a token; at the end that is a fault. -/
def consumeOrFault : Read μ σ Token := do
  match ← consume with
  | some t => return t
  | none => fault .endOfInput

/-- Whether all tokens were taken. -/
def atEnd : Read μ σ Bool :=
  return Feed.atEnd (← get).feed

/-- Reports an error; the read goes on if the feed keeps it. -/
def report (message : String) : Read μ σ Unit := do
  let s ← get
  let told := Feed.report s.feed message
  set { s with feed := told.feed, journal := s.journal.addAll told.notes }
  match told.fault with
  | some cause => fault cause
  | none => return ()

/-- The place in the text. -/
def location : Read μ σ (Option Location) :=
  return Feed.location (← get).feed

/-- The value of kind `k` that the feed carries. -/
def state? (k : StateKind) : Read μ σ (Option k.Carrier) :=
  return (Feed.state (← get).feed).bind fun m => m.get? k

/-- Replaces a value of kind `k` that the feed carries. -/
def setState (k : StateKind) (v : k.Carrier) : Read μ σ Unit := do
  let s ← get
  match Feed.state s.feed with
  | some m => set { s with feed := Feed.setState s.feed (m.insert k v) }
  | none => return ()

/-- Takes the current token if it passes `test`. -/
def consumeIf (test : Token → Bool) : Read μ σ (Option Token) := do
  if test (← peek) then consume else return none

/-- Takes tokens as long as they pass `test`, in at most `fuel` steps and never past the end. -/
def takeWhile (fuel : Nat) (test : Token → Bool) : Read μ σ (List Token) :=
  match fuel with
  | 0 => exhausted
  | fuel + 1 => do
      match ← consumeIf test with
      | some t => return t :: (← takeWhile fuel test)
      | none => return []

/-- Takes a token, and tells whether there was none to take. -/
def noneLeft : Read μ σ Bool :=
  return (← consume).isNone

end Feed

/-! ### Nested feeds -/

/-- Reads on another view of the feed, and returns to the feed behind it. -/
def inside (enter : σ → ρ) (leave : ρ → σ) (r : Read μ ρ α) : Read μ σ α :=
  ExceptT.mk fun s =>
    let (result, after) := (r.run { s with feed := enter s.feed }).run
    (result, { after with feed := leave after.feed })

/-- Reads the current token on its own: reports, places and state are the feed's, but nothing is
    taken from it. -/
def peeking [Feed σ] (r : Read μ (Lookahead σ) α) : Read μ σ α :=
  inside Lookahead.of Within.parent r

/-- Whether a reader would read at the current token. -/
def testPeek [Feed σ] (r : Read μ (Lookahead σ) (Option α)) : Read μ σ Bool :=
  return (← peeking r).isSome

/-- Reads, and tells how many tokens were taken. -/
def counting (r : Read μ (Counted σ) α) : Read μ σ (α × Nat) :=
  inside Counted.of Counted.parent do
    let a ← r
    return (a, (← get).feed.consumed)

/-- Runs `r` on a memory prepared by `enter`, and afterwards, however `r` ends, lets `leave` make
    the memory to go on with from the one before and the one after. -/
def scoping (enter : μ → μ) (leave : μ → μ → μ) (r : Read μ σ α) : Read μ σ α :=
  ExceptT.mk fun s =>
    let (result, after) := (r.run { s with memory := enter s.memory }).run
    (result, { after with memory := leave s.memory after.memory })

end Read

end Duplex
