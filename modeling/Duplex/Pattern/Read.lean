/-
Module: Duplex.Pattern.Read
Purpose: Reading a value by a pattern, from any feed.  Each constructor is read by the combinator
  of its kind; `fuel` bounds the depth of patterns inside patterns and the turns of each loop.
Main exports: Recovery.run, Pipe.run, Effect.run, Pattern.read
-/
import Duplex.Combinator.Join
import Duplex.Combinator.Outline
import Duplex.Combinator.Recovery
import Duplex.Combinator.Sequence
import Duplex.Pattern.Describe
import Duplex.Pattern.Write

namespace Duplex

section Parts

variable {μ σ : Type} [Feed σ]

/-- Carries out a recovery. -/
def Recovery.run (r : Recovery) : Read μ σ (Option Value) := do
  match r.message with
  | some message => Read.report message
  | none => pure ()
  match r.taking with
  | none => return r.result
  | some .discard => do
      let _ ← Read.consumeOrFault
      return r.result
  | some .keep => return some (← Read.consumeOrFault).toValue

/-- Carries out a recovery that may be missing, in which case nothing is read. -/
def Recovery.runOption : Option Recovery → Read μ σ (Option Value)
  | some r => r.run
  | none => return none

/-- Passes a result through a pipe. -/
def Pipe.run (pipe : Pipe) (result : Option Value) : Read μ σ (Option Value) :=
  match result with
  | none =>
      match pipe.onNone with
      | some r => r.run
      | none => return none
  | some v =>
      let rejecting := pipe.reject.bind fun (bad, r) => if v == bad then some r else none
      match rejecting, pipe.onSome with
      | some r, _ => r.run
      | none, some r => r.run
      | none, none => return some v

/-- Carries out a side effect of reading `v`. -/
def Effect.run (effect : Effect) (v : Value) : Read μ σ Unit := do
  match effect with
  | .bump =>
      match ← Read.state? .tally with
      | some n =>
          if n.toNat + 1 < UInt32.size then Read.setState .tally (n + (1 : UInt32))
          else Read.abort .tallyRange
      | none => return ()
  | .skip => do
      let _ ← Read.consume
  | .observe => Read.note (.did v (← Read.peek))

/-- A token that meets a condition. -/
def Condition.read (c : Condition) : Read μ σ (Option Token) :=
  Read.consumeIf c.holds

/-- The place where a pair of brackets was opened last, which is no longer open after that. -/
def Read.popBracket (pair : Char × Char) : Read μ σ (Option Location) := do
  match ← Read.state? .brackets with
  | none => return none
  | some brackets =>
      let (place, rest) := OpenBrackets.remove brackets pair
      Read.setState .brackets rest
      return place

/-- Remembers that a pair of brackets was opened here, on a feed that knows its place and carries
    open brackets. -/
def Read.pushBracket (pair : Char × Char) : Read μ σ Unit := do
  match ← Read.location with
  | none => return ()
  | some place =>
      match ← Read.state? .brackets with
      | none => return ()
      | some brackets => Read.setState .brackets (OpenBrackets.add brackets pair place)

/-- What is reported for a missing closing bracket. -/
def Read.closeMessage (pair : Char × Char) : Read μ σ String := do
  let opened ← Read.popBracket pair
  let origin :=
    match opened with
    | some place => " (from " ++ place.text ++ ")"
    | none => ""
  return "expecting " ++ Text.quotedChar pair.2 ++ origin

/-- Reads an opening bracket. -/
def Read.openBracket (pair : Char × Char) : Read μ σ (Option Token) := do
  let opened ← (Condition.equal (.char pair.1)).read
  if opened.isSome then Read.pushBracket pair
  return opened

/-- Reads a closing bracket; a missing one is reported and the next one looked for. -/
def Read.closeBracket (fuel : Nat) (pair : Char × Char) : Read μ σ (Option Token) := do
  let close := Condition.equal (.char pair.2)
  match ← close.read with
  | some c =>
      let _ ← Read.popBracket pair
      return some c
  | none => Read.insist fuel (Read.closeMessage pair) close.read

/-- Reads a token among entries; of several entries for one token the last counts. -/
def Read.lookupToken (entries : List (Token × Value)) (absent : Option Recovery) :
    Read μ σ (Option Value) := do
  let key ← Read.peek
  match entries.reverse.lookup key with
  | some v => if ← Read.noneLeft then return none else return some v
  | none =>
      match absent with
      | none => return none
      | some r =>
          Read.note (.noKey key)
          r.run

/-- A computation that may abort, as part of a read. -/
def Read.ofExcept {α : Type} (result : Except Abort α) : Read μ σ α :=
  match result with
  | .ok a => return a
  | .error cause => Read.abort cause

/-- A read token as value. -/
def Read.asValue (r : Read μ σ (Option Token)) : Read μ σ (Option Value) :=
  return (← r).map Token.toValue

end Parts

/-! ### Patterns -/

namespace Pattern

section Pieces

variable {σ : Type} [Feed σ]

/-- The description of a pattern, while reading. -/
def describeHere (fuel : Nat) (p : Pattern) : Read Memory σ String := do
  match ← Read.atDesk (p.describe fuel []) with
  | .ok text => return text
  | .error _ => Read.exhausted

/-- The item for a separator that none follows, where `items` were read, the latest one first. -/
def rescueJoin (fuel : Nat) (sep : Pattern) (rescue : Option JoinRescue) (items : List Value) :
    Read Memory σ (Option Value) := do
  match rescue with
  | some .last => return items.head?
  | some (.recover r) => r.run
  | none =>
      Read.report ("expecting item for last separator " ++ (← describeHere fuel sep))
      return none

/-- The operand for an operator that none follows. -/
def rescueChain (rescue : Option ChainRescue) (lhs : Value) (op : Operator Value) :
    Read Memory σ (Option Value) := do
  match rescue with
  | some how =>
      Read.note (.rescue lhs op.name)
      match how with
      | .keepLeft => return some lhs
      | .recover r => r.run
  | none =>
      Read.report ("infix " ++ lhs.quoted ++ " parse failed at " ++ op.name)
      return none

/-- The indentation after an item where no line break follows it. -/
def rescueLayout (base : Nat) (rescue : Option Recovery) : Read Memory σ (Option Nat) := do
  match rescue with
  | some r => return (← r.run).map Value.toCount
  | none =>
      if ← Read.atEnd then return some base
      else
        Read.report "expecting layout after item"
        return none

/-- What an outline is read with, where `inner` reads items by a pattern.  The items of a block are
    read by the pattern that `block` chooses for what opens it, and by `item` otherwise. -/
def outlineParts (inner : Pattern → Read Memory σ (Option Value)) (item : Pattern)
    (tail layout : Read Memory σ (Option Value)) (base : Nat) (rescue : Option Recovery)
    (block : Option (Value → Value → Option Pattern)) : Read.OutlineParts Memory σ Value Value where
  tail := tail
  layout := do
    match ← layout with
    | some n => return some n.toCount
    | none => rescueLayout base rescue
  block := fun head rest body => do
    match block with
    | none => body (inner item)
    | some choose =>
        Read.note (.choose head rest)
        match choose head rest with
        | some (.renewed cells own) =>
            -- made anew for the block, and used for all of its items
            Read.scoping (Memory.forget cells) (Memory.restore cells) (body (inner own))
        | some own => body (inner own)
        | none => body (inner item)
  quoted := Value.quoted

/-- A key of a trie in a cell; what an unknown word was classified as is learned. -/
def readTrie (fuel : Nat) (cell : Nat) (initial : Registry Token Value) (policy : Policy) :
    Read Memory σ (Option Value) := do
  let registry ← Read.trieAt cell initial
  let (descent, verdict) ← Read.judge fuel policy registry.trie
  match verdict with
  | .notParsed => return none
  | .found v => return some v
  | .fresh v => return some v
  | .learn v =>
      Read.setMemory ((← Read.memory).setTrie cell (registry.insert descent.path v))
      return some v

/-- Notes a value read. -/
def noting (noted : Bool) (note : Value → Note) (r : Read Memory σ (Option Value)) :
    Read Memory σ (Option Value) := do
  let result ← r
  match result with
  | some v => if noted then Read.note (note v)
  | none => pure ()
  return result

end Pieces

/-- Reads a value, or nothing, from a feed. -/
def read (fuel : Nat) {σ : Type} [Feed σ] (p : Pattern) : Read Memory σ (Option Value) :=
  match fuel with
  | 0 => Read.exhausted
  | fuel + 1 =>
      let inner := fun (q : Pattern) => read fuel (σ := σ) q
      let ahead := fun (q : Pattern) => read fuel (σ := Lookahead σ) q
      let bracket := fun (q : Option Pattern) =>
        match q with
        | some q => return (← inner q).isSome
        | none => return true
      match p with
      | .satisfy c => Read.asValue c.read
      | .insist c message =>
          Read.asValue (Read.insist fuel (return message (← Read.peek)) c.read)
      | .always v => return some v
      | .never => return none
      | .stickyEnd item value otherwise =>
          Read.stickyEnd (ahead item) value (Recovery.runOption otherwise)
      | .peek item => Read.peeking (ahead item)
      | .lookup entries absent => Read.lookupToken entries absent
      | .tuple parts => return (← Read.sequence (parts.map inner)).map .tuple
      | .sequence parts => return (← Read.sequence (parts.map inner)).map .list
      | .upTo ending folding item =>
          return (← Read.upTo Tally.accept (ahead ending) (inner item) fuel
            folding.fold.start).map Tally.finish
      | .repeated folding item bounds _ =>
          return (← Read.repeated fuel Tally.accept folding.fold.start bounds
            (inner item)).map Tally.finish
      | .choice cases =>
          return (← Read.choice 0 (cases.map inner)).map fun (i, v) => .pair (.ofCount i) v
      | .convert item conversion => do
          match ← inner item with
          | none => return none
          | some v => return some (← Read.ofExcept (conversion.forward v))
      | .contextual head body => do
          match ← inner head with
          | none => return none
          | some context => return (← inner (body context)).map (.pair context)
      | .ref name => do
          match (← Read.memory).definition? name with
          | some target => inner target
          | none => Read.fault .undefined
      | .lazy cell item => do
          Read.supply cell
          inner item
      | .renewed cells item =>
          Read.scoping (Memory.forget cells) (Memory.restore cells) (inner item)
      | .piped item pipe => do pipe.run (← inner item)
      | .alsoDo item effect => do
          match ← inner item with
          | none => return none
          | some v =>
              effect.run v
              return some v
      | .optional item value => return some ((← inner item).getD value)
      | .constant item _ => inner item
      | .writtenBy item _ => inner item
      | .named item _ => inner item
      | .settle item skip value message =>
          Read.settle fuel (return message (← Read.peek)) (read fuel (σ := Counted σ) skip) value
            (inner item)
      | .surround left right item => Read.surround (bracket left) (bracket right) (inner item)
      | .joined sep item rescue noted => do
          let trailing := fun (s : Value) =>
            match sep.default? with
            | some d => d == s
            | none => false
          let pair ← Read.joined fuel (noting noted .separator (inner sep))
            (noting noted .item (inner item)) trailing
            (fun items _ => rescueJoin fuel sep rescue items)
          return pair.map fun (items, seps) => .pair (.list items) (.list seps)
      | .chain operand operators padding rescue =>
          Read.chain fuel (inner operand)
            (Read.surround (bracket padding) (bracket padding) (Read.lookup operators.trie))
            (rescueChain rescue)
      | .outline item tail layout base _ rescue block => do
          let parts := outlineParts inner item (inner tail) (inner layout) base rescue block
          return (← Read.outline fuel parts (inner item) base).map Outline.toValue
      | .trie cell initial policy => readTrie fuel cell initial policy
      | .dictionary cell initial => readTrie fuel cell initial .exact
      | .matched item regex make _ => do
          match ← inner item with
          | some (.text s) => return (regex.search s).bind make
          | _ => return none
      | .openBracket pair => Read.asValue (Read.openBracket pair)
      | .closeBracket pair => Read.asValue (Read.closeBracket fuel pair)

end Pattern

end Duplex
