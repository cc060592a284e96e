/-
Module: Duplex.Feed.Input
Purpose: A feed dressed for one read: it tracks the place in a text, decides what an error report
  does, tells a hook about every token taken, and carries state.
Main exports: Newline, Tracker, ErrorMode, Input, Input.ofText, Input.ofTokens
-/
import Duplex.Feed.Source

namespace Duplex

/-! ### Tracking places -/

/-- The line break convention of a text. -/
structure Newline where
  eol : Char := '\n'
  /-- A carriage return and a line feed together are one line break.  If the carriage return ends
      lines, the line feed after it is swallowed and never seen by patterns. -/
  crlf : Bool := false
deriving DecidableEq, Repr, Inhabited

/-- The place in a text, and how its lines end. -/
structure Tracker where
  location : Location
  newline : Newline
deriving DecidableEq, Repr, Inhabited

namespace Tracker

/-- At the start of a text. -/
def start (file : String) (newline : Newline) : Tracker :=
  ⟨.start file, newline⟩

/-- Whether the line feed after a carriage return belongs to it. -/
def swallows (k : Tracker) (item next : Token) : Bool :=
  k.newline.crlf && item == .char '\r' && next == .char '\n' && k.newline.eol == '\r'

/-- The tracker after `item`, with `next` current behind it. -/
def after (k : Tracker) (item next : Token) : Tracker :=
  let l := k.location
  let l :=
    if k.newline.crlf && item == .char '\r' && next == .char '\n' then
      -- with another line end than the carriage return, the line feed breaks the line
      if k.newline.eol == '\r' then (l.advance 1).newLine else l
    else if item == .char k.newline.eol then l.newLine
    else l.nextColumn
  { k with location := l.advance 1 }

end Tracker

/-! ### Error modes -/

/-- What an error report does. -/
inductive ErrorMode where
  /-- It ends the read. -/
  | raise
  /-- It is kept, the latest one first, and reading goes on. -/
  | collect (latest : List ErrorRecord)
  /-- A listener hears it and lets the read go on as long as it has patience. -/
  | listen (patience : Nat)
deriving Repr, Inhabited

/-- Whether errors are kept. -/
def ErrorMode.isCollect : ErrorMode → Bool
  | .collect _ => true
  | _ => false

/-! ### Inputs -/

/-- A feed with everything one read needs. -/
structure Input (σ : Type) where
  feed : σ
  tracker : Option Tracker
  mode : ErrorMode
  /-- Whether every token taken is noted. -/
  hooked : Bool
  carried : StateMap

namespace Input

variable {σ : Type}

/-- An input that raises errors, without hook or state. -/
def ofFeed (feed : σ) (tracker : Option Tracker) : Input σ :=
  ⟨feed, tracker, .raise, false, .empty⟩

/-- The same input, keeping errors instead of raising them. -/
def collecting (s : Input σ) : Input σ :=
  { s with mode := .collect [] }

/-- The same input, carrying a value of state. -/
def withState (s : Input σ) (k : StateKind) (v : k.Carrier) : Input σ :=
  { s with carried := s.carried.insert k v }

/-- The place in the text. -/
def place (s : Input σ) : Option Location :=
  s.tracker.map Tracker.location

/-- Gives up the errors kept so far, in the order they were reported. -/
def takeErrors (s : Input σ) : List ErrorRecord × Input σ :=
  match s.mode with
  | .collect latest => (latest.reverse, { s with mode := .collect [] })
  | _ => ([], s)

variable [Feed σ]

/-- Takes a token: the place moves on, a swallowed line feed is taken along, and the hook is told
    about the token alone. -/
def consume (s : Input σ) : Consumed (Input σ) :=
  let taken := Feed.consume s.feed
  match taken.token with
  | none =>
      { token := none
        feed := { s with feed := taken.feed }
        notes := taken.notes
        halt := taken.halt }
  | some item =>
      let next := Feed.peek taken.feed
      let swallow := (s.tracker.map fun k => k.swallows item next).getD false
      let extra : Consumed σ :=
        if swallow then Feed.consume taken.feed else { token := none, feed := taken.feed }
      { token := some item
        feed := { s with feed := extra.feed, tracker := s.tracker.map fun k => k.after item next }
        notes := taken.notes ++ extra.notes ++ if s.hooked then [.took item] else []
        halt := taken.halt.or extra.halt }

/-- Reports an error the way the input's mode has it. -/
def report (s : Input σ) (message : String) : Reported (Input σ) :=
  let record : ErrorRecord := ⟨Feed.peek s.feed, s.place, message⟩
  match s.mode with
  | .raise =>
      let fault :=
        match s.place with
        | some l => .located l message
        | none => .failed ("parse fail near `" ++ (Feed.peek s.feed).quoted ++ "`: " ++ message)
      { fault := some fault, feed := s }
  | .collect latest =>
      { fault := none
        feed := { s with mode := .collect (record :: latest) }
        notes := [.logged .debug ("recording error: " ++ message)] }
  | .listen 0 =>
      { fault := some (.failed ("listener: " ++ message)), feed := s, notes := [.heard record] }
  | .listen (patience + 1) =>
      { fault := none, feed := { s with mode := .listen patience }, notes := [.heard record] }

instance : Feed (Input σ) where
  peek s := Feed.peek s.feed
  consume := consume
  atEnd s := Feed.atEnd s.feed
  report := report
  location s := s.place
  state s := some s.carried
  setState s m := { s with carried := m }

end Input

/-! ### Making inputs -/

/-- The name of inputs made from texts. -/
def stringFile : String :=
  "<string>"

/-- An input of a text, with places. -/
def Input.ofText (text file : String) : Except ReadFault (Input Slice) := do
  let feed ← Slice.ofList (Token.ofText text)
  return .ofFeed feed (some (.start file {}))

/-- An input of tokens, without places. -/
def Input.ofTokens (tokens : List Token) : Except ReadFault (Input Slice) := do
  return .ofFeed (← Slice.ofList tokens) none

/-- An input of the text in a byte source, with places. -/
def Input.ofBytes (source : Text.ByteSource) (file : String) :
    Except ReadFault (Input Characters) := do
  return .ofFeed (← Characters.ofBytes source) (some (.start file {}))

end Duplex
