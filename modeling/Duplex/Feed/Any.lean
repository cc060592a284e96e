/-
Module: Duplex.Feed.Any
Purpose: Feeds whose kind is chosen at run time: inputs of texts, tokens or bytes, the same without
  the dress of an input, and tokens cut from a text.  They all read alike; what only some of them
  can tell is asked for by its own function.
Main exports: AnyFeed, AnyFeed.position?, AnyFeed.takeErrors?, AnyFeed.takeSourceFault,
  AnyFeed.takeLexFault, InputOptions, Input.dressed, FeedSource
-/
import Duplex.Feed.Input
import Duplex.Feed.Lexer

namespace Duplex

/-! ### Options of inputs -/

/-- How an input is dressed. -/
structure InputOptions where
  newline : Newline := {}
  mode : ErrorMode := .raise
  hooked : Bool := false
  /-- Whether open brackets are remembered. -/
  brackets : Bool := false
  tally : Option UInt32 := none

/-- The input, dressed. -/
def Input.dressed {σ : Type} (s : Input σ) (o : InputOptions) : Input σ :=
  let s := { s with
    tracker := s.tracker.map fun k => { k with newline := o.newline }
    mode := o.mode
    hooked := o.hooked }
  let s := if o.brackets then s.withState .brackets .empty else s
  match o.tally with
  | some n => s.withState .tally n
  | none => s

/-! ### Feeds of any kind -/

/-- A feed of some kind. -/
inductive AnyFeed where
  | input (s : Input Slice)
  | pulledInput (s : Input Pulled)
  | byteInput (s : Input Characters)
  | slice (s : Slice)
  | pulled (s : Pulled)
  | single (s : Single)
  | characters (s : Characters)
  | lexer (s : Lexer (Input Slice))

namespace AnyFeed

/-- The answer to taking a token, for another view of the feed. -/
def mapConsumed {σ ρ : Type} (f : σ → ρ) (c : Consumed σ) : Consumed ρ :=
  { token := c.token, feed := f c.feed, notes := c.notes, halt := c.halt }

/-- The answer to a report, for another view of the feed. -/
def mapReported {σ ρ : Type} (f : σ → ρ) (r : Reported σ) : Reported ρ :=
  { fault := r.fault, feed := f r.feed, notes := r.notes }

instance : Feed AnyFeed where
  peek
    | .input s => Feed.peek s
    | .pulledInput s => Feed.peek s
    | .byteInput s => Feed.peek s
    | .slice s => Feed.peek s
    | .pulled s => Feed.peek s
    | .single s => Feed.peek s
    | .characters s => Feed.peek s
    | .lexer s => Feed.peek s
  consume
    | .input s => mapConsumed .input (Feed.consume s)
    | .pulledInput s => mapConsumed .pulledInput (Feed.consume s)
    | .byteInput s => mapConsumed .byteInput (Feed.consume s)
    | .slice s => mapConsumed .slice (Feed.consume s)
    | .pulled s => mapConsumed .pulled (Feed.consume s)
    | .single s => mapConsumed .single (Feed.consume s)
    | .characters s => mapConsumed .characters (Feed.consume s)
    | .lexer s => mapConsumed .lexer (Feed.consume s)
  atEnd
    | .input s => Feed.atEnd s
    | .pulledInput s => Feed.atEnd s
    | .byteInput s => Feed.atEnd s
    | .slice s => Feed.atEnd s
    | .pulled s => Feed.atEnd s
    | .single s => Feed.atEnd s
    | .characters s => Feed.atEnd s
    | .lexer s => Feed.atEnd s
  report s message :=
    match s with
    | .input s => mapReported .input (Feed.report s message)
    | .pulledInput s => mapReported .pulledInput (Feed.report s message)
    | .byteInput s => mapReported .byteInput (Feed.report s message)
    | .slice s => mapReported .slice (Feed.report s message)
    | .pulled s => mapReported .pulled (Feed.report s message)
    | .single s => mapReported .single (Feed.report s message)
    | .characters s => mapReported .characters (Feed.report s message)
    | .lexer s => mapReported .lexer (Feed.report s message)
  location
    | .input s => Feed.location s
    | .byteInput s => Feed.location s
    | .lexer s => Feed.location s
    | _ => none
  state
    | .input s => Feed.state s
    | .pulledInput s => Feed.state s
    | .byteInput s => Feed.state s
    | .lexer s => Feed.state s
    | _ => none
  setState s m :=
    match s with
    | .input s => .input (Feed.setState s m)
    | .pulledInput s => .pulledInput (Feed.setState s m)
    | .byteInput s => .byteInput (Feed.setState s m)
    | .lexer s => .lexer (Feed.setState s m)
    | s => s

/-- How many tokens were taken from tokens in memory. -/
def position? : AnyFeed → Option Nat
  | .input s => some s.feed.position
  | .slice s => some s.position
  | _ => none

/-- The errors kept so far and the feed without them, for feeds that can keep errors. -/
def takeErrors? : AnyFeed → Option (List ErrorRecord × AnyFeed)
  | .input s => some (s.takeErrors.1, .input s.takeErrors.2)
  | .pulledInput s => some (s.takeErrors.1, .pulledInput s.takeErrors.2)
  | .byteInput s => some (s.takeErrors.1, .byteInput s.takeErrors.2)
  | .lexer s => some (s.chars.takeErrors.1, .lexer { s with chars := s.chars.takeErrors.2 })
  | _ => none

/-- Whether errors are kept. -/
def isCollecting : AnyFeed → Bool
  | .input s => s.mode.isCollect
  | .pulledInput s => s.mode.isCollect
  | .byteInput s => s.mode.isCollect
  | .lexer s => s.chars.mode.isCollect
  | _ => false

/-- The fault of the bytes behind the feed that was met, and the feed without it. -/
def takeSourceFault : AnyFeed → Option Text.ByteFault × AnyFeed
  | .byteInput s => (s.feed.fault, .byteInput { s with feed := s.feed.takeFault.2 })
  | .characters s => (s.fault, .characters s.takeFault.2)
  | s => (none, s)

/-- The fault that ended the cutting of tokens, and the feed without it. -/
def takeLexFault : AnyFeed → Option ReadFault × AnyFeed
  | .lexer s => (s.fault, .lexer s.takeFault.2)
  | s => (none, s)

end AnyFeed

/-! ### Making feeds -/

/-- What a feed is made from. -/
inductive FeedSource where
  /-- A text, with places. -/
  | text (s file : String)
  /-- Tokens in memory, without places. -/
  | tokens (ts : List Token)
  /-- Tokens pulled one at a time, without places. -/
  | pulledTokens (ts : List Token)
  /-- Bytes, with places. -/
  | bytes (source : Text.ByteSource) (file : String)
  /-- Tokens in memory, without the dress of an input. -/
  | bareTokens (ts : List Token)
  | barePulled (ts : List Token)
  /-- Only the first of some tokens. -/
  | bareFirst (ts : List Token)
  | bareBytes (source : Text.ByteSource)
  /-- Words cut from a text, with `eof` behind the last. -/
  | words (s file : String) (tokenizer : Pattern) (eof : String)

/-- Makes a feed; also gives what happened meanwhile. -/
def FeedSource.make (fuel : Nat) (o : InputOptions) (source : FeedSource) :
    Except (Stop ReadFault) AnyFeed × List Note :=
  let made := fun (r : Except ReadFault AnyFeed) => (r.mapError Stop.fault, ([] : List Note))
  match source with
  | .text s file => made ((Input.ofText s file).map fun s => .input (s.dressed o))
  | .tokens ts => made ((Input.ofTokens ts).map fun s => .input (s.dressed o))
  | .pulledTokens ts =>
      made ((Pulled.ofList ts).map fun s => .pulledInput ((Input.ofFeed s none).dressed o))
  | .bytes source file => made ((Input.ofBytes source file).map fun s => .byteInput (s.dressed o))
  | .bareTokens ts => made ((Slice.ofList ts).map .slice)
  | .barePulled ts => made ((Pulled.ofList ts).map .pulled)
  | .bareFirst [] => made (.error .emptyInput)
  | .bareFirst (t :: _) => made (.ok (.single (Single.of t)))
  | .bareBytes source => made ((Characters.ofBytes source).map .characters)
  | .words s file tokenizer eof =>
      match Input.ofText s file with
      | .error cause => made (.error cause)
      | .ok chars =>
          let (result, notes) := Lexer.ofFeed fuel (chars.dressed o) tokenizer .empty (.word eof)
          (result.map .lexer, notes)

end Duplex
