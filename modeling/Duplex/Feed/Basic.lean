/-
Module: Duplex.Feed.Basic
Purpose: What a grammar reads from: a cursor over tokens with one token of lookahead.  After the
  last token has been taken, `peek` keeps answering that token and `consume` answers none; grammars
  notice the end by looking, and taking a token there is the exceptional case.  A feed is also the
  channel for error reports and may know its place in the text and carry state.
Main exports: Consumed, Reported, Feed
-/
import Duplex.Journal
import Duplex.State

namespace Duplex

/-- The answer to taking a token: the token, unless all were taken; the feed after it; what
    happened meanwhile; and what ended the whole run meanwhile, if anything did. -/
structure Consumed (σ : Type) where
  token : Option Token
  feed : σ
  notes : List Note := []
  halt : Option Halt := none

/-- The answer to an error report: the fault that ends the read, unless the error was kept; the
    feed after it; and what happened meanwhile. -/
structure Reported (σ : Type) where
  fault : Option ReadFault
  feed : σ
  notes : List Note := []

/-- A cursor over tokens. -/
class Feed (σ : Type) where
  /-- The token that is taken next, or the last one when all were taken. -/
  peek : σ → Token
  /-- Takes a token. -/
  consume : σ → Consumed σ
  /-- Whether all tokens were taken. -/
  atEnd : σ → Bool
  /-- Reports an error; feeds that keep no errors end the read. -/
  report : σ → String → Reported σ :=
    fun s message => { fault := some (.failed message), feed := s }
  /-- The place in the text, for feeds that know it. -/
  location : σ → Option Location := fun _ => none
  /-- The state carried along, for feeds that have any. -/
  state : σ → Option StateMap := fun _ => none
  /-- Replaces the state carried along. -/
  setState : σ → StateMap → σ := fun s _ => s

end Duplex
