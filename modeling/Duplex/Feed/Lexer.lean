/-
Module: Duplex.Feed.Lexer
Purpose: A feed of tokens cut from a feed of characters by a tokenizing pattern, for grammars over
  whole words.  It ends where the tokenizer does not read; a character left over there is reported
  on the characters, and a fault while tokenizing ends the feed and is kept; what ends the whole
  run is not kept, but ends it.
Main exports: Lexer, Lexer.ofFeed, Lexer.takeFault
-/
import Duplex.Pattern.Read

namespace Duplex

/-- Tokens cut from characters `σ`, with one token held back for looking. -/
structure Lexer (σ : Type) where
  chars : σ
  tokenizer : Pattern
  /-- Steps granted to the tokenizer for each token. -/
  fuel : Nat
  /-- What the tokenizer remembers. -/
  memory : Memory
  held : Option Token
  /-- What to look at behind the last token; it is never taken. -/
  eof : Token
  fault : Option ReadFault

namespace Lexer

variable {σ : Type} [Feed σ]

/-- Cuts the next token; where there is none, the next character is reported.  A tokenizer reads
    nothing but tokens. -/
def cut (fuel : Nat) (tokenizer : Pattern) : Read Memory σ (Option Token) := do
  match ← tokenizer.read fuel with
  | some v =>
      match v.toToken? with
      | some t => return some t
      | none => Read.abort .illTyped
  | none =>
      match ← Read.consume with
      | some c =>
          Read.report ("lexer failed at " ++ c.quoted)
          return none
      | none => return none

/-- Cuts tokens from characters by a tokenizer that remembers `memory`; a fault before the first one
    is told at once.  Also gives what happened meanwhile. -/
def ofFeed (fuel : Nat) (chars : σ) (tokenizer : Pattern) (memory : Memory) (eof : Token) :
    Except (Stop ReadFault) (Lexer σ) × List Note :=
  let (first, after) := ((cut fuel tokenizer).run { feed := chars, memory := memory }).run
  (first.map fun held => ⟨after.feed, tokenizer, fuel, after.memory, held, eof, none⟩,
    after.journal.toList)

/-- Takes the token held back, and cuts the next one. -/
def consume (s : Lexer σ) : Consumed (Lexer σ) :=
  match s.held with
  | none => { token := none, feed := s }
  | some t =>
      let (next, after) :=
        ((cut s.fuel s.tokenizer).run { feed := s.chars, memory := s.memory }).run
      let moved := { s with chars := after.feed, memory := after.memory, held := none }
      let notes := after.journal.toList
      match next with
      | .ok held =>
          { token := some t, feed := { moved with held := held }, notes := notes }
      | .error (.fault cause) =>
          { token := some t, feed := { moved with fault := some cause }, notes := notes }
      | .error (.halt cause) =>
          { token := some t, feed := moved, notes := notes, halt := some cause }

instance : Feed (Lexer σ) where
  peek s := s.held.getD s.eof
  consume := consume
  atEnd s := s.held.isNone
  report s message :=
    let told := Feed.report s.chars message
    { fault := told.fault, feed := { s with chars := told.feed }, notes := told.notes }
  location s := Feed.location s.chars
  state s := Feed.state s.chars
  setState s m := { s with chars := Feed.setState s.chars m }

/-- Gives up the kept fault. -/
def takeFault (s : Lexer σ) : Option ReadFault × Lexer σ :=
  (s.fault, { s with fault := none })

end Lexer

end Duplex
