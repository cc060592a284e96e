/-
Module: Duplex.Feed.Nested
Purpose: Feeds on top of another feed.  A child feed has tokens of its own and leaves reports,
  places and state to its parent; lookahead is the child that holds the parent's current token, so
  reading from it never moves the parent.  A counting feed passes everything through and counts
  what is taken.
Main exports: Within, Lookahead, Lookahead.of, Counted
-/
import Duplex.Feed.Source

namespace Duplex

/-- A child feed `ρ` that reports through its parent `σ`. -/
structure Within (ρ σ : Type) where
  child : ρ
  parent : σ

instance {ρ σ : Type} [Feed ρ] [Feed σ] : Feed (Within ρ σ) where
  peek s := Feed.peek s.child
  consume s :=
    let taken := Feed.consume s.child
    { token := taken.token
      feed := { s with child := taken.feed }
      notes := taken.notes
      halt := taken.halt }
  atEnd s := Feed.atEnd s.child
  report s message :=
    let told := Feed.report s.parent message
    { fault := told.fault, feed := { s with parent := told.feed }, notes := told.notes }
  location s := Feed.location s.parent
  state s := Feed.state s.parent
  setState s m := { s with parent := Feed.setState s.parent m }

/-- The current token of `σ` as a feed of its own. -/
abbrev Lookahead (σ : Type) :=
  Within Single σ

/-- Looks ahead on a feed. -/
def Lookahead.of {σ : Type} [Feed σ] (s : σ) : Lookahead σ :=
  ⟨.of (Feed.peek s), s⟩

/-- A feed that counts the tokens taken from it. -/
structure Counted (σ : Type) where
  parent : σ
  consumed : Nat

/-- Starts counting on a feed. -/
def Counted.of {σ : Type} (s : σ) : Counted σ :=
  ⟨s, 0⟩

instance {σ : Type} [Feed σ] : Feed (Counted σ) where
  peek s := Feed.peek s.parent
  consume s :=
    let taken := Feed.consume s.parent
    { token := taken.token
      feed := ⟨taken.feed, if taken.token.isSome then s.consumed + 1 else s.consumed⟩
      notes := taken.notes
      halt := taken.halt }
  atEnd s := Feed.atEnd s.parent
  report s message :=
    let told := Feed.report s.parent message
    { fault := told.fault, feed := { s with parent := told.feed }, notes := told.notes }
  location s := Feed.location s.parent
  state s := Feed.state s.parent
  setState s m := { s with parent := Feed.setState s.parent m }

end Duplex
