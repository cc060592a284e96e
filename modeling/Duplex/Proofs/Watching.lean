/-
Module: Duplex.Proofs.Watching
Purpose: Feeds under watch.  A watched feed leaves everything to the feed behind it, and writes down
  the tokens taken from it and the messages reported through it.  No grammar can tell that it is
  watched, so a watched run tells what the run itself takes and reports.  `Read.Grows` is what a read
  adds to a log of this kind.
Main exports: Read.Grows, Watched, Session.unwatched, Pattern.read_watched, Grammar.taken,
  Grammar.readFrom_watched
-/
import Duplex.Proofs.Likeness.Pattern
import Duplex.Proofs.Trie.Descent

namespace Duplex

/-! ### What a read adds to a log -/

namespace Read

variable {μ σ ε α β : Type} {log : σ → List ε}

/-- A read that goes through adds entries to the log of its feed that are as told with its result. -/
def Grows (log : σ → List ε) (r : Read μ σ α) (Q : List ε → α → Prop) : Prop :=
  ∀ s after a, r.perform s = (.ok a, after) → ∃ new, log after.feed = log s.feed ++ new ∧ Q new a

theorem grows_pure {Q : List ε → α → Prop} {a : α} (h : Q [] a) :
    (pure a : Read μ σ α).Grows log Q := by
  intro s after b run
  cases run
  exact ⟨[], (List.append_nil _).symm, h⟩

theorem grows_throw (stop : Stop ReadFault) (Q : List ε → α → Prop) :
    (throw stop : Read μ σ α).Grows log Q := by
  intro s after a run
  cases run

/-- What both steps add is added in a row. -/
theorem Grows.bind {r : Read μ σ α} {f : α → Read μ σ β} {Q : List ε → α → Prop}
    {R : List ε → β → Prop} (first : r.Grows log Q)
    (second : ∀ new a, Q new a → (f a).Grows log fun more b => R (new ++ more) b) :
    (r >>= f).Grows log R := by
  intro s after b run
  obtain ⟨a, between, start, rest⟩ := exists_of_bind_ok run
  obtain ⟨new, grown, holds⟩ := first s between a start
  obtain ⟨more, grown', holds'⟩ := second new a holds between after b rest
  exact ⟨new ++ more, by rw [grown', grown, List.append_assoc], holds'⟩

theorem Grows.mono {r : Read μ σ α} {Q R : List ε → α → Prop} (h : r.Grows log Q)
    (weaker : ∀ new a, Q new a → R new a) : r.Grows log R := by
  intro s after a run
  obtain ⟨new, grown, holds⟩ := h s after a run
  exact ⟨new, grown, weaker new a holds⟩

theorem Grows.map {r : Read μ σ α} {Q : List ε → α → Prop} {R : List ε → β → Prop} {f : α → β}
    (h : r.Grows log Q) (holds : ∀ new a, Q new a → R new (f a)) :
    (do return f (← r) : Read μ σ β).Grows log R := by
  refine h.bind fun new a told => grows_pure ?_
  rw [List.append_nil]
  exact holds new a told

/-- A read in a memory of its own adds the same. -/
theorem Grows.scoping {r : Read μ σ α} {Q : List ε → α → Prop} (h : r.Grows log Q)
    (enter : μ → μ) (leave : μ → μ → μ) : (Read.scoping enter leave r).Grows log Q := by
  intro s after a run
  rw [perform_scoping] at run
  obtain ⟨result, rfl⟩ := Prod.mk.inj run
  exact h { s with memory := enter s.memory }
    (r.perform { s with memory := enter s.memory }).2 a (Prod.ext result rfl)

/-- A read that keeps the log adds nothing to it. -/
theorem grows_nil {r : Read μ σ α} (keeps : ∀ s, log (r.perform s).2.feed = log s.feed) :
    r.Grows log fun new _ => new = [] := by
  intro s after a run
  have kept := keeps s
  rw [run] at kept
  exact ⟨[], by rw [kept, List.append_nil], rfl⟩

end Read

/-! ### Watched feeds -/

/-- A feed, with the tokens that were taken from it and the messages that were reported through it,
    both in order. -/
structure Watched (σ : Type) where
  feed : σ
  taken : List Token := []
  told : List String := []

namespace Watched

variable {σ : Type}

/-- Starts watching a feed. -/
def of (s : σ) : Watched σ :=
  { feed := s }

variable [Feed σ]

instance : Feed (Watched σ) where
  peek w := Feed.peek w.feed
  consume w :=
    let answer := Feed.consume w.feed
    { token := answer.token
      feed := { w with feed := answer.feed, taken := w.taken ++ answer.token.toList }
      notes := answer.notes
      halt := answer.halt }
  atEnd w := Feed.atEnd w.feed
  report w message :=
    let answer := Feed.report w.feed message
    { fault := answer.fault
      feed := { w with feed := answer.feed, told := w.told ++ [message] }
      notes := answer.notes }
  location w := Feed.location w.feed
  state w := Feed.state w.feed
  setState w m := { w with feed := Feed.setState w.feed m }

instance [FaithfulFeed σ] : FaithfulFeed (Watched σ) where
  shown {w} _ taken := FaithfulFeed.shown (s := w.feed) taken

/-- Watching changes no answer. -/
theorem wraps : Feed.Wraps (feed : Watched σ → σ) where
  peek _ := rfl
  atEnd _ := rfl
  location _ := rfl
  state _ := rfl
  setState _ _ := rfl
  consume _ := ⟨rfl, rfl, rfl, rfl⟩
  report _ _ := ⟨rfl, rfl, rfl⟩

end Watched

/-- The session without the watch. -/
def Session.unwatched {μ σ : Type} (s : Session μ (Watched σ)) : Session μ σ :=
  ⟨s.feed.feed, s.memory, s.journal⟩

namespace Pattern

variable {σ : Type} [Feed σ]

/-- A pattern reads the same under watch. -/
theorem read_watched (fuel : Nat) (p : Pattern) (s : Session Memory (Watched σ)) :
    (p.read fuel).perform s.unwatched =
      (((p.read fuel).perform s).1, ((p.read fuel).perform s).2.unwatched) :=
  Watched.wraps.unwrapped (p.read_agree fuel) s

end Pattern

namespace Grammar

variable {σ : Type} [Feed σ]

/-- The tokens that a read takes, in order. -/
def taken (g : Grammar) (feed : σ) : List Token :=
  (g.readFrom (Watched.of feed)).feed.taken

/-- The read that tells what is taken is the read itself: it has the same result and leaves the same
    memory, notes and feed. -/
theorem readFrom_watched (g : Grammar) (feed : σ) :
    (g.readFrom (Watched.of feed)).toAnswer = (g.readFrom feed).toAnswer ∧
    (g.readFrom (Watched.of feed)).feed.feed = (g.readFrom feed).feed := by
  let s : Session Memory (Watched σ) := { feed := .of feed, memory := g.memory }
  have same : (g.pattern.read g.fuel).perform { feed := feed, memory := g.memory } =
      (((g.pattern.read g.fuel).perform s).1, ((g.pattern.read g.fuel).perform s).2.unwatched) :=
    g.pattern.read_watched g.fuel s
  have run : g.readFrom feed =
      { result := ((g.pattern.read g.fuel).perform { feed := feed, memory := g.memory }).1
        memory := ((g.pattern.read g.fuel).perform { feed := feed, memory := g.memory }).2.memory
        notes :=
          ((g.pattern.read g.fuel).perform { feed := feed, memory := g.memory }).2.journal.toList
        feed := ((g.pattern.read g.fuel).perform { feed := feed, memory := g.memory }).2.feed } :=
    rfl
  rw [run, same]
  exact ⟨rfl, rfl⟩

end Grammar

end Duplex
