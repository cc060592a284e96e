/-
Module: Duplex.Proofs.Outline.Items
Purpose: Reading an outline keeps every item.  The items and tails that the patterns read are logged
  as they come; the log has no part in the read.  Whatever the indentation is like, and whatever is
  reported about it, the tree that is read holds what was logged: each item before what is below it,
  directly followed by its tail.
Main exports: Outline.Entry, Outline.entries, Logged, Pattern.readLogging,
  Pattern.read_outline_entries
-/
import Mathlib
import Duplex.Grammar.Lexical
import Duplex.Proofs.Watching

namespace Duplex

/-! ### The items of a tree -/

namespace Outline

variable {α β : Type}

/-- What is read on a line of an outline: an item, or the tail behind the item before. -/
inductive Entry (α β : Type) where
  | item (a : α)
  | tail (b : β)

mutual

/-- The items of a tree, each before what is below it and directly followed by its tail. -/
def entries : Outline α β → List (Entry α β)
  | .root nodes => entriesOf nodes
  | .nest item tail children => .item item :: .tail tail :: entriesOf children
  | .term item => [.item item]

/-- The items of several trees. -/
def entriesOf : List (Outline α β) → List (Entry α β)
  | [] => []
  | node :: rest => entries node ++ entriesOf rest

end

/-- What a block comes to, behind the nodes read before: more nodes, whose items are those logged. -/
def Accounts (before : List (Outline α β)) (new : List (Entry α β))
    (result : Option (Nat × List (Outline α β))) : Prop :=
  ∀ closed ns, result = some (closed, ns) → ∃ more, ns = before.reverse ++ more ∧ new = entriesOf more

/-- A node that was read goes before the nodes read after it. -/
theorem Accounts.cons {before : List (Outline α β)} {node : Outline α β} {new : List (Entry α β)}
    {result : Option (Nat × List (Outline α β))} (h : Accounts (node :: before) new result) :
    Accounts before (node.entries ++ new) result := by
  intro closed ns eq
  obtain ⟨more, rfl, rfl⟩ := h closed ns eq
  refine ⟨node :: more, ?_, by rw [entriesOf]⟩
  rw [List.reverse_cons, List.append_assoc, List.singleton_append]

/-- A block that ends here has no more nodes. -/
theorem accounts_nil (before : List (Outline α β)) (closed : Nat) :
    Accounts before [] (some (closed, before.reverse)) := by
  rintro _ _ ⟨rfl, rfl⟩
  exact ⟨[], (List.append_nil _).symm, by rw [entriesOf]⟩

/-- Where nothing is read, nothing is to be accounted for. -/
theorem accounts_none (before : List (Outline α β)) (new : List (Entry α β)) :
    Accounts before new none := by
  intro closed ns eq
  cases eq

end Outline

/-! ### Logs beside feeds -/

/-- A feed with a log beside it, which nothing that is done to the feed changes. -/
structure Logged (ε σ : Type) where
  feed : σ
  log : List ε := []

namespace Logged

variable {μ ε σ α : Type} [Feed σ]

instance : Feed (Logged ε σ) where
  peek w := Feed.peek w.feed
  consume w :=
    let answer := Feed.consume w.feed
    { token := answer.token
      feed := { w with feed := answer.feed }
      notes := answer.notes
      halt := answer.halt }
  atEnd w := Feed.atEnd w.feed
  report w message :=
    let answer := Feed.report w.feed message
    { fault := answer.fault
      feed := { w with feed := answer.feed }
      notes := answer.notes }
  location w := Feed.location w.feed
  state w := Feed.state w.feed
  setState w m := { w with feed := Feed.setState w.feed m }

theorem wraps : Feed.Wraps (feed : Logged ε σ → σ) where
  peek _ := rfl
  atEnd _ := rfl
  location _ := rfl
  state _ := rfl
  setState _ _ := rfl
  consume _ := ⟨rfl, rfl, rfl, rfl⟩
  report _ _ := ⟨rfl, rfl, rfl⟩

/-- The log stays as it is. -/
theorem log_invariant (sofar : List ε) :
    Feed.Invariant fun (w : Logged ε σ) (_ : Journal) => w.log = sofar where
  consume h := h
  report _ h := h
  setState _ h := h
  note _ h := h

/-- A read that nothing but the feed has part in logs nothing. -/
theorem grows_nil {r : Read μ (Logged ε σ) α}
    (agree : ∀ sofar, (Likeness.ofInvariant (log_invariant (σ := σ) sofar)).Agree r r) :
    r.Grows log fun new _ => new = [] :=
  Read.grows_nil fun s => (agree s.feed.log).keeps rfl

end Logged

namespace Session

variable {μ ε σ : Type}

/-- A session with an empty log. -/
def logged (s : Session μ σ) : Session μ (Logged ε σ) :=
  ⟨⟨s.feed, []⟩, s.memory, s.journal⟩

/-- The session without the log. -/
def unlogged (s : Session μ (Logged ε σ)) : Session μ σ :=
  ⟨s.feed.feed, s.memory, s.journal⟩

end Session

/-! ### Logging reads -/

namespace Read

variable {μ ε σ α : Type} {r : Read μ (Logged ε σ) (Option α)}

/-- Reads, and logs what was read. -/
def logging (entry : α → ε) (r : Read μ (Logged ε σ) (Option α)) :
    Read μ (Logged ε σ) (Option α) := do
  let result ← r
  modify fun s =>
    { s with feed := { s.feed with log := s.feed.log ++ (result.map entry).toList } }
  return result

theorem grows_logging (h : r.Grows Logged.log fun new _ => new = []) (entry : α → ε) :
    (logging entry r).Grows Logged.log fun new result => new = (result.map entry).toList := by
  refine h.bind fun new result none => ?_
  subst none
  intro s after told run
  cases run
  exact ⟨(result.map entry).toList, rfl, rfl⟩

variable [Feed σ]

/-- Logging has no part in the read. -/
theorem agree_logging {q : Read μ σ (Option α)} (h : Logged.wraps.likeness.Agree r q)
    (entry : α → ε) : Logged.wraps.likeness.Agree (logging entry r) q := by
  rw [← bind_pure q]
  exact h.bind fun result => ⟨fun alike => .inl ⟨rfl, alike⟩, fun ended => ended⟩

end Read

/-! ### Blocks -/

section Blocks

variable {μ σ α β : Type}

open Outline

/-- A reader whose items are logged. -/
def Read.Itemizes (item : Read μ (Logged (Entry α β) σ) (Option α)) : Prop :=
  item.Grows Logged.log fun new result => new = (result.map Entry.item).toList

/-- What outlines are read with, where tails are logged, layouts are not, and a block logs what is run
    in it. -/
structure Read.OutlineParts.Itemizes (parts : Read.OutlineParts μ (Logged (Entry α β) σ) α β) :
    Prop where
  tail : parts.tail.Grows Logged.log fun new result => new = (result.map Entry.tail).toList
  layout : parts.layout.Grows Logged.log fun new _ => new = []
  block : ∀ (a : α) (b : β)
    {body : Read μ (Logged (Entry α β) σ) (Option α) →
      Read μ (Logged (Entry α β) σ) (Option (Nat × List (Outline α β)))}
    {Q : List (Entry α β) → Option (Nat × List (Outline α β)) → Prop},
    (∀ {item}, item.Itemizes → (body item).Grows Logged.log Q) →
    (parts.block a b body).Grows Logged.log Q

namespace Read

variable [Feed σ] {parts : OutlineParts μ (Logged (Entry α β) σ) α β}
  {item : Read μ (Logged (Entry α β) σ) (Option α)}

/-- A report made under a condition logs nothing. -/
theorem grows_reportIf {ε γ : Type} {c : Prop} [Decidable c] (message : String)
    {f : Unit → Read μ (Logged ε σ) γ} {Q : List ε → γ → Prop}
    (h : ∀ u, (f u).Grows Logged.log Q) :
    (if c then report message >>= f else f ()).Grows Logged.log Q := by
  have told : (report message : Read μ (Logged ε σ) Unit).Grows Logged.log fun new _ => new = [] :=
    Logged.grows_nil fun _ => .report message
  split
  · refine told.bind fun new u none => ?_
    subst none
    exact h u
  · exact h ()

/-- Reading goes on behind a node whose items were logged, or ends there. -/
theorem layer_accounts (hparts : parts.Itemizes) (turns : Nat) (hitem : item.Itemizes) (here : Nat)
    (before : List (Outline α β)) :
    (layer parts turns item here before).Grows Logged.log (Accounts before) := by
  induction turns generalizing item here before with
  | zero => exact grows_throw _ _
  | succ turns ih =>
      unfold layer
      refine hitem.bind fun _ read logged => ?_
      subst logged
      cases read with
      | none => exact grows_pure (accounts_nil before here)
      | some a =>
          refine hparts.tail.bind fun _ tail logged => ?_
          subst logged
          cases tail with
          | none =>
              refine hparts.layout.bind fun _ next logged => ?_
              subst logged
              cases next with
              | none => exact grows_pure (accounts_none _ _)
              | some next =>
                  refine grows_reportIf _ fun _ => ?_
                  dsimp only
                  split
                  · exact grows_pure (accounts_nil (.term a :: before) next).cons
                  · exact (ih hitem here _).mono fun new result accounts => accounts.cons
          | some tail =>
              refine hparts.layout.bind fun _ below logged => ?_
              subst logged
              cases below with
              | none => exact grows_pure (accounts_none _ _)
              | some below =>
                  refine grows_reportIf _ fun _ => ?_
                  refine (hparts.block a tail fun inner => ih inner below []).bind ?_
                  rintro children (_ | ⟨closed, nodes⟩) accounts
                  · exact grows_pure (accounts_none _ _)
                  · obtain ⟨nodes, rfl, rfl⟩ := accounts closed _ rfl
                    -- the node is put behind the others however its block was closed
                    dsimp only
                    split
                    · exact grows_pure (accounts_nil (.nest a tail nodes :: before) closed).cons
                    · refine grows_reportIf _ fun _ => ?_
                      exact (ih hitem here _).mono fun new result accounts => accounts.cons

/-- A whole outline holds the items that were logged. -/
theorem outline_accounts (hparts : parts.Itemizes) (hitem : item.Itemizes) (fuel base : Nat) :
    (outline fuel parts item base).Grows Logged.log fun new result =>
      ∀ tree, result = some tree → ∃ nodes, tree = .root nodes ∧ new = tree.entries := by
  refine (layer_accounts hparts fuel hitem base []).bind ?_
  rintro new (_ | ⟨closed, nodes⟩) accounts
  · exact grows_pure nofun
  · obtain ⟨nodes, rfl, rfl⟩ := accounts closed _ rfl
    refine grows_reportIf _ fun _ => grows_pure ?_
    rintro _ ⟨rfl⟩
    exact ⟨nodes, rfl, by rw [List.append_nil, entries]⟩

end Read

end Blocks

/-! ### Patterns -/

namespace Pattern

open Outline

variable {σ : Type} [Feed σ] (item tail layout : Pattern) (base : Nat) (rescue : Option Recovery)
  (block : Option (Value → Value → Option Pattern))

/-- Reads an outline as its pattern does, and logs what the patterns of its items and tails read. -/
def readLogging : Nat → Read Memory (Logged (Entry Value Value) σ) (Option Value)
  | 0 => Read.exhausted
  | fuel + 1 => do
      let parts := outlineParts (fun q => Read.logging .item (q.read fuel)) item
        (Read.logging .tail (tail.read fuel)) (layout.read fuel) base rescue block
      return (← Read.outline fuel parts (Read.logging .item (item.read fuel)) base).map
        Outline.toValue

/-- What a pattern reads itself is not logged. -/
theorem read_grows (fuel : Nat) (p : Pattern) :
    (p.read fuel : Read Memory (Logged (Entry Value Value) σ) (Option Value)).Grows Logged.log
      fun new _ => new = [] :=
  Logged.grows_nil fun _ => p.read_agree fuel

theorem outlineParts_itemizes (fuel : Nat) :
    (outlineParts (fun q => Read.logging .item (q.read fuel)) item
      (Read.logging .tail (tail.read fuel)) (layout.read fuel) base rescue block :
      Read.OutlineParts Memory (Logged (Entry Value Value) σ) Value Value).Itemizes where
  tail := Read.grows_logging (tail.read_grows fuel) _
  layout := by
    refine (layout.read_grows fuel).bind fun new indent none => ?_
    subst none
    cases indent with
    | none => exact Logged.grows_nil fun _ => .rescueLayout base rescue
    | some n => exact Read.grows_pure rfl
  block := by
    intro head rest body Q logs
    have inner := fun q : Pattern =>
      logs (Read.grows_logging (q.read_grows (σ := σ) fuel) Entry.item)
    cases block with
    | none => exact inner item
    | some choose =>
        have noted : (Read.note (.choose head rest) :
            Read Memory (Logged (Entry Value Value) σ) Unit).Grows Logged.log
            fun new _ => new = [] :=
          Logged.grows_nil fun _ => .note rfl
        refine noted.bind fun new u none => ?_
        subst none
        split
        · exact Read.Grows.scoping (inner _) _ _
        · exact inner _
        · exact inner item

/-- The log has no part in the read. -/
theorem readLogging_agree (step fuel : Nat) :
    Logged.wraps.likeness.Agree (readLogging (σ := σ) item tail layout base rescue block fuel)
      ((outline item tail layout base step rescue block).read fuel) := by
  cases fuel with
  | zero => exact .throw _
  | succ fuel =>
      have plain : ∀ p : Pattern, Logged.wraps.likeness.Agree
          (p.read fuel : Read Memory (Logged (Entry Value Value) σ) (Option Value)) (p.read fuel) :=
        fun p => p.read_agree fuel
      have items := fun p : Pattern => Read.agree_logging (plain p) Entry.item
      have parts := Likeness.Agree.outlineParts items (Read.agree_logging (plain tail) Entry.tail)
        (plain layout) item base rescue block
      exact .map _ (.outline parts (items item) fuel base)

/-- The items of the tree that comes out are those logged. -/
theorem readLogging_accounts (fuel : Nat) :
    (readLogging item tail layout base rescue block fuel).Grows (Logged.log (σ := σ))
      fun new result => ∀ v, result = some v →
        ∃ nodes, v = (Outline.root nodes).toValue ∧ new = (Outline.root nodes).entries := by
  cases fuel with
  | zero => exact Read.grows_throw _ _
  | succ fuel =>
      have parts := outlineParts_itemizes (σ := σ) item tail layout base rescue block fuel
      have items := Read.grows_logging (item.read_grows (σ := σ) fuel) Entry.item
      refine (Read.outline_accounts parts items fuel base).map fun new tree accounts v made => ?_
      obtain ⟨tree, rfl, rfl⟩ := Option.map_eq_some_iff.mp made
      obtain ⟨nodes, rfl, rfl⟩ := accounts tree rfl
      exact ⟨nodes, rfl, rfl⟩

/-- An outline that is read holds every item and tail that was read, in the order they were read in:
    each item before what is below it, directly followed by its tail.  The read that logs them is
    the read itself, on any feed, whatever it reports and however it ends. -/
theorem read_outline_entries (step fuel : Nat) (s : Session Memory σ) :
    let plain := ((outline item tail layout base step rescue block).read fuel).perform s
    let logging := (readLogging item tail layout base rescue block fuel).perform s.logged
    plain = (logging.1, logging.2.unlogged) ∧
    ∀ v, plain.1 = .ok (some v) →
      ∃ nodes, v = (Outline.root nodes).toValue ∧
        logging.2.feed.log = (Outline.root nodes).entries := by
  intro plain logging
  have same : plain = (logging.1, logging.2.unlogged) :=
    Logged.wraps.unwrapped (readLogging_agree item tail layout base rescue block step fuel) s.logged
  refine ⟨same, fun v read => ?_⟩
  have run : logging = (.ok (some v), logging.2) := by
    rw [← read, same]
  obtain ⟨new, log, accounts⟩ :=
    readLogging_accounts item tail layout base rescue block fuel _ _ _ run
  obtain ⟨nodes, tree, entries⟩ := accounts v rfl
  refine ⟨nodes, tree, ?_⟩
  rw [log, entries]
  rfl

/-- A letter. -/
def letter : Pattern :=
  .satisfy (.range (.char 'a') (.char 'z'))

/-- A line between the indentation of a block and that of the line above it, in a text whose errors
    are kept. -/
def unaligned : Session Memory (Input Slice) where
  feed := (Input.ofFeed ⟨#[.char 'a', .char ':', .char '\n', .char ' ', .char ' ', .char 'b',
    .char '\n', .char ' ', .char 'c'], 0, by decide⟩ none).collecting
  memory := .empty

/-- The error is kept, and every letter that was read is in the tree. -/
theorem read_outline_entries_unaligned :
    (((outline letter (.char ':') .indentation 0 2 none none).read 8).perform unaligned).1 =
      .ok (some (Outline.root
        [.nest (.char 'a') (.char ':') [.term (.char 'b')], .term (.char 'c')]).toValue) ∧
    (((outline letter (.char ':') .indentation 0 2 none none).read 8).perform
      unaligned).2.feed.takeErrors.1.map ErrorRecord.message =
        ["unaligned layout close (0 => 1)"] ∧
    ((readLogging letter (.char ':') .indentation 0 none none 8).perform
      unaligned.logged).2.feed.log =
        [.item (.char 'a'), .tail (.char ':'), .item (.char 'b'), .item (.char 'c')] := by
  have read : (((outline letter (.char ':') .indentation 0 2 none none).read 8).perform
      unaligned).1 = .ok (some (Outline.root
        [.nest (.char 'a') (.char ':') [.term (.char 'b')], .term (.char 'c')]).toValue) := by
    cbv
  obtain ⟨nodes, same, log⟩ :=
    (read_outline_entries letter (.char ':') .indentation 0 none none 2 8 unaligned).2 _ read
  refine ⟨read, by decide +kernel, ?_⟩
  rw [log, ← Outline.eq_of_toValue same]
  rfl

end Pattern

end Duplex
