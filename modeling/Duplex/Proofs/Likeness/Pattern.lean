/-
Module: Duplex.Proofs.Likeness.Pattern
Purpose: Reading by a pattern keeps every likeness: whatever two feeds are like each other, a pattern
  reads the same from both, and whatever a feed keeps of itself under the steps of a grammar, it
  keeps under the reading of a whole pattern.
Main exports: Pattern.read_agree, Pattern.read_keeps
-/
import Duplex.Proofs.Likeness.Combinator

namespace Duplex

variable {σ ρ α : Type} [Feed σ] [Feed ρ] {L : Likeness σ ρ}

/-! ### Writing while reading -/

theorem Feed.Invariant.notes {P : σ → Journal → Prop} (inv : Feed.Invariant P) {s : σ}
    {notes : List Note} (own : ∀ n ∈ notes, n.byFeed = false) {j : Journal} (h : P s j) :
    P s (j.addAll notes) := by
  induction notes generalizing j with
  | nil => exact h
  | cons n rest ih =>
      have added : P s (j.add n) := inv.note (own n List.mem_cons_self) h
      exact ih (fun m hm => own m (List.mem_cons_of_mem n hm)) added

theorem Likeness.notes {s : σ} {t : ρ} {notes : List Note}
    (own : ∀ n ∈ notes, n.byFeed = false) {j k : Journal} (h : L.alike s j t k) :
    L.alike s (j.addAll notes) t (k.addAll notes) := by
  induction notes generalizing j k with
  | nil => exact h
  | cons n rest ih =>
      have added : L.alike s (j.add n) t (k.add n) := L.note (own n List.mem_cons_self) h
      exact ih (fun m hm => own m (List.mem_cons_of_mem n hm)) added

namespace Likeness.Agree

theorem atDesk {μ : Type} {w : Write μ α} (steady : w.Steady) :
    L.Agree (Read.atDesk w : Read μ σ _) (Read.atDesk w) where
  together {s t} h := by
    obtain ⟨result, after, notes, own, runs⟩ := steady t.memory
    rw [Read.perform_atDesk h.1 (runs _), Read.perform_atDesk rfl (runs _)]
    exact .of_ok _ ⟨rfl, L.notes own h.2⟩
  alone {cause s} h := by
    obtain ⟨result, after, notes, own, runs⟩ := steady s.memory
    rw [Read.perform_atDesk rfl (runs _)]
    exact (L.kept cause).notes own h

theorem supply (cell : Nat) : L.Agree (Read.supply cell : Read Memory σ Unit) (Read.supply cell) :=
  bind (atDesk (.supply cell)) fun _ => pure ()

theorem trieAt (cell : Nat) (initial : Registry Token Value) :
    L.Agree (Read.trieAt cell initial : Read Memory σ _) (Read.trieAt cell initial) :=
  map _ memory

/-! ### Recoveries, pipes and side effects -/

section Parts

variable {μ : Type}

theorem recovery (r : Recovery) : L.Agree (r.run : Read μ σ (Option Value)) r.run := by
  rcases r with ⟨_ | message, _ | _ | _, result⟩
  · exact pure result
  · exact bind consumeOrFault fun _ => pure result
  · exact bind consumeOrFault fun t => pure (some t.toValue)
  · exact bind (report message) fun _ => pure result
  · exact bind (report message) fun _ => bind consumeOrFault fun _ => pure result
  · exact bind (report message) fun _ => bind consumeOrFault fun t => pure (some t.toValue)

theorem runOption (r : Option Recovery) :
    L.Agree (Recovery.runOption r : Read μ σ (Option Value)) (Recovery.runOption r) := by
  cases r with
  | none => exact pure none
  | some r => exact recovery r

theorem pipe (pipe : Pipe) (result : Option Value) :
    L.Agree (pipe.run result : Read μ σ (Option Value)) (pipe.run result) := by
  unfold Pipe.run
  split
  · split
    · exact recovery _
    · exact pure none
  · dsimp only
    split
    · exact recovery _
    · exact recovery _
    · exact pure _

theorem effect (effect : Effect) (v : Value) :
    L.Agree (effect.run v : Read μ σ Unit) (effect.run v) := by
  cases effect with
  | bump =>
      refine bind (state? .tally) fun tally => ?_
      cases tally with
      | none => exact pure ()
      | some n =>
          dsimp only
          split
          · exact setState .tally _
          · exact throw _
  | skip => exact bind consume fun _ => pure ()
  | observe => exact bind peek fun t => note rfl

/-! ### Brackets that are remembered -/

theorem popBracket (pair : Char × Char) :
    L.Agree (Read.popBracket pair : Read μ σ (Option Location)) (Read.popBracket pair) := by
  refine bind (state? .brackets) fun brackets => ?_
  cases brackets with
  | none => exact pure none
  | some brackets => exact bind (setState .brackets _) fun _ => pure _

theorem pushBracket (pair : Char × Char) :
    L.Agree (Read.pushBracket pair : Read μ σ Unit) (Read.pushBracket pair) := by
  refine bind location fun place => ?_
  cases place with
  | none => exact pure ()
  | some place =>
      refine bind (state? .brackets) fun brackets => ?_
      cases brackets with
      | none => exact pure ()
      | some brackets => exact setState .brackets _

theorem closeMessage (pair : Char × Char) :
    L.Agree (Read.closeMessage pair : Read μ σ String) (Read.closeMessage pair) :=
  bind (popBracket pair) fun _ => pure _

theorem condition (c : Condition) : L.Agree (c.read : Read μ σ (Option Token)) c.read :=
  consumeIf c.holds

theorem openBracket (pair : Char × Char) :
    L.Agree (Read.openBracket pair : Read μ σ (Option Token)) (Read.openBracket pair) := by
  refine bind (condition _) fun opened => ?_
  dsimp only
  split
  · exact bind (pushBracket pair) fun _ => pure _
  · exact pure _

theorem closeBracket (fuel : Nat) (pair : Char × Char) :
    L.Agree (Read.closeBracket fuel pair : Read μ σ (Option Token))
      (Read.closeBracket fuel pair) := by
  refine bind (condition _) fun closed => ?_
  cases closed with
  | none => exact insist (closeMessage pair) (condition _) fuel
  | some c => exact bind (popBracket pair) fun _ => pure _

/-! ### Single tokens -/

theorem lookupToken (entries : List (Token × Value)) (absent : Option Recovery) :
    L.Agree (Read.lookupToken entries absent : Read μ σ (Option Value))
      (Read.lookupToken entries absent) := by
  refine bind peek fun key => ?_
  split
  · refine bind noneLeft fun ended => ?_
    split <;> exact pure _
  · cases absent with
    | none => exact pure none
    | some r => exact bind (note rfl) fun _ => recovery r

theorem ofExcept (result : Except Abort α) :
    L.Agree (Read.ofExcept result : Read μ σ α) (Read.ofExcept result) := by
  cases result with
  | ok a => exact pure a
  | error cause => exact throw _

theorem asValue {r : Read μ σ (Option Token)} {q : Read μ ρ (Option Token)} (h : L.Agree r q) :
    L.Agree (Read.asValue r) (Read.asValue q) :=
  map _ h

end Parts

/-! ### Pieces of patterns -/

theorem describeHere (fuel : Nat) (p : Pattern) :
    L.Agree (Pattern.describeHere fuel p : Read Memory σ String) (Pattern.describeHere fuel p) := by
  refine bind (atDesk (p.describe_steady fuel [])) fun described => ?_
  cases described with
  | ok text => exact pure text
  | error stop => exact throw _

theorem rescueJoin (fuel : Nat) (sep : Pattern) (rescue : Option JoinRescue) (items : List Value) :
    L.Agree (Pattern.rescueJoin fuel sep rescue items : Read Memory σ (Option Value))
      (Pattern.rescueJoin fuel sep rescue items) := by
  unfold Pattern.rescueJoin
  split
  · exact pure _
  · exact recovery _
  · exact bind (describeHere fuel sep) fun _ => bind (report _) fun _ => pure none

theorem rescueChain (rescue : Option ChainRescue) (lhs : Value) (op : Operator Value) :
    L.Agree (Pattern.rescueChain rescue lhs op : Read Memory σ (Option Value))
      (Pattern.rescueChain rescue lhs op) := by
  unfold Pattern.rescueChain
  cases rescue with
  | none => exact bind (report _) fun _ => pure none
  | some how =>
      refine bind (note rfl) fun _ => ?_
      cases how with
      | keepLeft => exact pure _
      | recover r => exact recovery r

theorem rescueLayout (base : Nat) (rescue : Option Recovery) :
    L.Agree (Pattern.rescueLayout base rescue : Read Memory σ (Option Nat))
      (Pattern.rescueLayout base rescue) := by
  unfold Pattern.rescueLayout
  cases rescue with
  | some r => exact map _ (recovery r)
  | none =>
      refine bind atEnd fun ended => ?_
      split
      · exact pure _
      · exact bind (report _) fun _ => pure none

/-- Outlines are read with parts that agree, where their items, tails and layouts do. -/
theorem outlineParts {inner : Pattern → Read Memory σ (Option Value)}
    {inner' : Pattern → Read Memory ρ (Option Value)} {tail layout : Read Memory σ (Option Value)}
    {tail' layout' : Read Memory ρ (Option Value)} (hinner : ∀ q, L.Agree (inner q) (inner' q))
    (htail : L.Agree tail tail') (hlayout : L.Agree layout layout') (item : Pattern) (base : Nat)
    (rescue : Option Recovery) (block : Option (Value → Value → Option Pattern)) :
    Parts L (Pattern.outlineParts inner item tail layout base rescue block)
      (Pattern.outlineParts inner' item tail' layout' base rescue block) where
  tail := htail
  layout := by
    refine bind hlayout fun indent => ?_
    cases indent with
    | none => exact rescueLayout base rescue
    | some n => exact pure _
  quoted := rfl
  block := by
    intro head rest body body' same
    cases block with
    | none => exact same (hinner item)
    | some choose =>
        refine bind (note rfl) fun _ => ?_
        split
        · exact scoping _ _ (same (hinner _))
        · exact same (hinner _)
        · exact same (hinner item)

theorem readTrie (fuel cell : Nat) (initial : Registry Token Value) (policy : Policy) :
    L.Agree (Pattern.readTrie fuel cell initial policy : Read Memory σ (Option Value))
      (Pattern.readTrie fuel cell initial policy) := by
  refine bind (trieAt cell initial) fun registry => ?_
  refine bind (judge fuel policy registry.trie) fun (descent, verdict) => ?_
  cases verdict with
  | notParsed => exact pure none
  | found v => exact pure _
  | fresh v => exact pure _
  | learn v => exact bind memory fun m => bind (setMemory _) fun _ => pure _

theorem noting {r : Read Memory σ (Option Value)} {q : Read Memory ρ (Option Value)}
    (h : L.Agree r q) (noted : Bool) {note : Value → Note} (own : ∀ v, (note v).byFeed = false) :
    L.Agree (Pattern.noting noted note r) (Pattern.noting noted note q) := by
  refine bind h fun result => ?_
  cases result with
  | none => exact bind (pure ()) fun _ => pure _
  | some v =>
      dsimp only
      split
      · exact bind (Agree.note (own v)) fun _ => pure _
      · exact pure _

/-- The reader of a bracket that may be missing. -/
theorem bracket {f : Pattern → Read Memory σ (Option Value)}
    {g : Pattern → Read Memory ρ (Option Value)} (h : ∀ q, L.Agree (f q) (g q))
    (q : Option Pattern) :
    L.Agree
      (match q with
        | some q => return (← f q).isSome
        | none => return true)
      (match q with
        | some q => return (← g q).isSome
        | none => return true) := by
  cases q with
  | none => exact pure true
  | some q => exact map _ (h q)

end Likeness.Agree

/-! ### Patterns -/

namespace Pattern

open Likeness

/-- A pattern reads alike from feeds alike. -/
theorem read_agree (fuel : Nat) (p : Pattern) :
    L.Agree (p.read fuel : Read Memory σ (Option Value)) (p.read fuel) := by
  induction fuel generalizing σ ρ p with
  | zero => exact .throw _
  | succ fuel ih =>
      have inner : ∀ q : Pattern, L.Agree (q.read fuel) (q.read fuel) := fun q => ih q
      have ahead : ∀ q : Pattern, L.lookahead.Agree (q.read fuel) (q.read fuel) := fun q => ih q
      cases p with
      | satisfy c => exact .asValue (.condition c)
      | insist c message =>
          exact .asValue (.insist (.map message .peek) (.condition c) fuel)
      | always v => exact .pure _
      | never => exact .pure _
      | stickyEnd item value otherwise => exact .stickyEnd (ahead item) (.runOption otherwise) value
      | peek item => exact .peeking (ahead item)
      | lookup entries absent => exact .lookupToken entries absent
      | tuple parts => exact .map _ (.sequence fun q _ => inner q)
      | sequence parts => exact .map _ (.sequence fun q _ => inner q)
      | upTo ending folding item => exact .map _ (.upTo (ahead ending) (inner item) _ fuel _)
      | repeated folding item bounds skippable =>
          exact .map _ (.repeated (inner item) fuel _ _ bounds)
      | choice cases => exact .map _ (.choice (fun q _ => inner q) 0)
      | convert item conversion =>
          refine .bind (inner item) fun read => ?_
          cases read with
          | none => exact .pure none
          | some v => exact .map _ (.ofExcept _)
      | contextual head body =>
          refine .bind (inner head) fun read => ?_
          cases read with
          | none => exact .pure none
          | some context => exact .map _ (inner _)
      | ref name =>
          refine .bind .memory fun m => ?_
          dsimp only
          split
          · exact inner _
          · exact .throw _
      | lazy cell item => exact .bind (.supply cell) fun _ => inner item
      | renewed cells item => exact .scoping _ _ (inner item)
      | piped item pipe => exact .bind (inner item) fun result => .pipe pipe result
      | alsoDo item effect =>
          refine .bind (inner item) fun read => ?_
          cases read with
          | none => exact .pure none
          | some v => exact .bind (.effect effect v) fun _ => .pure _
      | optional item value => exact .map _ (inner item)
      | constant item value => exact inner item
      | writtenBy item write => exact inner item
      | named item name => exact inner item
      | settle item skip value message =>
          exact .settle (.map message .peek) (ih skip) (inner item) fuel value
      | surround left right item =>
          exact .surround (.bracket inner left) (.bracket inner right) (inner item)
      | joined sep item rescue noted =>
          refine .map _ (.joined (.noting (inner sep) noted fun _ => rfl)
            (.noting (inner item) noted fun _ => rfl) (fun items _ => ?_) fuel)
          exact .rescueJoin fuel sep rescue items
      | chain operand operators padding rescue =>
          exact .chain (inner operand)
            (.surround (.bracket inner padding) (.bracket inner padding) (.lookup operators.trie))
            (.rescueChain rescue) fuel
      | outline item tail layout base step rescue block =>
          exact .map _ (.outline
            (Agree.outlineParts inner (inner tail) (inner layout) item base rescue block)
            (inner item) fuel base)
      | trie cell initial policy => exact .readTrie fuel cell initial policy
      | dictionary cell initial => exact .readTrie fuel cell initial .exact
      | matched item regex make unmake =>
          refine .bind (inner item) fun read => ?_
          split <;> exact .pure _
      | openBracket pair => exact .asValue (.openBracket pair)
      | closeBracket pair => exact .asValue (.closeBracket fuel pair)

/-- Reading by a pattern breaks no invariant of the feed. -/
theorem read_keeps {P : σ → Journal → Prop} (inv : Feed.Invariant P) (fuel : Nat) (p : Pattern)
    {s : Session Memory σ} (h : P s.feed s.journal) :
    P ((p.read fuel).perform s).2.feed ((p.read fuel).perform s).2.journal :=
  (p.read_agree (L := ofInvariant inv) fuel).keeps h

end Pattern

end Duplex
