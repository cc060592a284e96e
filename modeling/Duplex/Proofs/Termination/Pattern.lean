/-
Module: Duplex.Proofs.Termination.Pattern
Purpose: Reading comes to an end.  In a grammar without a reference that leads back to itself, where
  what is repeated takes at least one token each time it reads, every read of a finite feed has one
  outcome from some amount of fuel on, which is not that the fuel was used up.
Main exports: Pattern.Progresses, Grammar.Progresses, Pattern.read_tame, Grammar.Terminates,
  Grammar.read_terminates
-/
import Duplex.Proofs.Trie.Descent
import Duplex.Proofs.Termination.Combinator
import Duplex.Proofs.Termination.Parts

namespace Duplex

/-! ### Grammars that make progress -/

namespace Pattern

variable {σ : Type} [Feed σ]

/-- The pattern takes at least one token whenever it reads. -/
def Advances (M : Memory → Prop) (p : Pattern) : Prop :=
  Read.Advances M (fun read => read.isSome) fun fuel => p.read fuel

/-- Whether a separator is the optional one that may end a join. -/
def isTrailing (sep : Pattern) (s : Value) : Bool :=
  match sep.default? with
  | some d => d == s
  | none => false

/-- What comes after the separator `s` of a join: an item, or the one supplied in its place. -/
def joinAfter (fuel : Nat) (sep item : Pattern) (rescue : Option JoinRescue) (noted : Bool)
    (items seps : List Value) (s : Value) : Read Memory σ (Option (Option (Value × Value))) :=
  Read.joinAfter (noting noted .item (item.read fuel)) sep.isTrailing
    (fun items _ => rescueJoin fuel sep rescue items) items seps s

/-- One round of a join: a separator and what comes after it. -/
def joinRound (fuel : Nat) (sep item : Pattern) (rescue : Option JoinRescue) (noted : Bool)
    (items seps : List Value) : Read Memory σ (Option (Option (Value × Value))) :=
  Read.joinRound (noting noted .separator (sep.read fuel)) (noting noted .item (item.read fuel))
    sep.isTrailing (fun items _ => rescueJoin fuel sep rescue items) items seps

/-- An operator of a chain, with the padding around it. -/
def readOperator (fuel : Nat) (operators : Registry Token (Operator Value))
    (padding : Option Pattern) : Read Memory σ (Option (Operator Value)) :=
  Read.surround (readBracket fuel padding) (readBracket fuel padding) (Read.lookup operators.trie)

/-- One round of a chain: an operator and the operand after it, or the one supplied in its place. -/
def chainRound (fuel : Nat) (operand : Pattern) (operators : Registry Token (Operator Value))
    (padding : Option Pattern) (rescue : Option ChainRescue) (lhs : Value) :
    Read Memory σ (Option Value) :=
  Read.chainRound (readOperator fuel operators padding)
    (Read.chainOperand (operand.read fuel) (rescueChain rescue)) lhs

/-- The pattern of the items of a block, where one was chosen for the block. -/
def blockItem : Pattern → Pattern
  | .renewed _ own => own
  | own => own

/-- What a pattern repeats takes at least one token each time it reads: the items of repetitions and
    outlines, and the rounds of joins and chains.  Nothing is asked of what is skipped. -/
def Progresses (M : Memory → Prop) : Pattern → Prop
  | .upTo _ _ item => item.Advances M
  | .repeated _ item _ _ => item.Advances M
  | .joined sep item rescue noted => ∀ items seps,
      Read.Advances M (fun round => round.join.isSome) fun fuel =>
        joinRound fuel sep item rescue noted items seps
  | .chain operand operators padding rescue => ∀ lhs,
      Read.Advances M (fun rhs => rhs.isSome) fun fuel =>
        chainRound fuel operand operators padding rescue lhs
  | .outline item _ _ _ _ _ block => item.Advances M ∧
      ∀ choose head rest own, block = some choose → choose head rest = some own →
        own.blockItem.Advances M
  | _ => True

end Pattern

/-- Everything that the grammar repeats takes at least one token each time it reads, with every memory
    that the grammar may come to. -/
def Grammar.Progresses (g : Grammar) : Prop :=
  ∀ p, g.Part p → p.Progresses g.Reached

/-! ### Pieces of patterns -/

namespace TameAt

variable {μ σ α : Type} [Feed σ] {C : Clock σ} {M : μ → Prop} {most : Nat}

theorem recovery (r : Recovery) : TameAt C M most fun _ => (r.run : Read μ σ (Option Value)) := by
  rcases r with ⟨_ | message, _ | _ | _, result⟩
  · exact pure result
  · exact consumeOrFault.bind fun _ => pure result
  · exact consumeOrFault.bind fun t => pure (some t.toValue)
  · exact (report message).bind fun _ => pure result
  · exact (report message).bind fun _ => consumeOrFault.bind fun _ => pure result
  · exact (report message).bind fun _ => consumeOrFault.bind fun t => pure (some t.toValue)

theorem runOption (r : Option Recovery) :
    TameAt C M most fun _ => (Recovery.runOption r : Read μ σ (Option Value)) := by
  cases r with
  | none => exact pure none
  | some r => exact recovery r

theorem pipe (pipe : Pipe) (result : Option Value) :
    TameAt C M most fun _ => (pipe.run result : Read μ σ (Option Value)) := by
  unfold Pipe.run
  split
  · split
    · exact recovery _
    · exact pure none
  · dsimp only
    split
    · exact recovery _
    · exact recovery _
    · exact pure _

theorem effect (effect : Effect) (v : Value) :
    TameAt C M most fun _ => (effect.run v : Read μ σ Unit) := by
  cases effect with
  | bump =>
      apply (state? .tally).bind
      intro tally
      cases tally with
      | none => exact pure ()
      | some n =>
          dsimp only
          split
          · exact setState .tally _
          · exact throw (by simp)
  | skip => exact consume.bind fun _ => pure ()
  | observe => exact peek.bind fun t => note _

theorem popBracket (pair : Char × Char) :
    TameAt C M most fun _ => (Read.popBracket pair : Read μ σ (Option Location)) := by
  apply (state? .brackets).bind
  intro brackets
  cases brackets with
  | none => exact pure none
  | some brackets => exact (setState .brackets _).bind fun _ => pure _

theorem pushBracket (pair : Char × Char) :
    TameAt C M most fun _ => (Read.pushBracket pair : Read μ σ Unit) := by
  apply location.bind
  intro place
  cases place with
  | none => exact pure ()
  | some place =>
      apply (state? .brackets).bind
      intro brackets
      cases brackets with
      | none => exact pure ()
      | some brackets => exact setState .brackets _

theorem condition (c : Condition) : TameAt C M most fun _ => (c.read : Read μ σ (Option Token)) :=
  consumeIf c.holds

theorem openBracket (pair : Char × Char) :
    TameAt C M most fun _ => (Read.openBracket pair : Read μ σ (Option Token)) := by
  apply (condition _).bind
  intro opened
  dsimp only
  split
  · exact (pushBracket pair).bind fun _ => pure _
  · exact pure _

theorem closeBracket (pair : Char × Char) :
    TameAt C M most fun fuel => (Read.closeBracket fuel pair : Read μ σ (Option Token)) := by
  apply (condition _).bind
  intro closed
  cases closed with
  | none => exact insist ((popBracket pair).bind fun _ => pure _) fun _ => condition _
  | some c => exact (popBracket pair).bind fun _ => pure _

theorem lookupToken (entries : List (Token × Value)) (absent : Option Recovery) :
    TameAt C M most fun _ => (Read.lookupToken entries absent : Read μ σ (Option Value)) := by
  apply peek.bind
  intro key
  split
  · apply noneLeft.bind
    intro ended
    split <;> exact pure _
  · cases absent with
    | none => exact pure none
    | some r => exact (note _).bind fun _ => recovery r

theorem ofExcept (result : Except Abort α) :
    TameAt C M most fun _ => (Read.ofExcept result : Read μ σ α) := by
  cases result with
  | ok a => exact pure a
  | error cause => exact throw (by simp)

theorem asValue {r : Nat → Read μ σ (Option Token)} (tame : TameAt C M most r) :
    TameAt C M most fun fuel => Read.asValue (r fuel) :=
  tame.map _

end TameAt

/-! ### Patterns at work on the memory -/

section Learning

variable {μ σ : Type} [Feed σ] {fuel : Nat} {policy : Policy} {root : Trie Token Value}
  {s t : Session μ σ} {w : Descent} {v : Value}

/-- There is nothing to learn where a value stands. -/
theorem Read.judgeValue_not_learns {u : Value} :
    (Read.judgeValue fuel policy root w u).perform s ≠ (.ok (.learn v), t) := by
  intro run
  unfold Read.judgeValue at run
  cases policy with
  | exact => cases run
  | lazy classify => cases run
  | greedy continues =>
      rw [Read.perform_bind_ok (Read.perform_peek s)] at run
      split at run
      · cases run
      · obtain ⟨taken, between, _, run⟩ := Read.exists_of_bind_ok run
        split at run <;> cases run

theorem Read.learns_of_judgeUnknown
    (run : (Read.judgeUnknown fuel policy root w).perform s = (.ok (.learn v), t)) :
    (∃ classify, policy = .lazy classify) ∧ w.path ≠ [] := by
  unfold Read.judgeUnknown at run
  cases policy with
  | exact => cases run
  | lazy classify =>
      dsimp only at run
      split at run
      · cases run
      · rename_i nonempty
        exact ⟨⟨classify, rfl⟩, by simpa using nonempty⟩
  | greedy continues =>
      dsimp only at run
      split at run
      all_goals
        obtain ⟨taken, between, _, run⟩ := Read.exists_of_bind_ok run
        split at run <;> cases run

/-- Only a policy that classifies has anything to learn, and only of words that are not empty. -/
theorem Read.learns_of_judge
    (run : (Read.judge fuel policy root).perform s = (.ok (w, .learn v), t)) :
    (∃ classify, policy = .lazy classify) ∧ w.path ≠ [] := by
  obtain ⟨⟨walked, reached⟩, between, _, run⟩ := Read.exists_of_bind_ok run
  dsimp only at run
  split at run
  · obtain ⟨verdict, after, judged, run⟩ := Read.exists_of_bind_ok run
    cases run
    exact absurd judged Read.judgeValue_not_learns
  · obtain ⟨verdict, after, judged, run⟩ := Read.exists_of_bind_ok run
    cases run
    exact Read.learns_of_judgeUnknown judged

end Learning

namespace TameAt

variable {σ : Type} [Feed σ] {C : Clock σ} {M : Memory → Prop} {most : Nat} {g : Grammar}

theorem readTrie {cell : Nat} {initial : Registry Token Value} {policy : Policy}
    (learns : ∀ {classify path v m}, policy = .lazy classify → path ≠ [] → M m →
      M (m.setTrie cell ((m.trieAt cell initial).insert path v))) :
    TameAt C M most fun fuel =>
      (Pattern.readTrie fuel cell initial policy : Read Memory σ (Option Value)) := by
  intro s going
  have first : Read.Settles (fun _ => (Read.trieAt cell initial : Read Memory σ _)) s
      fun registry t => registry = s.memory.trieAt cell initial ∧ t = s := .of_ok rfl ⟨rfl, rfl⟩
  apply first.bind
  intro registry t _ both
  obtain ⟨rfl, rfl⟩ := both
  apply (judge policy _ going).bind
  intro judged u runs kept
  obtain ⟨w, verdict⟩ := judged
  cases verdict with
  | notParsed => exact pure none kept
  | found v => exact pure _ kept
  | fresh v => exact pure _ kept
  | learn v =>
      obtain ⟨fuel, run⟩ := runs.exists
      have same : u.memory = t.memory := by
        have quiet := Read.quiet_judge fuel policy (t.memory.trieAt cell initial).trie t
        rwa [run] at quiet
      obtain ⟨⟨classify, lazily⟩, nonempty⟩ := Read.learns_of_judge run
      have learned := learns (v := v) lazily nonempty going.memory
      have last : Read.Settles (fun _ => (Read.memory : Read Memory σ Memory)) u
          fun m t => m = u.memory ∧ t = u := .of_ok rfl ⟨rfl, rfl⟩
      apply last.bind
      intro m t' _ both
      obtain ⟨rfl, rfl⟩ := both
      rw [same]
      exact (setMemory learned).bind (fun _ => pure (some v)) kept

theorem atDesk {α β : Type} {w : Nat → Write Memory α}
    {f : Nat → Except (Stop WriteFault) α → Read Memory σ β} (settles : Write.Settles M w)
    (second : ∀ a, TameAt C M most fun fuel => f fuel (.ok a)) :
    TameAt C M most fun fuel => Read.atDesk (w fuel) >>= f fuel := by
  intro s going
  obtain ⟨a, e, runs, after⟩ := settles (d := ⟨s.memory, s.journal⟩) going.memory
  have first : Read.Settles (fun fuel => (Read.atDesk (w fuel) : Read Memory σ _)) s
      fun result t => result = .ok a ∧ Going C M most t := by
    refine ⟨.ok (.ok a), ⟨s.feed, e.memory, e.journal⟩, runs.mono fun fuel run => ?_, by simp, ?_⟩
    · exact Read.perform_atDesk rfl run
    · intro result same
      cases same
      exact ⟨rfl, going.runs, going.within, after⟩
  apply first.bind
  intro result t _ both
  obtain ⟨rfl, kept⟩ := both
  exact second a kept

theorem supply {cell : Nat} (allowed : ∀ {m}, M m → M (m.supply cell)) :
    TameAt C M most fun _ => (Read.supply cell : Read Memory σ Unit) :=
  atDesk (.supply allowed) fun _ => pure ()

theorem rescueJoin {sep : Pattern} (settles : Write.Settles M fun fuel => sep.describe fuel [])
    (rescue : Option JoinRescue) (items : List Value) :
    TameAt C M most fun fuel =>
      (Pattern.rescueJoin fuel sep rescue items : Read Memory σ (Option Value)) := by
  unfold Pattern.rescueJoin
  split
  · exact pure _
  · exact recovery _
  · exact (atDesk settles fun text => pure text).bind fun _ => (report _).bind fun _ => pure none

theorem rescueChain (rescue : Option ChainRescue) (lhs : Value) (op : Operator Value) :
    TameAt C M most fun _ => (Pattern.rescueChain rescue lhs op : Read Memory σ (Option Value)) := by
  unfold Pattern.rescueChain
  cases rescue with
  | none => exact (report _).bind fun _ => pure none
  | some how =>
      apply (note _).bind
      intro _
      cases how with
      | keepLeft => exact pure _
      | recover r => exact recovery r

theorem rescueLayout (base : Nat) (rescue : Option Recovery) :
    TameAt C M most fun _ => (Pattern.rescueLayout base rescue : Read Memory σ (Option Nat)) := by
  unfold Pattern.rescueLayout
  cases rescue with
  | some r => exact (recovery r).map _
  | none =>
      apply atEnd.bind
      intro ended
      split
      · exact pure _
      · exact (report _).bind fun _ => pure none

theorem noting {r : Nat → Read Memory σ (Option Value)} (tame : TameAt C M most r) (noted : Bool)
    (note : Value → Note) : TameAt C M most fun fuel => Pattern.noting noted note (r fuel) := by
  apply tame.bind
  intro result
  cases result with
  | none => exact (pure ()).bind fun _ => pure _
  | some v =>
      dsimp only
      split
      · exact (TameAt.note _).bind fun _ => pure _
      · exact pure _

theorem readBracket {q : Option Pattern}
    (tame : ∀ p, q = some p → TameAt C M most fun fuel =>
      (p.read fuel : Read Memory σ (Option Value))) :
    TameAt C M most fun fuel => (Pattern.readBracket fuel q : Read Memory σ Bool) := by
  cases q with
  | none => exact pure true
  | some q => exact (tame q rfl).map _

end TameAt

/-! ### Patterns -/

namespace Pattern

variable {g : Grammar}

section Agreement

open Likeness

variable {σ ρ : Type} [Feed σ] [Feed ρ] {L : Likeness σ ρ}

theorem joinAfter_agree (fuel : Nat) (sep item : Pattern) (rescue : Option JoinRescue)
    (noted : Bool) (items seps : List Value) (s : Value) :
    L.Agree (joinAfter fuel sep item rescue noted items seps s : Read Memory σ _)
      (joinAfter fuel sep item rescue noted items seps s) := by
  refine .bind (.noting (item.read_agree fuel) noted fun _ => rfl) fun read => ?_
  cases read with
  | some a => exact .pure _
  | none =>
      dsimp only
      split
      · exact .pure _
      · exact .map _ (.rescueJoin fuel sep rescue items)

theorem joinRound_agree (fuel : Nat) (sep item : Pattern) (rescue : Option JoinRescue) (noted : Bool)
    (items seps : List Value) :
    L.Agree (joinRound fuel sep item rescue noted items seps : Read Memory σ _)
      (joinRound fuel sep item rescue noted items seps) := by
  refine .bind (.noting (sep.read_agree fuel) noted fun _ => rfl) fun mark => ?_
  cases mark with
  | none => exact .pure _
  | some s => exact joinAfter_agree fuel sep item rescue noted items seps s

theorem readBracket_agree (fuel : Nat) (q : Option Pattern) :
    L.Agree (readBracket fuel q : Read Memory σ Bool) (readBracket fuel q) :=
  .bracket (fun q => q.read_agree fuel) q

theorem chainRound_agree (fuel : Nat) (operand : Pattern)
    (operators : Registry Token (Operator Value)) (padding : Option Pattern)
    (rescue : Option ChainRescue) (lhs : Value) :
    L.Agree (chainRound fuel operand operators padding rescue lhs : Read Memory σ _)
      (chainRound fuel operand operators padding rescue lhs) := by
  have pad := readBracket_agree (L := L) fuel padding
  refine .bind (.surround pad pad (.lookup operators.trie)) fun current => ?_
  cases current with
  | none => exact .pure none
  | some op =>
      refine .bind (operand.read_agree fuel) fun read => ?_
      cases read with
      | none => exact .rescueChain rescue lhs op
      | some rhs => exact .pure _

end Agreement

/-! ### Patterns of several parts -/

/-- The pattern reads tamely from every feed with a clock. -/
def Tamed (M : Memory → Prop) (p : Pattern) : Prop :=
  ∀ ⦃σ : Type⦄ [Feed σ] (C : Clock σ) (most : Nat),
    TameAt C M most fun fuel => (p.read fuel : Read Memory σ (Option Value))

section Tamed

variable {M : Memory → Prop} {σ : Type} [Feed σ]

theorem Advances.steps {p : Pattern} (advances : p.Advances M) (tamed : p.Tamed M) (C : Clock σ) :
    Steps C M fun fuel => (p.read fuel : Read Memory σ (Option Value)) :=
  Read.Advances.at advances (fun C => tamed C) (fun fuel => p.read_agree fuel) C

theorem tameAt_joined {sep item : Pattern} {rescue : Option JoinRescue} {noted : Bool}
    (seps : sep.Tamed M) (items : item.Tamed M)
    (described : Write.Settles M fun fuel => sep.describe fuel [])
    (progress : (joined sep item rescue noted).Progresses M) (C : Clock σ) (most : Nat) :
    TameAt C M most fun fuel =>
      ((joined sep item rescue noted).read (fuel + 1) : Read Memory σ (Option Value)) := by
  have rounds : JoinSteps C M (fun fuel => noting noted .separator (sep.read fuel))
      (fun fuel => noting noted .item (item.read fuel)) sep.isTrailing
      fun fuel items _ => rescueJoin fuel sep rescue items := by
    intro as bs
    apply Read.Advances.at (progress as bs)
    · intro σ _ C most
      exact .joinRound ((seps C most).noting noted _) ((items C most).noting noted _)
        (fun as _ => .rescueJoin described rescue as) as bs
    · exact fun fuel => joinRound_agree fuel sep item rescue noted as bs
  exact (TameAt.joined ((items C most).noting noted _) rounds).map _

theorem tameAt_chain {operand : Pattern} {operators : Registry Token (Operator Value)}
    {padding : Option Pattern} {rescue : Option ChainRescue} (operands : operand.Tamed M)
    (pads : ∀ q, padding = some q → q.Tamed M)
    (progress : (chain operand operators padding rescue).Progresses M) (C : Clock σ) (most : Nat) :
    TameAt C M most fun fuel =>
      ((chain operand operators padding rescue).read (fuel + 1) : Read Memory σ (Option Value)) := by
  have operator : ∀ {σ : Type} [Feed σ] (C : Clock σ), Tame C M fun fuel =>
      (readOperator fuel operators padding : Read Memory σ (Option (Operator Value))) := by
    intro σ _ C most
    have pad : TameAt C M most fun fuel => (readBracket fuel padding : Read Memory σ Bool) :=
      .readBracket fun q made => pads q made C most
    exact .surround pad pad (.lookup operators.trie)
  have rounds : ChainSteps C M
      (fun fuel => (readOperator fuel operators padding : Read Memory σ (Option (Operator Value))))
      fun fuel => Read.chainOperand (operand.read fuel) (rescueChain rescue) := by
    refine ⟨operator C, fun lhs => ?_⟩
    apply Read.Advances.at (progress lhs)
    · intro σ _ C most
      apply (operator C most).bind
      intro current
      cases current with
      | none => exact .pure none
      | some op =>
          apply (operands C most).bind
          intro read
          cases read with
          | none => exact .rescueChain rescue lhs op
          | some rhs => exact .pure _
    · exact fun fuel => chainRound_agree fuel operand operators padding rescue lhs
  exact .chain (operands C most) rounds

theorem blockItem_of_ne {p : Pattern} (own : ∀ cells item, p ≠ .renewed cells item) :
    p.blockItem = p := by
  cases p with
  | renewed cells item => exact absurd rfl (own cells item)
  | _ => rfl

theorem blockItem_cases (p : Pattern) : p.blockItem = p ∨ p.HasPart p.blockItem := by
  cases p with
  | renewed cells item => exact .inr rfl
  | _ => exact .inl rfl

theorem tameAt_outline {item tail layout : Pattern} {base step : Nat} {rescue : Option Recovery}
    {block : Option (Value → Value → Option Pattern)} (items : item.Tamed M) (tails : tail.Tamed M)
    (layouts : layout.Tamed M)
    (blocks : ∀ choose head rest own, block = some choose → choose head rest = some own →
      own.blockItem.Tamed M)
    (entering : ∀ choose head rest cells own, block = some choose →
      choose head rest = some (.renewed cells own) → ∀ {m}, M m → M (m.forget cells))
    (leaving : ∀ choose head rest cells own, block = some choose →
      choose head rest = some (.renewed cells own) → ∀ {m n}, M m → M n → M (.restore cells m n))
    (progress : (outline item tail layout base step rescue block).Progresses M) (C : Clock σ)
    (most : Nat) :
    TameAt C M most fun fuel => ((outline item tail layout base step rescue block).read (fuel + 1) :
      Read Memory σ (Option Value)) := by
  obtain ⟨advances, chosenAdvance⟩ := progress
  refine .map _ (.outline ?_ (advances.steps items C) base)
  refine ⟨tails C, fun most => ?_, fun head rest most body inside => ?_, Value.quoted, fun _ => rfl⟩
  · apply (layouts C most).bind
    intro indent
    cases indent with
    | none => exact .rescueLayout base rescue
    | some n => exact .pure _
  · cases block with
    | none => exact inside (advances.steps items C)
    | some choose =>
        have own : ∀ own, choose head rest = some own → Steps C M fun fuel =>
            (own.blockItem.read fuel : Read Memory σ (Option Value)) := fun own chosen =>
          (chosenAdvance choose head rest own rfl chosen).steps
            (blocks choose head rest own rfl chosen) C
        apply (TameAt.note _).bind
        intro _
        dsimp only
        split
        · rename_i cells item chosen
          exact .scoping (entering choose head rest cells item rfl chosen)
            (leaving choose head rest cells item rfl chosen) (inside (own _ chosen))
        · rename_i item once chosen
          have same : item.blockItem = item := blockItem_of_ne fun cells p eq => once cells p eq
          have steps := own item chosen
          rw [same] at steps
          exact inside steps
        · exact inside (advances.steps items C)

end Tamed

/-- Every part of a grammar reads tamely. -/
theorem read_tame (acyclic : g.Acyclic) (progress : g.Progresses) {p : Pattern} (part : g.Part p) :
    p.Tamed g.Reached := by
  intro σ _ C most
  -- the items of a block may be a part of a part, so what is assumed goes down more than one step
  induction (part.acc acyclic).transGen generalizing σ most with
  | intro p _ ih =>
      have inner : ∀ q, p.HasPart q → q.Tamed g.Reached :=
        fun q made _ _ C most => ih q (.single (.inl made)) (part.leads (.inl made)) C most
      have here : p.Progresses g.Reached := progress p part
      apply TameAt.of_succ
      cases p with
      | satisfy c => exact .asValue (.condition c)
      | insist c message =>
          exact .asValue (.insist (.map message .peek) fun _ => .condition c)
      | always v => exact .pure _
      | never => exact .pure _
      | stickyEnd item value otherwise =>
          exact .stickyEnd (inner item rfl _ 1) (.runOption otherwise) value
      | peek item => exact .peeking (inner item rfl _ 1)
      | lookup entries absent => exact .lookupToken entries absent
      | tuple parts => exact .map _ (.sequence fun q made => inner q made C most)
      | sequence parts => exact .map _ (.sequence fun q made => inner q made C most)
      | upTo ending folding item =>
          exact .map _ (.upTo (fun _ => inner ending (.inl rfl) _ 1)
            (Advances.steps here (inner item (.inr rfl)) C) _ _)
      | repeated folding item bounds skippable =>
          exact .map _ (.repeated (Advances.steps here (inner item rfl) C) _ _ bounds)
      | choice cases => exact .map _ (.choice (fun q made => inner q made C most) 0)
      | convert item conversion =>
          apply (inner item rfl C most).bind
          intro read
          cases read with
          | none => exact .pure none
          | some v => exact .map _ (.ofExcept _)
      | contextual head body =>
          apply (inner head (.inl rfl) C most).bind
          intro read
          cases read with
          | none => exact .pure none
          | some context => exact .map _ (inner (body context) (.inr ⟨context, rfl⟩) C most)
      | ref name =>
          refine .memory_bind fun m reached => ?_
          rw [reached.definition?]
          cases defined : g.memory.definition? name with
          | none => exact .fault _
          | some target =>
              have leads : g.Leads (.ref name) target := .inr ⟨name, rfl, defined⟩
              exact ih target (.single leads) (part.leads leads) C most
      | lazy cell item => exact (TameAt.supply (.supply part)).bind fun _ => inner item rfl C most
      | renewed cells item => exact (inner item rfl C most).scoping (.forget part) (.restore part)
      | piped item pipe => exact (inner item rfl C most).bind fun result => .pipe pipe result
      | alsoDo item effect =>
          apply (inner item rfl C most).bind
          intro read
          cases read with
          | none => exact .pure none
          | some v => exact (TameAt.effect effect v).bind fun _ => .pure _
      | optional item value => exact (inner item rfl C most).map _
      | constant item value => exact inner item rfl C most
      | writtenBy item write => exact inner item rfl C most
      | named item name => exact inner item rfl C most
      | settle item skip value message =>
          exact .settle (.map message .peek) (fun most => inner skip (.inr rfl) _ most)
            (inner item (.inl rfl) C most) value
      | surround left right item =>
          exact .surround (.readBracket fun q made => inner q (.inl made) C most)
            (.readBracket fun q made => inner q (.inr (.inl made)) C most)
            (inner item (.inr (.inr rfl)) C most)
      | joined sep item rescue noted =>
          have described := describe_settles acyclic (part.leads (.inl (.inl rfl))) []
          exact tameAt_joined (inner sep (.inl rfl)) (inner item (.inr rfl)) described here C most
      | chain operand operators padding rescue =>
          exact tameAt_chain (inner operand (.inl rfl)) (fun q made => inner q (.inr made)) here C
            most
      | outline item tail layout base step rescue block =>
          have chosen : ∀ {choose head rest own}, block = some choose →
              choose head rest = some own →
              g.Leads (outline item tail layout base step rescue block) own :=
            fun opens made => .inl (.inr (.inr (.inr ⟨_, _, _, opens, made⟩)))
          refine tameAt_outline (inner item (.inl rfl)) (inner tail (.inr (.inl rfl)))
            (inner layout (.inr (.inr (.inl rfl)))) ?_ ?_ ?_ here C most
          · intro choose head rest own opens made
            have leads := chosen opens made
            rcases own.blockItem_cases with same | made
            · rw [same]
              exact fun _ _ C most => ih own (.single leads) (part.leads leads) C most
            · have further : g.Leads own own.blockItem := .inl made
              exact fun _ _ C most => ih own.blockItem (.tail (.single further) leads)
                ((part.leads leads).leads further) C most
          · intro choose head rest cells own opens made
            exact .forget (part.leads (chosen opens made))
          · intro choose head rest cells own opens made
            exact .restore (part.leads (chosen opens made))
      | trie cell initial policy =>
          refine .readTrie fun lazily nonempty reached => ?_
          subst lazily
          exact .learn part nonempty reached
      | dictionary cell initial => exact .readTrie (by simp)
      | matched item regex make unmake =>
          apply (inner item rfl C most).bind
          intro read
          split <;> exact .pure _
      | openBracket pair => exact .asValue (.openBracket pair)
      | closeBracket pair => exact .asValue (.closeBracket pair)

end Pattern

/-! ### Whole reads -/

namespace Feed

variable {σ : Type} [Feed σ]

/-- An input is finite if the feed it dresses is, whatever it does with errors. -/
theorem IsFinite.input {s : Input σ} (finite : IsFinite s.feed) : IsFinite s := by
  obtain ⟨C, running⟩ := finite
  exact ⟨C.input, running⟩

/-- The feeds that hold tokens are finite. -/
theorem isFinite_sources :
    (∀ s : Slice, IsFinite s) ∧ (∀ s : Pulled, IsFinite s) ∧ (∀ s : Single, IsFinite s) ∧
      ∀ s : Characters, IsFinite s :=
  ⟨fun _ => ⟨.ofLawful (fun _ _ => rfl) fun _ _ => rfl, trivial⟩,
    fun _ => ⟨.ofLawful (fun _ _ => rfl) fun _ _ => rfl, trivial⟩,
    fun _ => ⟨.single, trivial⟩,
    fun _ => ⟨.ofLawful (fun _ _ => rfl) fun _ _ => rfl, trivial⟩⟩

end Feed

namespace Grammar

/-- Reading from the feed comes to an end: from some amount of fuel on there is one and the same
    answer, and it is not that the fuel was used up. -/
def Terminates {σ : Type} [Feed σ] (g : Grammar) (feed : σ) : Prop :=
  ∃ answer : ReadAnswer σ (Option Value), answer.result ≠ .error (.halt .exhausted) ∧
    Granted fun fuel => { g with fuel := fuel }.readFrom feed = answer

theorem terminates_of_isFinite {g : Grammar} (acyclic : g.Acyclic) (progress : g.Progresses)
    {σ : Type} [Feed σ] {feed : σ} (finite : Feed.IsFinite feed) : g.Terminates feed := by
  obtain ⟨C, running⟩ := finite
  have going : Going C g.Reached (C.left feed) { feed := feed, memory := g.memory } :=
    ⟨running, Nat.le_refl _, .start⟩
  obtain ⟨result, t, runs, fine, _⟩ := Pattern.read_tame acyclic progress .refl C _ going
  refine ⟨⟨⟨result, t.memory, t.journal.toList⟩, t.feed⟩, fine, runs.mono fun fuel run => ?_⟩
  change ReadAnswer.mk ⟨((g.pattern.read fuel).perform { feed := feed, memory := g.memory }).1,
    ((g.pattern.read fuel).perform { feed := feed, memory := g.memory }).2.memory,
    ((g.pattern.read fuel).perform { feed := feed, memory := g.memory }).2.journal.toList⟩
    ((g.pattern.read fuel).perform { feed := feed, memory := g.memory }).2.feed = _
  rw [run]

/-- Reading comes to an end on every finite feed, and on every input that dresses one, whether it
    raises errors or keeps them. -/
theorem read_terminates {g : Grammar} (acyclic : g.Acyclic) (progress : g.Progresses) {σ : Type}
    [Feed σ] {feed : σ} (finite : Feed.IsFinite feed) :
    g.Terminates feed ∧ ∀ input : Input σ, input.feed = feed → g.Terminates input := by
  refine ⟨terminates_of_isFinite acyclic progress finite, ?_⟩
  rintro input rfl
  exact terminates_of_isFinite acyclic progress finite.input

end Grammar

/-! ### A grammar that makes progress -/

/-- A counted read that gives a value has given it on the feed alone, and taken as many tokens as it
    tells. -/
theorem Read.exists_of_counting_ok {μ σ α : Type} {r : Read μ (Counted σ) α} {s after : Session μ σ}
    {a : α} {taken : Nat} (run : (Read.counting r).perform s = (.ok (a, taken), after)) :
    ∃ t, r.perform { s with feed := Counted.of s.feed } = (.ok a, t) ∧ t.feed.consumed = taken := by
  rw [Read.perform_counting] at run
  rcases outcome : r.perform { s with feed := Counted.of s.feed } with ⟨stop | b, t⟩
  · rw [outcome] at run
    cases run
  · rw [outcome] at run
    cases run
    exact ⟨t, rfl, rfl⟩

namespace Pattern

theorem advances_satisfy (M : Memory → Prop) (c : Condition) : (satisfy c).Advances M := by
  intro σ _ s fuel _ _ read taken after counted reads
  obtain ⟨t, run, rfl⟩ := Read.exists_of_counting_ok counted
  cases fuel with
  | zero => cases run
  | succ fuel =>
      obtain ⟨token, between, run, last⟩ := Read.exists_of_bind_ok run
      cases last
      rw [Condition.read, Read.perform_consumeIf] at run
      split at run
      · have shown := Read.token_of_consume_ok run
        have taken : (Feed.consume s.feed).token = token := shown
        rw [Read.perform_consume] at run
        obtain ⟨_, rfl⟩ := Prod.mk.inj run
        change 0 < if (Feed.consume s.feed).token.isSome then 0 + 1 else 0
        rw [Option.isSome_map] at reads
        rw [taken, if_pos reads]
        exact Nat.one_pos
      · cases run
        simp at reads

theorem advances_ref {g : Grammar} {name : String} {target : Pattern}
    (defined : g.memory.definition? name = some target) (advances : target.Advances g.Reached) :
    (ref name).Advances g.Reached := by
  intro σ _ s fuel finite reached read taken after counted reads
  cases fuel with
  | zero =>
      obtain ⟨t, run, _⟩ := Read.exists_of_counting_ok counted
      cases run
  | succ fuel =>
      have same : ((ref name).read (fuel + 1) : Read Memory (Counted σ) _).perform
          { s with feed := Counted.of s.feed } =
          (target.read fuel).perform { s with feed := Counted.of s.feed } := by
        change (Read.memory >>= _ : Read Memory (Counted σ) _).perform _ = _
        rw [Read.perform_bind_ok (Read.perform_memory _)]
        dsimp only
        rw [reached.definition?, defined]
      apply advances s fuel finite reached _ reads
      · exact after
      · rw [Read.perform_counting, ← same, ← Read.perform_counting]
        exact counted

/-- Noting a value leaves the feed alone. -/
theorem performed_noting {σ : Type} {r : Read Memory σ (Option Value)} {noted : Bool}
    {note : Value → Note} {s t : Session Memory σ} {v : Value}
    (run : (noting noted note r).perform s = (.ok (some v), t)) :
    ∃ u, r.perform s = (.ok (some v), u) ∧ t.feed = u.feed := by
  obtain ⟨read, u, first, rest⟩ := Read.exists_of_bind_ok run
  cases read with
  | none => cases rest
  | some w =>
      cases noted with
      | false =>
          cases rest
          exact ⟨_, first, rfl⟩
      | true =>
          cases rest
          exact ⟨_, first, rfl⟩

/-- A token that was counted stays counted. -/
theorem counted_invariant {σ : Type} [Feed σ] :
    Feed.Invariant fun (s : Counted σ) _ => 0 < s.consumed where
  consume {s j} counted := by
    change 0 < if (Feed.consume s.parent).token.isSome then s.consumed + 1 else s.consumed
    split
    · exact Nat.succ_pos _
    · exact counted
  report _ counted := counted
  setState _ counted := counted
  note _ counted := counted

/-- A join makes progress if its separator takes a token, also where an item is supplied. -/
theorem progresses_joined {M : Memory → Prop} {sep : Pattern} (advances : sep.Advances M)
    (item : Pattern) (rescue : Option JoinRescue) (noted : Bool) :
    (joined sep item rescue noted).Progresses M := by
  intro items seps σ _ s fuel finite memory round taken after counted goes
  obtain ⟨t, run, rfl⟩ := Read.exists_of_counting_ok counted
  obtain ⟨mark, between, first, rest⟩ := Read.exists_of_bind_ok run
  cases mark with
  | none =>
      cases rest
      simp at goes
  | some mark =>
      have before : 0 < between.feed.consumed := by
        obtain ⟨u, read, behind⟩ := performed_noting first
        have alone : (Read.counting (sep.read fuel)).perform s =
            (.ok (some mark, u.feed.consumed), { u with feed := u.feed.parent }) := by
          rw [Read.perform_counting, read]
          rfl
        rw [behind]
        exact advances s fuel finite memory alone rfl
      have kept := (joinAfter_agree (L := Likeness.ofInvariant counted_invariant) fuel sep item rescue
        noted items seps mark).keeps before
      have same : (joinAfter fuel sep item rescue noted items seps mark).perform between =
        (.ok round, t) := rest
      rw [same] at kept
      exact kept

end Pattern

namespace Grammar

/-- What is no comma. -/
def listed : Pattern :=
  .satisfy (.negate (.equal (.char ',')))

/-- Words between commas, where the last word stands for one that is missing. -/
def wordList : Pattern :=
  .joined (.satisfy (.equal (.char ','))) (.repeated { fold := .list } (.ref "listed") .some false)
    (some .last) false

/-- An end that never comes; what is skipped instead of it is read without taking anything. -/
def noEnd : Pattern :=
  .settle .never (.always (.bool true)) (.bool false) fun _ => "expecting an end"

/-- A list of words and its end. -/
def listing : Grammar where
  pattern := .tuple [wordList, noEnd]
  memory := { Memory.empty with definitions := [("listed", listed)] }
  fuel := 0

theorem definition?_listing {name : String} {target : Pattern}
    (defined : listing.memory.definition? name = some target) : target = listed := by
  change List.lookup name [("listed", listed)] = some target at defined
  rw [List.lookup_cons] at defined
  split at defined
  · cases defined
    rfl
  · cases defined

theorem acyclic_listing : listing.Acyclic := by
  intro name target _ defined back
  obtain rfl := definition?_listing defined
  rcases back.cases_head with same | ⟨_, made | ⟨_, same, _⟩, _⟩
  · cases same
  · exact made
  · cases same

theorem part_listing {p : Pattern} (part : listing.Part p) :
    p = listing.pattern ∨ p = wordList ∨ p = .satisfy (.equal (.char ',')) ∨
      p = .repeated { fold := .list } (.ref "listed") .some false ∨ p = .ref "listed" ∨
      p = listed ∨ p = noEnd ∨ p = .never ∨ p = .always (.bool true) := by
  induction part with
  | refl => exact .inl rfl
  | tail _ leads known =>
      rcases leads with made | ⟨name, rfl, defined⟩
      · rcases known with rfl | rfl | rfl | rfl | rfl | rfl | rfl | rfl | rfl
        · have either : _ ∈ [wordList, noEnd] := made
          simp only [List.mem_cons, List.not_mem_nil, or_false] at either
          rcases either with rfl | rfl <;> simp
        · rcases made with rfl | rfl <;> simp
        · exact made.elim
        · cases made
          simp
        · exact made.elim
        · exact made.elim
        · rcases made with rfl | rfl <;> simp
        · exact made.elim
        · exact made.elim
      · obtain rfl := definition?_listing defined
        simp

theorem progresses_listing : listing.Progresses := by
  intro p part
  rcases part_listing part with rfl | rfl | rfl | rfl | rfl | rfl | rfl | rfl | rfl
  · trivial
  · exact Pattern.progresses_joined (Pattern.advances_satisfy _ _) _ _ _
  · trivial
  · exact Pattern.advances_ref rfl (Pattern.advances_satisfy _ _)
  · trivial
  · trivial
  · trivial
  · trivial
  · trivial

/-- The words `a,`: the comma at the end is shown for good, a word is supplied behind it, and the
    skipping could go on reading without taking anything.  Reading comes to an end all the same, also
    where errors are kept. -/
theorem read_terminates_listing :
    listing.Acyclic ∧ listing.Progresses ∧
      listing.Terminates (Input.ofFeed (Pulled.mk [.char ','] (.char 'a') false) none).collecting :=
  ⟨acyclic_listing, progresses_listing,
    (read_terminates acyclic_listing progresses_listing
      (Feed.isFinite_sources.2.1 ⟨[.char ','], .char 'a', false⟩)).2 _ rfl⟩

end Grammar

end Duplex
