/-
Module: Duplex.Proofs.Termination.Combinator
Purpose: Every combinator is tame if the readers it is made of are, and if those it repeats leave
  less on the clock each time.  Loops go by induction on what is left on the clock; the walk down a
  trie goes by the size of the trie, since a feed at its end keeps showing its last token.
Main exports: Steps, TameAt.repeated, TameAt.upTo, TameAt.insist, TameAt.settle,
  TameAt.joined, TameAt.chain, TameAt.outline, TameAt.judge
-/
import Duplex.Proofs.Precedence
import Duplex.Proofs.Termination.Basic

namespace Duplex

/-! ### Rounds of the loops that read two things by turns -/

namespace Read

variable {μ σ α β : Type}

/-- What comes after the separator `s` in a round of joining: an item, or one that `rescue` supplies.
    It gives `some none` where the list ends, and none where the separator is left without an
    item. -/
def joinAfter (item : Read μ σ (Option α)) (trailing : β → Bool)
    (rescue : List α → List β → Read μ σ (Option α)) (items : List α) (seps : List β) (s : β) :
    Read μ σ (Option (Option (α × β))) := do
  match ← item with
  | some a => return some (some (a, s))
  | none =>
      if trailing s then return some none
      else return (← rescue items (s :: seps)).map fun a => some (a, s)

/-- One round of joining behind `items` and `seps`: a separator and what comes after it.  Without a
    separator the list ends. -/
def joinRound (sep : Read μ σ (Option β)) (item : Read μ σ (Option α)) (trailing : β → Bool)
    (rescue : List α → List β → Read μ σ (Option α)) (items : List α) (seps : List β) :
    Read μ σ (Option (Option (α × β))) := do
  match ← sep with
  | none => return some none
  | some s => joinAfter item trailing rescue items seps s

theorem joinLoop_succ (sep : Read μ σ (Option β)) (item : Read μ σ (Option α))
    (trailing : β → Bool) (rescue : List α → List β → Read μ σ (Option α)) (fuel : Nat)
    (items : List α) (seps : List β) :
    joinLoop sep item trailing rescue (fuel + 1) items seps = (do
      match ← joinRound sep item trailing rescue items seps with
      | none => return none
      | some none => return some (items.reverse, seps.reverse)
      | some (some (a, s)) => joinLoop sep item trailing rescue fuel (a :: items) (s :: seps)) := by
  rw [joinLoop, joinRound, bind_assoc]
  congr 1
  funext mark
  cases mark with
  | none => rfl
  | some s =>
      dsimp only
      rw [joinAfter, bind_assoc]
      congr 1
      funext read
      cases read with
      | some a => rfl
      | none =>
          dsimp only
          split
          · rfl
          · rw [bind_assoc]
            congr 1
            funext rescued
            cases rescued <;> rfl

/-- The operand after an operator, or the one that `rescue` supplies for it. -/
def chainOperand (operand : Read μ σ (Option α)) (rescue : α → Operator α → Read μ σ (Option α))
    (lhs : α) (op : Operator α) : Read μ σ (Option α) := do
  match ← operand with
  | some rhs => return some rhs
  | none => rescue lhs op

/-- One round of a chain behind `lhs`: an operator and the operand after it, which may be one that is
    supplied for it. -/
def chainRound (operator : Read μ σ (Option (Operator α)))
    (operand : α → Operator α → Read μ σ (Option α)) (lhs : α) : Read μ σ (Option α) := do
  match ← operator with
  | none => return none
  | some op => operand lhs op

end Read

/-! ### Tame readers -/

variable {μ σ α β τ : Type} [Feed σ] {C : Clock σ} {M : μ → Prop} {most : Nat}

/-- Tame, however much is left on the clock. -/
def Tame (C : Clock σ) (M : μ → Prop) (r : Nat → Read μ σ α) : Prop :=
  ∀ most, TameAt C M most r

/-- A tame reader that leaves less on the clock each time it reads. -/
def Steps (C : Clock σ) (M : μ → Prop) (r : Nat → Read μ σ (Option α)) : Prop :=
  ∀ most, AdvancesAt C M most (fun a => a.isSome) r

theorem Tame.shift {r : Nat → Read μ σ α} (tame : Tame C M r) : Tame C M fun fuel => r (fuel + 1) :=
  fun most => (tame most).shift

theorem Steps.shift {r : Nat → Read μ σ (Option α)} (steps : Steps C M r) :
    Steps C M fun fuel => r (fuel + 1) :=
  fun most => (steps most).shift

namespace TameAt

/-! ### Single tokens -/

theorem consume : TameAt C M most fun _ => (Read.consume : Read μ σ (Option Token)) :=
  AdvancesAt.consume.tame

theorem consumeOrFault : TameAt C M most fun _ => (Read.consumeOrFault : Read μ σ Token) := by
  apply consume.bind
  intro taken
  cases taken with
  | none => exact fault _
  | some t => exact pure t

theorem noneLeft : TameAt C M most fun _ => (Read.noneLeft : Read μ σ Bool) :=
  consume.map Option.isNone

/-- A report made under a condition, before going on either way. -/
theorem reportIf {c : Prop} [Decidable c] {message : Nat → String} {text : String}
    {f : Nat → Unit → Read μ σ α} (same : ∀ fuel, message fuel = text)
    (tame : ∀ u, TameAt C M most fun fuel => f fuel u) :
    TameAt C M most fun fuel => if c then Read.report (message fuel) >>= f fuel else f fuel () := by
  simp only [same]
  split
  · exact (report text).bind tame
  · exact tame ()

end TameAt

theorem AdvancesAt.consumeIf (test : Token → Bool) :
    AdvancesAt C M most (fun t => t.isSome)
      fun _ => (Read.consumeIf test : Read μ σ (Option Token)) := by
  intro s going
  have first : Read.Settles (fun _ => (Read.peek : Read μ σ Token)) s fun _ t => Going C M most t :=
    TameAt.peek going
  apply first.bind
  intro t _ _ kept
  split
  · exact AdvancesAt.consume kept
  · exact .pure ⟨kept, by simp⟩

namespace TameAt

theorem consumeIf (test : Token → Bool) :
    TameAt C M most fun _ => (Read.consumeIf test : Read μ σ (Option Token)) :=
  (AdvancesAt.consumeIf test).tame

theorem takeWhile (test : Token → Bool) :
    TameAt C M most fun fuel => (Read.takeWhile fuel test : Read μ σ (List Token)) := by
  induction most using Nat.strongRecOn with
  | ind most ih =>
      refine of_succ ((AdvancesAt.consumeIf test).bind_option ?_ ?_)
      · exact pure []
      · intro t fewer lt
        exact (ih fewer lt).map (t :: ·)

/-! ### Sequences, choices and repetition -/

theorem sequence {γ : Type} {f : Nat → γ → Read μ σ (Option α)} {parts : List γ}
    (each : ∀ p ∈ parts, TameAt C M most fun fuel => f fuel p) :
    TameAt C M most fun fuel => Read.sequence (parts.map (f fuel)) := by
  induction parts with
  | nil => exact pure _
  | cons p rest ih =>
      apply (each p List.mem_cons_self).bind
      intro first
      cases first with
      | none => exact pure none
      | some a =>
          apply (ih fun q hq => each q (List.mem_cons_of_mem p hq)).bind
          intro others
          cases others with
          | none => exact pure none
          | some as => exact pure _

theorem choice {γ : Type} {f : Nat → γ → Read μ σ (Option α)} {cases : List γ}
    (each : ∀ p ∈ cases, TameAt C M most fun fuel => f fuel p) (index : Nat) :
    TameAt C M most fun fuel => Read.choice index (cases.map (f fuel)) := by
  induction cases generalizing index with
  | nil => exact pure _
  | cons p rest ih =>
      apply (each p List.mem_cons_self).bind
      intro first
      cases first with
      | none => exact ih (fun q hq => each q (List.mem_cons_of_mem p hq)) _
      | some a => exact pure _

theorem gather (accept : τ → α → Except FoldStop τ) (sofar : τ) (a : α) :
    TameAt C M most fun _ => (Read.gather accept sofar a : Read μ σ (Option τ)) := by
  unfold Read.gather
  cases accept sofar a with
  | ok next => exact pure _
  | error stop =>
      cases stop with
      | refused refusal => exact (report _).bind fun _ => pure none
      | abort cause => exact throw nofun

-- Every turn leaves its loop one unit of fuel less, but not the readers inside it, so the loops are
-- stated of all readers at once: behind a turn the readers are the same ones, with one unit more.

theorem repeatLoop {item : Nat → Read μ σ (Option α)} (steps : Steps C M item)
    (accept : τ → α → Except FoldStop τ) (limit count : Nat) (sofar : τ) :
    TameAt C M most fun fuel => Read.repeatLoop accept (item fuel) limit fuel count sofar := by
  induction most using Nat.strongRecOn generalizing item count sofar with
  | ind most ih =>
      apply of_succ
      unfold Read.repeatLoop
      split
      · refine (steps.shift most).bind_option ?_ ?_
        · exact pure _
        · intro a fewer lt
          apply (gather accept sofar a).bind
          intro gathered
          cases gathered with
          | none => exact pure none
          | some next => exact ih fewer lt steps.shift _ next
      · exact pure _

theorem repeated {item : Nat → Read μ σ (Option α)} (steps : Steps C M item)
    (accept : τ → α → Except FoldStop τ) (start : τ) (bounds : Bounds) :
    TameAt C M most fun fuel => Read.repeated fuel accept start bounds (item fuel) := by
  apply (repeatLoop steps accept _ _ _).bind
  intro result
  cases result with
  | none => exact pure none
  | some counted => exact pure _

theorem upTo {ending : Nat → Read μ (Lookahead σ) (Option β)} {item : Nat → Read μ σ (Option α)}
    (looks : ∀ most, TameAt (C.lookahead most) M 1 ending) (steps : Steps C M item)
    (accept : τ → α → Except FoldStop τ) (sofar : τ) :
    TameAt C M most fun fuel => Read.upTo accept (ending fuel) (item fuel) fuel sofar := by
  induction most using Nat.strongRecOn generalizing ending item sofar with
  | ind most ih =>
      refine of_succ ((looks most).shift.testPeek.bind fun ended => ?_)
      split
      · exact pure _
      · refine (steps.shift most).bind_option ?_ ?_
        · exact pure none
        · intro a fewer lt
          apply (gather accept sofar a).bind
          intro gathered
          cases gathered with
          | none => exact pure none
          | some next => exact ih fewer lt (fun most => (looks most).shift) steps.shift next

/-! ### Recovery -/

theorem skipTo {item : Nat → Read μ σ (Option α)} (tame : Tame C M item) :
    TameAt C M most fun fuel => Read.skipTo (item fuel) fuel := by
  induction most using Nat.strongRecOn generalizing item with
  | ind most ih =>
      refine of_succ (AdvancesAt.consume.bind_option ?_ ?_)
      · exact pure none
      · intro t fewer lt
        apply (tame.shift fewer).bind
        intro read
        cases read with
        | none => exact ih fewer lt tame.shift
        | some a => exact pure _

theorem insist {item : Nat → Read μ σ (Option α)} {message : Nat → Read μ σ String}
    (words : TameAt C M most message) (tame : Tame C M item) :
    TameAt C M most fun fuel => Read.insist fuel (message fuel) (item fuel) := by
  apply (tame most).bind
  intro read
  cases read with
  | none => exact words.bind fun text => (report text).bind fun _ => skipTo tame
  | some a => exact pure _

/-- The skipping reader may read without taking anything: then the loop is over. -/
theorem skipWhile {skip : Nat → Read μ (Counted σ) (Option β)}
    (tame : ∀ most, TameAt (C.counted most) M most skip) :
    TameAt C M most fun fuel => Read.skipWhile (skip fuel) fuel := by
  induction most using Nat.strongRecOn generalizing skip with
  | ind most ih =>
      refine of_succ ((AdvancesAt.counting fun most => (tame most).shift).bind ?_ ?_)
      · intro counted idle
        have zero : counted.2 = 0 := by simpa using idle
        simp only [zero, beq_self_eq_true, Bool.or_true, if_true]
        exact pure ()
      · intro counted taken fewer lt
        dsimp only
        split
        · exact pure ()
        · exact ih fewer lt fun most => (tame most).shift

theorem settle {item : Nat → Read μ σ (Option α)} {message : Nat → Read μ σ String}
    {skip : Nat → Read μ (Counted σ) (Option β)} (words : TameAt C M most message)
    (skips : ∀ most, TameAt (C.counted most) M most skip) (tame : TameAt C M most item) (value : α) :
    TameAt C M most fun fuel => Read.settle fuel (message fuel) (skip fuel) value (item fuel) := by
  apply tame.bind
  intro read
  cases read with
  | none =>
      exact words.bind fun text => (report text).bind fun _ =>
        (skipWhile skips).bind fun _ => pure _
  | some a => exact pure _

theorem stickyEnd {item : Nat → Read μ (Lookahead σ) (Option β)}
    {otherwise : Nat → Read μ σ (Option α)} (looks : TameAt (C.lookahead most) M 1 item)
    (tame : TameAt C M most otherwise) (value : α) :
    TameAt C M most fun fuel => Read.stickyEnd (item fuel) value (otherwise fuel) := by
  apply looks.testPeek.bind
  intro reads
  split
  · apply noneLeft.bind
    intro ended
    split
    · exact pure _
    · exact tame
  · exact tame

/-! ### Brackets -/

theorem surround {left right : Nat → Read μ σ Bool} {item : Nat → Read μ σ (Option α)}
    (opens : TameAt C M most left) (closes : TameAt C M most right) (tame : TameAt C M most item) :
    TameAt C M most fun fuel => Read.surround (left fuel) (right fuel) (item fuel) := by
  apply opens.bind
  intro opened
  split
  · apply tame.bind
    intro read
    cases read with
    | none => exact pure none
    | some a =>
        apply closes.bind
        intro closed
        split <;> exact pure _
  · exact pure none

end TameAt

/-! ### Joined items -/

section Joined

variable {sep : Nat → Read μ σ (Option β)} {item : Nat → Read μ σ (Option α)} {trailing : β → Bool}
  {rescue : Nat → List α → List β → Read μ σ (Option α)}

theorem TameAt.joinRound (seps : TameAt C M most sep) (tame : TameAt C M most item)
    (rescues : ∀ as bs, TameAt C M most fun fuel => rescue fuel as bs) (as : List α) (bs : List β) :
    TameAt C M most fun fuel =>
      Read.joinRound (sep fuel) (item fuel) trailing (rescue fuel) as bs := by
  apply seps.bind
  intro mark
  cases mark with
  | none => exact pure _
  | some s =>
      apply tame.bind
      intro read
      cases read with
      | some a => exact pure _
      | none =>
          dsimp only
          split
          · exact pure _
          · exact (rescues as (s :: bs)).map _

/-- The rounds of a join that go on leave less on the clock. -/
def JoinSteps (C : Clock σ) (M : μ → Prop) (sep : Nat → Read μ σ (Option β))
    (item : Nat → Read μ σ (Option α)) (trailing : β → Bool)
    (rescue : Nat → List α → List β → Read μ σ (Option α)) : Prop :=
  ∀ as bs most, AdvancesAt C M most (fun round => round.join.isSome) fun fuel =>
    Read.joinRound (sep fuel) (item fuel) trailing (rescue fuel) as bs

namespace TameAt

theorem joinLoop (steps : JoinSteps C M sep item trailing rescue) (items : List α)
    (seps : List β) :
    TameAt C M most fun fuel =>
      Read.joinLoop (sep fuel) (item fuel) trailing (rescue fuel) fuel items seps := by
  induction most using Nat.strongRecOn generalizing sep item rescue items seps with
  | ind most ih =>
      apply of_succ
      simp only [Read.joinLoop_succ]
      apply (steps items seps most).shift.bind
      · intro round ends
        rcases round with _ | _ | joined
        · exact pure none
        · exact pure _
        · simp at ends
      · intro round goes fewer lt
        rcases round with _ | _ | joined
        · simp at goes
        · simp at goes
        · exact ih fewer lt (fun as bs most => (steps as bs most).shift) _ _

theorem joined (tame : TameAt C M most item) (steps : JoinSteps C M sep item trailing rescue) :
    TameAt C M most fun fuel =>
      Read.joined fuel (sep fuel) (item fuel) trailing (rescue fuel) := by
  apply tame.bind
  intro read
  cases read with
  | none => exact pure none
  | some a => exact joinLoop steps [a] []

end TameAt

end Joined

/-! ### Operator chains -/

section Chain

variable {operator : Nat → Read μ σ (Option (Operator α))}
  {operand : Nat → α → Operator α → Read μ σ (Option α)}

/-- Operators are read tamely, and rounds of the chain leave less on the clock. -/
structure ChainSteps (C : Clock σ) (M : μ → Prop) (operator : Nat → Read μ σ (Option (Operator α)))
    (operand : Nat → α → Operator α → Read μ σ (Option α)) : Prop where
  reads : Tame C M operator
  round : ∀ lhs, Steps C M fun fuel => Read.chainRound (operator fuel) (operand fuel) lhs

theorem ChainSteps.shift (steps : ChainSteps C M operator operand) :
    ChainSteps C M (fun fuel => operator (fuel + 1)) fun fuel => operand (fuel + 1) :=
  ⟨steps.reads.shift, fun lhs => (steps.round lhs).shift⟩

/-- The operator `op` has been read, with `most` left on the clock before it: once its operand is read
    too there is less. -/
structure Pending (C : Clock σ) (M : μ → Prop) (operand : Nat → α → Operator α → Read μ σ (Option α))
    (most : Nat) (op : Operator α) (s : Session μ σ) : Prop where
  going : Going C M most s
  operand : ∀ lhs, Read.Settles (fun fuel => operand fuel lhs op) s fun rhs t =>
    Going C M most t ∧ (rhs.isSome → ∃ fewer < most, Going C M fewer t)

theorem pending_shift {op : Operator α} {s : Session μ σ} :
    Pending C M (fun fuel => operand (fuel + 1)) most op s ↔ Pending C M operand most op s :=
  ⟨fun h => ⟨h.going, fun lhs => (h.operand lhs).of_succ⟩,
    fun h => ⟨h.going, fun lhs => (h.operand lhs).shift⟩⟩

theorem Pending.mono {fewer : Nat} {op : Operator α} {s : Session μ σ}
    (pending : Pending C M operand fewer op s) (le : fewer ≤ most) :
    Pending C M operand most op s := by
  refine ⟨pending.going.mono le, fun lhs => (pending.operand lhs).mono fun rhs t _ both => ?_⟩
  refine ⟨both.1.mono le, fun read => ?_⟩
  obtain ⟨least, lt, less⟩ := both.2 read
  exact ⟨least, Nat.lt_of_lt_of_le lt le, less⟩

/-- An operator read in a chain is pending. -/
theorem ChainSteps.pending (steps : ChainSteps C M operator operand) {op : Operator α}
    {s t : Session μ σ} (going : Going C M most s)
    (run : Granted fun fuel => (operator fuel).perform s = (.ok (some op), t))
    (kept : Going C M most t) : Pending C M operand most op t :=
  ⟨kept, fun lhs => (steps.round lhs most going).of_bind run⟩

/-- What a level of the chain leaves: if an operator stopped it, that one is pending. -/
structure Handed (C : Clock σ) (M : μ → Prop) (operand : Nat → α → Operator α → Read μ σ (Option α))
    (most : Nat) (joined : Option (α × Option (Operator α))) (s : Session μ σ) : Prop where
  going : Going C M most s
  pending : ∀ v stop, joined = some (v, some stop) → Pending C M operand most stop s

theorem handed_shift {joined : Option (α × Option (Operator α))} {s : Session μ σ} :
    Handed C M (fun fuel => operand (fuel + 1)) most joined s ↔ Handed C M operand most joined s :=
  ⟨fun h => ⟨h.going, fun v stop same => pending_shift.mp (h.pending v stop same)⟩,
    fun h => ⟨h.going, fun v stop same => pending_shift.mpr (h.pending v stop same)⟩⟩

theorem Handed.mono {fewer : Nat} {joined : Option (α × Option (Operator α))} {s : Session μ σ}
    (handed : Handed C M operand fewer joined s) (le : fewer ≤ most) :
    Handed C M operand most joined s :=
  ⟨handed.going.mono le, fun v stop same => (handed.pending v stop same).mono le⟩

/-- Nothing is pending where no operator stopped the level. -/
theorem Handed.of_going {joined : Option (α × Option (Operator α))} {s : Session μ σ}
    (going : Going C M most s) (none : ∀ v stop, joined ≠ some (v, some stop)) :
    Handed C M operand most joined s :=
  ⟨going, fun v stop same => absurd same (none v stop)⟩

/-- Climbing from a pending operator settles; where that operator is strong enough to be joined, less
    is left afterwards. -/
def Climbs (α : Type) (C : Clock σ) (M : μ → Prop) (most : Nat) : Prop :=
  ∀ {operator : Nat → Read μ σ (Option (Operator α))}
    {operand : Nat → α → Operator α → Read μ σ (Option α)}, ChainSteps C M operator operand →
    ∀ (lhs : α) (op : Operator α) (min : Nat) {s}, Pending C M operand most op s →
      Read.Settles (fun fuel => Read.climb (operator fuel) (operand fuel) fuel lhs (some op) min) s
        fun joined t => Handed C M operand most joined t ∧
          (min ≤ op.ordinal → joined.isSome → ∃ fewer < most, Handed C M operand fewer joined t)

/-- Tightening with what a level of the chain has left settles. -/
def Tightens (α : Type) (C : Clock σ) (M : μ → Prop) (most : Nat) : Prop :=
  ∀ {operator : Nat → Read μ σ (Option (Operator α))}
    {operand : Nat → α → Operator α → Read μ σ (Option α)}, ChainSteps C M operator operand →
    ∀ (op : Operator α) (rhs : α) (next : Option (Operator α)) {s},
      Handed C M operand most (some (rhs, next)) s →
      Read.Settles (fun fuel => Read.tighten (operator fuel) (operand fuel) fuel op rhs next) s
        fun joined t => Handed C M operand most joined t

theorem climbs_of_below (climbs : ∀ fewer < most, Climbs α C M fewer)
    (tightens : ∀ fewer < most, Tightens α C M fewer) : Climbs α C M most := by
  intro operator operand steps lhs op min s pending
  apply Read.Settles.of_succ
  simp only [Read.climb_some]
  split
  case isTrue weak =>
    -- the operator is handed to the level below as it is
    have handed : Handed C M operand most (some (lhs, some op)) s := by
      refine ⟨pending.going, fun v stop same => ?_⟩
      cases same
      exact pending
    exact .pure ⟨handed, fun strong => absurd weak (Nat.not_lt.mpr strong)⟩
  case isFalse strong =>
    apply (pending.operand lhs).shift.bind
    intro rhs t _ read
    cases rhs with
    | none => exact .pure ⟨.of_going read.1 (by simp), by simp⟩
    | some rhs =>
        obtain ⟨fewer, lt, less⟩ := read.2 rfl
        apply (steps.shift.reads fewer less).bind
        intro next u run kept
        have given : Handed C M (fun fuel => operand (fuel + 1)) fewer (some (rhs, next)) u := by
          refine ⟨kept, fun v stop same => ?_⟩
          cases same
          exact steps.shift.pending less run kept
        apply (tightens fewer lt steps.shift op rhs next given).bind
        intro joined w _ handed
        rcases joined with _ | ⟨rhs, _ | stop⟩
        · have le := handed.going.mono (Nat.le_of_lt lt)
          exact .pure ⟨.of_going le (by simp), by simp⟩
        · have rest : Handed C M operand fewer (some (op.apply lhs rhs, none)) w :=
            .of_going handed.going (by simp)
          exact .pure ⟨rest.mono (Nat.le_of_lt lt), fun _ _ => ⟨fewer, lt, rest⟩⟩
        · have waits := handed.pending rhs stop rfl
          apply (climbs fewer lt steps.shift _ stop min waits).mono
          intro joined t _ both
          have rest := handed_shift.mp both.1
          exact ⟨rest.mono (Nat.le_of_lt lt), fun _ _ => ⟨fewer, lt, rest⟩⟩

theorem tightens_of_climbs (climbs : Climbs α C M most)
    (tightens : ∀ fewer < most, Tightens α C M fewer) : Tightens α C M most := by
  intro operator operand steps op rhs next s handed
  apply Read.Settles.of_succ
  cases next with
  | none =>
      simp only [Read.tighten_none]
      exact .pure handed
  | some next =>
      simp only [Read.tighten_some]
      split
      case isTrue yields =>
        have waits := pending_shift.mpr (handed.pending rhs next rfl)
        apply (climbs steps.shift rhs next (op.rightMin next) waits).bind
        intro joined t _ both
        rcases joined with _ | ⟨rhs, stop⟩
        · exact .pure (.of_going both.1.going (by simp))
        · -- the operator that was yielded to has been joined, so less is left by now
          obtain ⟨fewer, lt, less⟩ := both.2 (Operator.rightMin_le yields) rfl
          apply (tightens fewer lt steps.shift op rhs stop less).mono
          intro _ _ _ rest
          exact (handed_shift.mp rest).mono (Nat.le_of_lt lt)
      case isFalse _ => exact .pure handed

theorem climbs_and_tightens_at (most : Nat) : Climbs α C M most ∧ Tightens α C M most := by
  induction most using Nat.strongRecOn with
  | ind most ih =>
      have climbs : Climbs α C M most :=
        climbs_of_below (fun fewer lt => (ih fewer lt).1) fun fewer lt => (ih fewer lt).2
      exact ⟨climbs, tightens_of_climbs climbs fun fewer lt => (ih fewer lt).2⟩

namespace TameAt

theorem climb (steps : ChainSteps C M operator operand) (lhs : α) (min : Nat) :
    TameAt C M most fun fuel => Read.climb (operator fuel) (operand fuel) fuel lhs none min := by
  intro s going
  apply Read.Settles.of_succ
  simp only [Read.climb_none]
  apply (steps.shift.reads most going).bind
  intro current t run kept
  cases current with
  | none => exact .pure kept
  | some op =>
      have pending : Pending C M operand most op t :=
        pending_shift.mp (steps.shift.pending going run kept)
      apply ((climbs_and_tightens_at most).1 steps lhs op min pending).shift.mono
      intro joined u _ both
      exact both.1.going

theorem chain {operand : Nat → Read μ σ (Option α)}
    {rescue : Nat → α → Operator α → Read μ σ (Option α)} (tame : TameAt C M most operand)
    (steps : ChainSteps C M operator fun fuel => Read.chainOperand (operand fuel) (rescue fuel)) :
    TameAt C M most fun fuel =>
      Read.chain fuel (operand fuel) (operator fuel) (rescue fuel) := by
  apply tame.bind
  intro read
  cases read with
  | none => exact pure none
  | some first =>
      apply (climb steps first 0).bind
      intro climbed
      rcases climbed with _ | ⟨joined, stop⟩
      · exact pure none
      · exact pure _

end TameAt

end Chain

/-! ### Outlines -/

section Outlines

/-- Parts to read an outline with: tails and breaks are read tamely, and the items of every block by a
    reader that leaves less on the clock each time. -/
structure TameParts (C : Clock σ) (M : μ → Prop) (parts : Nat → Read.OutlineParts μ σ α β) :
    Prop where
  tail : Tame C M fun fuel => (parts fuel).tail
  layout : Tame C M fun fuel => (parts fuel).layout
  block : ∀ (a : α) (b : β) (most : Nat)
    {body : Nat → Read μ σ (Option α) → Read μ σ (Option (Nat × List (Outline α β)))},
    (∀ {item : Nat → Read μ σ (Option α)}, Steps C M item →
      TameAt C M most fun fuel => body fuel (item fuel)) →
    TameAt C M most fun fuel => (parts fuel).block a b (body fuel)
  quoted : ∃ words, ∀ fuel, (parts fuel).quoted = words

variable {parts : Nat → Read.OutlineParts μ σ α β} {item : Nat → Read μ σ (Option α)}

theorem TameParts.shift (tame : TameParts C M parts) :
    TameParts C M fun fuel => parts (fuel + 1) where
  tail := tame.tail.shift
  layout := tame.layout.shift
  block a b most body inside := by
    have earlier : TameAt C M most fun fuel => (parts fuel).block a b (body fuel.pred) :=
      tame.block a b most fun steps => .of_succ (inside steps.shift)
    exact earlier.shift
  quoted := by
    obtain ⟨words, same⟩ := tame.quoted
    exact ⟨words, fun fuel => same (fuel + 1)⟩

namespace TameAt

theorem layer (tame : TameParts C M parts) (steps : Steps C M item) (here : Nat)
    (nodes : List (Outline α β)) :
    TameAt C M most fun fuel => Read.layer (parts fuel) fuel (item fuel) here nodes := by
  induction most using Nat.strongRecOn generalizing parts item here nodes with
  | ind most ih =>
      obtain ⟨words, worded⟩ := tame.quoted
      refine of_succ ((steps.shift most).bind_option ?_ ?_)
      · exact pure _
      · intro a fewer lt
        apply (tame.tail.shift fewer).bind
        intro tail
        cases tail with
        | some tail =>
            apply (tame.layout.shift fewer).bind
            intro indent
            cases indent with
            | none => exact pure none
            | some below =>
                refine reportIf (fun _ => rfl) fun _ => ?_
                -- the block and what comes behind it are both read with less on the clock
                refine (tame.shift.block a tail fewer fun inner =>
                  ih fewer lt tame.shift inner below []).bind fun closing => ?_
                rcases closing with _ | ⟨closed, children⟩
                · exact pure none
                · dsimp only
                  split
                  · exact pure _
                  · exact reportIf (fun _ => rfl) fun _ => ih fewer lt tame.shift steps.shift here _
        | none =>
            apply (tame.layout.shift fewer).bind
            intro indent
            cases indent with
            | none => exact pure none
            | some next =>
                refine reportIf (fun fuel => by rw [worded (fuel + 1)]) fun _ => ?_
                dsimp only
                split
                · exact pure _
                · exact ih fewer lt tame.shift steps.shift here _

theorem outline (tame : TameParts C M parts) (steps : Steps C M item) (base : Nat) :
    TameAt C M most fun fuel => Read.outline fuel (parts fuel) (item fuel) base := by
  apply (layer tame steps base []).bind
  intro read
  rcases read with _ | ⟨closed, nodes⟩
  · exact pure none
  · exact reportIf (fun _ => rfl) fun _ => pure _

end TameAt

end Outlines

/-! ### Tries -/

namespace TameAt

theorem descend {ν : Type} (path : List Token) (t : Trie Token ν) :
    TameAt C M most fun _ => (Read.descend path t : Read μ σ (Descent × Trie Token ν)) := by
  unfold Read.descend
  apply peek.bind
  intro current
  split
  · exact pure _
  · rename_i next found
    apply consume.bind
    intro taken
    cases taken with
    | none => exact pure _
    | some k =>
        -- the child is smaller than the node it was found in
        have smaller : sizeOf next < sizeOf t := Trie.sizeOf_route?_lt found
        exact descend (path ++ [k]) next
termination_by sizeOf t

theorem judgeValue (policy : Policy) (root : Trie Token Value) (w : Descent) (v : Value) :
    TameAt C M most fun fuel => (Read.judgeValue fuel policy root w v : Read μ σ Verdict) := by
  unfold Read.judgeValue
  cases policy with
  | exact => exact pure _
  | lazy classify => exact pure _
  | greedy continues =>
      apply peek.bind
      intro t
      split
      · exact pure _
      · apply (takeWhile _).bind
        intro run
        split <;> exact pure _

theorem judgeUnknown (policy : Policy) (root : Trie Token Value) (w : Descent) :
    TameAt C M most fun fuel => (Read.judgeUnknown fuel policy root w : Read μ σ Verdict) := by
  unfold Read.judgeUnknown
  cases policy with
  | exact => exact pure _
  | lazy classify =>
      dsimp only
      split
      · exact pure _
      · apply (note _).bind
        intro _
        split
        · exact (note _).bind fun _ => pure _
        · exact pure _
  | greedy continues =>
      dsimp only
      split
      · apply (pure []).bind
        intro run
        split <;> exact pure _
      · apply (takeWhile _).bind
        intro run
        split <;> exact pure _

theorem judge (policy : Policy) (root : Trie Token Value) :
    TameAt C M most fun fuel => (Read.judge fuel policy root : Read μ σ (Descent × Verdict)) := by
  apply (descend [] root).bind
  intro walked
  dsimp only
  split
  · exact (judgeValue policy root walked.1 _).map _
  · exact (judgeUnknown policy root walked.1).map _

theorem lookup {ν : Type} (root : Trie Token ν) :
    TameAt C M most fun _ => (Read.lookup root : Read μ σ (Option ν)) :=
  (descend [] root).map fun walked => walked.2.value

end TameAt

end Duplex
