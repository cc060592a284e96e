/-
Module: Duplex.Proofs.MissingOperand
Purpose: A missing operand is missed by the operator it belongs to.  While a chain is read, its
  partial results are spread over the levels of climbing; what `Read.climb` hands to the rescue of an
  operator is nevertheless that operator's left operand in the tree of the chain so far.  The chain is
  therefore read in turn, as `Read.InTurn` describes without any levels, and the value of a rescue
  stands in the tree where the operand would have stood.
Main exports: OperatorTree.rootedAt?, OperatorTree.IsLeftOf, OperatorTree.isLeftOf_append,
  Read.InTurn, Read.CarriesOn, Read.chain_inTurn, Read.Breaking, Read.chain_missing_operand
-/
import Duplex.Proofs.ErrorModes
import Duplex.Proofs.Precedence
import Duplex.Proofs.Termination.Combinator
import Mathlib.Data.List.Induction

namespace Duplex

namespace Operator

variable {α : Type}

/-- An operator that does not give way to `second` does not give way to what `second` does not give
    way to. -/
theorem not_yieldsTo_trans {first second third : Operator α} (left : ¬ first.yieldsTo second)
    (right : ¬ second.yieldsTo third) : ¬ first.yieldsTo third := by
  rw [yieldsTo_iff] at *
  rintro (lt | ⟨same, rightAssoc⟩)
  · omega
  · exact left (.inr ⟨by omega, rightAssoc⟩)

/-- An operator that gives way to `next` gives way to every operator that does not. -/
theorem yieldsTo_of_not_yieldsTo {op other next : Operator α} (yields : op.yieldsTo next)
    (firm : ¬ other.yieldsTo next) : op.yieldsTo other := by
  rw [yieldsTo_iff] at *
  rcases yields with lt | ⟨same, rightAssoc⟩
  · exact .inl (by omega)
  · rcases Nat.lt_or_eq_of_le (show op.ordinal ≤ other.ordinal by omega) with lt | eq
    · exact .inl lt
    · exact .inr ⟨eq.symm, rightAssoc⟩

theorem ordinal_le_of_yieldsTo {op next : Operator α} (yields : op.yieldsTo next) :
    op.ordinal ≤ next.ordinal := by
  rw [yieldsTo_iff] at yields
  omega

end Operator

/-! ### The left operand of the last operator -/

/-- The operand on the right end of a chain. -/
def Links.lastOperand {α : Type} (first : α) (xs : Links α) : α :=
  (xs.getLast?.map Prod.snd).getD first

namespace Links

variable {α : Type}

@[simp] theorem lastOperand_nil (first : α) : lastOperand first [] = first :=
  rfl

@[simp] theorem lastOperand_concat (first : α) (xs : Links α) (x : Operator α × α) :
    lastOperand first (xs ++ [x]) = x.2 := by
  simp [lastOperand]

theorem lastOperand_append_cons (first : α) (xs ys : Links α) (x : Operator α × α) :
    lastOperand first (xs ++ x :: ys) = lastOperand x.2 ys := by
  unfold lastOperand
  rw [List.getLast?_append, List.getLast?_cons]
  cases ys.getLast? <;> rfl

/-- Where neither `op`, nor what it has taken, nor what `op` was joined onto gives way to the next
    operator, no operator of the joined chain does. -/
theorem firm_append_cons {seg inner : Links α} {op next : Operator α} (x : α)
    (firm : ∀ z ∈ seg, ¬ z.1.yieldsTo op) (holds : ¬ op.yieldsTo next)
    (inside : ∀ z ∈ inner, ¬ z.1.yieldsTo next) :
    ∀ z ∈ seg ++ (op, x) :: inner, ¬ z.1.yieldsTo next := by
  intro z mem
  rcases List.mem_append.mp mem with mem | mem
  · exact Operator.not_yieldsTo_trans (firm z mem) holds
  · rcases List.mem_cons.mp mem with rfl | mem
    · exact holds
    · exact inside z mem

end Links

namespace OperatorTree

variable {α : Type}

/-- The subtree with the operator numbered `n` at its root, where operators are numbered from left
    to right. -/
def rootedAt? : OperatorTree α → Nat → Option (OperatorTree α)
  | leaf _, _ => none
  | node op lhs rhs, n =>
      if n < lhs.operators.length then lhs.rootedAt? n
      else if n = lhs.operators.length then some (node op lhs rhs)
      else rhs.rootedAt? (n - lhs.operators.length - 1)

theorem rootedAt?_root (op : Operator α) (lhs rhs : OperatorTree α) :
    (node op lhs rhs).rootedAt? lhs.operators.length = some (node op lhs rhs) := by
  rw [rootedAt?, if_neg (Nat.lt_irrefl _), if_pos rfl]

theorem rootedAt?_right (op : Operator α) (lhs rhs : OperatorTree α) (n : Nat) :
    (node op lhs rhs).rootedAt? (lhs.operators.length + 1 + n) = rhs.rootedAt? n := by
  rw [rootedAt?, if_neg (by omega), if_neg (by omega)]
  congr 1
  omega

/-- `lhs` is the left operand of `op` in the tree of a chain that ends with `op` and an operand,
    whatever that operand is. -/
def IsLeftOf (lhs : OperatorTree α) (first : α) (xs : Links α) (op : Operator α) : Prop :=
  ∀ x, (ofChain first (xs ++ [(op, x)])).rootedAt? xs.length = some (node op lhs (leaf x))

theorem IsLeftOf.unique {lhs lhs' : OperatorTree α} {first : α} {xs : Links α} {op : Operator α}
    (h : lhs.IsLeftOf first xs op) (h' : lhs'.IsLeftOf first xs op) : lhs = lhs' := by
  have same := (h first).symm.trans (h' first)
  cases same
  rfl

/-- An operator that no operator before it gives way to is the root. -/
theorem isRoot_last {seg : Links α} {op : Operator α} (firm : ∀ z ∈ seg, ¬ z.1.yieldsTo op) (x : α) :
    (Cut.mk seg op x []).IsRoot := by
  have holds : ∀ z ∈ seg, op.ordinal ≤ z.1.ordinal ∧
      (z.1.ordinal = op.ordinal → z.1.precedence.rightAssoc = false) := by
    intro z mem
    have firm := mt Operator.yieldsTo_iff.mpr (firm z mem)
    constructor
    · omega
    · intro same
      exact Bool.eq_false_iff.mpr fun rightAssoc => firm (.inr ⟨same.symm, rightAssoc⟩)
  constructor
  · intro z mem
    rw [List.append_nil] at mem
    exact (holds z mem).1
  · intro z mem
    exact (holds z mem).2
  · intro _ z mem
    cases mem

/-- The root of a chain is also the root where operators stand behind that the last one of the chain
    gives way to. -/
theorem isRoot_append_right {c : Cut α} (root : c.IsRoot) {rest : Links α}
    (waits : ∀ y ∈ c.links.getLast?, ∀ z ∈ rest, y.1.yieldsTo z.1) :
    ({ c with after := c.after ++ rest } : Cut α).IsRoot := by
  -- the last operator lies between the root and those behind
  obtain ⟨y, last, bound, place⟩ : ∃ y ∈ c.links.getLast?, c.op.ordinal ≤ y.1.ordinal ∧
      (y.1 = c.op ∨ y ∈ c.after) := by
    cases found : c.after.getLast? with
    | none => exact ⟨(c.op, c.operand), by simp [Cut.links, List.getLast?_append,
        List.getLast?_cons, found], Nat.le_refl _, .inl rfl⟩
    | some y =>
        have mem : y ∈ c.after := List.mem_of_getLast? found
        exact ⟨y, by simp [Cut.links, List.getLast?_append, List.getLast?_cons, found],
          root.least y (List.mem_append_right _ mem), .inr mem⟩
  have between : ∀ z ∈ rest, y.1.ordinal < z.1.ordinal ∨
      z.1.ordinal = y.1.ordinal ∧ y.1.precedence.rightAssoc = true := by
    intro z mem
    exact Operator.yieldsTo_iff.mp (waits y last z mem)
  constructor
  · intro z mem
    rw [← List.append_assoc, List.mem_append] at mem
    rcases mem with mem | mem
    · exact root.least z mem
    · have := between z mem
      show c.op.ordinal ≤ z.1.ordinal
      omega
  · exact root.leftmost
  · intro leftAssoc z mem same
    rcases List.mem_append.mp mem with mem | mem
    · exact root.rightmost leftAssoc z mem same
    · have same : z.1.ordinal = c.op.ordinal := same
      obtain ⟨level, rightAssoc⟩ := (between z mem).resolve_left (by omega)
      rcases place with eq | mem
      · have leftAssoc : c.op.precedence.rightAssoc = false := leftAssoc
        rw [eq, leftAssoc] at rightAssoc
        cases rightAssoc
      · exact root.rightmost leftAssoc y mem (by omega)

/-- The left operand of an operator is the tree of the chain between it and the last operator before
    it that gives way to it. -/
theorem isLeftOf_append (first : α) {front seg : Links α} {op : Operator α}
    (waits : ∀ y ∈ front.getLast?, y.1.yieldsTo op) (firm : ∀ z ∈ seg, ¬ z.1.yieldsTo op) :
    (ofChain (front.lastOperand first) seg).IsLeftOf first (front ++ seg) op := by
  intro x
  induction first, front using chain_induction with
  | single first =>
      have split := ofChain_of_isRoot (isRoot_last firm x) first
      rw [ofChain_nil] at split
      have numbered := rootedAt?_root op (ofChain first seg) (leaf x)
      rw [operators_ofChain, List.length_map] at numbered
      rw [List.nil_append, Links.lastOperand_nil, ← numbered]
      exact congrArg (rootedAt? · seg.length) split
  | root first c isRoot _ after =>
      have behind : ∀ y ∈ c.links.getLast?, ∀ z ∈ seg ++ [(op, x)], y.1.yieldsTo z.1 := by
        intro y last z mem
        rcases List.mem_append.mp mem with mem | mem
        · exact Operator.yieldsTo_of_not_yieldsTo (waits y last) (firm z mem)
        · cases List.mem_singleton.mp mem
          exact waits y last
      have within : ∀ y ∈ c.after.getLast?, y.1.yieldsTo op := by
        intro y last
        apply waits y
        rw [Cut.links, List.getLast?_append, List.getLast?_cons, Option.mem_def.mp last]
        rfl
      have whole : c.links ++ seg ++ [(op, x)] =
          ({ c with after := c.after ++ (seg ++ [(op, x)]) } : Cut α).links := by
        simp [Cut.links]
      have place : (c.links ++ seg).length =
          (ofChain first c.before).operators.length + 1 + (c.after ++ seg).length := by
        rw [operators_ofChain]
        simp only [Cut.links, List.length_append, List.length_cons, List.length_map]
        omega
      have last : Links.lastOperand first c.links = Links.lastOperand c.operand c.after :=
        Links.lastOperand_append_cons ..
      rw [whole, ofChain_of_isRoot (isRoot_append_right isRoot behind), place, rootedAt?_right, last,
        ← List.append_assoc]
      exact after within

/-- Each operator has a left operand: the chain before it splits behind the last operator that gives
    way to it. -/
theorem exists_isLeftOf (first : α) (xs : Links α) (op : Operator α) :
    ∃ lhs : OperatorTree α, lhs.IsLeftOf first xs op := by
  have split : ∃ front seg, xs = front ++ seg ∧ (∀ y ∈ front.getLast?, y.1.yieldsTo op) ∧
      ∀ z ∈ seg, ¬ z.1.yieldsTo op := by
    induction xs using List.reverseRecOn with
    | nil => exact ⟨[], [], rfl, by simp, by simp⟩
    | append_singleton xs x ih =>
        by_cases yields : x.1.yieldsTo op
        · exact ⟨xs ++ [x], [], by simp, by simpa using yields, by simp⟩
        · obtain ⟨front, seg, rfl, waits, firm⟩ := ih
          refine ⟨front, seg ++ [x], List.append_assoc .., waits, ?_⟩
          intro z mem
          rcases List.mem_append.mp mem with mem | mem
          · exact firm z mem
          · rw [List.mem_singleton.mp mem]
            exact yields
  obtain ⟨front, seg, rfl, waits, firm⟩ := split
  exact ⟨_, isLeftOf_append first waits firm⟩

/-- Joining an operator and what it gives way to behind operators that hold on to it. -/
theorem eval_ofChain_append_cons (first : α) {seg inner : Links α} {op : Operator α} (x : α)
    (firm : ∀ z ∈ seg, ¬ z.1.yieldsTo op) (yields : ∀ z ∈ inner, op.yieldsTo z.1) :
    (ofChain first (seg ++ (op, x) :: inner)).eval =
      op.apply (ofChain first seg).eval (ofChain x inner).eval := by
  rw [eval_ofChain_append first seg, ofChain_cons _ x yields]
  · rfl
  · intro z mem y head
    cases head
    exact firm z mem

end OperatorTree

/-! ### Reading in turn -/

namespace Read

variable {μ σ α β γ : Type}

/-- A read that gave no value, and `out`, which says so of a read of other values. -/
inductive Fails : Except (Stop ReadFault) (Option α) × Session μ σ →
    Except (Stop ReadFault) (Option β) × Session μ σ → Prop
  | nothing (t : Session μ σ) : Fails (.ok none, t) (.ok none, t)
  | stopped (stop : Stop ReadFault) (t : Session μ σ) : Fails (.error stop, t) (.error stop, t)

theorem Fails.eq {result out : Except (Stop ReadFault) (Option α) × Session μ σ}
    (fails : Fails result out) : result = out := by
  cases fails <;> rfl

/-- What goes on after a value only fails where there is none. -/
theorem Fails.bind {r : Read μ σ (Option α)} {f : Option α → Read μ σ (Option β)}
    {s : Session μ σ} {out : Except (Stop ReadFault) (Option γ) × Session μ σ}
    (fails : Fails (r.perform s) out) (nothing : f none = pure none) :
    Fails ((r >>= f).perform s) out := by
  rw [perform_bind]
  generalize r.perform s = result at fails
  cases fails with
  | nothing t =>
      show Fails ((f none).perform t) _
      rw [nothing]
      exact .nothing t
  | stopped stop t => exact .stopped stop t

/-- The rest of a chain read in turn, behind `first` and `xs`: after each operator its right operand is
    read, or supplied, for its left operand in the tree of the chain so far.  Reading takes the
    operators and right operands `ys` and comes out as `out`, which is the value of the tree of the
    whole chain if no operator misses its operand. -/
inductive InTurn (operator : Read μ σ (Option (Operator α)))
    (right : α → Operator α → Read μ σ (Option α)) (first : α) :
    Links α → Session μ σ → Links α → Except (Stop ReadFault) (Option α) × Session μ σ → Prop
  | complete {xs s t} :
      operator.perform s = (.ok none, t) →
      InTurn operator right first xs s [] (.ok (some (OperatorTree.ofChain first xs).eval), t)
  | stopped {xs s stop t} :
      operator.perform s = (.error stop, t) →
      InTurn operator right first xs s [] (.error stop, t)
  | missing {xs s op s₁ out} {lhs : OperatorTree α} :
      operator.perform s = (.ok (some op), s₁) →
      lhs.IsLeftOf first xs op →
      Fails ((right lhs.eval op).perform s₁) out →
      InTurn operator right first xs s [] out
  | more {xs s op s₁ x s₂ ys out} {lhs : OperatorTree α} :
      operator.perform s = (.ok (some op), s₁) →
      lhs.IsLeftOf first xs op →
      (right lhs.eval op).perform s₁ = (.ok (some x), s₂) →
      InTurn operator right first (xs ++ [(op, x)]) s₂ ys out →
      InTurn operator right first xs s ((op, x) :: ys) out

section Climbing

variable {operator : Read μ σ (Option (Operator α))} {right : α → Operator α → Read μ σ (Option α)}
  {first : α}

/-- The only value that reading in turn comes to is that of the tree of all that was read. -/
theorem InTurn.value {xs ys : Links α} {s t : Session μ σ}
    {out : Except (Stop ReadFault) (Option α) × Session μ σ} {v : α}
    (turn : InTurn operator right first xs s ys out) (some : out = (.ok (some v), t)) :
    v = (OperatorTree.ofChain first (xs ++ ys)).eval := by
  induction turn with
  | complete =>
      cases some
      rw [List.append_nil]
  | stopped => cases some
  | @missing _ _ op s₁ _ lhs _ _ fails =>
      rw [some] at fails
      generalize (right lhs.eval op).perform s₁ = result at fails
      cases fails
  | more _ _ _ _ ih => rw [ih some, List.append_assoc, List.singleton_append]

/-- The rest of a chain read in turn once the next operator, if there is one, has been read. -/
def InTurnAfter (operator : Read μ σ (Option (Operator α)))
    (right : α → Operator α → Read μ σ (Option α)) (first : α) (xs : Links α)
    (next : Option (Operator α)) (t : Session μ σ) (ys : Links α)
    (out : Except (Stop ReadFault) (Option α) × Session μ σ) : Prop :=
  ∃ s, operator.perform s = (.ok next, t) ∧ InTurn operator right first xs s ys out

/-- Reading in turn goes on with an operator or its absence, unless looking for one stops. -/
theorem InTurn.next {xs ys : Links α} {s : Session μ σ}
    {out : Except (Stop ReadFault) (Option α) × Session μ σ}
    (turn : InTurn operator right first xs s ys out) :
    (∃ stop t, operator.perform s = (.error stop, t) ∧ out = (.error stop, t)) ∨
      ∃ next t, operator.perform s = (.ok next, t) ∧
        InTurnAfter operator right first xs next t ys out := by
  cases turn with
  | complete found => exact .inr ⟨_, _, found, _, found, .complete found⟩
  | stopped stops => exact .inl ⟨_, _, stops, rfl⟩
  | missing found left fails => exact .inr ⟨_, _, found, _, found, .missing found left fails⟩
  | more found left read rest => exact .inr ⟨_, _, found, _, found, .more found left read rest⟩

theorem InTurnAfter.none {xs ys : Links α} {t : Session μ σ}
    {out : Except (Stop ReadFault) (Option α) × Session μ σ}
    (turn : InTurnAfter operator right first xs none t ys out) :
    out = (.ok (some (OperatorTree.ofChain first xs).eval), t) := by
  obtain ⟨s, found, turn⟩ := turn
  cases turn with
  | complete again =>
      cases found.symm.trans again
      rfl
  | stopped stops => cases found.symm.trans stops
  | missing again => cases found.symm.trans again
  | more again => cases found.symm.trans again

theorem InTurnAfter.some {xs ys : Links α} {op : Operator α} {t : Session μ σ}
    {lhs : OperatorTree α} {out : Except (Stop ReadFault) (Option α) × Session μ σ}
    (turn : InTurnAfter operator right first xs (some op) t ys out)
    (left : lhs.IsLeftOf first xs op) :
    Fails ((right lhs.eval op).perform t) out ∨
      ∃ x t₁ rest, (right lhs.eval op).perform t = (.ok (.some x), t₁) ∧ ys = (op, x) :: rest ∧
        InTurn operator right first (xs ++ [(op, x)]) t₁ rest out := by
  obtain ⟨s, found, turn⟩ := turn
  cases turn with
  | complete again => cases found.symm.trans again
  | stopped stops => cases found.symm.trans stops
  | missing again own fails =>
      cases found.symm.trans again
      rw [left.unique own]
      exact .inl fails
  | more again own read rest =>
      cases found.symm.trans again
      rw [left.unique own]
      exact .inr ⟨_, _, _, read, rfl, rest⟩

/-- What a level of climbing does with a chain that is read in turn.  `front` is the chain up to the
    operator that waits for the level, and `seg` what the level has joined.  Either something missing
    ends the level; or it goes on joining as long as `takes` holds, and reading in turn goes on with
    the operator it hands down. -/
inductive CarriesOn (operator : Read μ σ (Option (Operator α)))
    (right : α → Operator α → Read μ σ (Option α)) (first : α) (takes : Operator α → Prop)
    (front seg : Links α) (next : Option (Operator α)) (ys : Links α)
    (out : Except (Stop ReadFault) (Option α) × Session μ σ)
    (result : Except (Stop ReadFault) (Option (α × Option (Operator α))) × Session μ σ) : Prop
  | failed (fails : Fails result out)
  | joined {more rest stop t} (read : ys = more ++ rest) (taken : ∀ z ∈ more, takes z.1)
      (value : result =
        (.ok (some ((OperatorTree.ofChain (front.lastOperand first) (seg ++ more)).eval, stop)), t))
      (refused : ∀ op ∈ stop, ¬ takes op ∧ ∀ z ∈ seg ++ more, ¬ z.1.yieldsTo op)
      (untouched : more = [] → stop = next)
      (turn : InTurnAfter operator right first (front ++ (seg ++ more)) stop t rest out)

/-- What `climb` does with an operator that has been read, where the one that waits gives way to all
    that the level takes. -/
def ClimbsOn (operator : Read μ σ (Option (Operator α)))
    (right : α → Operator α → Read μ σ (Option α)) (first : α) (fuel : Nat) : Prop :=
  ∀ (front seg : Links α) (min : Nat) {op ys s out}, 2 * ys.length + 2 ≤ fuel →
    (∀ y ∈ front.getLast?, ∀ next : Operator α, min ≤ next.ordinal → y.1.yieldsTo next) →
    (∀ z ∈ seg, ¬ z.1.yieldsTo op) →
    InTurnAfter operator right first (front ++ seg) (some op) s ys out →
    CarriesOn operator right first (min ≤ ·.ordinal) front seg (some op) ys out
      ((climb operator right fuel (OperatorTree.ofChain (front.lastOperand first) seg).eval
        (some op) min).perform s)

/-- What `tighten` does behind an operator and its operand. -/
def TightensOn (operator : Read μ σ (Option (Operator α)))
    (right : α → Operator α → Read μ σ (Option α)) (first : α) (fuel : Nat) : Prop :=
  ∀ (front seg : Links α) {op x next ys s out}, 2 * ys.length + 2 < fuel →
    front.getLast? = some (op, x) →
    (∀ stop ∈ next, ∀ z ∈ seg, ¬ z.1.yieldsTo stop) →
    InTurnAfter operator right first (front ++ seg) next s ys out →
    CarriesOn operator right first (op.yieldsTo ·) front seg next ys out
      ((tighten operator right fuel op (OperatorTree.ofChain (front.lastOperand first) seg).eval
        next).perform s)

/-- A level that takes nothing hands down the operator it was given. -/
theorem CarriesOn.nothing {takes : Operator α → Prop} {front seg ys : Links α}
    {next : Option (Operator α)} {s : Session μ σ}
    {out : Except (Stop ReadFault) (Option α) × Session μ σ}
    (refused : ∀ op ∈ next, ¬ takes op ∧ ∀ z ∈ seg, ¬ z.1.yieldsTo op)
    (turn : InTurnAfter operator right first (front ++ seg) next s ys out) :
    CarriesOn operator right first takes front seg next ys out
      (.ok (some ((OperatorTree.ofChain (front.lastOperand first) seg).eval, next)), s) := by
  rw [← List.append_nil seg] at refused turn
  exact .joined (List.nil_append ys).symm (by simp) (by rw [List.append_nil]) refused
    (fun _ => rfl) turn

/-- A level that has joined something goes on as one that is given what it has joined. -/
theorem CarriesOn.prepend {takes : Operator α → Prop} {front seg more ys : Links α}
    {next next' : Option (Operator α)} {out : Except (Stop ReadFault) (Option α) × Session μ σ}
    {result : Except (Stop ReadFault) (Option (α × Option (Operator α))) × Session μ σ}
    (taken : ∀ z ∈ more, takes z.1) (progress : more ≠ [])
    (on : CarriesOn operator right first takes front (seg ++ more) next' ys out result) :
    CarriesOn operator right first takes front seg next (more ++ ys) out result := by
  cases on with
  | failed fails => exact .failed fails
  | @joined further rest stop t read takenMore value refused _ turn =>
      rw [List.append_assoc] at value refused turn
      refine .joined ?_ ?_ value refused ?_ turn
      · rw [read, List.append_assoc]
      · intro z mem
        rcases List.mem_append.mp mem with mem | mem
        · exact taken z mem
        · exact takenMore z mem
      · intro nothing
        exact absurd (List.append_eq_nil_iff.mp nothing).1 progress

/-- The right operand of an operator is read for its left operand in the tree, which is what the level
    has joined so far. -/
theorem ClimbsOn.step {fuel : Nat} (climbs : ClimbsOn operator right first fuel)
    (tightens : TightensOn operator right first fuel) :
    ClimbsOn operator right first (fuel + 1) := by
  intro front seg min op ys s out enough waits firm turn
  rw [climb_some]
  by_cases weak : op.ordinal < min
  · rw [if_pos weak]
    apply CarriesOn.nothing _ turn
    intro stop eq
    cases eq
    exact ⟨Nat.not_le_of_lt weak, firm⟩
  · rw [if_neg weak]
    have strong : min ≤ op.ordinal := Nat.le_of_not_lt weak
    have left := OperatorTree.isLeftOf_append first (fun y last => waits y last op strong) firm
    -- so that the level hands the value it has joined to the very operator that reading in turn does
    rcases turn.some left with fails | ⟨x, s₁, ys, read, rfl, onward⟩
    · exact .failed (fails.bind rfl)
    · simp only [List.length_cons] at enough
      rw [perform_bind_ok read]
      dsimp only
      rcases onward.next with ⟨stop, t, stops, rfl⟩ | ⟨next, s₂, found, turn⟩
      · rw [perform_bind, stops]
        exact .failed (.stopped _ _)
      · rw [perform_bind_ok found]
        rw [← List.append_nil (front ++ seg ++ [(op, x)])] at turn
        have inner := tightens (front ++ seg ++ [(op, x)]) [] (by omega)
          List.getLast?_concat (by simp) turn
        rw [Links.lastOperand_concat, OperatorTree.ofChain_nil, OperatorTree.eval] at inner
        cases inner with
        | failed fails => exact .failed (fails.bind rfl)
        | @joined inner rest stop t read yields value refused _ turn =>
            rw [Links.lastOperand_concat, List.nil_append] at value
            rw [List.nil_append] at refused turn
            have taken : ∀ z ∈ (op, x) :: inner, min ≤ z.1.ordinal := by
              intro z mem
              rcases List.mem_cons.mp mem with rfl | mem
              · exact strong
              · exact Nat.le_trans strong (Operator.ordinal_le_of_yieldsTo (yields z mem))
            have behind : front ++ seg ++ [(op, x)] ++ inner = front ++ (seg ++ (op, x) :: inner) := by
              simp
            rw [behind] at turn
            -- all that the operand took is joined now, and holds on to what the next operator takes
            rw [perform_bind_ok value, read]
            refine CarriesOn.prepend taken (List.cons_ne_nil _ _)
              (?_ : CarriesOn operator right first _ front _ stop rest out _)
            cases stop with
            | none =>
                dsimp only
                rw [← OperatorTree.eval_ofChain_append_cons _ x firm yields]
                exact CarriesOn.nothing (by simp) turn
            | some stop =>
                dsimp only
                rw [← OperatorTree.eval_ofChain_append_cons _ x firm yields]
                obtain ⟨holds, inside⟩ := refused stop rfl
                rw [read, List.length_append] at enough
                exact climbs front _ min (by omega) waits (Links.firm_append_cons x firm holds inside)
                  turn

/-- An operator that the one in front gives way to starts a level of its own, for which that one
    waits. -/
theorem TightensOn.step {fuel : Nat} (climbs : ClimbsOn operator right first fuel)
    (tightens : TightensOn operator right first fuel) :
    TightensOn operator right first (fuel + 1) := by
  intro front seg op x next ys s out enough last firm turn
  cases next with
  | none =>
      rw [tighten_none]
      exact CarriesOn.nothing (by simp) turn
  | some next =>
      rw [tighten_some]
      by_cases yields : op.yieldsTo next
      · rw [if_pos yields]
        have waits : ∀ y ∈ front.getLast?, ∀ inner : Operator α,
            op.rightMin next ≤ inner.ordinal → y.1.yieldsTo inner := by
          intro y mem inner strong
          rw [last] at mem
          cases mem
          exact Operator.yieldsTo_of_rightMin yields strong
        have level := climbs front seg (op.rightMin next) (Nat.le_of_lt_succ enough) waits
          (firm next rfl) turn
        cases level with
        | failed fails => exact .failed (fails.bind rfl)
        | @joined more rest stop t read strong value refused untouched turn =>
            have taken : ∀ z ∈ more, op.yieldsTo z.1 := by
              intro z mem
              exact Operator.yieldsTo_of_rightMin yields (strong z mem)
            -- the level has joined at least the operator it started with
            have progress : more ≠ [] := by
              intro nothing
              exact (refused next (untouched nothing)).1 (Operator.rightMin_le yields)
            have := List.length_pos_iff.mpr progress
            rw [perform_bind_ok value, read]
            rw [read, List.length_append] at enough
            apply CarriesOn.prepend taken progress
            exact tightens front _ (by omega) last (fun stop mem => (refused stop mem).2) turn
      · rw [if_neg yields]
        apply CarriesOn.nothing _ turn
        intro stop eq
        cases eq
        exact ⟨yields, firm next rfl⟩

theorem climbsOn_and_tightensOn (fuel : Nat) :
    ClimbsOn operator right first fuel ∧ TightensOn operator right first fuel := by
  induction fuel with
  | zero =>
      constructor
      · intro front seg min op ys s out enough
        omega
      · intro front seg op x next ys s out enough
        omega
  | succ fuel ih => exact ⟨ClimbsOn.step ih.1 ih.2, TightensOn.step ih.1 ih.2⟩

/-- Climbing from the first operand of a chain comes out as reading in turn does. -/
theorem fails_or_climbs {fuel : Nat} {s : Session μ σ} {ys : Links α}
    {out : Except (Stop ReadFault) (Option α) × Session μ σ}
    (turn : InTurn operator right first [] s ys out) (enough : 2 * ys.length + 2 ≤ fuel) :
    Fails ((climb operator right fuel first none 0).perform s) out ∨
      ∃ v t, out = (.ok (some v), t) ∧
        (climb operator right fuel first none 0).perform s = (.ok (some (v, none)), t) := by
  cases fuel with
  | zero => omega
  | succ fuel =>
      rw [climb_none]
      rcases turn.next with ⟨stop, t, stops, rfl⟩ | ⟨next, t, found, turn⟩
      · rw [perform_bind, stops]
        exact .inl (.stopped stop t)
      · rw [perform_bind_ok found]
        cases next with
        | none =>
            rw [turn.none, OperatorTree.ofChain_nil]
            exact .inr ⟨first, t, rfl, rfl⟩
        | some op =>
            have level :=
              (climbsOn_and_tightensOn (fuel + 1)).1 [] [] 0 enough (by simp) (by simp) turn
            rw [Links.lastOperand_nil, OperatorTree.ofChain_nil, OperatorTree.eval] at level
            cases level with
            | failed fails => exact .inl fails
            | @joined more rest stop t _ _ value refused _ turn =>
                cases stop with
                | none => exact .inr ⟨_, t, turn.none, value⟩
                | some stop => exact absurd (Nat.zero_le _) (refused stop rfl).1

end Climbing

section Operands

variable {operand : Read μ σ (Option α)} {operator : Read μ σ (Option (Operator α))}
  {rescue : α → Operator α → Read μ σ (Option α)}

/-- A chain comes out as reading it in turn does, whatever levels it is climbed on. -/
theorem chain_inTurn {fuel : Nat} {s s₁ : Session μ σ} {first : α} {ys : Links α}
    {out : Except (Stop ReadFault) (Option α) × Session μ σ}
    (read : operand.perform s = (.ok (some first), s₁))
    (turn : InTurn operator (chainOperand operand rescue) first [] s₁ ys out)
    (enough : 2 * ys.length + 2 ≤ fuel) :
    (chain fuel operand operator rescue).perform s = out := by
  unfold chain
  rw [perform_bind_ok read]
  dsimp only
  rcases fails_or_climbs turn enough with fails | ⟨v, t, rfl, joined⟩
  · apply Fails.eq
    apply Fails.bind fails
    rfl
  · exact perform_bind_ok joined _

theorem perform_chainOperand_some {s t : Session μ σ} {x : α}
    (read : operand.perform s = (.ok (some x), t)) (lhs : α) (op : Operator α) :
    (chainOperand operand rescue lhs op).perform s = (.ok (some x), t) :=
  perform_bind_ok read _

theorem perform_chainOperand_none {s t : Session μ σ}
    (missing : operand.perform s = (.ok none, t)) (lhs : α) (op : Operator α) :
    (chainOperand operand rescue lhs op).perform s = (rescue lhs op).perform t :=
  perform_bind_ok missing _

/-- Reading an operand, an operator, an operand and so on in turn gives `first`, `xs` and then `op`,
    behind which no operand is read. -/
inductive Breaking (operand : Read μ σ (Option α)) (operator : Read μ σ (Option (Operator α))) :
    Session μ σ → α → Links α → Operator α → Session μ σ → Prop
  | last {s s₁ s₂ t first op} :
      operand.perform s = (.ok (some first), s₁) →
      operator.perform s₁ = (.ok (some op), s₂) →
      operand.perform s₂ = (.ok none, t) →
      Breaking operand operator s first [] op t
  | more {s s₁ s₂ t first op second xs last} :
      operand.perform s = (.ok (some first), s₁) →
      operator.perform s₁ = (.ok (some op), s₂) →
      Breaking operand operator s₂ second xs last t →
      Breaking operand operator s first ((op, second) :: xs) last t

/-- A breaking chain is read in turn up to where it breaks. -/
theorem Breaking.inTurn {s t : Session μ σ} {second : α} {xs : Links α} {op : Operator α}
    (breaking : Breaking operand operator s second xs op t) (first : α)
    (rescue : α → Operator α → Read μ σ (Option α)) :
    ∃ s₁ u v, operand.perform s = (.ok (some second), s₁) ∧
      operator.perform u = (.ok (some op), v) ∧ operand.perform v = (.ok none, t) ∧
      ∀ {front ys out}, InTurn operator (chainOperand operand rescue) first (front ++ xs) u ys out →
        InTurn operator (chainOperand operand rescue) first front s₁ (xs ++ ys) out := by
  induction breaking with
  | last read found missing =>
      refine ⟨_, _, _, read, found, missing, ?_⟩
      intro front ys out turn
      rw [List.append_nil] at turn
      exact turn
  | @more _ _ _ _ _ op second xs last read found _ ih =>
      obtain ⟨s₁, u, v, next, breaks, missing, rest⟩ := ih
      refine ⟨_, u, v, read, breaks, missing, ?_⟩
      intro front ys out turn
      obtain ⟨lhs, left⟩ := OperatorTree.exists_isLeftOf first front op
      rw [← List.singleton_append, ← List.append_assoc] at turn
      exact .more found left (perform_chainOperand_some next _ _) (rest turn)

/-- Where an operand is missing, the chain comes out as the rescue of its operator, which is given the
    operator's left operand in the tree. -/
theorem Breaking.fails {s t : Session μ σ} {first : α} {xs : Links α} {op : Operator α}
    {lhs : OperatorTree α} {out : Except (Stop ReadFault) (Option α) × Session μ σ} {fuel : Nat}
    (breaking : Breaking operand operator s first xs op t) (left : lhs.IsLeftOf first xs op)
    (fails : Fails ((rescue lhs.eval op).perform t) out) (enough : 2 * xs.length + 2 ≤ fuel) :
    (chain fuel operand operator rescue).perform s = out := by
  obtain ⟨s₁, u, v, read, found, missing, turns⟩ := breaking.inTurn first rescue
  rw [← perform_chainOperand_none missing] at fails
  apply chain_inTurn read (turns (.missing found left fails))
  rw [List.append_nil]
  exact enough

/-- Where a rescue supplies the missing operand, the chain is read on with it in that place. -/
theorem Breaking.goesOn {s t t₁ : Session μ σ} {first x : α} {xs ys : Links α} {op : Operator α}
    {lhs : OperatorTree α} {out : Except (Stop ReadFault) (Option α) × Session μ σ} {fuel : Nat}
    (breaking : Breaking operand operator s first xs op t) (left : lhs.IsLeftOf first xs op)
    (supplied : (rescue lhs.eval op).perform t = (.ok (some x), t₁))
    (turn : InTurn operator (chainOperand operand rescue) first (xs ++ [(op, x)]) t₁ ys out)
    (enough : 2 * (xs.length + 1 + ys.length) + 2 ≤ fuel) :
    (chain fuel operand operator rescue).perform s = out := by
  obtain ⟨s₁, u, v, read, found, missing, turns⟩ := breaking.inTurn first rescue
  rw [← perform_chainOperand_none missing] at supplied
  apply chain_inTurn read (turns (.more found left supplied turn))
  rw [List.length_append, List.length_cons]
  omega

end Operands

/-- Without a rescue, an input that keeps errors is told about the operator and its left operand. -/
theorem perform_rescueChain_none {ρ : Type} [Feed ρ] {t : Session Memory (Input ρ)}
    {latest : List ErrorRecord} (collects : t.feed.mode = .collect latest) (lhs : Value)
    (op : Operator Value) :
    (Pattern.rescueChain none lhs op).perform t =
      let message := "infix " ++ lhs.quoted ++ " parse failed at " ++ op.name
      (.ok none, { t with
        feed := t.feed.inMode (.collect (t.feed.record message :: latest))
        journal := t.journal.add (.logged .debug ("recording error: " ++ message)) }) := by
  obtain ⟨⟨feed, tracker, mode, hooked, carried⟩, memory, journal⟩ := t
  cases collects
  rfl

/-- Where an operand of a chain is missing, it is missed by its own operator: `lhs` is that operator's
    left operand in the tree of the chain, whatever the missing operand would be.  A rescue is given
    the value of `lhs` and the operator.  If it supplies nothing, the chain comes out as the rescue
    does; if it supplies `x`, the chain is read on with `x` in the missing place, and its value is that
    of the tree with `x` there.  Without a rescue, an input that keeps errors gets the one error that
    names both, and the chain is not parsed. -/
theorem chain_missing_operand (first : Value) (xs : Links Value) (op : Operator Value) :
    ∃ lhs : OperatorTree Value, lhs.IsLeftOf first xs op ∧
      (∀ {σ : Type} {operand : Read Memory σ (Option Value)}
          {operator : Read Memory σ (Option (Operator Value))} {s t : Session Memory σ}
          (rescue : Value → Operator Value → Read Memory σ (Option Value)),
        Breaking operand operator s first xs op t →
        (∀ {out fuel}, Fails ((rescue lhs.eval op).perform t) out → 2 * xs.length + 2 ≤ fuel →
          (chain fuel operand operator rescue).perform s = out) ∧
        ∀ {x t₁ ys out fuel}, (rescue lhs.eval op).perform t = (.ok (some x), t₁) →
          InTurn operator (chainOperand operand rescue) first (xs ++ [(op, x)]) t₁ ys out →
          2 * (xs.length + 1 + ys.length) + 2 ≤ fuel →
          (chain fuel operand operator rescue).perform s = out ∧
            ∀ {v u}, out = (.ok (some v), u) →
              v = (OperatorTree.ofChain first (xs ++ (op, x) :: ys)).eval) ∧
      ∀ {ρ : Type} [Feed ρ] {operand : Read Memory (Input ρ) (Option Value)}
          {operator : Read Memory (Input ρ) (Option (Operator Value))}
          {s t : Session Memory (Input ρ)} {latest : List ErrorRecord} {fuel : Nat},
        Breaking operand operator s first xs op t → t.feed.mode = .collect latest →
        2 * xs.length + 2 ≤ fuel →
        let message := "infix " ++ lhs.eval.quoted ++ " parse failed at " ++ op.name
        (chain fuel operand operator (Pattern.rescueChain none)).perform s =
          (.ok none, { t with
            feed := t.feed.inMode (.collect (t.feed.record message :: latest))
            journal := t.journal.add (.logged .debug ("recording error: " ++ message)) }) := by
  obtain ⟨lhs, left⟩ := OperatorTree.exists_isLeftOf first xs op
  refine ⟨lhs, left, ?_, ?_⟩
  · intro σ operand operator s t rescue breaking
    constructor
    · intro out fuel fails enough
      exact breaking.fails left fails enough
    · intro x t₁ ys out fuel supplied turn enough
      refine ⟨breaking.goesOn left supplied turn enough, ?_⟩
      intro v u value
      rw [turn.value value, List.append_assoc, List.singleton_append]
  · intro ρ _ operand operator s t latest fuel breaking collects enough message
    apply breaking.fails left _ enough
    rw [perform_rescueChain_none collects]
    exact .nothing _

/-- In `1^2-` the operand of the last operator is missing.  Its left operand is `2`, as the operator
    before it is waiting for both: the error names `2`, and a rescue that keeps the left operand makes
    the chain `1^(2-2)`. -/
theorem chain_missing_operand_last :
    let digits : Read Memory (Input Pulled) (Option Value) :=
      asValue (Condition.range (.char '0') (.char '9')).read
    let signs : Read Memory (Input Pulled) (Option (Operator Value)) := do
      let found ← (Condition.oneOf [.char '-', .char '^']).read
      return found.map fun t => if t = .char '^' then power else minus
    let keeping : List ErrorRecord → Pulled → Input Pulled := fun latest feed =>
      ⟨feed, none, .collect latest, false, .empty⟩
    let start : Session Memory (Input Pulled) :=
      { feed := keeping [] ⟨[.char '^', .char '2', .char '-'], .char '1', false⟩, memory := .empty }
    (chain 6 digits signs (Pattern.rescueChain none)).perform start =
        (.ok none,
          { feed := keeping [⟨.char '-', none, "infix '2' parse failed at -"⟩] ⟨[], .char '-', true⟩
            memory := .empty
            journal := ⟨[.logged .debug "recording error: infix '2' parse failed at -"]⟩ }) ∧
      (chain 6 digits signs (Pattern.rescueChain (some .keepLeft))).perform start =
        (.ok (some (.pair (.char '1') (.pair (.char '2') (.char '2')))),
          { feed := keeping [] ⟨[], .char '-', true⟩
            memory := .empty
            journal := ⟨[.rescue (.char '2') "-"]⟩ }) := by
  intro digits signs keeping start
  let on : Pulled → Session Memory (Input Pulled) := fun feed =>
    { feed := keeping [] feed, memory := .empty }
  have one : digits.perform start =
      (.ok (some (.char '1')), on ⟨[.char '2', .char '-'], .char '^', false⟩) := rfl
  have caret : signs.perform (on ⟨[.char '2', .char '-'], .char '^', false⟩) =
      (.ok (some power), on ⟨[.char '-'], .char '2', false⟩) := rfl
  have two : digits.perform (on ⟨[.char '-'], .char '2', false⟩) =
      (.ok (some (.char '2')), on ⟨[], .char '-', false⟩) := rfl
  have dash : signs.perform (on ⟨[], .char '-', false⟩) =
      (.ok (some minus), on ⟨[], .char '-', true⟩) := rfl
  have missing : digits.perform (on ⟨[], .char '-', true⟩) = (.ok none, on ⟨[], .char '-', true⟩) := rfl
  have breaking : Breaking digits signs start (.char '1') [(power, .char '2')] minus
      (on ⟨[], .char '-', true⟩) :=
    .more one caret (.last two dash missing)
  have own : (OperatorTree.leaf (.char '2')).IsLeftOf (.char '1') [(power, .char '2')] minus := by
    rw [← OperatorTree.ofChain_nil, ← List.append_nil [_]]
    apply OperatorTree.isLeftOf_append
    · intro y last
      cases last
      rfl
    · simp
  obtain ⟨lhs, left, rescued, collects⟩ :=
    chain_missing_operand (.char '1') [(power, .char '2')] minus
  cases left.unique own
  constructor
  · have named : "infix " ++ (Value.char '2').quoted ++ " parse failed at " ++ minus.name =
        "infix '2' parse failed at -" := by decide +kernel
    have noted : "recording error: " ++ "infix '2' parse failed at -" =
        "recording error: infix '2' parse failed at -" := by decide +kernel
    rw [collects breaking rfl (by decide), OperatorTree.eval, named, noted]
    rfl
  · have supplied : (Pattern.rescueChain (some .keepLeft) (.char '2') minus).perform
        (on ⟨[], .char '-', true⟩) = (.ok (some (.char '2')),
          { feed := keeping [] ⟨[], .char '-', true⟩
            memory := .empty
            journal := ⟨[.rescue (.char '2') "-"]⟩ }) := rfl
    have tree : OperatorTree.ofChain (.char '1') ([(power, .char '2')] ++ [(minus, .char '2')]) =
        .node power (.leaf (.char '1')) (.node minus (.leaf (.char '2')) (.leaf (.char '2'))) := by
      rw [List.singleton_append, OperatorTree.ofChain_cons, OperatorTree.ofChain_cons,
        OperatorTree.ofChain_nil]
      · simp
      · simp
        rfl
    rw [((rescued _ breaking).2 supplied (.complete rfl) (by decide)).1, tree]
    rfl

end Read

end Duplex
