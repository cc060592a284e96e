/-
Module: Duplex.Proofs.Precedence
Purpose: Precedence climbing finds the tree that the precedences describe.  `OperatorTree.ofChain`
  says which tree that is, from the root down and without any reading: the root of a chain is one of
  its weakest operators, the leftmost right associative one of them or else the rightmost one.
  `Read.climb` builds the value of that tree from the left, and reads nothing but the chain.
Main exports: OperatorTree, Cut.IsRoot, OperatorTree.ofChain, OperatorTree.eval_ofChain_append,
  Read.Alternating, Read.Joins, Read.climb_alternating, Read.chain_eq_eval_ofChain
-/
import Duplex.Grammar.Operators
import Duplex.Proofs.Reading

namespace Duplex

/-- The rest of a chain after its first operand: operators, each with the operand on its right. -/
abbrev Links (α : Type) := List (Operator α × α)

theorem Operator.yieldsTo_iff {α : Type} {op next : Operator α} :
    op.yieldsTo next ↔ op.ordinal < next.ordinal ∨
      next.ordinal = op.ordinal ∧ op.precedence.rightAssoc = true := by
  simp [yieldsTo]

/-- An operator that another one gives way to holds on to what the other one holds on to. -/
theorem Operator.not_yieldsTo_of_yieldsTo {α : Type} {op inner next : Operator α}
    (yields : op.yieldsTo inner) (firm : ¬ op.yieldsTo next) : ¬ inner.yieldsTo next := by
  rw [yieldsTo_iff] at *
  rintro (lt | ⟨same, _⟩)
  · omega
  · rcases yields with lt | ⟨_, rightAssoc⟩
    · omega
    · exact firm (.inr ⟨by omega, rightAssoc⟩)

/-- What joins onto the right operand of `op` once `next` has taken it is what `op` gives way to. -/
theorem Operator.yieldsTo_of_rightMin {α : Type} {op next inner : Operator α}
    (yields : op.yieldsTo next) (strong : op.rightMin next ≤ inner.ordinal) :
    op.yieldsTo inner := by
  rw [yieldsTo_iff] at *
  unfold rightMin at strong
  rcases yields with lt | ⟨same, rightAssoc⟩
  · rw [if_pos lt] at strong
    exact .inl strong
  · rw [if_neg (by omega)] at strong
    rcases Nat.lt_or_eq_of_le strong with lt | eq
    · exact .inl lt
    · exact .inr ⟨eq.symm, rightAssoc⟩

theorem Operator.rightMin_le {α : Type} {op next : Operator α} (yields : op.yieldsTo next) :
    op.rightMin next ≤ next.ordinal := by
  rw [yieldsTo_iff] at yields
  unfold rightMin
  split <;> omega

/-! ### The root of a chain -/

/-- A chain taken apart at one of its operators. -/
structure Cut (α : Type) where
  before : Links α
  op : Operator α
  operand : α
  after : Links α

namespace Cut

variable {α : Type}

/-- The chain that was cut. -/
def links (c : Cut α) : Links α :=
  c.before ++ (c.op, c.operand) :: c.after

/-- All cuts of a chain, from left to right. -/
def all : Links α → List (Cut α)
  | [] => []
  | (op, operand) :: rest =>
      ⟨[], op, operand, rest⟩ ::
        (all rest).map fun c => { c with before := (op, operand) :: c.before }

/-- A cut at the root: no operator binds weaker, and among those that bind as weakly it is the
    leftmost right associative one or, where none of them is, the rightmost. -/
structure IsRoot (c : Cut α) : Prop where
  least : ∀ x ∈ c.before ++ c.after, c.op.ordinal ≤ x.1.ordinal
  leftmost : ∀ x ∈ c.before, x.1.ordinal = c.op.ordinal → x.1.precedence.rightAssoc = false
  rightmost : c.op.precedence.rightAssoc = false →
    ∀ x ∈ c.after, x.1.ordinal ≠ c.op.ordinal

instance (c : Cut α) : Decidable c.IsRoot :=
  decidable_of_iff
    ((∀ x ∈ c.before ++ c.after, c.op.ordinal ≤ x.1.ordinal) ∧
      (∀ x ∈ c.before, x.1.ordinal = c.op.ordinal → x.1.precedence.rightAssoc = false) ∧
      (c.op.precedence.rightAssoc = false → ∀ x ∈ c.after, x.1.ordinal ≠ c.op.ordinal))
    ⟨fun ⟨h₁, h₂, h₃⟩ => ⟨h₁, h₂, h₃⟩, fun ⟨h₁, h₂, h₃⟩ => ⟨h₁, h₂, h₃⟩⟩

/-- The cut of a chain at its root. -/
def root? (xs : Links α) : Option (Cut α) :=
  (all xs).find? fun c => decide c.IsRoot

theorem mem_all {c : Cut α} {xs : Links α} : c ∈ all xs ↔ c.links = xs := by
  induction xs generalizing c with
  | nil => simp [all, links]
  | cons x rest ih =>
      obtain ⟨op, operand⟩ := x
      obtain ⟨before, op', operand', after⟩ := c
      simp only [all, List.mem_cons, List.mem_map, ih]
      constructor
      · rintro (h | ⟨d, rfl, h⟩)
        · cases h
          rfl
        · cases h
          rfl
      · intro h
        cases before with
        | nil =>
            cases h
            exact .inl rfl
        | cons y before =>
            cases h
            exact .inr ⟨⟨before, op', operand', after⟩, rfl, rfl⟩

/-- Two roots of one chain do not stand one before the other. -/
theorem IsRoot.not_before {c d : Cut α} (hc : c.IsRoot) (hd : d.IsRoot) {between : Links α}
    (left : d.before = c.before ++ (c.op, c.operand) :: between)
    (right : c.after = between ++ (d.op, d.operand) :: d.after) : False := by
  have inBefore : (c.op, c.operand) ∈ d.before := by simp [left]
  have inAfter : (d.op, d.operand) ∈ c.after := by simp [right]
  have upper : d.op.ordinal ≤ c.op.ordinal := hd.least _ (List.mem_append_left _ inBefore)
  have lower : c.op.ordinal ≤ d.op.ordinal := hc.least _ (List.mem_append_right _ inAfter)
  have same : c.op.ordinal = d.op.ordinal := Nat.le_antisymm lower upper
  -- the left one is not right associative, so that the right one had to be further to the left
  have leftAssoc := hd.leftmost _ inBefore same
  exact hc.rightmost leftAssoc _ inAfter same.symm

/-- A chain has at most one root. -/
theorem IsRoot.unique {c d : Cut α} (hc : c.IsRoot) (hd : d.IsRoot) (h : c.links = d.links) :
    c = d := by
  obtain ⟨before, op, operand, after⟩ := c
  obtain ⟨before', op', operand', after'⟩ := d
  rcases List.append_eq_append_iff.mp h with ⟨between, left, right⟩ | ⟨between, left, right⟩
  · cases between with
    | nil =>
        cases right
        simp only [List.append_nil] at left
        rw [left]
    | cons x between =>
        cases right
        exact (hc.not_before hd left rfl).elim
  · cases between with
    | nil =>
        cases right
        simp only [List.append_nil] at left
        rw [left]
    | cons x between =>
        cases right
        exact (hd.not_before hc left rfl).elim

/-- A chain with an operator has a root. -/
theorem exists_isRoot (x : Operator α × α) (xs : Links α) :
    ∃ c : Cut α, c.links = x :: xs ∧ c.IsRoot := by
  induction xs generalizing x with
  | nil => exact ⟨⟨[], x.1, x.2, []⟩, rfl, by simp, by simp, by simp⟩
  | cons y ys ih =>
      obtain ⟨c, eq, root⟩ := ih y
      by_cases first : x.1.ordinal < c.op.ordinal ∨
          x.1.ordinal = c.op.ordinal ∧ x.1.precedence.rightAssoc = true
      · -- the first operator is weaker than all others, or the leftmost right associative one
        have least : ∀ z ∈ y :: ys, c.op.ordinal ≤ z.1.ordinal := by
          intro z mem
          rw [← eq, links, List.mem_append, List.mem_cons] at mem
          rcases mem with mem | rfl | mem
          · exact root.least z (List.mem_append_left _ mem)
          · exact Nat.le_refl _
          · exact root.least z (List.mem_append_right _ mem)
        refine ⟨⟨[], x.1, x.2, y :: ys⟩, rfl, ?_, by simp, ?_⟩
        · intro z mem
          have := least z mem
          show x.1.ordinal ≤ z.1.ordinal
          omega
        · intro leftAssoc z mem
          have := least z mem
          show z.1.ordinal ≠ x.1.ordinal
          rcases first with lt | ⟨_, rightAssoc⟩
          · omega
          · rw [leftAssoc] at rightAssoc
            cases rightAssoc
      · -- the root of the rest remains one
        refine ⟨{ c with before := x :: c.before }, by simp [links, ← eq], ?_, ?_, root.rightmost⟩
        · intro z mem
          rcases List.mem_cons.mp mem with rfl | mem
          · show c.op.ordinal ≤ z.1.ordinal
            omega
          · exact root.least z mem
        · intro z mem same
          rcases List.mem_cons.mp mem with rfl | mem
          · cases rightAssoc : z.1.precedence.rightAssoc with
            | false => rfl
            | true => exact absurd (.inr ⟨same, rightAssoc⟩) first
          · exact root.leftmost z mem same

theorem root?_eq_some {c : Cut α} (root : c.IsRoot) : root? c.links = some c := by
  have mem : c ∈ all c.links := mem_all.mpr rfl
  cases found : root? c.links with
  | none =>
      have := List.find?_eq_none.mp found c mem
      simp [root] at this
  | some d =>
      have isRoot : d.IsRoot := by
        have sound := List.find?_some found
        exact of_decide_eq_true sound
      have same : d.links = c.links := mem_all.mp (List.mem_of_find?_eq_some found)
      rw [isRoot.unique root same]

/-- Both sides of a root are shorter than the chain. -/
theorem length_of_root? {c : Cut α} {xs : Links α} (h : root? xs = some c) :
    c.before.length < xs.length ∧ c.after.length < xs.length := by
  have eq : c.links = xs := mem_all.mp (List.mem_of_find?_eq_some h)
  rw [← eq, links, List.length_append, List.length_cons]
  omega

end Cut

/-! ### The tree of a chain -/

/-- Operators joining operands. -/
inductive OperatorTree (α : Type) where
  | leaf (operand : α)
  | node (op : Operator α) (lhs rhs : OperatorTree α)

namespace OperatorTree

variable {α : Type}

/-- The value of a tree. -/
def eval : OperatorTree α → α
  | leaf operand => operand
  | node op lhs rhs => op.apply lhs.eval rhs.eval

/-- The operands of a tree, from left to right. -/
def operands : OperatorTree α → List α
  | leaf operand => [operand]
  | node _ lhs rhs => lhs.operands ++ rhs.operands

/-- The operators of a tree, from left to right. -/
def operators : OperatorTree α → List (Operator α)
  | leaf _ => []
  | node op lhs rhs => lhs.operators ++ op :: rhs.operators

/-- The tree of a chain: its root, with the chains on both sides of it as subtrees. -/
def ofChain (first : α) (xs : Links α) : OperatorTree α :=
  match found : Cut.root? xs with
  | none => leaf first
  | some c =>
      have := Cut.length_of_root? found
      node c.op (ofChain first c.before) (ofChain c.operand c.after)
termination_by xs.length

@[simp] theorem ofChain_nil (first : α) : ofChain first [] = leaf first := by
  rw [ofChain]
  rfl

theorem ofChain_of_isRoot {c : Cut α} (root : c.IsRoot) (first : α) :
    ofChain first c.links = node c.op (ofChain first c.before) (ofChain c.operand c.after) := by
  rw [ofChain]
  split
  · rename_i found
    rw [Cut.root?_eq_some root] at found
    cases found
  · rename_i d found
    rw [Cut.root?_eq_some root] at found
    cases found
    rfl

/-- Chains are taken apart from the root down: what holds of single operands and of a root with
    chains on both sides holds of all chains. -/
theorem chain_induction {motive : α → Links α → Prop} (single : ∀ first, motive first [])
    (root : ∀ first (c : Cut α), c.IsRoot → motive first c.before → motive c.operand c.after →
      motive first c.links) (first : α) (xs : Links α) : motive first xs := by
  induction h : xs.length using Nat.strongRecOn generalizing first xs with
  | ind n ih =>
      cases xs with
      | nil => exact single first
      | cons x xs =>
          obtain ⟨c, eq, isRoot⟩ := Cut.exists_isRoot x xs
          have size : n = c.before.length + (c.after.length + 1) := by
            rw [← h, ← eq, Cut.links, List.length_append, List.length_cons]
          rw [← eq]
          exact root first c isRoot (ih _ (by omega) first c.before rfl)
            (ih _ (by omega) c.operand c.after rfl)

/-- A tree has the operands of its chain, each once and in their order. -/
theorem operands_ofChain (first : α) (xs : Links α) :
    (ofChain first xs).operands = first :: xs.map Prod.snd := by
  induction first, xs using chain_induction with
  | single first => simp [operands]
  | root first c isRoot before after =>
      rw [ofChain_of_isRoot isRoot]
      simp [operands, before, after, Cut.links]

/-- A tree has the operators of its chain, each once and in their order. -/
theorem operators_ofChain (first : α) (xs : Links α) :
    (ofChain first xs).operators = xs.map Prod.fst := by
  induction first, xs using chain_induction with
  | single first => simp [operators]
  | root first c isRoot before after =>
      rw [ofChain_of_isRoot isRoot]
      simp [operators, before, after, Cut.links]

/-- An operator that gives way to all others of its chain is the root. -/
theorem ofChain_cons (first : α) {op : Operator α} (operand : α) {xs : Links α}
    (yields : ∀ x ∈ xs, op.yieldsTo x.1) :
    ofChain first ((op, operand) :: xs) = node op (leaf first) (ofChain operand xs) := by
  have root : (Cut.mk [] op operand xs).IsRoot := by
    constructor
    · intro x mem
      have := Operator.yieldsTo_iff.mp (yields x mem)
      show op.ordinal ≤ x.1.ordinal
      omega
    · intro x mem
      cases mem
    · intro leftAssoc x mem
      rcases Operator.yieldsTo_iff.mp (yields x mem) with lt | ⟨_, rightAssoc⟩
      · exact Nat.ne_of_gt lt
      · rw [leftAssoc] at rightAssoc
        cases rightAssoc
  have split := ofChain_of_isRoot root first
  rw [ofChain_nil] at split
  exact split

/-- The root of a chain is also the root where operators stand in front that do not give way to
    its first one. -/
theorem isRoot_append {c : Cut α} (root : c.IsRoot) {front : Links α}
    (firm : ∀ x ∈ front, ∀ y ∈ c.links.head?, ¬ x.1.yieldsTo y.1) :
    ({ c with before := front ++ c.before } : Cut α).IsRoot := by
  -- the first operator lies between the root and those in front
  obtain ⟨y, head, bound⟩ : ∃ y ∈ c.links.head?, c.op.ordinal ≤ y.1.ordinal := by
    obtain ⟨before, op, operand, after⟩ := c
    cases before with
    | nil => exact ⟨(op, operand), rfl, Nat.le_refl _⟩
    | cons y before => exact ⟨y, rfl, root.least y (List.mem_append_left _ List.mem_cons_self)⟩
  have between : ∀ x ∈ front, y.1.ordinal ≤ x.1.ordinal ∧
      (y.1.ordinal = x.1.ordinal → x.1.precedence.rightAssoc = false) := by
    intro x mem
    have holds := mt Operator.yieldsTo_iff.mpr (firm x mem y head)
    constructor
    · omega
    · intro same
      exact Bool.eq_false_iff.mpr fun rightAssoc => holds (.inr ⟨same, rightAssoc⟩)
  constructor
  · intro x mem
    rw [List.append_assoc, List.mem_append] at mem
    rcases mem with mem | mem
    · exact Nat.le_trans bound (between x mem).1
    · exact root.least x mem
  · intro x mem same
    rcases List.mem_append.mp mem with mem | mem
    · have same : x.1.ordinal = c.op.ordinal := same
      have := (between x mem).1
      exact (between x mem).2 (by omega)
    · exact root.leftmost x mem same
  · exact root.rightmost

/-- Operators that do not give way to the first one after them can be joined before it. -/
theorem eval_ofChain_append (first : α) (front xs : Links α)
    (firm : ∀ x ∈ front, ∀ y ∈ xs.head?, ¬ x.1.yieldsTo y.1) :
    (ofChain first (front ++ xs)).eval = (ofChain (ofChain first front).eval xs).eval := by
  generalize joined : (ofChain first front).eval = value
  induction value, xs using chain_induction with
  | single value => rw [List.append_nil, joined, ofChain_nil, eval]
  | root value c isRoot before after =>
      have whole : front ++ c.links = ({ c with before := front ++ c.before } : Cut α).links :=
        (List.append_assoc _ _ _).symm
      have left : ∀ x ∈ front, ∀ y ∈ c.before.head?, ¬ x.1.yieldsTo y.1 := by
        intro x mem y head
        apply firm x mem y
        rw [Cut.links, List.head?_append, Option.mem_def.mp head]
        rfl
      rw [whole, ofChain_of_isRoot (isRoot_append isRoot firm), ofChain_of_isRoot isRoot, eval,
        eval, before left joined]

end OperatorTree

/-! ### Reading a chain -/

namespace Read

variable {μ σ α : Type}

/-- Reading an operand, an operator, an operand and so on in turn gives `first` and `xs`, up to the
    first time that no operator is there. -/
inductive Alternating (operand : Read μ σ (Option α)) (operator : Read μ σ (Option (Operator α))) :
    Session μ σ → α → Links α → Session μ σ → Prop
  | last {s s₁ t first} :
      operand.perform s = (.ok (some first), s₁) →
      operator.perform s₁ = (.ok none, t) →
      Alternating operand operator s first [] t
  | more {s s₁ s₂ t first op second xs} :
      operand.perform s = (.ok (some first), s₁) →
      operator.perform s₁ = (.ok (some op), s₂) →
      Alternating operand operator s₂ second xs t →
      Alternating operand operator s first ((op, second) :: xs) t

/-- What is left of a chain once the next operator, if there is one, has been read. -/
inductive Ahead (operand : Read μ σ (Option α)) (operator : Read μ σ (Option (Operator α))) :
    Option (Operator α) → Session μ σ → Links α → Session μ σ → Prop
  | done {t} : Ahead operand operator none t [] t
  | pending {s t op second xs} :
      Alternating operand operator s second xs t →
      Ahead operand operator (some op) s ((op, second) :: xs) t

theorem Alternating.ahead {operand : Read μ σ (Option α)}
    {operator : Read μ σ (Option (Operator α))} {s t : Session μ σ} {first : α} {xs : Links α}
    (h : Alternating operand operator s first xs t) :
    ∃ s₁ next s₂, operand.perform s = (.ok (some first), s₁) ∧
      operator.perform s₁ = (.ok next, s₂) ∧ Ahead operand operator next s₂ xs t := by
  cases h with
  | last read stop => exact ⟨_, _, _, read, stop, .done⟩
  | more read found rest => exact ⟨_, _, _, read, found, .pending rest⟩

section Climbing

variable {operand : Read μ σ (Option α)} {operator : Read μ σ (Option (Operator α))}
  {right : α → Operator α → Read μ σ (Option α)}

/-- What a level of climbing does with the chain ahead: it joins the operators that `takes`
    describes onto `lhs`, up to the first one that is different, and hands that one down. -/
def Joins (operand : Read μ σ (Option α)) (operator : Read μ σ (Option (Operator α)))
    (takes : Operator α → Prop) (lhs : α) (xs : Links α)
    (level : Read μ σ (Option (α × Option (Operator α)))) (s t : Session μ σ) : Prop :=
  ∃ front rest stop s₁, xs = front ++ rest ∧ (∀ x ∈ front, takes x.1) ∧
    (∀ y ∈ rest.head?, ¬ takes y.1) ∧
    level.perform s = (.ok (some ((OperatorTree.ofChain lhs front).eval, stop)), s₁) ∧
    Ahead operand operator stop s₁ rest t

/-- What `climb` does with an operator that has been read, given fuel for the chain ahead. -/
def Climbs (operand : Read μ σ (Option α)) (operator : Read μ σ (Option (Operator α)))
    (right : α → Operator α → Read μ σ (Option α)) (fuel : Nat) : Prop :=
  ∀ (lhs : α) (min : Nat) {op xs s t}, 2 * xs.length ≤ fuel → Ahead operand operator (some op) s xs t →
    Joins operand operator (min ≤ ·.ordinal) lhs xs (climb operator right fuel lhs (some op) min) s t

/-- What `tighten` does, given fuel for the chain ahead. -/
def Tightens (operand : Read μ σ (Option α)) (operator : Read μ σ (Option (Operator α)))
    (right : α → Operator α → Read μ σ (Option α)) (fuel : Nat) : Prop :=
  ∀ (op : Operator α) (rhs : α) {next xs s t}, 2 * xs.length < fuel → Ahead operand operator next s xs t →
    Joins operand operator (op.yieldsTo ·) rhs xs (tighten operator right fuel op rhs next) s t

/-- A level that takes nothing hands down the operator it was given. -/
theorem Joins.nothing {takes : Operator α → Prop} {lhs : α} {xs : Links α}
    {level : Read μ σ (Option (α × Option (Operator α)))} {next : Option (Operator α)}
    {s t : Session μ σ} (refused : ∀ y ∈ xs.head?, ¬ takes y.1)
    (level_eq : level = pure (some (lhs, next))) (ahead : Ahead operand operator next s xs t) :
    Joins operand operator takes lhs xs level s t := by
  refine ⟨[], xs, next, s, rfl, ?_, refused, ?_, ahead⟩
  · intro x mem
    cases mem
  · rw [level_eq, OperatorTree.ofChain_nil, perform_pure]
    rfl

/-- Operators that do not give way to the first one after them may be joined before a level goes
    on. -/
theorem Joins.prepend {takes : Operator α → Prop} {lhs : α} {front xs : Links α}
    {level level' : Read μ σ (Option (α × Option (Operator α)))} {s s' t : Session μ σ}
    (taken : ∀ x ∈ front, takes x.1)
    (firm : ∀ x ∈ front, ∀ y ∈ xs.head?, ¬ x.1.yieldsTo y.1)
    (same : level.perform s = level'.perform s')
    (joins : Joins operand operator takes (OperatorTree.ofChain lhs front).eval xs level' s' t) :
    Joins operand operator takes lhs (front ++ xs) level s t := by
  obtain ⟨more, rest, stop, s₁, rfl, takenMore, refused, joined, ahead⟩ := joins
  refine ⟨front ++ more, rest, stop, s₁, by rw [List.append_assoc], ?_, refused, ?_, ahead⟩
  · intro x mem
    rcases List.mem_append.mp mem with mem | mem
    · exact taken x mem
    · exact takenMore x mem
  · rw [same, joined, OperatorTree.eval_ofChain_append]
    intro x mem y head
    apply firm x mem y
    rw [List.head?_append, Option.mem_def.mp head]
    rfl

/-- The right operand of `op` takes the operators that `op` gives way to, and the level goes on
    with the operator after them. -/
theorem Climbs.step
    (reads : ∀ {lhs op s b s₁}, operand.perform s = (.ok (some b), s₁) →
      (right lhs op).perform s = (.ok (some b), s₁))
    {fuel : Nat} (climbs : Climbs operand operator right fuel)
    (tightens : Tightens operand operator right fuel) :
    Climbs operand operator right (fuel + 1) := by
  intro lhs min op xs s t enough ahead
  cases ahead with
  | @pending _ _ _ second xs rest =>
      simp only [List.length_cons] at enough
      rw [climb_some]
      by_cases weak : op.ordinal < min
      · rw [if_pos weak]
        apply Joins.nothing _ rfl (.pending rest)
        intro y head
        cases head
        exact Nat.not_le_of_lt weak
      · rw [if_neg weak]
        obtain ⟨s₁, next, s₂, read, found, rest⟩ := rest.ahead
        obtain ⟨inner, after, stop, s₃, rfl, yields, refused, joined, ahead⟩ :=
          tightens op second (by omega) rest
        have strong : ∀ x ∈ (op, second) :: inner, min ≤ x.1.ordinal := by
          intro x mem
          rcases List.mem_cons.mp mem with rfl | mem
          · exact Nat.le_of_not_lt weak
          · have := Operator.yieldsTo_iff.mp (yields x mem)
            omega
        have firm : ∀ x ∈ (op, second) :: inner, ∀ y ∈ after.head?, ¬ x.1.yieldsTo y.1 := by
          intro x mem y head
          rcases List.mem_cons.mp mem with rfl | mem
          · exact refused y head
          · exact Operator.not_yieldsTo_of_yieldsTo (yields x mem) (refused y head)
        have value : op.apply lhs (OperatorTree.ofChain second inner).eval =
            (OperatorTree.ofChain lhs ((op, second) :: inner)).eval := by
          rw [OperatorTree.ofChain_cons lhs second yields]
          rfl
        refine Joins.prepend strong firm ((perform_bind_ok (reads read) _).trans
          ((perform_bind_ok found _).trans (perform_bind_ok joined _))) ?_
        rw [← value]
        cases ahead with
        | done => exact Joins.nothing (by simp) rfl .done
        | pending ahead =>
            apply climbs _ min _ (.pending ahead)
            rw [List.length_append] at enough
            omega

/-- An operator that `op` gives way to starts a level of its own on the right operand. -/
theorem Tightens.step {fuel : Nat} (climbs : Climbs operand operator right fuel)
    (tightens : Tightens operand operator right fuel) :
    Tightens operand operator right (fuel + 1) := by
  intro op rhs next xs s t enough ahead
  cases ahead with
  | done =>
      rw [tighten_none]
      exact Joins.nothing (by simp) rfl .done
  | @pending _ _ next second xs rest =>
      rw [tighten_some]
      by_cases yields : op.yieldsTo next
      · rw [if_pos yields]
        obtain ⟨front, after, stop, s₁, eq, strong, refused, joined, ahead⟩ :=
          climbs rhs (op.rightMin next) (Nat.le_of_lt_succ enough) (.pending rest)
        have taken : ∀ x ∈ front, op.yieldsTo x.1 := by
          intro x mem
          exact Operator.yieldsTo_of_rightMin yields (strong x mem)
        have firm : ∀ x ∈ front, ∀ y ∈ after.head?, ¬ x.1.yieldsTo y.1 := by
          intro x mem y head
          have := strong x mem
          have := refused y head
          rw [Operator.yieldsTo_iff]
          omega
        -- the level has joined at least the operator it started with
        have progress : front ≠ [] := by
          rintro rfl
          apply refused (next, second)
          · rw [← List.nil_append after, ← eq]
            rfl
          · exact Operator.rightMin_le yields
        have size := congrArg List.length eq
        rw [List.length_append] at size
        have := List.length_pos_iff.mpr progress
        rw [eq]
        exact Joins.prepend taken firm (perform_bind_ok joined _) (tightens op _ (by omega) ahead)
      · rw [if_neg yields]
        apply Joins.nothing _ rfl (.pending rest)
        intro y head
        cases head
        exact yields

theorem climbs_and_tightens
    (reads : ∀ {lhs op s b s₁}, operand.perform s = (.ok (some b), s₁) →
      (right lhs op).perform s = (.ok (some b), s₁)) (fuel : Nat) :
    Climbs operand operator right fuel ∧ Tightens operand operator right fuel := by
  induction fuel with
  | zero =>
      constructor
      · intro lhs min op xs s t enough ahead
        cases ahead
        simp only [List.length_cons] at enough
        omega
      · intro op rhs next xs s t enough
        omega
  | succ fuel ih => exact ⟨Climbs.step reads ih.1 ih.2, Tightens.step ih.1 ih.2⟩

/-- The lowest level takes the whole chain. -/
theorem Joins.all {lhs : α} {xs : Links α} {level : Read μ σ (Option (α × Option (Operator α)))}
    {s t : Session μ σ} (joins : Joins operand operator (0 ≤ ·.ordinal) lhs xs level s t) :
    level.perform s = (.ok (some ((OperatorTree.ofChain lhs xs).eval, none)), t) := by
  obtain ⟨front, rest, stop, s₁, rfl, _, refused, joined, ahead⟩ := joins
  cases ahead with
  | done => rw [List.append_nil, joined]
  | pending => exact absurd (Nat.zero_le _) (refused _ rfl)

/-- Climbing from the first operand of a chain joins all of it. -/
theorem climb_alternating
    (reads : ∀ {lhs op s b s₁}, operand.perform s = (.ok (some b), s₁) →
      (right lhs op).perform s = (.ok (some b), s₁))
    {fuel : Nat} {s s₁ t : Session μ σ} {first : α} {next : Option (Operator α)} {xs : Links α}
    (found : operator.perform s = (.ok next, s₁)) (ahead : Ahead operand operator next s₁ xs t)
    (enough : 2 * xs.length < fuel) :
    (climb operator right fuel first none 0).perform s =
      (.ok (some ((OperatorTree.ofChain first xs).eval, none)), t) := by
  cases fuel with
  | zero => omega
  | succ fuel =>
      rw [climb_none, perform_bind_ok found]
      cases ahead with
      | done =>
          rw [OperatorTree.ofChain_nil]
          rfl
      | pending rest =>
          apply Joins.all
          exact (climbs_and_tightens reads (fuel + 1)).1 first 0 (Nat.le_of_lt enough)
            (.pending rest)

end Climbing

/-- A chain of operators reads as the value of its tree.  It takes from the feed what reading
    operands and operators in turn takes, and the tree has each of them once. -/
theorem chain_eq_eval_ofChain {operand : Read μ σ (Option α)}
    {operator : Read μ σ (Option (Operator α))} (rescue : α → Operator α → Read μ σ (Option α))
    {fuel : Nat} {s t : Session μ σ} {first : α} {xs : Links α}
    (alternating : Alternating operand operator s first xs t) (enough : 2 * xs.length < fuel) :
    (chain fuel operand operator rescue).perform s =
        (.ok (some (OperatorTree.ofChain first xs).eval), t) ∧
      (OperatorTree.ofChain first xs).operands = first :: xs.map Prod.snd ∧
      (OperatorTree.ofChain first xs).operators = xs.map Prod.fst := by
  obtain ⟨s₁, next, s₂, read, found, ahead⟩ := alternating.ahead
  constructor
  · unfold chain
    rw [perform_bind_ok read]
    dsimp only
    rw [perform_bind_ok (climb_alternating _ found ahead enough)]
    · rfl
    · intro lhs op s b s' read
      rw [perform_bind_ok read]
      rfl
  · exact ⟨OperatorTree.operands_ofChain first xs, OperatorTree.operators_ofChain first xs⟩

/-- Digits as operands. -/
def digit : Read Unit Pulled (Option Value) :=
  asValue (Condition.range (.char '0') (.char '9')).read

/-- A left associative operator. -/
def minus : Operator Value :=
  .named "-" 1 false .pair

/-- A right associative operator of the same ordinal. -/
def power : Operator Value :=
  .named "^" 1 true .pair

/-- Both operators. -/
def sign : Read Unit Pulled (Option (Operator Value)) := do
  let found ← (Condition.oneOf [.char '-', .char '^']).read
  return found.map fun t => if t = .char '^' then power else minus

/-- In `1-2^3-4` the right associative operator is the root: it holds on to nothing on its left, and
    the operators on both sides of it are joined first. -/
theorem chain_mixed :
    (chain 7 digit sign fun lhs _ => return some lhs).perform
      { feed := ⟨[.char '-', .char '2', .char '^', .char '3', .char '-', .char '4'], .char '1', false⟩
        memory := () } =
      (.ok (some (.pair (.pair (.char '1') (.char '2')) (.pair (.char '3') (.char '4')))),
        { feed := ⟨[], .char '4', true⟩, memory := () }) := by
  let cut : Cut Value := ⟨[(minus, .char '2')], power, .char '3', [(minus, .char '4')]⟩
  have alternating : Alternating digit sign
      { feed := ⟨[.char '-', .char '2', .char '^', .char '3', .char '-', .char '4'], .char '1', false⟩
        memory := () } (.char '1') cut.links { feed := ⟨[], .char '4', true⟩, memory := () } :=
    .more rfl rfl (.more rfl rfl (.more rfl rfl (.last rfl rfl)))
  have root : cut.IsRoot := by decide
  have tree : OperatorTree.ofChain (.char '1') cut.links =
      .node power (.node minus (.leaf (.char '1')) (.leaf (.char '2')))
        (.node minus (.leaf (.char '3')) (.leaf (.char '4'))) := by
    rw [OperatorTree.ofChain_of_isRoot root, OperatorTree.ofChain_cons, OperatorTree.ofChain_cons,
      OperatorTree.ofChain_nil, OperatorTree.ofChain_nil]
    · simp
    · simp
  rw [(chain_eq_eval_ofChain _ alternating (by decide)).1, tree]
  rfl

end Read

end Duplex
