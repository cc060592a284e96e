/-
Module: Duplex.Proofs.Termination.Parts
Purpose: What a grammar comes to while it reads.  Its parts are the patterns that its pattern leads to,
  through the definitions of references too; without a reference that leads back to itself, going
  from part to part comes to an end.  The memories it may come to are those made by its own parts,
  which never change a definition.  Describing a part then comes to an end as well.
Main exports: Pattern.HasPart, Grammar.Part, Grammar.Acyclic, Grammar.Part.acc,
  Grammar.Reached, Write.Settles, Pattern.describe_settles
-/
import Mathlib.Logic.Relation
import Duplex.Proofs.Predictive
import Duplex.Proofs.Writing

namespace Duplex

/-! ### Parts of patterns -/

namespace Pattern

/-- The patterns that a pattern is directly made of. -/
def HasPart : Pattern → Pattern → Prop
  | .stickyEnd item _ _, q => q = item
  | .peek item, q => q = item
  | .tuple parts, q => q ∈ parts
  | .sequence parts, q => q ∈ parts
  | .upTo ending _ item, q => q = ending ∨ q = item
  | .repeated _ item _ _, q => q = item
  | .choice cases, q => q ∈ cases
  | .convert item _, q => q = item
  | .contextual head body, q => q = head ∨ ∃ context, q = body context
  | .lazy _ item, q => q = item
  | .renewed _ item, q => q = item
  | .piped item _, q => q = item
  | .alsoDo item _, q => q = item
  | .optional item _, q => q = item
  | .constant item _, q => q = item
  | .writtenBy item _, q => q = item
  | .named item _, q => q = item
  | .settle item skip _ _, q => q = item ∨ q = skip
  | .surround left right item, q => left = some q ∨ right = some q ∨ q = item
  | .joined sep item _ _, q => q = sep ∨ q = item
  | .chain operand _ padding _, q => q = operand ∨ padding = some q
  | .outline item tail layout _ _ _ block, q =>
      q = item ∨ q = tail ∨ q = layout ∨
        ∃ choose head rest, block = some choose ∧ choose head rest = some q
  | .matched item _ _ _, q => q = item
  | _, _ => False

/-- What holds of a pattern whenever it holds of the patterns it is made of holds of all patterns. -/
theorem part_induction {motive : Pattern → Prop}
    (step : ∀ p : Pattern, (∀ q, p.HasPart q → motive q) → motive p) (p : Pattern) : motive p := by
  have leaf : ∀ {p : Pattern}, (∀ q, ¬ p.HasPart q) → motive p :=
    fun none => step _ fun q part => absurd part (none q)
  have one : ∀ {p item : Pattern}, (∀ q, p.HasPart q → q = item) → motive item → motive p :=
    fun only holds => step _ fun q part => only q part ▸ holds
  have two : ∀ {p first second : Pattern}, (∀ q, p.HasPart q → q = first ∨ q = second) →
      motive first → motive second → motive p := by
    intro p first second only holds holds'
    apply step
    intro q part
    rcases only q part with rfl | rfl
    · exact holds
    · exact holds'
  apply @Pattern.rec motive (fun parts => ∀ q ∈ parts, motive q)
    (fun part => ∀ q, part = some q → motive q)
    (fun block => ∀ choose head rest q, block = some choose → choose head rest = some q → motive q)
  case satisfy => exact fun _ => leaf fun _ => id
  case insist => exact fun _ _ => leaf fun _ => id
  case always => exact fun _ => leaf fun _ => id
  case never => exact leaf fun _ => id
  case stickyEnd => exact fun _ _ _ => one fun _ => id
  case peek => exact fun _ => one fun _ => id
  case lookup => exact fun _ _ => leaf fun _ => id
  case tuple => exact fun parts => step (.tuple parts)
  case sequence => exact fun parts => step (.sequence parts)
  case upTo => exact fun _ _ _ => two fun _ => id
  case repeated => exact fun _ _ _ _ => one fun _ => id
  case choice => exact fun parts => step (.choice parts)
  case convert => exact fun _ _ => one fun _ => id
  case contextual =>
    intro head body holds each
    apply step
    rintro q (rfl | ⟨context, rfl⟩)
    · exact holds
    · exact each context
  case ref => exact fun _ => leaf fun _ => id
  case lazy => exact fun _ _ => one fun _ => id
  case renewed => exact fun _ _ => one fun _ => id
  case piped => exact fun _ _ => one fun _ => id
  case alsoDo => exact fun _ _ => one fun _ => id
  case optional => exact fun _ _ => one fun _ => id
  case constant => exact fun _ _ => one fun _ => id
  case writtenBy => exact fun _ _ => one fun _ => id
  case named => exact fun _ _ => one fun _ => id
  case settle => exact fun _ _ _ _ => two fun _ => id
  case surround =>
    intro left right item lefts rights holds
    apply step
    rintro q (part | part | rfl)
    · exact lefts q part
    · exact rights q part
    · exact holds
  case joined => exact fun _ _ _ _ => two fun _ => id
  case chain =>
    intro operand operators padding rescue holds pads
    apply step
    rintro q (rfl | part)
    · exact holds
    · exact pads q part
  case outline =>
    intro item tail layout base margin rescue block items tails layouts blocks
    apply step
    rintro q (rfl | rfl | rfl | ⟨choose, head, rest, chosen, part⟩)
    · exact items
    · exact tails
    · exact layouts
    · exact blocks choose head rest q chosen part
  case trie => exact fun _ _ _ => leaf fun _ => id
  case dictionary => exact fun _ _ => leaf fun _ => id
  case matched => exact fun _ _ _ _ => one fun _ => id
  case openBracket => exact fun _ => leaf fun _ => id
  case closeBracket => exact fun _ => leaf fun _ => id
  case nil => simp
  case cons =>
    intro p rest holds others
    simpa using ⟨holds, others⟩
  case none => simp
  case some => simp
  case none => simp
  case some =>
    intro choose each chosen head rest q same part
    cases same
    exact each head rest q part

end Pattern

/-! ### Parts of grammars -/

namespace Grammar

open Relation (ReflTransGen)

/-- One pattern leads to another: it is made of it, or is a reference that is defined as it. -/
def Leads (g : Grammar) (p q : Pattern) : Prop :=
  p.HasPart q ∨ ∃ name, p = .ref name ∧ g.memory.definition? name = some q

/-- The patterns that a grammar comes to by its own pattern. -/
def Part (g : Grammar) : Pattern → Prop :=
  ReflTransGen g.Leads g.pattern

/-- No reference leads back to itself. -/
def Acyclic (g : Grammar) : Prop :=
  ∀ name target, g.Part (.ref name) → g.memory.definition? name = some target →
    ¬ ReflTransGen g.Leads target (.ref name)

variable {g : Grammar}

theorem Part.leads {p q : Pattern} (part : g.Part p) (leads : g.Leads p q) : g.Part q :=
  part.tail leads

/-- Looking up a reference of an acyclic grammar, its name cannot come up again; so if all names that
    can come up are listed, there is one name less with every look-up. -/
theorem acc_of_names (acyclic : g.Acyclic) (names : List String) {p : Pattern} (part : g.Part p)
    (listed : ∀ name target, g.memory.definition? name = some target →
      ReflTransGen g.Leads p (.ref name) → name ∈ names) :
    Acc (fun q p => g.Leads p q) p := by
  induction length : names.length using Nat.strongRecOn generalizing names p with
  | ind n ih =>
      induction p using Pattern.part_induction with
      | step p inner =>
          constructor
          rintro q (made | ⟨name, rfl, defined⟩)
          · have leads : g.Leads p q := .inl made
            apply inner q made (part.leads leads)
            intro name target defined reaches
            exact listed name target defined (.head leads reaches)
          · have leads : g.Leads (.ref name) q := .inr ⟨name, rfl, defined⟩
            have here : name ∈ names := listed name q defined .refl
            have fewer : (names.erase name).length < n := by
              have nonempty := List.length_pos_of_mem here
              rw [List.length_erase_of_mem here]
              omega
            apply ih _ fewer (names.erase name) (part.leads leads) _ rfl
            intro other target known reaches
            have ne : other ≠ name := by
              rintro rfl
              exact acyclic other q part defined reaches
            exact (List.mem_erase_of_ne ne).mpr (listed other target known (.head leads reaches))

/-- Going from part to part of an acyclic grammar comes to an end. -/
theorem Part.acc {p : Pattern} (part : g.Part p) (acyclic : g.Acyclic) :
    Acc (fun q p => g.Leads p q) p := by
  apply acc_of_names acyclic (g.memory.definitions.map Prod.fst) part
  intro name target defined _
  obtain ⟨before, after, split, _⟩ := List.lookup_eq_some_iff.mp defined
  simp [split]

/-! ### Memories of a grammar -/

/-- The memories that a grammar may come to by what its parts do: making a pattern on first use,
    learning a word, and setting cells aside for a use of their own. -/
inductive Reached (g : Grammar) : Memory → Prop
  | start : Reached g g.memory
  | supply {cell item m} : g.Part (.lazy cell item) → Reached g m → Reached g (m.supply cell)
  | learn {cell initial classify path v m} : g.Part (.trie cell initial (.lazy classify)) →
      path ≠ [] → Reached g m → Reached g (m.setTrie cell ((m.trieAt cell initial).insert path v))
  | forget {cells item m} : g.Part (.renewed cells item) → Reached g m → Reached g (m.forget cells)
  | restore {cells item before after} : g.Part (.renewed cells item) → Reached g before →
      Reached g after → Reached g (.restore cells before after)

/-- A grammar does not change its definitions. -/
theorem Reached.definition? {m : Memory} (reached : g.Reached m) (name : String) :
    m.definition? name = g.memory.definition? name := by
  induction reached with
  | start => rfl
  | supply _ _ ih => exact ih
  | learn _ _ _ ih => exact ih
  | forget _ _ ih => exact ih
  | restore _ _ _ _ ih => exact ih

end Grammar

/-! ### Writes that go through -/

namespace Write

variable {μ α β : Type} {M : μ → Prop}

/-- The write goes through alike from some amount of fuel on, with every memory that the grammar may
    come to, and leaves such a memory. -/
def Settles (M : μ → Prop) (w : Nat → Write μ α) : Prop :=
  ∀ ⦃d⦄, M d.memory → ∃ a e, (Granted fun fuel => (w fuel).perform d = (.ok a, e)) ∧ M e.memory

namespace Settles

theorem pure (a : α) : Settles M fun _ => (Pure.pure a : Write μ α) :=
  fun d allowed => ⟨a, d, .of_forall fun _ => rfl, allowed⟩

theorem bind {w : Nat → Write μ α} {f : Nat → α → Write μ β} (first : Settles M w)
    (second : ∀ a, Settles M fun fuel => f fuel a) : Settles M fun fuel => w fuel >>= f fuel := by
  intro d allowed
  obtain ⟨a, e, runs, between⟩ := first allowed
  obtain ⟨b, e', runs', after⟩ := second a between
  refine ⟨b, e', (runs.and runs').mono fun fuel both => ?_, after⟩
  rw [perform_bind_ok both.1]
  exact both.2

theorem map {w : Nat → Write μ α} (f : α → β) (first : Settles M w) :
    Settles M fun fuel => do return f (← w fuel) :=
  first.bind fun a => pure (f a)

theorem of_succ {w : Nat → Write μ α} (settles : Settles M fun fuel => w (fuel + 1)) :
    Settles M w := by
  intro d allowed
  obtain ⟨a, e, runs, after⟩ := settles allowed
  exact ⟨a, e, Granted.succ (fun _ run => run) runs, after⟩

theorem scoping {w : Nat → Write μ α} {enter : μ → μ} {leave : μ → μ → μ}
    (entering : ∀ {m}, M m → M (enter m)) (leaving : ∀ {m n}, M m → M n → M (leave m n))
    (settles : Settles M w) : Settles M fun fuel => Write.scoping enter leave (w fuel) := by
  intro d allowed
  have entered : M (Desk.mk (enter d.memory) d.journal).memory := entering allowed
  obtain ⟨a, e, runs, after⟩ := settles entered
  refine ⟨a, { e with memory := leave d.memory e.memory }, runs.mono fun fuel run => ?_,
    leaving allowed after⟩
  change (((w fuel).perform ⟨enter d.memory, d.journal⟩).1,
    { ((w fuel).perform ⟨enter d.memory, d.journal⟩).2 with
      memory := leave d.memory ((w fuel).perform ⟨enter d.memory, d.journal⟩).2.memory }) = _
  rw [run]

theorem mapM {γ : Type} {f : Nat → γ → Write μ α} {parts : List γ}
    (each : ∀ p ∈ parts, Settles M fun fuel => f fuel p) :
    Settles M fun fuel => parts.mapM (f fuel) := by
  induction parts with
  | nil =>
      simp only [List.mapM_nil]
      exact pure _
  | cons p rest ih =>
      simp only [List.mapM_cons]
      exact (each p List.mem_cons_self).bind fun a =>
        (ih fun q later => each q (List.mem_cons_of_mem p later)).map (a :: ·)

theorem supply {M : Memory → Prop} {cell : Nat} (allowed : ∀ {m}, M m → M (m.supply cell)) :
    Settles M fun _ => Write.supply cell := by
  intro d before
  by_cases made : d.memory.isSupplied cell
  · refine ⟨(), d, .of_forall fun _ => ?_, before⟩
    change Write.perform (if d.memory.isSupplied cell = true then _ else _) _ = _
    rw [if_pos made]
    rfl
  · refine ⟨(), ⟨d.memory.supply cell, d.journal.add .supplied⟩, .of_forall fun _ => ?_,
      allowed before⟩
    change Write.perform (if d.memory.isSupplied cell = true then _ else _) _ = _
    rw [if_neg made]
    rfl

theorem definition?_bind {M : Memory → Prop} {name : String}
    {f : Nat → Option Pattern → Write Memory β}
    (second : ∀ m, M m → Settles M fun fuel => f fuel (m.definition? name)) :
    Settles M fun fuel => Write.definition? name >>= f fuel :=
  fun d allowed => second d.memory allowed allowed

theorem trieAt {M : Memory → Prop} (cell : Nat) (initial : Registry Token Value) :
    Settles M fun _ => Write.trieAt cell initial :=
  fun d allowed => ⟨d.memory.trieAt cell initial, d, .of_forall fun _ => rfl, allowed⟩

end Settles

end Write

/-! ### Descriptions -/

namespace Pattern

open Write (Settles)

/-- What is described of a pattern are patterns that it is made of. -/
theorem hasPart_of_parts {p q : Pattern} {ps : List Pattern} {text : List String → String}
    (made : p.wording = .parts ps text) (mem : q ∈ ps) : p.HasPart q := by
  cases p <;> cases made <;> grind [HasPart]

/-- Describing a part of an acyclic grammar goes through. -/
theorem describe_settles {g : Grammar} (acyclic : g.Acyclic) {p : Pattern} (part : g.Part p)
    (visiting : List Visit) : Settles g.Reached fun fuel => describe fuel visiting p := by
  induction part.acc acyclic generalizing visiting with
  | intro p _ ih =>
      have inner : ∀ q, p.HasPart q → ∀ visiting,
          Settles g.Reached fun fuel => describe fuel visiting q :=
        fun q made => ih q (.inl made) (part.leads (.inl made))
      apply Settles.of_succ
      cases made : p.wording with
      | parts ps text =>
          simp only [describe_of_parts _ visiting made]
          exact (Settles.mapM fun q mem => inner q (hasPart_of_parts made mem) visiting).map text
      | registry cell initial text =>
          simp only [describe_of_registry _ visiting made]
          exact (Settles.trieAt cell initial).map text
      | defined name =>
          obtain rfl := eq_of_defined made
          by_cases within : .name name ∈ visiting
          · simp only [describe_of_recursion _ within]
            exact .pure _
          · simp only [describe_of_defined _ within]
            refine .definition?_bind fun m reached => ?_
            rw [reached.definition?]
            cases defined : g.memory.definition? name with
            | none => exact .pure _
            | some target =>
                have leads : g.Leads (.ref name) target := .inr ⟨name, rfl, defined⟩
                exact ih target leads (part.leads leads) _
      | supplied cell item =>
          obtain rfl := eq_of_supplied made
          by_cases within : .cell cell ∈ visiting
          · simp only [describe_of_remade _ within]
            exact .pure _
          · simp only [describe_of_supplied _ within]
            exact (Settles.supply (.supply part)).bind fun _ => inner item rfl _
      | renewed cells item =>
          obtain rfl := eq_of_renewed made
          exact (inner item rfl visiting).scoping (.forget part) (.restore part)

end Pattern

end Duplex
