/-
Module: Duplex.Proofs.Describing
Purpose: Descriptions of recursive grammars.  `Describes` says what a description is, without fuel: a
  recursive pattern stands for the description of what it is resolved to, or for a recursion if that
  description is already under way further out.  Whatever names a grammar refers to, there is exactly
  one such text, as a description can enter a name only once on its way in; and describing gives it
  from some amount of fuel on, leaving the memory as it was up to the patterns made on first use.
Main exports: Pattern.Describes, Pattern.Describes.total, Pattern.Describes.unique,
  Memory.UpToSupply, Pattern.Describes.tells
-/
import Duplex.Proofs.Termination.Parts
import Mathlib.Data.List.Forall2
import Mathlib.Tactic.Choose

namespace Duplex

/-! ### What a description says -/

/-- The names that are defined and not being described. -/
def Memory.undescribed (m : Memory) (visiting : List Visit) : List String :=
  (m.definitions.map Prod.fst).filter fun name => !visiting.contains (.name name)

namespace Memory

variable {m : Memory} {visiting : List Visit}

theorem undescribed_cell (m : Memory) (visiting : List Visit) (cell : Nat) :
    m.undescribed (.cell cell :: visiting) = m.undescribed visiting := by
  simp [undescribed]

/-- Describing what a name is defined as, there is one name less left to describe. -/
theorem undescribed_name_lt {name : String} {target : Pattern}
    (outside : Visit.name name ∉ visiting) (defined : m.definition? name = some target) :
    (m.undescribed (.name name :: visiting)).length < (m.undescribed visiting).length := by
  obtain ⟨before, after, split, _⟩ := List.lookup_eq_some_iff.mp defined
  have here : name ∈ m.undescribed visiting := by simp [undescribed, split, outside]
  have fewer : m.undescribed (.name name :: visiting) =
      (m.undescribed visiting).filter fun other => other ≠ name := by
    rw [undescribed, undescribed, List.filter_filter]
    apply List.filter_congr
    intro other _
    simp
  rw [fewer, List.length_filter_lt_length_iff_exists]
  exact ⟨name, here, by simp⟩

end Memory

namespace Pattern

/-- The text describes the pattern, with the definitions and the tries of the memory, where `visiting`
    are the recursive patterns whose descriptions it stands in. -/
inductive Describes : Memory → List Visit → Pattern → String → Prop
  | parts {m visiting p ps text} {each : Pattern → String} :
      p.wording = .parts ps text → (∀ q ∈ ps, Describes m visiting q (each q)) →
      Describes m visiting p (text (ps.map each))
  | registry {m visiting p cell initial text} :
      p.wording = .registry cell initial text → Describes m visiting p (text (m.trieAt cell initial))
  /-- A name that is being described further out. -/
  | recursion {m visiting name} :
      .name name ∈ visiting → Describes m visiting (.ref name) "recurse"
  | undefined {m visiting name} :
      .name name ∉ visiting → m.definition? name = none →
      Describes m visiting (.ref name) "(undefined)"
  | defined {m visiting name target text} :
      .name name ∉ visiting → m.definition? name = some target →
      Describes m (.name name :: visiting) target text → Describes m visiting (.ref name) text
  /-- A pattern made on first use that is being described further out. -/
  | remade {m visiting cell item} :
      .cell cell ∈ visiting → Describes m visiting (.lazy cell item) "recurse"
  | supplied {m visiting cell item text} :
      .cell cell ∉ visiting → Describes m (.cell cell :: visiting) item text →
      Describes m visiting (.lazy cell item) text
  | renewed {m visiting cells item text} :
      Describes (m.forget cells) visiting item text →
      Describes m visiting (.renewed cells item) text

namespace Describes

variable {m : Memory} {visiting : List Visit} {p : Pattern} {text : String}

/-- Every pattern has a description.  On its way in, a description enters one undescribed name after the
    other, and between two of them it goes from patterns to those that they are made of. -/
theorem total (m : Memory) (visiting : List Visit) (p : Pattern) :
    ∃ text, Describes m visiting p text := by
  induction left : (m.undescribed visiting).length using Nat.strongRecOn
    generalizing m visiting p with
  | ind n fewer =>
      induction p using Pattern.part_induction generalizing m visiting with
      | step p inner =>
          cases made : p.wording with
          | parts ps text =>
              have each : ∀ q ∈ ps, ∃ text, Describes m visiting q text := fun q mem =>
                inner q (hasPart_of_parts made mem) m visiting left
              choose! each described using each
              exact ⟨_, .parts made described⟩
          | registry cell initial text => exact ⟨_, .registry made⟩
          | defined name =>
              obtain rfl := eq_of_defined made
              by_cases within : .name name ∈ visiting
              · exact ⟨_, .recursion within⟩
              cases defined : m.definition? name with
              | none => exact ⟨_, .undefined within defined⟩
              | some target =>
                  have lt := Memory.undescribed_name_lt within defined
                  obtain ⟨text, described⟩ :=
                    fewer _ (left ▸ lt) m (.name name :: visiting) target rfl
                  exact ⟨text, .defined within defined described⟩
          | supplied cell item =>
              obtain rfl := eq_of_supplied made
              by_cases within : .cell cell ∈ visiting
              · exact ⟨_, .remade within⟩
              have same : (m.undescribed (.cell cell :: visiting)).length = n := by
                rw [m.undescribed_cell, left]
              obtain ⟨text, described⟩ := inner item rfl m (.cell cell :: visiting) same
              exact ⟨text, .supplied within described⟩
          | renewed cells item =>
              obtain rfl := eq_of_renewed made
              obtain ⟨text, described⟩ := inner item rfl (m.forget cells) visiting left
              exact ⟨text, .renewed described⟩

/-- A pattern has only one description. -/
theorem unique {other : String} (first : Describes m visiting p text)
    (second : Describes m visiting p other) : text = other := by
  induction first generalizing other with
  | parts made _ ih =>
      cases second with
      | parts made' described =>
          cases made.symm.trans made'
          rw [List.map_congr_left fun q mem => ih q mem (described q mem)]
      | registry made' => cases made.symm.trans made'
      | _ => cases made
  | registry made =>
      cases second with
      | parts made' => cases made.symm.trans made'
      | registry made' =>
          cases made.symm.trans made'
          rfl
      | _ => cases made
  | recursion within =>
      cases second with
      | parts made | registry made => cases made
      | recursion => rfl
      | undefined outside => exact absurd within outside
      | defined outside => exact absurd within outside
  | undefined outside absent =>
      cases second with
      | parts made | registry made => cases made
      | recursion within => exact absurd within outside
      | undefined => rfl
      | defined _ known => simp [absent] at known
  | defined outside known _ ih =>
      cases second with
      | parts made | registry made => cases made
      | recursion within => exact absurd within outside
      | undefined _ absent => simp [known] at absent
      | defined _ known' described =>
          obtain rfl : _ = _ := Option.some.inj (known.symm.trans known')
          exact ih described
  | remade within =>
      cases second with
      | parts made | registry made => cases made
      | remade => rfl
      | supplied outside => exact absurd within outside
  | supplied outside _ ih =>
      cases second with
      | parts made | registry made => cases made
      | remade within => exact absurd within outside
      | supplied _ described => exact ih described
  | renewed _ ih =>
      cases second with
      | parts made | registry made => cases made
      | renewed described => exact ih described

/-- The descriptions of the parts of a pattern make the pattern's own. -/
theorem of_parts {ps : List Pattern} {texts : List String} {text : List String → String}
    (made : p.wording = .parts ps text) (described : List.Forall₂ (Describes m visiting) ps texts) :
    Describes m visiting p (text texts) := by
  choose each known using total m visiting
  have same : texts = ps.map each := by
    clear made
    induction described with
    | nil => rfl
    | cons first _ ih => rw [List.map_cons, first.unique (known _), ← ih]
  rw [same]
  exact .parts made fun q _ => known q

end Describes

end Pattern

/-! ### Memories that say the same -/

/-- Memories that differ at most in which patterns have been made, as making one is all that describing
    does. -/
structure Memory.UpToSupply (m n : Memory) : Prop where
  definitions : n.definitions = m.definitions
  tries : ∀ cell, n.tries.lookup cell = m.tries.lookup cell

namespace Memory.UpToSupply

variable {m n : Memory}

theorem refl (m : Memory) : m.UpToSupply m :=
  ⟨rfl, fun _ => rfl⟩

theorem definition? (same : m.UpToSupply n) (name : String) :
    n.definition? name = m.definition? name := by
  rw [Memory.definition?, same.definitions, Memory.definition?]

theorem trieAt (same : m.UpToSupply n) (cell : Nat) (initial : Registry Token Value) :
    n.trieAt cell initial = m.trieAt cell initial := by
  rw [Memory.trieAt, same.tries, Memory.trieAt]

theorem supply (same : m.UpToSupply n) (cell : Nat) : m.UpToSupply (n.supply cell) :=
  ⟨same.definitions, same.tries⟩

theorem forget (same : m.UpToSupply n) (cells : List Nat) :
    (m.forget cells).UpToSupply (n.forget cells) := by
  refine ⟨same.definitions, fun cell => ?_⟩
  rw [Memory.forget, Memory.forget, lookup_filter (fun k => !cells.contains k),
    lookup_filter (fun k => !cells.contains k), same.tries]

/-- Cells that were set aside come back as they were, and the others stay as they are. -/
theorem restore {cells : List Nat} {after : Memory} (same : m.UpToSupply n)
    (inside : (m.forget cells).UpToSupply after) : m.UpToSupply (.restore cells n after) := by
  refine ⟨inside.definitions, fun cell => ?_⟩
  have others := inside.tries cell
  rw [Memory.forget, lookup_filter (fun k => !cells.contains k)] at others
  rw [Memory.restore, Memory.forget, List.lookup_append, lookup_filter cells.contains,
    lookup_filter (fun k => !cells.contains k), others, same.tries]
  cases cells.contains cell <;> simp

end Memory.UpToSupply

namespace Write

variable {α β : Type} {m : Memory}

/-- With every memory that says the same, the write goes through with the result, and leaves such a
    memory. -/
def Tells (m : Memory) (w : Write Memory α) (a : α) : Prop :=
  ∀ ⦃d : Desk Memory⦄, m.UpToSupply d.memory →
    ∃ e : Desk Memory, w.perform d = (.ok a, e) ∧ m.UpToSupply e.memory

namespace Tells

theorem pure (a : α) : Tells m (Pure.pure a) a :=
  fun d same => ⟨d, rfl, same⟩

theorem bind {w : Write Memory α} {f : α → Write Memory β} {a : α} {b : β} (first : Tells m w a)
    (second : Tells m (f a) b) : Tells m (w >>= f) b := by
  intro d same
  obtain ⟨e, runs, between⟩ := first same
  rw [perform_bind_ok runs]
  exact second between

theorem map {w : Write Memory α} {a : α} (f : α → β) (first : Tells m w a) :
    Tells m (do return f (← w)) (f a) :=
  first.bind (pure (f a))

theorem mapM {γ : Type} {f : γ → Write Memory α} {g : γ → α} {parts : List γ}
    (each : ∀ p ∈ parts, Tells m (f p) (g p)) : Tells m (parts.mapM f) (parts.map g) := by
  induction parts with
  | nil =>
      rw [List.mapM_nil]
      exact pure []
  | cons p rest ih =>
      rw [List.mapM_cons]
      have others := ih fun q later => each q (List.mem_cons_of_mem p later)
      exact (each p List.mem_cons_self).bind (others.bind (pure _))

theorem definition? (name : String) : Tells m (Write.definition? name) (m.definition? name) :=
  fun d same => ⟨d, by rw [← same.definition?]; rfl, same⟩

theorem trieAt (cell : Nat) (initial : Registry Token Value) :
    Tells m (Write.trieAt cell initial) (m.trieAt cell initial) :=
  fun d same => ⟨d, by rw [← same.trieAt]; rfl, same⟩

theorem supply (cell : Nat) : Tells m (Write.supply cell) () := by
  intro d same
  obtain ⟨_, e, ⟨enough, runs⟩, after⟩ := Settles.supply (fun known => known.supply cell) same
  exact ⟨e, runs enough (Nat.le_refl enough), after⟩

/-- A description with cells of its own is one with the memory without them. -/
theorem renewed {w : Write Memory α} {cells : List Nat} {a : α} (inner : Tells (m.forget cells) w a) :
    Tells m (Write.scoping (Memory.forget cells) (Memory.restore cells) w) a := by
  intro d same
  obtain ⟨e, runs, after⟩ := inner (d := ⟨d.memory.forget cells, d.journal⟩) (same.forget cells)
  refine ⟨{ e with memory := .restore cells d.memory e.memory }, ?_, same.restore after⟩
  change ((w.perform ⟨d.memory.forget cells, d.journal⟩).1,
    { (w.perform ⟨d.memory.forget cells, d.journal⟩).2 with
      memory := Memory.restore cells d.memory
        (w.perform ⟨d.memory.forget cells, d.journal⟩).2.memory }) = _
  rw [runs]

end Tells

end Write

namespace Pattern

/-- Describing gives the description from some amount of fuel on. -/
theorem Describes.tells {m : Memory} {visiting : List Visit} {p : Pattern} {text : String}
    (described : Describes m visiting p text) :
    Granted fun fuel => (describe fuel visiting p).Tells m text := by
  induction described with
  | parts made _ ih =>
      refine (Granted.forall_mem ih).succ fun fuel each => ?_
      rw [describe_of_parts fuel _ made]
      exact (Write.Tells.mapM each).map _
  | registry made =>
      refine (Granted.of_forall fun _ => trivial).succ fun fuel _ => ?_
      rw [describe_of_registry fuel _ made]
      exact (Write.Tells.trieAt _ _).map _
  | recursion within =>
      refine (Granted.of_forall fun _ => trivial).succ fun fuel _ => ?_
      rw [describe_of_recursion fuel within]
      exact .pure _
  | @undefined m _ name outside absent =>
      refine (Granted.of_forall fun _ => trivial).succ fun fuel _ => ?_
      rw [describe_of_defined fuel outside]
      have found : Write.Tells m (Write.definition? name) none := absent ▸ .definition? name
      exact found.bind (.pure _)
  | @defined m _ name target _ outside known _ ih =>
      refine ih.succ fun fuel tells => ?_
      rw [describe_of_defined fuel outside]
      have found : Write.Tells m (Write.definition? name) (some target) := known ▸ .definition? name
      exact found.bind tells
  | remade within =>
      refine (Granted.of_forall fun _ => trivial).succ fun fuel _ => ?_
      rw [describe_of_remade fuel within]
      exact .pure _
  | supplied outside _ ih =>
      refine ih.succ fun fuel tells => ?_
      rw [describe_of_supplied fuel outside]
      exact (Write.Tells.supply _).bind tells
  | renewed _ ih => exact ih.succ fun fuel tells => tells.renewed

end Pattern

end Duplex
