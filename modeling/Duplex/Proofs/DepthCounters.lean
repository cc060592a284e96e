/-
Module: Duplex.Proofs.DepthCounters
Purpose: Describing with counters.  All uses of a recursive pattern share one counter of how deep they
  are being described in themselves, which is set before the pattern is described and set back
  afterwards.  Such descriptions are those that carry a list of the patterns they stand in: the same
  text, memory and notes, and at the end, however it comes, every counter is as it was.
Main exports: Depths, Underway, Pattern.describeCounting, Pattern.describeCounting_countsAs,
  Grammar.description_recursive
-/
import Duplex.Proofs.Describing
import Duplex.Run
import Mathlib.Logic.Function.Basic

namespace Duplex

/-! ### Counters -/

/-- For each recursive pattern, how many descriptions of it are under way. -/
abbrev Depths :=
  Visit → Nat

namespace Depths

/-- One more description of a pattern is under way. -/
def enter (v : Visit) (depths : Depths) : Depths :=
  Function.update depths v (depths v + 1)

/-- One description of a pattern less is under way. -/
def leave (v : Visit) (depths : Depths) : Depths :=
  Function.update depths v (depths v - 1)

theorem leave_enter (v : Visit) (depths : Depths) : (depths.enter v).leave v = depths := by
  simp [enter, leave]

/-- The counters of the listed patterns are set, and no others. -/
def Counts (depths : Depths) (visiting : List Visit) : Prop :=
  ∀ v, v ∈ visiting ↔ 0 < depths v

theorem Counts.enter {depths : Depths} {visiting : List Visit} (counts : depths.Counts visiting)
    (v : Visit) : (depths.enter v).Counts (v :: visiting) := by
  intro w
  rw [List.mem_cons, counts w]
  by_cases same : w = v <;> simp [Depths.enter, same]

end Depths

/-- A memory with the counters beside it. -/
structure Underway where
  memory : Memory
  depths : Depths

namespace Write

variable {α β : Type}

/-- A write that leaves the counters alone. -/
def uncounted (w : Write Memory α) : Write Underway α :=
  ExceptT.mk fun s =>
    let (result, after) := (w.run ⟨s.memory.memory, s.journal⟩).run
    (result, ⟨{ s.memory with memory := after.memory }, after.journal⟩)

/-- With these counters, the first write does what the second does, and leaves them as they are. -/
def CountsAs (depths : Depths) (counted : Write Underway α) (w : Write Memory α) : Prop :=
  ∀ m journal, counted.perform ⟨⟨m, depths⟩, journal⟩ =
    ((w.perform ⟨m, journal⟩).1,
      ⟨⟨(w.perform ⟨m, journal⟩).2.memory, depths⟩, (w.perform ⟨m, journal⟩).2.journal⟩)

namespace CountsAs

variable {depths : Depths}

theorem pure (a : α) : CountsAs depths (Pure.pure a) (Pure.pure a) :=
  fun _ _ => rfl

theorem throw (stop : Stop WriteFault) :
    CountsAs depths (MonadExcept.throw stop : Write Underway α) (MonadExcept.throw stop) :=
  fun _ _ => rfl

theorem uncounted (w : Write Memory α) : CountsAs depths w.uncounted w :=
  fun _ _ => rfl

theorem bind {counted : Write Underway α} {w : Write Memory α} {f : α → Write Underway β}
    {g : α → Write Memory β} (first : CountsAs depths counted w)
    (second : ∀ a, CountsAs depths (f a) (g a)) :
    CountsAs depths (counted >>= f) (w >>= g) := by
  intro m journal
  rw [perform_bind, perform_bind, first m journal]
  obtain ⟨_ | a, e⟩ := w.perform ⟨m, journal⟩
  · rfl
  · exact second a e.memory e.journal

theorem mapM {γ : Type} {f : γ → Write Underway α} {g : γ → Write Memory α} {parts : List γ}
    (each : ∀ p, CountsAs depths (f p) (g p)) : CountsAs depths (parts.mapM f) (parts.mapM g) := by
  induction parts with
  | nil =>
      rw [List.mapM_nil, List.mapM_nil]
      exact pure []
  | cons p rest ih =>
      rw [List.mapM_cons, List.mapM_cons]
      exact (each p).bind fun a => ih.bind fun as => pure (a :: as)

/-- A write with a counter set, which is set back behind it. -/
theorem nested {v : Visit} {counted : Write Underway α} {w : Write Memory α}
    (inner : CountsAs (depths.enter v) counted w) :
    CountsAs depths
      (Write.scoping (fun s => { s with depths := s.depths.enter v })
        (fun _ after => { after with depths := after.depths.leave v }) counted) w := by
  intro m journal
  have entered := inner m journal
  change ((counted.perform ⟨⟨m, depths.enter v⟩, journal⟩).1,
    { (counted.perform ⟨⟨m, depths.enter v⟩, journal⟩).2 with
      memory :=
        { (counted.perform ⟨⟨m, depths.enter v⟩, journal⟩).2.memory with
          depths :=
            (counted.perform ⟨⟨m, depths.enter v⟩, journal⟩).2.memory.depths.leave v } }) = _
  rw [entered, Depths.leave_enter]

/-- A write with cells of its own. -/
theorem renewed {cells : List Nat} {counted : Write Underway α} {w : Write Memory α}
    (inner : CountsAs depths counted w) :
    CountsAs depths
      (Write.scoping (fun s => { s with memory := s.memory.forget cells })
        (fun before after => { after with memory := .restore cells before.memory after.memory })
        counted)
      (Write.scoping (Memory.forget cells) (Memory.restore cells) w) := by
  intro m journal
  have entered := inner (m.forget cells) journal
  change ((counted.perform ⟨⟨m.forget cells, depths⟩, journal⟩).1,
    { (counted.perform ⟨⟨m.forget cells, depths⟩, journal⟩).2 with
      memory :=
        { (counted.perform ⟨⟨m.forget cells, depths⟩, journal⟩).2.memory with
          memory := .restore cells m
            (counted.perform ⟨⟨m.forget cells, depths⟩, journal⟩).2.memory.memory } }) = _
  rw [entered]
  rfl

end CountsAs

end Write

/-! ### Describing with counters -/

namespace Pattern

/-- The description of what a recursive pattern was resolved to, with its counter set meanwhile. -/
def describeTarget (v : Visit) (each : Pattern → Write Underway String) (target : Option Pattern) :
    Write Underway String :=
  target.elim (return "(undefined)") fun p =>
    Write.scoping (fun s => { s with depths := s.depths.enter v })
      (fun _ after => { after with depths := after.depths.leave v }) (each p)

/-- The description of a recursive pattern: of what it is resolved to, unless it is being described
    already. -/
def describeOnce (v : Visit) (resolve : Write Memory (Option Pattern))
    (each : Pattern → Write Underway String) : Write Underway String := do
  if 0 < (← get).memory.depths v then return "recurse"
  else describeTarget v each (← resolve.uncounted)

/-- What a pattern reads, with counters of the descriptions that are under way. -/
def describeCounting : Nat → Pattern → Write Underway String
  | 0, _ => Write.exhausted
  | fuel + 1, p =>
      match p.wording with
      | .parts ps text => return text (← ps.mapM (describeCounting fuel))
      | .registry cell initial text => return text (← (Write.trieAt cell initial).uncounted)
      | .defined name =>
          describeOnce (.name name) (Write.definition? name) (describeCounting fuel)
      | .supplied cell item =>
          describeOnce (.cell cell) (do Write.supply cell; return some item) (describeCounting fuel)
      | .renewed cells item =>
          Write.scoping (fun s => { s with memory := s.memory.forget cells })
            (fun before after => { after with memory := .restore cells before.memory after.memory })
            (describeCounting fuel item)

open Write (CountsAs)

section Once

variable {v : Visit} {each : Pattern → Write Underway String} {depths : Depths}

theorem describeTarget_countsAs {inner : Pattern → Write Memory String}
    (described : ∀ p, CountsAs (depths.enter v) (each p) (inner p)) (target : Option Pattern) :
    CountsAs depths (describeTarget v each target) (target.elim (pure "(undefined)") inner) := by
  cases target with
  | none => exact .pure _
  | some p => exact (described p).nested

variable {resolve : Write Memory (Option Pattern)}

/-- Where a description is under way, another one is cut short. -/
theorem describeOnce_within (within : 0 < depths v) :
    CountsAs depths (describeOnce v resolve each) (pure "recurse") := by
  intro m journal
  change Write.perform (if 0 < depths v then _ else _) _ = _
  rw [if_pos within]
  rfl

/-- Elsewhere the pattern is described with its counter set, which is set back behind it. -/
theorem describeOnce_outside {inner : Pattern → Write Memory String} (outside : ¬ 0 < depths v)
    (described : ∀ p, CountsAs (depths.enter v) (each p) (inner p)) :
    CountsAs depths (describeOnce v resolve each)
      (resolve >>= fun target => target.elim (pure "(undefined)") inner) := by
  have resolved := (CountsAs.uncounted resolve).bind (describeTarget_countsAs described)
  intro m journal
  rw [← resolved m journal]
  change Write.perform (if 0 < depths v then _ else _) _ = _
  rw [if_neg outside]

/-- Where a pattern is made, there is one to be described. -/
theorem describeOnce_supplied {cell : Nat} {item : Pattern} {inner : Pattern → Write Memory String}
    (outside : ¬ 0 < depths v)
    (described : ∀ p, CountsAs (depths.enter v) (each p) (inner p)) :
    CountsAs depths (describeOnce v (do Write.supply cell; return some item) each)
      (Write.supply cell >>= fun _ => inner item) := by
  have once : CountsAs depths (describeOnce v (do Write.supply cell; return some item) each) _ :=
    describeOnce_outside outside described
  rw [bind_assoc] at once
  exact once

end Once

/-- Describing with counters is describing with a list of the patterns whose counters are set.  Even
    where a description breaks off, every counter is left as it was. -/
theorem describeCounting_countsAs (fuel : Nat) (p : Pattern) {visiting : List Visit} {depths : Depths}
    (counts : depths.Counts visiting) :
    CountsAs depths (describeCounting fuel p) (describe fuel visiting p) := by
  induction fuel generalizing p visiting depths with
  | zero => exact .throw _
  | succ fuel ih =>
      cases made : p.wording with
      | parts ps text =>
          rw [describe_of_parts fuel visiting made, describeCounting, made]
          exact (CountsAs.mapM fun q => ih q counts).bind fun texts => .pure _
      | registry cell initial text =>
          rw [describe_of_registry fuel visiting made, describeCounting, made]
          exact (CountsAs.uncounted _).bind fun r => .pure _
      | defined name =>
          obtain rfl := eq_of_defined made
          by_cases within : .name name ∈ visiting
          · rw [describe_of_recursion fuel within]
            exact describeOnce_within ((counts _).mp within)
          · rw [describe_of_defined fuel within]
            exact describeOnce_outside (mt (counts _).mpr within) fun q => ih q (counts.enter _)
      | supplied cell item =>
          obtain rfl := eq_of_supplied made
          by_cases within : .cell cell ∈ visiting
          · rw [describe_of_remade fuel within]
            exact describeOnce_within ((counts _).mp within)
          · rw [describe_of_supplied fuel within]
            exact describeOnce_supplied (mt (counts _).mpr within) fun q => ih q (counts.enter _)
      | renewed cells item =>
          obtain rfl := eq_of_renewed made
          exact (ih item counts).renewed

end Pattern

/-! ### Whole descriptions -/

/-- Describing with counters gives the description with every memory that says the same. -/
theorem Pattern.describeCounting_tells {m : Memory} {visiting : List Visit} {p : Pattern}
    {text : String} {fuel : Nat} {depths : Depths} (tells : (describe fuel visiting p).Tells m text)
    (counts : depths.Counts visiting) {n : Memory} (same : m.UpToSupply n) (journal : Journal) :
    ∃ after later, (describeCounting fuel p).perform ⟨⟨n, depths⟩, journal⟩ =
      (.ok text, ⟨⟨after, depths⟩, later⟩) ∧ m.UpToSupply after := by
  obtain ⟨e, runs, left⟩ := tells (d := ⟨n, journal⟩) same
  refine ⟨e.memory, e.journal, ?_, left⟩
  rw [describeCounting_countsAs fuel p counts n journal, runs]

namespace Grammar

/-- Describing a grammar gives the description with every memory that says the same. -/
theorem description_of_tells {m n : Memory} {p : Pattern} {text : String} {fuel : Nat}
    (tells : (p.describe fuel []).Tells m text) (same : m.UpToSupply n) :
    ∃ after notes, Grammar.description ⟨p, n, fuel⟩ = ⟨.ok text, after, notes⟩ ∧
      m.UpToSupply after := by
  obtain ⟨e, runs, left⟩ := tells (d := ⟨n, .empty⟩) same
  refine ⟨e.memory, e.journal.toList, ?_, left⟩
  change (⟨((p.describe fuel []).perform ⟨n, .empty⟩).1,
    ((p.describe fuel []).perform ⟨n, .empty⟩).2.memory,
    ((p.describe fuel []).perform ⟨n, .empty⟩).2.journal.toList⟩ : Answer WriteFault String) = _
  rw [runs]

/-- Descriptions of grammars whose names refer to each other in any way.  Whatever is being described
    around it, a pattern has exactly one description, in which just those recursive patterns are
    called recursions that are met inside their own description.  With counters that are set for the
    patterns being described, describing does what it does with the list of them, and leaves each
    counter as it found it, however it ends.  From some amount of fuel on it gives that description,
    changes at most which patterns have been made, and gives the same when it is done again. -/
theorem description_recursive (m : Memory) (p : Pattern) :
    (∀ visiting, ∃ text, (∀ other, Pattern.Describes m visiting p other ↔ other = text) ∧
      ∀ depths : Depths, depths.Counts visiting →
        (∀ fuel journal,
          let counted := (p.describeCounting fuel).perform ⟨⟨m, depths⟩, journal⟩
          let listed := (p.describe fuel visiting).perform ⟨m, journal⟩
          counted = (listed.1, ⟨⟨listed.2.memory, depths⟩, listed.2.journal⟩)) ∧
        Granted fun fuel => ∀ journal,
          let first := (p.describeCounting fuel).perform ⟨⟨m, depths⟩, journal⟩
          let again := (p.describeCounting fuel).perform first.2
          first.1 = .ok text ∧ m.UpToSupply first.2.memory.memory ∧ first.2.memory.depths = depths ∧
            again.1 = .ok text) ∧
    ∃ text, Pattern.Describes m [] p text ∧ Granted fun fuel =>
      let first := Grammar.description ⟨p, m, fuel⟩
      let again := Grammar.description ⟨p, first.memory, fuel⟩
      first.result = .ok text ∧ m.UpToSupply first.memory ∧ again.result = .ok text := by
  constructor
  · intro visiting
    obtain ⟨text, described⟩ := Pattern.Describes.total m visiting p
    refine ⟨text, fun other => ⟨fun it => it.unique described, fun same => same ▸ described⟩, ?_⟩
    intro depths counts
    refine ⟨fun fuel => p.describeCounting_countsAs fuel counts m, ?_⟩
    refine described.tells.mono fun fuel tells journal => ?_
    obtain ⟨n, later, first, left⟩ := p.describeCounting_tells tells counts (.refl m) journal
    obtain ⟨_, _, again, _⟩ := p.describeCounting_tells tells counts left later
    rw [first]
    exact ⟨rfl, left, rfl, congrArg Prod.fst again⟩
  · obtain ⟨text, described⟩ := Pattern.Describes.total m [] p
    refine ⟨text, described, described.tells.mono fun fuel tells => ?_⟩
    obtain ⟨n, notes, first, left⟩ := description_of_tells tells (.refl m)
    obtain ⟨_, _, again, _⟩ := description_of_tells tells left
    rw [first]
    exact ⟨rfl, left, congrArg Answer.result again⟩

/-- Two names that lead to each other, one of them to itself as well, and one that is not defined. -/
def entangled : Memory :=
  { Memory.empty with
    definitions :=
      [("a", .sequence [.ref "b", .lazy 0 (.ref "a"), .ref "c"]), ("b", .choice [.ref "a", .ref "b"])] }

/-- Every way back is a recursion, whichever way it takes. -/
theorem description_recursive_entangled :
    Granted fun fuel => (Grammar.description ⟨.ref "a", entangled, fuel⟩).result =
      .ok "((recurse|recurse) recurse (undefined))" := by
  have choice : (Pattern.choice [.ref "a", .ref "b"]).wording = .parts _ _ := rfl
  have inner : Pattern.Describes entangled [.name "b", .name "a"] _ _ :=
    .of_parts choice (.cons (.recursion (by decide)) (.cons (.recursion (by decide)) .nil))
  have sequence : (Pattern.sequence [.ref "b", .lazy 0 (.ref "a"), .ref "c"]).wording = .parts _ _ :=
    rfl
  have body : Pattern.Describes entangled [.name "a"] _ _ :=
    .of_parts sequence (.cons (.defined (by decide) rfl inner)
      (.cons (.supplied (by decide) (.recursion (by decide)))
        (.cons (.undefined (by decide) rfl) .nil)))
  have whole : Pattern.Describes entangled [] (.ref "a") "((recurse|recurse) recurse (undefined))" :=
    .defined (by decide) rfl body
  obtain ⟨_, text, described, runs⟩ := description_recursive entangled (.ref "a")
  rw [described.unique whole] at runs
  exact runs.mono fun fuel run => run.1

end Grammar

end Duplex
