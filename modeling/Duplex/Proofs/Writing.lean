/-
Module: Duplex.Proofs.Writing
Purpose: How writes run.  `Write.perform` carries out a write at a desk, with one equation for each
  primitive step.  A steady write looks at the memory alone: the journal only grows by its notes,
  none of which is of the kind that feeds make.
Main exports: Write.perform, Write.perform_bind, Note.byFeed, Write.Steady, Pattern.describe_steady
-/
import Duplex.Proofs.Reading
import Duplex.Proofs.Wording

namespace Duplex

/-- Whether only a feed makes such a note. -/
def Note.byFeed : Note → Bool
  | .took _ => true
  | .heard _ => true
  | _ => false

namespace Write

variable {μ α β : Type}

/-! ### Carrying out a write -/

/-- The outcome of a write at a desk, and the desk after it. -/
def perform (w : Write μ α) (d : Desk μ) : Except (Stop WriteFault) α × Desk μ :=
  (w.run d).run

@[simp] theorem perform_pure (a : α) (d : Desk μ) :
    (pure a : Write μ α).perform d = (.ok a, d) :=
  rfl

theorem perform_bind (w : Write μ α) (f : α → Write μ β) (d : Desk μ) :
    (w >>= f).perform d =
      match w.perform d with
      | (.ok a, e) => (f a).perform e
      | (.error stop, e) => (.error stop, e) := by
  simp only [perform, ExceptT.run_bind]
  show Id.run (StateT.bind w.run _ d) = _
  unfold StateT.bind
  show (match w.run d with | (a, d) => _) = _
  rcases w.run d with ⟨_ | _, e⟩ <;> rfl

/-- A first step that goes through hands its result and its desk to the second. -/
theorem perform_bind_ok {w : Write μ α} {d e : Desk μ} {a : α} (h : w.perform d = (.ok a, e))
    (f : α → Write μ β) : (w >>= f).perform d = (f a).perform e := by
  rw [perform_bind, h]

/-! ### Steady writes -/

/-- A write whose result depends on the memory alone, and that adds notes of its own to whatever
    journal it is given. -/
def Steady (w : Write μ α) : Prop :=
  ∀ m, ∃ result after notes, (∀ n ∈ notes, Note.byFeed n = false) ∧
    ∀ j, w.perform ⟨m, j⟩ = (result, ⟨after, j.addAll notes⟩)

namespace Steady

theorem pure (a : α) : Steady (Pure.pure a : Write μ α) :=
  fun m => ⟨.ok a, m, [], by simp, fun _ => rfl⟩

theorem throw (stop : Stop WriteFault) : Steady (MonadExcept.throw stop : Write μ α) :=
  fun m => ⟨.error stop, m, [], by simp, fun _ => rfl⟩

theorem bind {w : Write μ α} {f : α → Write μ β} (first : Steady w)
    (second : ∀ a, Steady (f a)) : Steady (w >>= f) := by
  intro m
  obtain ⟨result, after, notes, own, runs⟩ := first m
  cases result with
  | error stop =>
      exact ⟨.error stop, after, notes, own, fun j => by rw [perform_bind, runs]⟩
  | ok a =>
      obtain ⟨result', after', notes', own', runs'⟩ := second a after
      refine ⟨result', after', notes ++ notes', ?_, fun j => ?_⟩
      · intro n hn
        rcases List.mem_append.mp hn with h | h
        · exact own n h
        · exact own' n h
      · rw [perform_bind_ok (runs j), runs', Journal.addAll_append]

theorem map {w : Write μ α} (f : α → β) (h : Steady w) : Steady (do return f (← w)) :=
  h.bind fun a => pure (f a)

theorem definition? (name : String) : Steady (Write.definition? name) :=
  fun m => ⟨.ok (m.definition? name), m, [], by simp, fun _ => rfl⟩

theorem trieAt (cell : Nat) (initial : Registry Token Value) :
    Steady (Write.trieAt cell initial) :=
  fun m => ⟨.ok (m.trieAt cell initial), m, [], by simp, fun _ => rfl⟩

theorem scoping {w : Write μ α} (enter : μ → μ) (leave : μ → μ → μ) (h : Steady w) :
    Steady (Write.scoping enter leave w) := by
  intro m
  obtain ⟨result, after, notes, own, runs⟩ := h (enter m)
  refine ⟨result, leave m after, notes, own, fun j => ?_⟩
  show ((w.perform ⟨enter m, j⟩).1,
    { (w.perform ⟨enter m, j⟩).2 with memory := leave m (w.perform ⟨enter m, j⟩).2.memory }) = _
  rw [runs]

theorem supply (cell : Nat) : Steady (Write.supply cell) := by
  intro m
  by_cases h : m.isSupplied cell
  · refine ⟨.ok (), m, [], by simp, fun j => ?_⟩
    show Write.perform (if m.isSupplied cell = true then _ else _) _ = _
    rw [if_pos h]
    rfl
  · refine ⟨.ok (), m.supply cell, [.supplied], by simp [Note.byFeed], fun j => ?_⟩
    show Write.perform (if m.isSupplied cell = true then _ else _) _ = _
    rw [if_neg h]
    rfl

theorem mapM {γ : Type} {f : γ → Write μ α} {parts : List γ} (each : ∀ p, Steady (f p)) :
    Steady (parts.mapM f) := by
  induction parts with
  | nil =>
      rw [List.mapM_nil]
      exact pure _
  | cons p rest ih =>
      rw [List.mapM_cons]
      exact (each p).bind fun a => ih.bind fun as => pure _

end Steady

end Write

/-- A write in the middle of a read leaves the feed alone. -/
theorem Read.perform_atDesk {μ σ α : Type} {w : Write μ α} {s : Session μ σ} {m : μ}
    {result : Except (Stop WriteFault) α} {after : Desk μ} (hm : s.memory = m)
    (runs : w.perform ⟨m, s.journal⟩ = (result, after)) :
    (Read.atDesk w).perform s = (.ok result, ⟨s.feed, after.memory, after.journal⟩) := by
  subst hm
  show (Except.ok (w.perform ⟨s.memory, s.journal⟩).1,
    { s with
      memory := (w.perform ⟨s.memory, s.journal⟩).2.memory
      journal := (w.perform ⟨s.memory, s.journal⟩).2.journal }) = _
  rw [runs]

/-! ### Descriptions -/

namespace Pattern

open Write (Steady)

/-- Describing a pattern is steady. -/
theorem describe_steady (fuel : Nat) (visiting : List Visit) (p : Pattern) :
    Steady (describe fuel visiting p) := by
  induction fuel generalizing visiting p with
  | zero => exact .throw _
  | succ fuel ih =>
      cases made : p.wording with
      | parts ps text =>
          rw [describe_of_parts fuel visiting made]
          exact (Steady.mapM fun q => ih visiting q).map text
      | registry cell initial text =>
          rw [describe_of_registry fuel visiting made]
          exact (Steady.trieAt cell initial).map text
      | defined name =>
          obtain rfl := eq_of_defined made
          by_cases within : .name name ∈ visiting
          · rw [describe_of_recursion fuel within]
            exact .pure _
          · rw [describe_of_defined fuel within]
            refine (Steady.definition? name).bind fun target => ?_
            cases target with
            | none => exact .pure _
            | some target => exact ih _ target
      | supplied cell item =>
          obtain rfl := eq_of_supplied made
          by_cases within : .cell cell ∈ visiting
          · rw [describe_of_remade fuel within]
            exact .pure _
          · rw [describe_of_supplied fuel within]
            exact (Steady.supply cell).bind fun _ => ih _ item
      | renewed cells item =>
          obtain rfl := eq_of_renewed made
          exact (ih visiting item).scoping _ _

end Pattern

end Duplex
