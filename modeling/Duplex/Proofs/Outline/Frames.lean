/-
Module: Duplex.Proofs.Outline.Frames
Purpose: Outlines half read.  `Read.Frame` is the call for a block that waits for the block opened in
  it: it holds the nodes before that block and goes on when the block is closed.  All calls that wait
  hold the outline read so far, whose lines are known before it is whole; and an outline that is
  whole is known from its lines.
Main exports: Read.Faults, Read.Frame, Read.unwind, Read.plug, Read.linesOf_plug_cons,
  Read.perform_layer_marked, Read.perform_layer_unmarked, Outline.linesOf_injective
-/
import Duplex.Proofs.Outline.Layers

namespace Duplex

/-! ### Lines that tell an outline -/

theorem Outline.linesOf_append {α β : Type} (step level : Nat) (ns ms : List (Outline α β)) :
    linesOf step level (ns ++ ms) = linesOf step level ns ++ linesOf step level ms := by
  induction ns with
  | nil => rfl
  | cons n ns ih => rw [List.cons_append, linesOf, linesOf, ih, List.append_assoc]

namespace Outline

variable {α β : Type} {step : Nat}

mutual

theorem le_of_mem_lines {l : Nat × Line α β} :
    (level : Nat) → (n : Outline α β) → l ∈ n.lines step level → level ≤ l.1
  | level, .root _, mem => by
      cases List.mem_singleton.mp mem
      exact Nat.le_refl level
  | level, .term _, mem => by
      cases List.mem_singleton.mp mem
      exact Nat.le_refl level
  | level, .nest _ _ children, mem => by
      rcases List.mem_cons.mp mem with rfl | below
      · exact Nat.le_refl level
      · exact Nat.le_of_add_right_le (le_of_mem_linesOf (level + step) children below)

/-- No line of a block stands before its indentation. -/
theorem le_of_mem_linesOf {l : Nat × Line α β} :
    (level : Nat) → (ns : List (Outline α β)) → l ∈ linesOf step level ns → level ≤ l.1
  | _, [], mem => by cases mem
  | level, n :: ns, mem => by
      rcases List.mem_append.mp mem with here | later
      · exact le_of_mem_lines level n here
      · exact le_of_mem_linesOf level ns later

end

/-- The lines of a block and those behind it are told apart by their indentation. -/
theorem takeWhile_linesOf {level : Nat} (pos : 0 < step) (children ns : List (Outline α β)) :
    (linesOf step (level + step) children ++ linesOf step level ns).takeWhile (level < ·.1) =
      linesOf step (level + step) children := by
  have inside : ∀ l ∈ linesOf step (level + step) children, decide (level < l.1) = true := by
    intro l mem
    have deeper := le_of_mem_linesOf _ children mem
    simp only [decide_eq_true_eq]
    omega
  rw [List.takeWhile_append_of_pos inside]
  cases ns with
  | nil => simp [linesOf]
  | cons n ns => cases n <;> simp [linesOf, lines]

/-- An outline without misplaced roots is determined by its lines. -/
theorem linesOf_injective {level : Nat} (pos : 0 < step) {ns ms : List (Outline α β)}
    (same : linesOf step level ns = linesOf step level ms)
    (placed : ∀ l ∈ linesOf step level ns, l.2 ≠ .misplaced) : ns = ms := by
  match ns, ms with
  | [], [] => rfl
  | [], m :: ms => cases m <;> simp [linesOf, lines] at same
  | n :: ns, [] => cases n <;> simp [linesOf, lines] at same
  | .root _ :: ns, _ => exact absurd rfl (placed (level, .misplaced) (by simp [linesOf, lines]))
  | .term a :: ns, m :: ms =>
      cases m with
      | root nodes => simp [linesOf, lines] at same
      | nest item tail nodes => simp [linesOf, lines] at same
      | term item =>
          simp only [linesOf, lines, List.cons_append, List.nil_append, List.cons.injEq,
            Prod.mk.injEq, Line.plain.injEq, true_and] at same
          have others := linesOf_injective pos same.2 fun l mem =>
            placed l (by simp [linesOf, lines, mem])
          rw [same.1, others]
  | .nest a b children :: ns, m :: ms =>
      cases m with
      | root nodes => simp [linesOf, lines] at same
      | term item => simp [linesOf, lines] at same
      | nest item tail nodes =>
          simp only [linesOf, lines, List.cons_append, List.cons.injEq, Prod.mk.injEq,
            Line.opening.injEq, true_and] at same
          obtain ⟨⟨rfl, rfl⟩, same⟩ := same
          have inside := congrArg (List.takeWhile (level < ·.1)) same
          rw [takeWhile_linesOf pos, takeWhile_linesOf pos] at inside
          rw [inside, List.append_cancel_left_eq] at same
          have block := linesOf_injective pos inside fun l mem =>
            placed l (by simp [linesOf, lines, mem])
          have others := linesOf_injective pos same fun l mem =>
            placed l (by simp [linesOf, lines, mem])
          rw [block, others]
termination_by sizeOf ns

end Outline

/-! ### Calls that wait -/

namespace Read

variable {μ σ α β : Type}

/-- The read ends by a fault. -/
def Faults (r : Read μ σ α) (s : Session μ σ) : Prop :=
  ∃ cause t, r.perform s = (.error (.fault cause), t)

theorem Faults.bind {r : Read μ σ α} {s : Session μ σ} (faults : r.Faults s)
    (f : α → Read μ σ β) : (r >>= f).Faults s := by
  obtain ⟨cause, t, run⟩ := faults
  exact ⟨cause, t, by rw [perform_bind, run]⟩

theorem Faults.congr {r q : Read μ σ α} {s t : Session μ σ} (faults : r.Faults s)
    (same : q.perform t = r.perform s) : q.Faults t := by
  rw [Faults, same]
  exact faults

/-- A block that waits for the one opened by its last item so far. -/
structure Frame (α β : Type) where
  here : Nat
  turns : Nat
  item : α
  tail : β
  /-- The nodes before that item, the latest one first. -/
  before : List (Outline α β)

/-- The nodes of a block whose last item is closed. -/
def Frame.closing (frame : Frame α β) (children : List (Outline α β)) : List (Outline α β) :=
  .nest frame.item frame.tail children :: frame.before

variable [Feed σ] (parts : OutlineParts μ σ α β) (item : Read μ σ (Option α))

/-- What a block does when the one opened in it has come to something. -/
def resume (frame : Frame α β) (result : Option (Nat × List (Outline α β))) :
    Read μ σ (Option (Nat × List (Outline α β))) := do
  match result with
  | none => return none
  | some (closed, children) =>
      if closed < frame.here then return some (closed, (frame.closing children).reverse)
      else
        if frame.here < closed then
          report s!"unaligned layout close ({frame.here} => {closed})"
        layer parts frame.turns item frame.here (frame.closing children)

/-- A read of the innermost block, and what the blocks around it do then. -/
def unwind : List (Frame α β) → Read μ σ (Option (Nat × List (Outline α β))) →
    Read μ σ (Option (Nat × List (Outline α β)))
  | [], r => r
  | frame :: frames, r => unwind frames (r >>= resume parts item frame)

variable {parts item} {s t : Session μ σ}

/-- Only the outcome of the innermost block matters to the others. -/
theorem unwind_congr {frames : List (Frame α β)}
    {r q : Read μ σ (Option (Nat × List (Outline α β)))} (same : r.perform s = q.perform t) :
    (unwind parts item frames r).perform s = (unwind parts item frames q).perform t := by
  induction frames generalizing r q with
  | nil => exact same
  | cons frame frames ih =>
      apply ih
      rw [perform_bind, perform_bind, same]

theorem Faults.unwind {r : Read μ σ (Option (Nat × List (Outline α β)))} (faults : r.Faults s)
    (frames : List (Frame α β)) : (unwind parts item frames r).Faults s := by
  induction frames generalizing r with
  | nil => exact faults
  | cons frame frames ih => exact ih (faults.bind _)

/-- A block goes on behind one that is closed at its own indentation or at less. -/
theorem resume_eq {frame : Frame α β} {closed : Nat} (level : closed ≤ frame.here)
    (children : List (Outline α β)) :
    resume parts item frame (some (closed, children)) =
      layerOn parts item frame.turns frame.here closed (frame.closing children) := by
  unfold resume layerOn
  dsimp only
  rw [if_neg (Nat.not_lt_of_le level)]

/-- The nodes of the top level once all blocks are closed, from those of the innermost block, the
    latest one first. -/
def plug : List (Frame α β) → List (Outline α β) → List (Outline α β)
  | [], nodes => nodes.reverse
  | frame :: frames, nodes => plug frames (frame.closing nodes.reverse)

/-- A further node of the innermost block has the last lines, as deep as blocks are open. -/
theorem linesOf_plug_cons (frames : List (Frame α β)) (n : Outline α β)
    (nodes : List (Outline α β)) :
    Outline.linesOf 1 1 (plug frames (n :: nodes)) =
      Outline.linesOf 1 1 (plug frames nodes) ++ n.lines 1 (frames.length + 1) := by
  induction frames generalizing n nodes with
  | nil => simp [plug, Outline.linesOf_append, Outline.linesOf]
  | cons frame frames ih =>
      simp [plug, Frame.closing, ih, Outline.lines, Outline.linesOf_append, Outline.linesOf]

section Turn

variable {s₁ s₂ s₃ : Session μ σ} {a : α} (turns here : Nat) (nodes : List (Outline α β))

/-- One turn of a block on an item with a mark: the block below it, for which this one waits. -/
theorem perform_layer_marked {b : β} {below : Nat} (word : item.perform s = (.ok (some a), s₁))
    (mark : parts.tail.perform s₁ = (.ok (some b), s₂))
    (gap : parts.layout.perform s₂ = (.ok (some below), s₃)) :
    (layer parts (turns + 1) item here nodes).perform s =
      (if below ≤ here then
        report s!"bad layout-open decrement ({here} => {below})" >>= fun _ =>
          parts.block a b (fun inner => layer parts turns inner below []) >>=
            resume parts item ⟨here, turns, a, b, nodes⟩
      else
        parts.block a b (fun inner => layer parts turns inner below []) >>=
          resume parts item ⟨here, turns, a, b, nodes⟩).perform s₃ := by
  rw [layer, perform_bind_ok word]
  dsimp only
  rw [perform_bind_ok mark]
  dsimp only
  rw [perform_bind_ok gap]
  rfl

/-- One turn of a block on an item without a mark. -/
theorem perform_layer_unmarked {next : Nat} (word : item.perform s = (.ok (some a), s₁))
    (unmarked : parts.tail.perform s₁ = (.ok none, s₂))
    (gap : parts.layout.perform s₂ = (.ok (some next), s₃)) :
    (layer parts (turns + 1) item here nodes).perform s =
      (if here < next then
        report (s!"illegal layout increment ({here} => {next}) near " ++ parts.quoted a) >>=
          fun _ => layerOn parts item turns here next (.term a :: nodes)
      else layerOn parts item turns here next (.term a :: nodes)).perform s₃ := by
  rw [layer, perform_bind_ok word]
  dsimp only
  rw [perform_bind_ok unmarked]
  dsimp only
  rw [perform_bind_ok gap]
  rfl

end Turn

end Read

end Duplex
