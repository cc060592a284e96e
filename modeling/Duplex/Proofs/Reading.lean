/-
Module: Duplex.Proofs.Reading
Purpose: How reads run.  `Read.perform` carries out a read on a session, and each primitive step of a
  read has one equation for it.  Everything proved about readers goes through these equations, so
  that no other proof opens the layers of the `Read` monad.
Main exports: Read.perform, Read.perform_bind, Read.perform_consume, Read.perform_report,
  Read.perform_inside, Read.perform_scoping
-/
import Duplex.Pattern.Read
import Duplex.Run

namespace Duplex

/-! ### Journals -/

namespace Journal

@[simp] theorem addAll_nil (j : Journal) : j.addAll [] = j :=
  rfl

theorem addAll_append (j : Journal) (first second : List Note) :
    j.addAll (first ++ second) = (j.addAll first).addAll second := by
  simp [addAll, List.foldl_append]

end Journal

/-! ### Entries -/

/-- Among the entries whose keys are kept, a key that is kept is found as before, and no other is. -/
theorem lookup_filter {α β : Type} [BEq α] [LawfulBEq α] (keeps : α → Bool) (entries : List (α × β))
    (k : α) :
    (entries.filter fun entry => keeps entry.1).lookup k =
      if keeps k then entries.lookup k else none := by
  induction entries with
  | nil => simp
  | cons entry entries ih =>
      obtain ⟨key, value⟩ := entry
      by_cases same : k = key
      · subst same
        cases kept : keeps k <;> simp [kept, ih]
      · have ne : (k == key) = false := by simpa using same
        cases kept : keeps key <;> simp [kept, ih, List.lookup_cons, ne]

/-! ### Beginnings -/

/-- Of a property that all beginnings share: what has it ends before an element that it fails at. -/
theorem prefix_of_unfit {α : Type} {p : List α → Prop}
    (closed : ∀ {front whole}, front <+: whole → p whole → p front) {front behind other : List α}
    {a : α} (unfit : ¬ p (front ++ [a])) (begins : other <+: front ++ a :: behind) (fits : p other) :
    other <+: front := by
  have within : front ++ [a] <+: front ++ a :: behind :=
    ⟨behind, by rw [List.append_assoc, List.singleton_append]⟩
  rcases List.prefix_or_prefix_of_prefix begins within with inside | beyond
  · rcases List.prefix_concat_iff.mp inside with rfl | inside
    · exact absurd fits unfit
    · exact inside
  · exact absurd (closed beyond fits) unfit

/-! ### Carrying out a read -/

namespace Read

variable {μ σ ρ α β : Type}

/-- The outcome of a read on a session, and the session after it. -/
def perform (r : Read μ σ α) (s : Session μ σ) : Except (Stop ReadFault) α × Session μ σ :=
  (r.run s).run

@[simp] theorem perform_pure (a : α) (s : Session μ σ) :
    (pure a : Read μ σ α).perform s = (.ok a, s) :=
  rfl

theorem perform_bind (r : Read μ σ α) (f : α → Read μ σ β) (s : Session μ σ) :
    (r >>= f).perform s =
      match r.perform s with
      | (.ok a, t) => (f a).perform t
      | (.error stop, t) => (.error stop, t) := by
  simp only [perform, ExceptT.run_bind]
  show Id.run (StateT.bind r.run _ s) = _
  unfold StateT.bind
  show (match r.run s with | (a, s) => _) = _
  rcases r.run s with ⟨_ | _, t⟩ <;> rfl

/-- A first step that goes through hands its result and its session to the second. -/
theorem perform_bind_ok {r : Read μ σ α} {s t : Session μ σ} {a : α}
    (h : r.perform s = (.ok a, t)) (f : α → Read μ σ β) :
    (r >>= f).perform s = (f a).perform t := by
  rw [perform_bind, h]

@[simp] theorem perform_throw (stop : Stop ReadFault) (s : Session μ σ) :
    (throw stop : Read μ σ α).perform s = (.error stop, s) :=
  rfl

@[simp] theorem perform_note (n : Note) (s : Session μ σ) :
    (note n).perform s = (.ok (), { s with journal := s.journal.add n }) :=
  rfl

@[simp] theorem perform_memory (s : Session μ σ) :
    (memory : Read μ σ μ).perform s = (.ok s.memory, s) :=
  rfl

@[simp] theorem perform_setMemory (m : μ) (s : Session μ σ) :
    (setMemory m).perform s = (.ok (), { s with memory := m }) :=
  rfl

section Feed

variable [Feed σ]

@[simp] theorem perform_peek (s : Session μ σ) :
    (peek : Read μ σ Token).perform s = (.ok (Feed.peek s.feed), s) :=
  rfl

@[simp] theorem perform_atEnd (s : Session μ σ) :
    (atEnd : Read μ σ Bool).perform s = (.ok (Feed.atEnd s.feed), s) :=
  rfl

@[simp] theorem perform_location (s : Session μ σ) :
    (location : Read μ σ (Option Location)).perform s = (.ok (Feed.location s.feed), s) :=
  rfl

@[simp] theorem perform_state? (k : StateKind) (s : Session μ σ) :
    (state? k : Read μ σ (Option k.Carrier)).perform s =
      (.ok ((Feed.state s.feed).bind fun m => m.get? k), s) :=
  rfl

theorem perform_setState (k : StateKind) (v : k.Carrier) (s : Session μ σ) :
    (setState k v).perform s =
      (.ok (), { s with
        feed := match Feed.state s.feed with
          | some m => Feed.setState s.feed (m.insert k v)
          | none => s.feed }) := by
  unfold setState
  show Read.perform (match Feed.state s.feed with | some m => _ | none => _) s = _
  rcases Feed.state s.feed with _ | m <;> rfl

theorem perform_consume (s : Session μ σ) :
    (consume : Read μ σ (Option Token)).perform s =
      (match (Feed.consume s.feed).halt with
        | some cause => .error (.halt cause)
        | none => .ok (Feed.consume s.feed).token,
        { s with
          feed := (Feed.consume s.feed).feed
          journal := s.journal.addAll (Feed.consume s.feed).notes }) := by
  unfold consume
  show Read.perform (match (Feed.consume s.feed).halt with | some c => halted c | none => _) _ = _
  rcases (Feed.consume s.feed).halt with _ | cause <;> rfl

theorem perform_report (message : String) (s : Session μ σ) :
    (report message).perform s =
      (match (Feed.report s.feed message).fault with
        | some cause => .error (.fault cause)
        | none => .ok (),
        { s with
          feed := (Feed.report s.feed message).feed
          journal := s.journal.addAll (Feed.report s.feed message).notes }) := by
  unfold report
  show Read.perform
    (match (Feed.report s.feed message).fault with | some c => fault c | none => _) _ = _
  rcases (Feed.report s.feed message).fault with _ | cause <;> rfl

theorem perform_consumeIf (test : Token → Bool) (s : Session μ σ) :
    (consumeIf test).perform s =
      if test (Feed.peek s.feed) then consume.perform s else (.ok none, s) := by
  unfold consumeIf
  rw [perform_bind_ok (perform_peek s)]
  split <;> rfl

end Feed

theorem perform_inside (enter : σ → ρ) (leave : ρ → σ) (r : Read μ ρ α) (s : Session μ σ) :
    (inside enter leave r).perform s =
      ((r.perform { s with feed := enter s.feed }).1,
        { (r.perform { s with feed := enter s.feed }).2 with
          feed := leave (r.perform { s with feed := enter s.feed }).2.feed }) :=
  rfl

theorem perform_scoping (enter : μ → μ) (leave : μ → μ → μ) (r : Read μ σ α)
    (s : Session μ σ) :
    (scoping enter leave r).perform s =
      ((r.perform { s with memory := enter s.memory }).1,
        { (r.perform { s with memory := enter s.memory }).2 with
          memory := leave s.memory (r.perform { s with memory := enter s.memory }).2.memory }) :=
  rfl

end Read

end Duplex
