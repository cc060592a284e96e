/-
Module: Duplex.Proofs.Termination.Basic
Purpose: Reads that come to an end.  A clock bounds the tokens that can still be taken from a feed; a
  read settles on a session if it has one and the same outcome from some amount of fuel on, which is
  not that the fuel was used up.  A tame read settles wherever the clock runs, and leaves it running
  with no more time left than before; tame reads are closed under the steps of the `Read` monad and
  pass to feeds nested in the feed.
Main exports: Clock, Feed.IsFinite, Read.Settles, TameAt, TameAt.bind, AdvancesAt,
  AdvancesAt.bind, TameAt.peeking, AdvancesAt.counting, Read.Advances, Read.Advances.at
-/
import Duplex.Proofs.Likeness.Pattern
import Duplex.Proofs.Predictive

namespace Duplex

/-! ### Finite feeds -/

/-- Counts down with the tokens taken from a feed, as long as it runs. -/
structure Clock (σ : Type) [Feed σ] where
  runs : σ → Prop
  /-- At least the number of tokens that can still be taken. -/
  left : σ → Nat
  consume : ∀ {s}, runs s → runs (Feed.consume s).feed ∧
    left (Feed.consume s).feed + (Feed.consume s).token.toList.length ≤ left s
  /-- No step of a grammar is behind the feed that the fuel could be too short for. -/
  unhalted : ∀ {s}, runs s → (Feed.consume s).halt ≠ some .exhausted
  report : ∀ {s} (message : String), runs s → runs (Feed.report s message).feed ∧
    left (Feed.report s message).feed ≤ left s
  setState : ∀ {s} (m : StateMap), runs s → runs (Feed.setState s m) ∧
    left (Feed.setState s m) ≤ left s

/-- Only so many tokens can be taken from the feed, whatever else is done to it in between. -/
def Feed.IsFinite {σ : Type} [Feed σ] (s : σ) : Prop :=
  ∃ C : Clock σ, C.runs s

namespace Clock

variable {σ : Type} [Feed σ]

/-- A feed that holds its tokens, and that reports leave alone. -/
def ofLawful [LawfulFeed σ] (told : ∀ (s : σ) message, (Feed.report s message).feed = s)
    (carried : ∀ (s : σ) m, Feed.setState s m = s) : Clock σ where
  runs _ := True
  left s := (remaining s).length
  consume {s} _ := by
    refine ⟨trivial, ?_⟩
    cases ahead : remaining s with
    | nil => simp [LawfulFeed.consume_nil ahead, ahead]
    | cons t ts =>
        obtain ⟨_, next, notes, took, behind⟩ := LawfulFeed.consume_cons ahead
        simp [took, behind]
  unhalted {s} _ := by
    cases ahead : remaining s with
    | nil => simp [LawfulFeed.consume_nil ahead]
    | cons t ts =>
        obtain ⟨_, next, notes, took, behind⟩ := LawfulFeed.consume_cons ahead
        simp [took]
  report {s} message _ := by
    rw [told]
    exact ⟨trivial, Nat.le_refl _⟩
  setState {s} m _ := by
    rw [carried]
    exact ⟨trivial, Nat.le_refl _⟩

/-- A single token. -/
def single : Clock Single :=
  ofLawful (fun _ _ => rfl) fun _ _ => rfl

/-- An input is as finite as the feed it dresses, in every mode. -/
def input (C : Clock σ) : Clock (Input σ) where
  runs s := C.runs s.feed
  left s := C.left s.feed
  consume {s} running := by
    obtain ⟨first, less⟩ := C.consume running
    obtain ⟨token, ⟨feed, _⟩ | ⟨feed, _⟩⟩ := s.consume_cases
    · rw [token, feed]
      exact ⟨first, less⟩
    · obtain ⟨second, more⟩ := C.consume first
      rw [token, feed]
      exact ⟨second, by omega⟩
  unhalted {s} running := by
    have first := C.unhalted running
    have second := C.unhalted (C.consume running).1
    obtain ⟨_, ⟨_, halt⟩ | ⟨_, halt⟩⟩ := s.consume_cases
    · rw [halt]
      exact first
    · rw [halt, ne_eq, Option.or_eq_some_iff]
      rintro (stopped | ⟨_, stopped⟩)
      · exact first stopped
      · exact second stopped
  report {s} message running := by
    change C.runs (Input.report s message).feed.feed ∧
      C.left (Input.report s message).feed.feed ≤ C.left s.feed
    have same : (Input.report s message).feed.feed = s.feed := by
      unfold Input.report
      split <;> rfl
    rw [same]
    exact ⟨running, Nat.le_refl _⟩
  setState m running := ⟨running, Nat.le_refl _⟩

/-- Looking ahead, there is one token, and the feed looked at has `most` left. -/
def lookahead (C : Clock σ) (most : Nat) : Clock (Lookahead σ) where
  runs s := C.runs s.parent ∧ C.left s.parent ≤ most
  left s := (remaining s.child).length
  consume {s} running := by
    have counts := single.consume (s := s.child) trivial
    exact ⟨running, counts.2⟩
  unhalted {s} _ := single.unhalted (s := s.child) trivial
  report {s} message running := by
    obtain ⟨told, less⟩ := C.report message running.1
    exact ⟨⟨told, Nat.le_trans less running.2⟩, Nat.le_refl _⟩
  setState {s} m running := by
    obtain ⟨carried, less⟩ := C.setState m running.1
    exact ⟨⟨carried, Nat.le_trans less running.2⟩, Nat.le_refl _⟩

/-- Counting, what was taken and what is left make `most` together. -/
def counted (C : Clock σ) (most : Nat) : Clock (Counted σ) where
  runs s := C.runs s.parent ∧ C.left s.parent + s.consumed ≤ most
  left s := C.left s.parent
  consume {s} running := by
    obtain ⟨first, less⟩ := C.consume running.1
    have sum := running.2
    refine ⟨⟨first, ?_⟩, less⟩
    change C.left (Feed.consume s.parent).feed +
      (if (Feed.consume s.parent).token.isSome then s.consumed + 1 else s.consumed) ≤ most
    cases taken : (Feed.consume s.parent).token with
    | none =>
        rw [taken] at less
        simp only [Option.toList_none, List.length_nil] at less
        simp only [Option.isSome_none, Bool.false_eq_true, if_false]
        omega
    | some t =>
        rw [taken] at less
        simp only [Option.toList_some, List.length_singleton] at less
        simp only [Option.isSome_some, if_true]
        omega
  unhalted {s} running := C.unhalted (s := s.parent) running.1
  report {s} message running := by
    obtain ⟨told, less⟩ := C.report message running.1
    exact ⟨⟨told, Nat.le_trans (Nat.add_le_add_right less _) running.2⟩, less⟩
  setState {s} m running := by
    obtain ⟨carried, less⟩ := C.setState m running.1
    exact ⟨⟨carried, Nat.le_trans (Nat.add_le_add_right less _) running.2⟩, less⟩

end Clock

/-! ### Outcomes that do not depend on the fuel -/

theorem Granted.shift {P : Nat → Prop} (granted : Granted P) : Granted fun fuel => P (fuel + 1) := by
  obtain ⟨enough, granted⟩ := granted
  exact ⟨enough, fun fuel le => granted (fuel + 1) (Nat.le_succ_of_le le)⟩

/-- What holds from some amount of fuel on holds of some amount. -/
theorem Granted.exists {P : Nat → Prop} (granted : Granted P) : ∃ fuel, P fuel := by
  obtain ⟨enough, granted⟩ := granted
  exact ⟨enough, granted enough (Nat.le_refl enough)⟩

namespace Read

variable {μ σ α β : Type}

/-- The read has one outcome from some amount of fuel on, which is not that the fuel was used up; if
    it goes through, `after` holds of what it gives and of the session then. -/
def Settles (r : Nat → Read μ σ α) (s : Session μ σ) (after : α → Session μ σ → Prop) : Prop :=
  ∃ result t, (Granted fun fuel => (r fuel).perform s = (result, t)) ∧
    result ≠ .error (.halt .exhausted) ∧ ∀ a, result = .ok a → after a t

namespace Settles

variable {r : Nat → Read μ σ α} {f : Nat → α → Read μ σ β} {s t : Session μ σ} {a : α}
  {after other : α → Session μ σ → Prop} {later : β → Session μ σ → Prop}

/-- A read whose steps do not depend on the fuel. -/
theorem of_perform {step : Read μ σ α} {result : Except (Stop ReadFault) α}
    (run : step.perform s = (result, t)) (fine : result ≠ .error (.halt .exhausted))
    (holds : ∀ a, result = .ok a → after a t) : Settles (fun _ => step) s after :=
  ⟨result, t, .of_forall fun _ => run, fine, holds⟩

theorem of_ok {step : Read μ σ α} (run : step.perform s = (.ok a, t)) (holds : after a t) :
    Settles (fun _ => step) s after := by
  apply of_perform run (by simp)
  intro b same
  cases same
  exact holds

theorem pure (holds : after a s) : Settles (fun _ => (Pure.pure a : Read μ σ α)) s after :=
  of_ok (perform_pure a s) holds

/-- A read that settles for what `f` makes of a result. -/
theorem of_map {q : Nat → Read μ σ β} {result : Except (Stop ReadFault) α} {f : α → β}
    (runs : Granted fun fuel => (q fuel).perform s = (result.map f, t))
    (fine : result ≠ .error (.halt .exhausted)) (holds : ∀ a, result = .ok a → later (f a) t) :
    Settles q s later := by
  refine ⟨result.map f, t, runs, ?_, ?_⟩
  · cases result with
    | error stop => simpa [Except.map] using fine
    | ok a => simp [Except.map]
  · intro b same
    cases result with
    | error stop => simp [Except.map] at same
    | ok a =>
        cases same
        exact holds a rfl

theorem mono (settles : Settles r s after)
    (weaker : ∀ a t, (Granted fun fuel => (r fuel).perform s = (.ok a, t)) → after a t → other a t) :
    Settles r s other := by
  obtain ⟨result, t, runs, fine, holds⟩ := settles
  refine ⟨result, t, runs, fine, ?_⟩
  intro a ok
  subst ok
  exact weaker a t runs (holds a rfl)

theorem bind (first : Settles r s after)
    (second : ∀ a t, (Granted fun fuel => (r fuel).perform s = (.ok a, t)) → after a t →
      Settles (fun fuel => f fuel a) t later) :
    Settles (fun fuel => r fuel >>= f fuel) s later := by
  obtain ⟨result, t, runs, fine, holds⟩ := first
  cases result with
  | error stop =>
      refine ⟨.error stop, t, runs.mono fun fuel run => ?_, by simpa using fine, by simp⟩
      rw [perform_bind, run]
  | ok a =>
      obtain ⟨result, u, runs', fine', holds'⟩ := second a t runs (holds a rfl)
      refine ⟨result, u, (runs.and runs').mono fun fuel both => ?_, fine', holds'⟩
      rw [perform_bind_ok both.1]
      exact both.2

/-- Behind a first step that goes through, what is left to do settles if the whole does. -/
theorem of_bind (whole : Settles (fun fuel => r fuel >>= f fuel) s later)
    (first : Granted fun fuel => (r fuel).perform s = (.ok a, t)) :
    Settles (fun fuel => f fuel a) t later := by
  obtain ⟨result, u, runs, fine, holds⟩ := whole
  refine ⟨result, u, (first.and runs).mono fun fuel both => ?_, fine, holds⟩
  rw [← both.2, perform_bind_ok both.1]

theorem of_succ (settles : Settles (fun fuel => r (fuel + 1)) s after) : Settles r s after := by
  obtain ⟨result, t, runs, fine, holds⟩ := settles
  exact ⟨result, t, Granted.succ (fun _ run => run) runs, fine, holds⟩

theorem shift (settles : Settles r s after) : Settles (fun fuel => r (fuel + 1)) s after := by
  obtain ⟨result, t, runs, fine, holds⟩ := settles
  exact ⟨result, t, runs.shift, fine, holds⟩

end Settles

end Read

theorem Read.perform_counting {μ σ α : Type} (r : Read μ (Counted σ) α) (s : Session μ σ) :
    (Read.counting r).perform s =
      ((r.perform { s with feed := Counted.of s.feed }).1.map fun a =>
          (a, (r.perform { s with feed := Counted.of s.feed }).2.feed.consumed),
        { (r.perform { s with feed := Counted.of s.feed }).2 with
          feed := (r.perform { s with feed := Counted.of s.feed }).2.feed.parent }) := by
  unfold Read.counting
  rw [Read.perform_inside, Read.perform_bind]
  rcases r.perform { s with feed := Counted.of s.feed } with ⟨stop | a, t⟩ <;> rfl

/-! ### Tame reads -/

/-- The clock of the feed runs and has `most` left at most, and the memory is one of those that the
    grammar may come to. -/
structure Going {μ σ : Type} [Feed σ] (C : Clock σ) (M : μ → Prop) (most : Nat) (s : Session μ σ) :
    Prop where
  runs : C.runs s.feed
  within : C.left s.feed ≤ most
  memory : M s.memory

section Tame

variable {μ σ α β : Type} [Feed σ] {C : Clock σ} {M : μ → Prop} {most fewer : Nat}

theorem Going.mono {s : Session μ σ} (going : Going C M fewer s) (le : fewer ≤ most) :
    Going C M most s :=
  ⟨going.runs, Nat.le_trans going.within le, going.memory⟩

/-- The read settles wherever the clock runs, and leaves it running. -/
def TameAt (C : Clock σ) (M : μ → Prop) (most : Nat) (r : Nat → Read μ σ α) : Prop :=
  ∀ ⦃s⦄, Going C M most s → Read.Settles r s fun _ t => Going C M most t

/-- A tame read that leaves less on the clock whenever it has read what `went` asks for. -/
def AdvancesAt (C : Clock σ) (M : μ → Prop) (most : Nat) (went : α → Prop) (r : Nat → Read μ σ α) :
    Prop :=
  ∀ ⦃s⦄, Going C M most s → Read.Settles r s fun a t =>
    Going C M most t ∧ (went a → ∃ fewer < most, Going C M fewer t)

namespace AdvancesAt

variable {went : α → Prop} {r : Nat → Read μ σ α}

theorem tame (advances : AdvancesAt C M most went r) : TameAt C M most r :=
  fun _ going => (advances going).mono fun _ _ _ both => both.1

theorem bind {f : Nat → α → Read μ σ β} (first : AdvancesAt C M most went r)
    (stay : ∀ a, ¬ went a → TameAt C M most fun fuel => f fuel a)
    (go : ∀ a, went a → ∀ fewer < most, TameAt C M fewer fun fuel => f fuel a) :
    TameAt C M most fun fuel => r fuel >>= f fuel := by
  intro s going
  apply (first going).bind
  intro a t _ both
  by_cases h : went a
  · obtain ⟨fewer, lt, less⟩ := both.2 h
    exact (go a h fewer lt less).mono fun _ _ _ kept => kept.mono (Nat.le_of_lt lt)
  · exact stay a h both.1

theorem shift (advances : AdvancesAt C M most went r) :
    AdvancesAt C M most went fun fuel => r (fuel + 1) :=
  fun _ going => (advances going).shift

/-- A reader that may read nothing, of which only matters what it leaves when it reads. -/
theorem bind_option {r : Nat → Read μ σ (Option α)} {f : Nat → Option α → Read μ σ β}
    (first : AdvancesAt C M most (fun a => a.isSome) r)
    (none : TameAt C M most fun fuel => f fuel none)
    (some : ∀ a, ∀ fewer < most, TameAt C M fewer fun fuel => f fuel (some a)) :
    TameAt C M most fun fuel => r fuel >>= f fuel := by
  apply first.bind
  · intro read nothing
    cases read with
    | none => exact none
    | some a => exact absurd rfl nothing
  · intro read _
    cases read with
    | none => contradiction
    | some a => exact some a

end AdvancesAt

namespace TameAt

theorem bind {r : Nat → Read μ σ α} {f : Nat → α → Read μ σ β} (first : TameAt C M most r)
    (second : ∀ a, TameAt C M most fun fuel => f fuel a) :
    TameAt C M most fun fuel => r fuel >>= f fuel :=
  fun _ going => (first going).bind fun a _ _ kept => second a kept

theorem pure (a : α) : TameAt C M most fun _ => (Pure.pure a : Read μ σ α) :=
  fun _ going => .pure going

theorem map {r : Nat → Read μ σ α} (f : α → β) (first : TameAt C M most r) :
    TameAt C M most fun fuel => do return f (← r fuel) :=
  first.bind fun a => pure (f a)

theorem throw {stop : Stop ReadFault} (fine : stop ≠ .halt .exhausted) :
    TameAt C M most fun _ => (MonadExcept.throw stop : Read μ σ α) :=
  fun _ going => .of_perform (Read.perform_throw stop _) (by simpa using fine) (by simp)

theorem fault (cause : ReadFault) : TameAt C M most fun _ => (Read.fault cause : Read μ σ α) :=
  throw (by simp)

/-- A read may do one step by itself before it passes on its fuel. -/
theorem of_succ {r : Nat → Read μ σ α} (tame : TameAt C M most fun fuel => r (fuel + 1)) :
    TameAt C M most r :=
  fun _ going => (tame going).of_succ

theorem shift {r : Nat → Read μ σ α} (tame : TameAt C M most r) :
    TameAt C M most fun fuel => r (fuel + 1) :=
  fun _ going => (tame going).shift

/-! ### The journal and the memory -/

theorem note (n : Note) : TameAt C M most fun _ => (Read.note n : Read μ σ Unit) :=
  fun _ going => .of_ok (Read.perform_note n _) ⟨going.runs, going.within, going.memory⟩

theorem memory_bind {f : Nat → μ → Read μ σ β}
    (second : ∀ m, M m → TameAt C M most fun fuel => f fuel m) :
    TameAt C M most fun fuel => Read.memory >>= f fuel := by
  intro s going
  have first : Read.Settles (fun _ => (Read.memory : Read μ σ μ)) s fun m t =>
      M m ∧ Going C M most t := .of_ok (Read.perform_memory s) ⟨going.memory, going⟩
  exact first.bind fun m t _ both => second m both.1 both.2

theorem setMemory {m : μ} (allowed : M m) :
    TameAt C M most fun _ => (Read.setMemory m : Read μ σ Unit) :=
  fun _ going => .of_ok (Read.perform_setMemory m _) ⟨going.runs, going.within, allowed⟩

theorem scoping {r : Nat → Read μ σ α} {enter : μ → μ} {leave : μ → μ → μ}
    (entering : ∀ {m}, M m → M (enter m)) (leaving : ∀ {m n}, M m → M n → M (leave m n))
    (tame : TameAt C M most r) : TameAt C M most fun fuel => Read.scoping enter leave (r fuel) := by
  intro s going
  have entered : Going C M most { s with memory := enter s.memory } :=
    ⟨going.runs, going.within, entering going.memory⟩
  obtain ⟨result, t, runs, fine, holds⟩ := tame entered
  refine ⟨result, { t with memory := leave s.memory t.memory }, ?_, fine, ?_⟩
  · apply runs.mono
    intro fuel run
    rw [Read.perform_scoping, run]
  · intro a ok
    have kept := holds a ok
    exact ⟨kept.runs, kept.within, leaving going.memory kept.memory⟩

/-! ### The feed -/

theorem peek : TameAt C M most fun _ => (Read.peek : Read μ σ Token) :=
  fun _ going => .of_ok (Read.perform_peek _) going

theorem atEnd : TameAt C M most fun _ => (Read.atEnd : Read μ σ Bool) :=
  fun _ going => .of_ok (Read.perform_atEnd _) going

theorem location : TameAt C M most fun _ => (Read.location : Read μ σ (Option Location)) :=
  fun _ going => .of_ok (Read.perform_location _) going

theorem state? (k : StateKind) :
    TameAt C M most fun _ => (Read.state? k : Read μ σ (Option k.Carrier)) :=
  fun _ going => .of_ok (Read.perform_state? k _) going

theorem setState (k : StateKind) (v : k.Carrier) :
    TameAt C M most fun _ => (Read.setState k v : Read μ σ Unit) := by
  intro s going
  apply Read.Settles.of_ok (Read.perform_setState k v s)
  cases Feed.state s.feed with
  | none => exact going
  | some m =>
      obtain ⟨runs, less⟩ := C.setState (m.insert k v) going.runs
      exact ⟨runs, Nat.le_trans less going.within, going.memory⟩

theorem report (message : String) :
    TameAt C M most fun _ => (Read.report message : Read μ σ Unit) := by
  intro s going
  obtain ⟨runs, less⟩ := C.report message going.runs
  apply Read.Settles.of_perform (Read.perform_report message s)
  · cases (Feed.report s.feed message).fault <;> simp
  · intro _ _
    exact ⟨runs, Nat.le_trans less going.within, going.memory⟩

end TameAt

theorem AdvancesAt.consume :
    AdvancesAt C M most (fun t => t.isSome) fun _ => (Read.consume : Read μ σ (Option Token)) := by
  intro s going
  obtain ⟨runs, less⟩ := C.consume going.runs
  have within := going.within
  apply Read.Settles.of_perform (Read.perform_consume s)
  · have fine := C.unhalted going.runs
    cases halt : (Feed.consume s.feed).halt with
    | none => simp
    | some cause => simpa [halt] using fine
  · intro taken ok
    have token : (Feed.consume s.feed).token = taken := by
      cases halt : (Feed.consume s.feed).halt with
      | none => simpa [halt] using ok
      | some cause => simp [halt] at ok
    refine ⟨⟨runs, by dsimp only; omega, going.memory⟩, fun some => ?_⟩
    obtain ⟨t, rfl⟩ := Option.isSome_iff_exists.mp some
    rw [token, Option.toList_some, List.length_singleton] at less
    exact ⟨C.left (Feed.consume s.feed).feed, by omega, runs, Nat.le_refl _, going.memory⟩

/-! ### Nested feeds -/

theorem TameAt.peeking {r : Nat → Read μ (Lookahead σ) α} (tame : TameAt (C.lookahead most) M 1 r) :
    TameAt C M most fun fuel => Read.peeking (r fuel) := by
  intro s going
  have entered : Going (C.lookahead most) M 1 { s with feed := Lookahead.of s.feed } :=
    ⟨⟨going.runs, going.within⟩, Nat.le_refl 1, going.memory⟩
  obtain ⟨result, t, runs, fine, holds⟩ := tame entered
  refine ⟨result, { t with feed := t.feed.parent }, ?_, fine, ?_⟩
  · apply runs.mono
    intro fuel run
    unfold Read.peeking
    rw [Read.perform_inside, run]
  · intro a ok
    have kept := holds a ok
    exact ⟨kept.runs.1, kept.runs.2, kept.memory⟩

theorem TameAt.testPeek {r : Nat → Read μ (Lookahead σ) (Option α)}
    (tame : TameAt (C.lookahead most) M 1 r) :
    TameAt C M most fun fuel => Read.testPeek (r fuel) :=
  tame.peeking.map Option.isSome

/-- A read that is counted leaves as much less on the clock as it is told to have taken. -/
theorem AdvancesAt.counting {r : Nat → Read μ (Counted σ) α}
    (tame : ∀ most, TameAt (C.counted most) M most r) :
    AdvancesAt C M most (fun counted => 0 < counted.2) fun fuel => Read.counting (r fuel) := by
  intro s going
  have entered : Going (C.counted (C.left s.feed)) M (C.left s.feed)
      { s with feed := Counted.of s.feed } :=
    ⟨⟨going.runs, Nat.le_refl _⟩, Nat.le_refl _, going.memory⟩
  obtain ⟨result, t, runs, fine, holds⟩ := tame _ entered
  apply Read.Settles.of_map (t := { t with feed := t.feed.parent })
    (f := fun a => (a, t.feed.consumed)) _ fine
  · intro a ok
    have kept := holds a ok
    obtain ⟨running, sum⟩ := kept.runs
    have within := going.within
    refine ⟨⟨running, by dsimp only; omega, kept.memory⟩, fun taken => ?_⟩
    dsimp only at taken
    exact ⟨C.left t.feed.parent, by omega, running, Nat.le_refl _, kept.memory⟩
  · apply runs.mono
    intro fuel run
    rw [Read.perform_counting, run]

end Tame

/-! ### Reads that make progress -/

namespace Counted

variable {σ : Type} [Feed σ]

/-- Counting changes no answer. -/
theorem wraps : Feed.Wraps (parent : Counted σ → σ) where
  peek _ := rfl
  atEnd _ := rfl
  location _ := rfl
  state _ := rfl
  setState _ _ := rfl
  consume _ := ⟨rfl, rfl, rfl, rfl⟩
  report _ _ := ⟨rfl, rfl, rfl⟩

end Counted

/-- A read that goes the same way on a counted feed comes out the same when it is counted. -/
theorem Likeness.Agree.counted {μ σ α : Type} [Feed σ] {r : Read μ (Counted σ) α} {q : Read μ σ α}
    (h : Counted.wraps.likeness.Agree r q) {s t : Session μ σ}
    {result : Except (Stop ReadFault) (α × Nat)}
    (run : (Read.counting r).perform s = (result, t)) :
    q.perform s = (result.map Prod.fst, t) := by
  have same := Counted.wraps.unwrapped h { s with feed := Counted.of s.feed }
  rw [Read.perform_counting] at run
  cases run
  apply same.trans
  apply Prod.ext
  · dsimp only
    cases (r.perform { s with feed := Counted.of s.feed }).1 <;> rfl
  · rfl

section Progress

variable {μ α : Type} {M : μ → Prop} {went : α → Prop}

/-- On every finite feed, with every memory that the grammar may come to and however much fuel, the
    read takes at least one token whenever it reads what `went` asks for. -/
def Read.Advances (M : μ → Prop) (went : α → Prop)
    (r : ∀ {σ : Type} [Feed σ], Nat → Read μ σ α) : Prop :=
  ∀ ⦃σ : Type⦄ [Feed σ] (s : Session μ σ) (fuel : Nat), Feed.IsFinite s.feed → M s.memory →
    ∀ {a taken after}, (Read.counting (r fuel)).perform s = (.ok (a, taken), after) →
      went a → 0 < taken

/-- A read that takes tokens moves every clock. -/
theorem Read.Advances.at {r : ∀ {σ : Type} [Feed σ], Nat → Read μ σ α}
    (advances : Read.Advances M went r)
    (tame : ∀ {σ : Type} [Feed σ] (C : Clock σ) most, TameAt C M most fun fuel => r fuel)
    (agree : ∀ {σ : Type} [Feed σ] fuel,
      Counted.wraps.likeness.Agree (r fuel : Read μ (Counted σ) α) (r fuel))
    {σ : Type} [Feed σ] (C : Clock σ) (most : Nat) : AdvancesAt C M most went fun fuel => r fuel := by
  intro s going
  obtain ⟨result, t, runs, fine, holds⟩ :=
    AdvancesAt.counting (fun most => tame (C.counted most) most) going
  apply Read.Settles.of_map (runs.mono fun fuel run => (agree fuel).counted run) fine
  intro counted ok
  subst ok
  obtain ⟨kept, less⟩ := holds counted rfl
  obtain ⟨fuel, run⟩ := runs.exists
  exact ⟨kept, fun reads => less (advances s fuel ⟨C, going.runs⟩ going.memory run reads)⟩

end Progress

end Duplex
