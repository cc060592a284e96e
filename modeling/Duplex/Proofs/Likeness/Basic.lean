/-
Module: Duplex.Proofs.Likeness.Basic
Purpose: When a grammar cannot tell two feeds apart.  A likeness relates the feeds of two runs as long
  as both go on alike, and says what is left to know about the first run once a report has ended the
  second one.  Two readers agree if they keep a likeness; agreement is closed under the steps of the
  `Read` monad and passes to feeds nested in the two feeds.
Main exports: Feed.Invariant, Likeness, Likeness.Agree, Likeness.Agree.bind,
  Likeness.lookahead, Likeness.counted, Likeness.ofInvariant, Feed.Wraps
-/
import Duplex.Proofs.Writing

namespace Duplex

/-- Taking a token from a feed of one token is not noted. -/
theorem Single.notes_consume (c : Single) : (Feed.consume c).notes = [] := by
  simp only [Feed.consume]
  split <;> rfl

/-- A property of a feed and of the journal that nothing a grammar does to them can break. -/
structure Feed.Invariant {σ : Type} [Feed σ] (P : σ → Journal → Prop) : Prop where
  consume : ∀ {s j}, P s j → P (Feed.consume s).feed (j.addAll (Feed.consume s).notes)
  report : ∀ {s j} (message : String), P s j →
    P (Feed.report s message).feed (j.addAll (Feed.report s message).notes)
  setState : ∀ {s j} (m : StateMap), P s j → P (Feed.setState s m) j
  note : ∀ {s j n}, n.byFeed = false → P s j → P s (j.add n)

/-- Where no fault can end a run alone, nothing is asked of what is left then. -/
theorem Feed.invariant_false {σ : Type} [Feed σ] (_ : ReadFault) :
    Feed.Invariant fun (_ : σ) (_ : Journal) => False :=
  ⟨False.elim, fun _ => False.elim, fun _ => False.elim, fun _ => False.elim⟩

/-- Feeds of two runs that a grammar cannot tell apart.  A report may end the second run alone, by a
    fault; `ended` is what holds of the first run from then on. -/
structure Likeness (σ ρ : Type) [Feed σ] [Feed ρ] where
  alike : σ → Journal → ρ → Journal → Prop
  ended : ReadFault → σ → Journal → Prop
  kept : ∀ cause, Feed.Invariant (ended cause)
  peek : ∀ {s j t k}, alike s j t k → Feed.peek s = Feed.peek t
  atEnd : ∀ {s j t k}, alike s j t k → Feed.atEnd s = Feed.atEnd t
  location : ∀ {s j t k}, alike s j t k → Feed.location s = Feed.location t
  state : ∀ {s j t k}, alike s j t k → Feed.state s = Feed.state t
  setState : ∀ {s j t k} (m : StateMap), alike s j t k →
    alike (Feed.setState s m) j (Feed.setState t m) k
  note : ∀ {s j t k n}, n.byFeed = false → alike s j t k → alike s (j.add n) t (k.add n)
  consume : ∀ {s j t k}, alike s j t k →
    (Feed.consume s).token = (Feed.consume t).token ∧
    (Feed.consume s).halt = (Feed.consume t).halt ∧
    alike (Feed.consume s).feed (j.addAll (Feed.consume s).notes)
      (Feed.consume t).feed (k.addAll (Feed.consume t).notes)
  report : ∀ {s j t k} (message : String), alike s j t k →
    ((Feed.report s message).fault = (Feed.report t message).fault ∧
      alike (Feed.report s message).feed (j.addAll (Feed.report s message).notes)
        (Feed.report t message).feed (k.addAll (Feed.report t message).notes)) ∨
    ∃ cause, (Feed.report t message).fault = some cause ∧
      ended cause (Feed.report s message).feed (j.addAll (Feed.report s message).notes)

namespace Likeness

variable {μ σ ρ α β : Type} [Feed σ] [Feed ρ] (L : Likeness σ ρ)

/-- Two sessions with the same memory and feeds alike. -/
def Alike (s : Session μ σ) (t : Session μ ρ) : Prop :=
  s.memory = t.memory ∧ L.alike s.feed s.journal t.feed t.journal

/-- Only the first of two runs goes on; the second was ended by a fault. -/
def Ended (cause : ReadFault) (s : Session μ σ) : Prop :=
  L.ended cause s.feed s.journal

/-- Two runs came out alike, or a fault ended the second one on the way. -/
def Outcome (x : Except (Stop ReadFault) α × Session μ σ)
    (y : Except (Stop ReadFault) α × Session μ ρ) : Prop :=
  (x.1 = y.1 ∧ L.Alike x.2 y.2) ∨ ∃ cause, y.1 = .error (.fault cause) ∧ L.Ended cause x.2

/-- Two readers that keep the likeness. -/
structure Agree (r : Read μ σ α) (q : Read μ ρ α) : Prop where
  together : ∀ {s t}, L.Alike s t → L.Outcome (r.perform s) (q.perform t)
  alone : ∀ {cause s}, L.Ended cause s → L.Ended cause (r.perform s).2

variable {L}

theorem Outcome.of_ok {s : Session μ σ} {t : Session μ ρ} (a : α) (h : L.Alike s t) :
    L.Outcome (.ok a, s) (.ok a, t) :=
  .inl ⟨rfl, h⟩

namespace Agree

/-! ### Steps of the monad -/

theorem pure (a : α) : L.Agree (Pure.pure a : Read μ σ α) (Pure.pure a) where
  together h := .inl ⟨rfl, h⟩
  alone h := h

theorem throw (stop : Stop ReadFault) :
    L.Agree (MonadExcept.throw stop : Read μ σ α) (MonadExcept.throw stop) where
  together h := .inl ⟨rfl, h⟩
  alone h := h

theorem bind {r : Read μ σ α} {q : Read μ ρ α} {f : α → Read μ σ β} {g : α → Read μ ρ β}
    (first : L.Agree r q) (second : ∀ a, L.Agree (f a) (g a)) : L.Agree (r >>= f) (q >>= g) where
  together {s t} h := by
    rw [Read.perform_bind, Read.perform_bind]
    have outcome := first.together h
    rcases hr : r.perform s with ⟨stop | a, s'⟩ <;> rcases hq : q.perform t with ⟨stop' | b, t'⟩ <;>
      rw [hr, hq] at outcome
    · rcases outcome with ⟨same, alike⟩ | ⟨cause, stopped, ended⟩
      · cases same
        exact .inl ⟨rfl, alike⟩
      · cases stopped
        exact .inr ⟨cause, rfl, ended⟩
    · rcases outcome with ⟨same, _⟩ | ⟨cause, stopped, _⟩
      · cases same
      · cases stopped
    · -- the first run goes on alone behind the fault that ended the second
      rcases outcome with ⟨same, _⟩ | ⟨cause, stopped, ended⟩
      · cases same
      · cases stopped
        exact .inr ⟨cause, rfl, (second a).alone ended⟩
    · rcases outcome with ⟨same, alike⟩ | ⟨cause, stopped, _⟩
      · cases same
        exact (second a).together alike
      · cases stopped
  alone {cause s} h := by
    rw [Read.perform_bind]
    have kept := first.alone h
    rcases hr : r.perform s with ⟨stop | a, s'⟩ <;> rw [hr] at kept
    · exact kept
    · exact (second a).alone kept

theorem map {r : Read μ σ α} {q : Read μ ρ α} (f : α → β) (first : L.Agree r q) :
    L.Agree (do return f (← r)) (do return f (← q)) :=
  first.bind fun a => pure (f a)

/-! ### The journal and the memory -/

theorem note {n : Note} (h : n.byFeed = false) :
    L.Agree (Read.note n : Read μ σ Unit) (Read.note n) where
  together alike := .of_ok _ ⟨alike.1, L.note h alike.2⟩
  alone ended := (L.kept _).note h ended

theorem memory : L.Agree (Read.memory : Read μ σ μ) Read.memory where
  together {s t} h := by
    rw [Read.perform_memory, Read.perform_memory, h.1]
    exact .of_ok _ h
  alone h := h

theorem setMemory (m : μ) : L.Agree (Read.setMemory m : Read μ σ Unit) (Read.setMemory m) where
  together h := .of_ok _ ⟨rfl, h.2⟩
  alone h := h

theorem scoping {r : Read μ σ α} {q : Read μ ρ α} (enter : μ → μ) (leave : μ → μ → μ)
    (h : L.Agree r q) : L.Agree (Read.scoping enter leave r) (Read.scoping enter leave q) where
  together {s t} alike := by
    rw [Read.perform_scoping, Read.perform_scoping, alike.1]
    have entered : L.Alike { s with memory := enter t.memory } { t with memory := enter t.memory } :=
      ⟨rfl, alike.2⟩
    rcases h.together entered with ⟨same, after⟩ | ⟨cause, stopped, ended⟩
    · exact .inl ⟨same, by rw [after.1], after.2⟩
    · exact .inr ⟨cause, stopped, ended⟩
  alone {cause s} ended := by
    rw [Read.perform_scoping]
    have entered : L.Ended cause { s with memory := enter s.memory } := ended
    exact h.alone entered

/-! ### The feed -/

theorem peek : L.Agree (Read.peek : Read μ σ Token) Read.peek where
  together {s t} h := by
    rw [Read.perform_peek, Read.perform_peek, L.peek h.2]
    exact .of_ok _ h
  alone h := h

theorem atEnd : L.Agree (Read.atEnd : Read μ σ Bool) Read.atEnd where
  together {s t} h := by
    rw [Read.perform_atEnd, Read.perform_atEnd, L.atEnd h.2]
    exact .of_ok _ h
  alone h := h

theorem location : L.Agree (Read.location : Read μ σ (Option Location)) Read.location where
  together {s t} h := by
    rw [Read.perform_location, Read.perform_location, L.location h.2]
    exact .of_ok _ h
  alone h := h

theorem state? (k : StateKind) :
    L.Agree (Read.state? k : Read μ σ (Option k.Carrier)) (Read.state? k) where
  together {s t} h := by
    rw [Read.perform_state?, Read.perform_state?, L.state h.2]
    exact .of_ok _ h
  alone h := h

theorem setState (k : StateKind) (v : k.Carrier) :
    L.Agree (Read.setState k v : Read μ σ Unit) (Read.setState k v) where
  together {s t} h := by
    rw [Read.perform_setState, Read.perform_setState, L.state h.2]
    cases Feed.state t.feed with
    | none => exact .of_ok _ h
    | some m => exact .of_ok _ ⟨h.1, L.setState _ h.2⟩
  alone {cause s} h := by
    rw [Read.perform_setState]
    cases hs : Feed.state s.feed with
    | none => exact h
    | some m => exact (L.kept cause).setState _ h

theorem consume : L.Agree (Read.consume : Read μ σ (Option Token)) Read.consume where
  together {s t} h := by
    obtain ⟨token, halt, alike⟩ := L.consume h.2
    rw [Read.perform_consume, Read.perform_consume, token, halt]
    exact .inl ⟨rfl, h.1, alike⟩
  alone {cause s} h := by
    rw [Read.perform_consume]
    exact (L.kept cause).consume h

theorem report (message : String) :
    L.Agree (Read.report message : Read μ σ Unit) (Read.report message) where
  together {s t} h := by
    rw [Read.perform_report, Read.perform_report]
    rcases L.report message h.2 with ⟨same, alike⟩ | ⟨cause, told, ended⟩
    · rw [same]
      exact .inl ⟨rfl, h.1, alike⟩
    · rw [told]
      exact .inr ⟨cause, rfl, ended⟩
  alone {cause s} h := by
    rw [Read.perform_report]
    exact (L.kept cause).report message h

end Agree

/-! ### Nested feeds -/

/-- Lookahead on feeds alike. -/
def lookahead (L : Likeness σ ρ) : Likeness (Lookahead σ) (Lookahead ρ) where
  alike s j t k := s.child = t.child ∧ L.alike s.parent j t.parent k
  ended cause s j := L.ended cause s.parent j
  kept cause :=
    { consume := fun {s j} h => by
        show L.ended cause s.parent (j.addAll (Feed.consume s.child).notes)
        rw [Single.notes_consume]
        exact h
      report := fun message h => (L.kept cause).report message h
      setState := fun m h => (L.kept cause).setState m h
      note := fun hn h => (L.kept cause).note hn h }
  peek h := by simp only [Feed.peek, h.1]
  atEnd h := by simp only [Feed.atEnd, h.1]
  location h := L.location h.2
  state h := L.state h.2
  setState m h := ⟨h.1, L.setState m h.2⟩
  note hn h := ⟨h.1, L.note hn h.2⟩
  consume {s j t k} h := by
    refine ⟨?_, ?_, ?_, ?_⟩
    · show (Feed.consume s.child).token = (Feed.consume t.child).token
      rw [h.1]
    · show (Feed.consume s.child).halt = (Feed.consume t.child).halt
      rw [h.1]
    · show (Feed.consume s.child).feed = (Feed.consume t.child).feed
      rw [h.1]
    · show L.alike s.parent (j.addAll (Feed.consume s.child).notes) t.parent
        (k.addAll (Feed.consume t.child).notes)
      rw [Single.notes_consume, Single.notes_consume]
      exact h.2
  report message h := by
    rcases L.report message h.2 with ⟨same, alike⟩ | ⟨cause, told, ended⟩
    · exact .inl ⟨same, h.1, alike⟩
    · exact .inr ⟨cause, told, ended⟩

/-- Counting on feeds alike. -/
def counted (L : Likeness σ ρ) : Likeness (Counted σ) (Counted ρ) where
  alike s j t k := s.consumed = t.consumed ∧ L.alike s.parent j t.parent k
  ended cause s j := L.ended cause s.parent j
  kept cause :=
    { consume := fun h => (L.kept cause).consume h
      report := fun message h => (L.kept cause).report message h
      setState := fun m h => (L.kept cause).setState m h
      note := fun hn h => (L.kept cause).note hn h }
  peek h := L.peek h.2
  atEnd h := L.atEnd h.2
  location h := L.location h.2
  state h := L.state h.2
  setState m h := ⟨h.1, L.setState m h.2⟩
  note hn h := ⟨h.1, L.note hn h.2⟩
  consume {s j t k} h := by
    obtain ⟨token, halt, alike⟩ := L.consume h.2
    refine ⟨token, halt, ?_, alike⟩
    show (if (Feed.consume s.parent).token.isSome then s.consumed + 1 else s.consumed) =
      if (Feed.consume t.parent).token.isSome then t.consumed + 1 else t.consumed
    rw [token, h.1]
  report message h := by
    rcases L.report message h.2 with ⟨same, alike⟩ | ⟨cause, told, ended⟩
    · exact .inl ⟨same, h.1, alike⟩
    · exact .inr ⟨cause, told, ended⟩

namespace Agree

theorem peeking {r : Read μ (Lookahead σ) α} {q : Read μ (Lookahead ρ) α}
    (h : L.lookahead.Agree r q) : L.Agree (Read.peeking r) (Read.peeking q) where
  together {s t} alike := by
    unfold Read.peeking
    rw [Read.perform_inside, Read.perform_inside]
    have entered : L.lookahead.Alike { s with feed := Lookahead.of s.feed }
        { t with feed := Lookahead.of t.feed } :=
      ⟨alike.1, by simp only [Lookahead.of, L.peek alike.2], alike.2⟩
    rcases h.together entered with ⟨same, after⟩ | ⟨cause, stopped, ended⟩
    · exact .inl ⟨same, after.1, after.2.2⟩
    · exact .inr ⟨cause, stopped, ended⟩
  alone {cause s} ended := by
    unfold Read.peeking
    rw [Read.perform_inside]
    have entered : L.lookahead.Ended cause { s with feed := Lookahead.of s.feed } := ended
    exact h.alone entered

theorem testPeek {r : Read μ (Lookahead σ) (Option α)} {q : Read μ (Lookahead ρ) (Option α)}
    (h : L.lookahead.Agree r q) : L.Agree (Read.testPeek r) (Read.testPeek q) :=
  (peeking h).map Option.isSome

theorem counting {r : Read μ (Counted σ) α} {q : Read μ (Counted ρ) α}
    (h : L.counted.Agree r q) : L.Agree (Read.counting r) (Read.counting q) := by
  have tally : L.counted.Agree
      (do return (← get).feed.consumed : Read μ (Counted σ) Nat)
      (do return (← get).feed.consumed) :=
    { together := fun {s t} alike => by
        show L.counted.Outcome (.ok s.feed.consumed, s) (.ok t.feed.consumed, t)
        rw [alike.2.1]
        exact .of_ok _ alike
      alone := fun ended => ended }
  have inner : L.counted.Agree
      (do let a ← r; return (a, (← get).feed.consumed) : Read μ (Counted σ) (α × Nat))
      (do let a ← q; return (a, (← get).feed.consumed)) :=
    h.bind fun a => tally.map fun n => (a, n)
  constructor
  · intro s t alike
    unfold Read.counting
    rw [Read.perform_inside, Read.perform_inside]
    have entered : L.counted.Alike { s with feed := Counted.of s.feed }
        { t with feed := Counted.of t.feed } :=
      ⟨alike.1, rfl, alike.2⟩
    rcases inner.together entered with ⟨same, after⟩ | ⟨cause, stopped, ended⟩
    · exact .inl ⟨same, after.1, after.2.2⟩
    · exact .inr ⟨cause, stopped, ended⟩
  · intro cause s ended
    unfold Read.counting
    rw [Read.perform_inside]
    have entered : L.counted.Ended cause { s with feed := Counted.of s.feed } := ended
    exact inner.alone entered

end Agree

/-! ### One run against itself -/

/-- A feed is like itself as long as an invariant of it holds. -/
def ofInvariant {P : σ → Journal → Prop} (inv : Feed.Invariant P) : Likeness σ σ where
  alike s j t k := s = t ∧ j = k ∧ P s j
  ended _ _ _ := False
  kept := Feed.invariant_false
  peek h := by rw [h.1]
  atEnd h := by rw [h.1]
  location h := by rw [h.1]
  state h := by rw [h.1]
  setState m h := ⟨by rw [h.1], h.2.1, inv.setState m h.2.2⟩
  note hn h := ⟨h.1, by rw [h.2.1], inv.note hn h.2.2⟩
  consume h := by
    obtain ⟨rfl, rfl, holds⟩ := h
    exact ⟨rfl, rfl, rfl, rfl, inv.consume holds⟩
  report message h := by
    obtain ⟨rfl, rfl, holds⟩ := h
    exact .inl ⟨rfl, rfl, rfl, inv.report message holds⟩

/-- A reader that agrees with itself keeps the invariant. -/
theorem Agree.keeps {P : σ → Journal → Prop} {inv : Feed.Invariant P} {r : Read μ σ α}
    (h : (ofInvariant inv).Agree r r) {s : Session μ σ} (holds : P s.feed s.journal) :
    P (r.perform s).2.feed (r.perform s).2.journal := by
  have start : (ofInvariant inv).Alike s s := ⟨rfl, rfl, rfl, holds⟩
  rcases h.together start with ⟨_, _, _, _, kept⟩ | ⟨_, _, ended⟩
  · exact kept
  · exact ended.elim

end Likeness

/-! ### Feeds around feeds -/

/-- A feed that answers as the feed inside it does. -/
structure Feed.Wraps {ω σ : Type} [Feed ω] [Feed σ] (inner : ω → σ) : Prop where
  peek : ∀ w, Feed.peek w = Feed.peek (inner w)
  atEnd : ∀ w, Feed.atEnd w = Feed.atEnd (inner w)
  location : ∀ w, Feed.location w = Feed.location (inner w)
  state : ∀ w, Feed.state w = Feed.state (inner w)
  setState : ∀ w m, inner (Feed.setState w m) = Feed.setState (inner w) m
  consume : ∀ w, (Feed.consume w).token = (Feed.consume (inner w)).token ∧
    (Feed.consume w).halt = (Feed.consume (inner w)).halt ∧
    (Feed.consume w).notes = (Feed.consume (inner w)).notes ∧
    inner (Feed.consume w).feed = (Feed.consume (inner w)).feed
  report : ∀ w message, (Feed.report w message).fault = (Feed.report (inner w) message).fault ∧
    (Feed.report w message).notes = (Feed.report (inner w) message).notes ∧
    inner (Feed.report w message).feed = (Feed.report (inner w) message).feed

section Wraps

variable {ω σ : Type} [Feed ω] [Feed σ] {inner : ω → σ}

/-- A feed is like the feed inside it. -/
def Feed.Wraps.likeness (wraps : Feed.Wraps inner) : Likeness ω σ where
  alike w j t k := inner w = t ∧ j = k
  ended _ _ _ := False
  kept := Feed.invariant_false
  peek := by
    rintro w j t k ⟨rfl, rfl⟩
    exact wraps.peek w
  atEnd := by
    rintro w j t k ⟨rfl, rfl⟩
    exact wraps.atEnd w
  location := by
    rintro w j t k ⟨rfl, rfl⟩
    exact wraps.location w
  state := by
    rintro w j t k ⟨rfl, rfl⟩
    exact wraps.state w
  setState := by
    rintro w j t k m ⟨rfl, rfl⟩
    exact ⟨wraps.setState w m, rfl⟩
  note := by
    rintro w j t k n _ ⟨rfl, rfl⟩
    exact ⟨rfl, rfl⟩
  consume := by
    rintro w j t k ⟨rfl, rfl⟩
    obtain ⟨token, halt, notes, feed⟩ := wraps.consume w
    exact ⟨token, halt, feed, by rw [notes]⟩
  report := by
    rintro w j t k message ⟨rfl, rfl⟩
    obtain ⟨fault, notes, feed⟩ := wraps.report w message
    exact .inl ⟨fault, feed, by rw [notes]⟩

/-- A read that goes the same way on both feeds comes out the same on the one inside. -/
theorem Feed.Wraps.unwrapped {μ α : Type} (wraps : Feed.Wraps inner) {r : Read μ ω α}
    {q : Read μ σ α} (h : wraps.likeness.Agree r q) (s : Session μ ω) :
    q.perform ⟨inner s.feed, s.memory, s.journal⟩ =
      ((r.perform s).1,
        ⟨inner (r.perform s).2.feed, (r.perform s).2.memory, (r.perform s).2.journal⟩) := by
  have start : wraps.likeness.Alike s ⟨inner s.feed, s.memory, s.journal⟩ := ⟨rfl, rfl, rfl⟩
  rcases h.together start with ⟨result, memory, feed, journal⟩ | ⟨_, _, ended⟩
  · apply Prod.ext result.symm
    change _ = (⟨_, _, _⟩ : Session μ σ)
    rw [memory, feed, journal]
  · exact ended.elim

end Wraps

end Duplex
