/-
Module: Duplex.Proofs.Outline.Shape
Purpose: What a raising input can give an outline grammar.  A report ends the read there, so that a
  read that goes through made none: every block has been opened deeper than the line above it, holds
  at least one line, and was closed at the indentation of a block around it.  `Read.Ensures` is the
  partial correctness this is derived in, under an invariant of the feed.
Main exports: Read.Ensures, Input.Strict, Input.strict_invariant, LineGrammar.ensures_layer,
  LineGrammar.ensures_pattern
-/
import Duplex.Proofs.ErrorModes
import Duplex.Proofs.Outline.Layers

namespace Duplex

/-! ### Partial correctness -/

namespace Read

variable {μ σ α β : Type} {I : σ → Prop}

/-- A read that goes through keeps the invariant, and its result is as told. -/
def Ensures (I : σ → Prop) (r : Read μ σ α) (Q : α → Prop) : Prop :=
  ∀ s a t, I s.feed → r.perform s = (.ok a, t) → I t.feed ∧ Q a

theorem ensures_pure {Q : α → Prop} {a : α} (h : Q a) : Ensures I (pure a : Read μ σ α) Q := by
  intro s b t inv run
  cases run
  exact ⟨inv, h⟩

theorem ensures_throw (stop : Stop ReadFault) (Q : α → Prop) :
    Ensures I (throw stop : Read μ σ α) Q := by
  intro s a t _ run
  cases run

theorem Ensures.bind {r : Read μ σ α} {f : α → Read μ σ β} {Q : α → Prop} {R : β → Prop}
    (first : Ensures I r Q) (second : ∀ a, Q a → Ensures I (f a) R) : Ensures I (r >>= f) R := by
  intro s b t inv run
  rw [perform_bind] at run
  cases start : r.perform s with
  | mk result u =>
      rw [start] at run
      cases result with
      | error stop => cases run
      | ok a =>
          obtain ⟨kept, holds⟩ := first s a u inv start
          exact second a holds u b t kept run

theorem Ensures.mono {r : Read μ σ α} {Q R : α → Prop} (h : Ensures I r Q)
    (weaker : ∀ a, Q a → R a) : Ensures I r R := by
  intro s a t inv run
  obtain ⟨kept, holds⟩ := h s a t inv run
  exact ⟨kept, weaker a holds⟩

theorem Ensures.map {r : Read μ σ α} {Q : α → Prop} {R : β → Prop} {f : α → β}
    (h : Ensures I r Q) (holds : ∀ a, Q a → R (f a)) : Ensures I (do return f (← r)) R :=
  h.bind fun a q => ensures_pure (holds a q)

end Read

/-! ### Strict inputs -/

namespace Input

variable {σ : Type} [Feed σ] [LawfulFeed σ] [StickyFeed σ]

/-- An input of characters that raises errors. -/
structure Strict (s : Input σ) : Prop where
  raises : s.mode = .raise
  chars : ∀ t ∈ remaining s, ∃ c, t = .char c

/-- Nothing a grammar does changes that. -/
theorem strict_invariant : Feed.Invariant fun (s : Input σ) (_ : Journal) => s.Strict where
  consume {s j} strict := by
    refine ⟨by rw [mode_consume, strict.raises], ?_⟩
    cases left : remaining s with
    | nil =>
        rw [LawfulFeed.consume_nil left]
        exact strict.chars
    | cons t ts =>
        obtain ⟨_, next, notes, taken, behind⟩ := LawfulFeed.consume_cons left
        intro u mem
        rw [taken] at mem
        exact strict.chars u (by rw [left, ← behind]; exact List.mem_cons_of_mem _ mem)
  report {s j} message strict := by
    have same : (Feed.report s message).feed = s := by
      rw [feed_report, strict.raises]
      show s.inMode .raise = s
      rw [inMode, ← strict.raises]
    rw [same]
    exact strict
  setState {s j} m strict := ⟨strict.raises, strict.chars⟩
  note _ strict := strict

/-- A report ends the read. -/
theorem ensures_report {α : Type} (message : String) (f : Unit → Read Memory (Input σ) α)
    (Q : α → Prop) : Read.Ensures Strict (Read.report message >>= f) Q := by
  intro s a t strict run
  have raised : (Feed.report s.feed message).fault ≠ none := by
    rw [fault_report, strict.raises]
    nofun
  rw [Read.perform_bind, Read.perform_report] at run
  cases told : (Feed.report s.feed message).fault with
  | none => exact absurd told raised
  | some cause =>
      rw [told] at run
      cases run

/-- Where a report is made under a condition, the condition does not hold. -/
theorem ensures_reportIf {α : Type} {c : Prop} [Decidable c] (message : String)
    {f : Unit → Read Memory (Input σ) α} {Q : α → Prop}
    (otherwise : ¬ c → Read.Ensures Strict (f ()) Q) :
    Read.Ensures Strict (if c then Read.report message >>= f else f ()) Q := by
  by_cases h : c
  · rw [if_pos h]
    exact ensures_report message f Q
  · rw [if_neg h]
    exact otherwise h

/-- A token taken under a condition is a character. -/
theorem ensures_consumeIf (test : Token → Bool) :
    Read.Ensures (μ := Memory) Strict (Read.consumeIf test : Read Memory (Input σ) (Option Token))
      fun result => ∀ t, result = some t → test t = true ∧ ∃ c, t = .char c := by
  intro s result t strict run
  rw [Read.perform_consumeIf] at run
  split at run
  · rename_i passes
    have kept := strict_invariant.consume (j := s.journal) strict
    rw [Read.perform_consume] at run
    cases left : remaining s.feed with
    | nil =>
        rw [LawfulFeed.consume_nil left] at run kept
        cases run
        exact ⟨kept, nofun⟩
    | cons u ts =>
        obtain ⟨shown, next, notes, taken, _⟩ := LawfulFeed.consume_cons left
        rw [taken] at run kept
        cases run
        refine ⟨kept, ?_⟩
        rintro _ ⟨rfl⟩
        exact ⟨by rw [← shown]; exact passes, strict.chars u (by rw [left]; exact List.mem_cons_self)⟩
  · cases run
    exact ⟨strict, nofun⟩

end Input

/-! ### The pieces of an outline -/

namespace LineGrammar

open Input

variable (g : LineGrammar) {σ : Type} [Feed σ] [LawfulFeed σ] [StickyFeed σ]

/-- The text of letters read so far. -/
def Letters (count : Nat) (tally : Tally) : Prop :=
  ∃ s : String, tally = .text s ∧ s.length = count ∧
    ∀ c ∈ s.toList, g.letters.holds (.char c) = true

theorem ensures_letter (fuel : Nat) :
    Read.Ensures Strict ((Pattern.satisfy g.letters).read fuel (σ := Input σ)) fun result =>
      ∀ v, result = some v → ∃ c, v = .char c ∧ g.letters.holds (.char c) = true := by
  cases fuel with
  | zero => exact Read.ensures_throw _ _
  | succ fuel =>
      refine (ensures_consumeIf g.letters.holds).map fun result taken v eq => ?_
      cases result with
      | none => cases eq
      | some t =>
          obtain ⟨holds, c, rfl⟩ := taken t rfl
          cases eq
          exact ⟨c, rfl, holds⟩

/-- A loop over letters gives a text of as many letters as it counts. -/
theorem ensures_letters (fuel limit turns : Nat) {count : Nat} {tally : Tally}
    (sofar : g.Letters count tally) (few : count ≤ limit) :
    Read.Ensures Strict
      (Read.repeatLoop Tally.accept ((Pattern.satisfy g.letters).read fuel (σ := Input σ)) limit
        turns count tally) fun result =>
      ∀ n final, result = some (n, final) → g.Letters n final ∧ n ≤ limit := by
  induction turns generalizing count tally with
  | zero => exact Read.ensures_throw _ _
  | succ turns ih =>
      rw [Read.repeatLoop]
      by_cases more : count < limit
      · rw [if_pos more]
        refine (g.ensures_letter fuel).bind fun result letter => ?_
        cases result with
        | none =>
            apply Read.ensures_pure
            rintro n final ⟨rfl, rfl⟩
            exact ⟨sofar, few⟩
        | some v =>
            obtain ⟨c, rfl, holds⟩ := letter v rfl
            obtain ⟨s, rfl, size, all⟩ := sofar
            refine ih ⟨s.push c, rfl, ?_, ?_⟩ more
            · rw [String.length_push, size]
            · intro d mem
              rw [String.toList_push, List.mem_append, List.mem_singleton] at mem
              rcases mem with mem | rfl
              · exact all d mem
              · exact holds
      · rw [if_neg more]
        apply Read.ensures_pure
        rintro n final ⟨rfl, rfl⟩
        exact ⟨sofar, few⟩

theorem ensures_word (fuel : Nat) :
    Read.Ensures Strict (g.word.read fuel (σ := Input σ)) fun result =>
      ∀ v, result = some v → ∃ s, v = .text s ∧ g.IsWord s := by
  cases fuel with
  | zero => exact Read.ensures_throw _ _
  | succ fuel =>
      have start : g.Letters 0 (.text "") := ⟨"", rfl, rfl, nofun⟩
      have loop := g.ensures_letters (σ := σ) fuel Bounds.some.limit fuel start (Nat.zero_le _)
      have repeated : Read.Ensures Strict
          (Read.repeated fuel Tally.accept (.text "") .some
            ((Pattern.satisfy g.letters).read fuel (σ := Input σ))) fun result =>
          ∀ final, result = some final → ∃ s, final = .text s ∧ g.IsWord s := by
        refine loop.bind fun result letters => ?_
        cases result with
        | none => exact Read.ensures_pure nofun
        | some pair =>
            obtain ⟨n, final⟩ := pair
            obtain ⟨⟨s, rfl, size, all⟩, _⟩ := letters n final rfl
            apply Read.ensures_pure
            intro final eq
            split at eq
            · rename_i allows
              cases eq
              exact ⟨s, rfl, by rw [size]; exact allows, all⟩
            · cases eq
      refine repeated.map fun result word v eq => ?_
      cases result with
      | none => cases eq
      | some final =>
          obtain ⟨s, rfl, isWord⟩ := word final rfl
          cases eq
          exact ⟨s, rfl, isWord⟩

theorem ensures_mark (fuel : Nat) :
    Read.Ensures Strict ((Pattern.char g.mark).read fuel (σ := Input σ)) fun result =>
      ∀ v, result = some v → v = .char g.mark := by
  cases fuel with
  | zero => exact Read.ensures_throw _ _
  | succ fuel =>
      refine (ensures_consumeIf (Condition.equal (.char g.mark)).holds).map ?_
      intro result taken v eq
      cases result with
      | none => cases eq
      | some t =>
          cases eq
          rw [eq_of_beq (taken t rfl).1]
          rfl

theorem ensures_layout (fuel : Nat) :
    Read.Ensures Strict (g.parts fuel (σ := Input σ)).layout fun _ => True := by
  have gap : Read.Ensures Strict (Pattern.indentation.read fuel (σ := Input σ)) fun _ => True := by
    intro s a t strict run
    have kept := Pattern.read_keeps strict_invariant fuel Pattern.indentation strict
    rw [run] at kept
    exact ⟨kept, trivial⟩
  refine gap.bind fun result _ => ?_
  cases result with
  | some n => exact Read.ensures_pure trivial
  | none =>
      have ended : Read.Ensures Strict (Read.atEnd : Read Memory (Input σ) Bool) fun _ => True := by
        intro s a t strict run
        cases run
        exact ⟨strict, trivial⟩
      refine ended.bind fun atEnd _ => ?_
      cases atEnd with
      | true => exact Read.ensures_pure trivial
      | false => exact ensures_report _ _ _

/-! ### Blocks -/

/-- What a block can come to, behind the nodes read before: more nodes that can be written, or none
    and the indentation it was opened with. -/
def Comes (here : Nat) (before : List (Outline Value Value))
    (result : Option (Nat × List (Outline Value Value))) : Prop :=
  ∀ closed ns, result = some (closed, ns) →
    ∃ more, ns = before.reverse ++ more ∧ (∀ n ∈ more, g.Node n) ∧ (more = [] → closed = here)

theorem Comes.cons {g : LineGrammar} {here : Nat} {before : List (Outline Value Value)}
    {n : Outline Value Value} (node : g.Node n)
    {result : Option (Nat × List (Outline Value Value))} (h : g.Comes here (n :: before) result) :
    g.Comes here before result := by
  intro closed ns eq
  obtain ⟨more, rfl, nodes, _⟩ := h closed ns eq
  refine ⟨n :: more, by simp, ?_, nofun⟩
  intro m mem
  rcases List.mem_cons.mp mem with rfl | mem
  · exact node
  · exact nodes m mem

theorem comes_closed {here closed : Nat} {before : List (Outline Value Value)}
    {n : Outline Value Value} (node : g.Node n) :
    g.Comes here before (some (closed, (n :: before).reverse)) := by
  rintro _ _ ⟨rfl, rfl⟩
  refine ⟨[n], by simp, ?_, nofun⟩
  intro m mem
  cases List.mem_singleton.mp mem
  exact node

theorem ensures_layer (fuel turns here : Nat) (before : List (Outline Value Value)) :
    Read.Ensures Strict
      (Read.layer (g.parts fuel) turns (g.word.read fuel (σ := Input σ)) here before)
      (g.Comes here before) := by
  induction turns generalizing here before with
  | zero => exact Read.ensures_throw _ _
  | succ turns ih =>
      unfold Read.layer
      refine (g.ensures_word fuel).bind fun item word => ?_
      cases item with
      | none =>
          apply Read.ensures_pure
          rintro _ _ ⟨rfl, rfl⟩
          exact ⟨[], by simp, by simp, fun _ => rfl⟩
      | some v =>
          obtain ⟨s, rfl, isWord⟩ := word v rfl
          refine (g.ensures_mark fuel).bind fun tail isMark => ?_
          cases tail with
          | none =>
              refine (g.ensures_layout fuel).bind fun next _ => ?_
              cases next with
              | none => exact Read.ensures_pure (by rintro _ _ ⟨⟩)
              | some next =>
                  refine ensures_reportIf _ fun level => ?_
                  dsimp only
                  split
                  · exact Read.ensures_pure (g.comes_closed (.term isWord))
                  · exact (ih here _).mono fun result comes => comes.cons (.term isWord)
          | some tail =>
              cases isMark tail rfl
              refine (g.ensures_layout fuel).bind fun below _ => ?_
              cases below with
              | none => exact Read.ensures_pure (by rintro _ _ ⟨⟩)
              | some below =>
                  refine ensures_reportIf _ fun deeper => ?_
                  refine (ih below []).bind fun block comes => ?_
                  cases block with
                  | none => exact Read.ensures_pure (by rintro _ _ ⟨⟩)
                  | some pair =>
                      obtain ⟨closed, children⟩ := pair
                      obtain ⟨children, rfl, nodes, empty⟩ := comes closed _ rfl
                      -- an empty block would be closed where it was opened, deeper than here
                      have node : closed ≤ here →
                          g.Node (.nest (.text s) (.char g.mark) children) := by
                        intro level
                        refine .nest isWord (fun none => ?_) nodes
                        have := empty none
                        omega
                      dsimp only
                      split
                      · rename_i less
                        exact Read.ensures_pure (g.comes_closed (node (Nat.le_of_lt less)))
                      · refine ensures_reportIf _ fun level => ?_
                        exact (ih here _).mono fun result comes =>
                          comes.cons (node (Nat.le_of_not_lt level))

/-- An outline read from a strict input can be written, if it has any node. -/
theorem ensures_pattern (fuel : Nat) :
    Read.Ensures Strict (g.pattern.read fuel (σ := Input σ)) fun result =>
      ∀ v, result = some v → ∃ ns, v = (Outline.root ns).toValue ∧ ∀ n ∈ ns, g.Node n := by
  cases fuel with
  | zero => exact Read.ensures_throw _ _
  | succ fuel =>
      have outline : Read.Ensures Strict
          (Read.outline fuel (g.parts fuel) (g.word.read fuel (σ := Input σ)) g.base) fun result =>
          ∀ o, result = some o → ∃ ns, o = .root ns ∧ ∀ n ∈ ns, g.Node n := by
        refine (g.ensures_layer fuel fuel g.base []).bind fun result comes => ?_
        cases result with
        | none => exact Read.ensures_pure nofun
        | some pair =>
            obtain ⟨closed, ns⟩ := pair
            obtain ⟨more, rfl, nodes, _⟩ := comes closed ns rfl
            refine ensures_reportIf _ fun _ => Read.ensures_pure ?_
            rintro _ ⟨rfl⟩
            exact ⟨ns, rfl, nodes⟩
      rw [g.read_pattern]
      refine outline.map fun result root v eq => ?_
      cases result with
      | none => cases eq
      | some o =>
          obtain ⟨ns, rfl, nodes⟩ := root o rfl
          cases eq
          exact ⟨ns, rfl, nodes⟩

end LineGrammar

end Duplex
