/-
Module: Duplex.Proofs.Recovery.Stacks
Purpose: Open brackets as stacks, one for each pair.  An open bracket puts the place behind it on
  the stack of its pair, and its close bracket takes that place off again: where it is there, when
  it is taken, and where it is missing, when the message for it is worded.
Main exports: Openings.push, Input.openings, Input.Bracketing, Read.missing, Read.openBracket_opens,
  Read.openings_closeBracket, Read.Closed, Read.closed_closeBracket
-/
import Duplex.Proofs.Recovery.Insist
import Mathlib.Logic.Function.Basic

namespace Duplex

/-! ### Stacks of places -/

/-- The places where each pair of brackets is open, latest last. -/
abbrev Openings :=
  Char × Char → List Location

/-- One more place where a pair is open. -/
def Openings.push (o : Openings) (pair : Char × Char) (place : Location) : Openings :=
  Function.update o pair (o pair ++ [place])

/-- Different pairs have different stacks. -/
theorem Openings.push_comm (o : Openings) {pair q : Char × Char} (ne : pair ≠ q)
    (place other : Location) :
    (o.push pair place).push q other = (o.push q other).push pair place := by
  unfold push
  rw [Function.update_of_ne ne.symm, Function.update_of_ne ne, Function.update_comm ne]

namespace OpenBrackets

/-- One stack is replaced, and the others stay. -/
theorem opened_withStack (b : OpenBrackets) (pair : Char × Char) (stack : List Location) :
    (b.withStack pair stack).opened = Function.update b.opened pair stack := by
  funext q
  show (List.lookup q ((pair, stack) :: _)).getD [] = _
  rw [List.lookup_cons]
  by_cases same : q = pair
  · subst same
    rw [beq_self_eq_true, Function.update_self]
    rfl
  · rw [beq_eq_false_iff_ne.mpr same, Function.update_of_ne same, lookup_filter (· != pair),
      if_pos (bne_iff_ne.mpr same)]
    rfl

theorem opened_add (b : OpenBrackets) (pair : Char × Char) (place : Location) :
    (b.add pair place).opened = Openings.push b.opened pair place :=
  opened_withStack b pair _

/-- What was put on a stack last is taken off, and what was there before is left. -/
theorem remove_of_push {b : OpenBrackets} {o : Openings} {pair : Char × Char} {place : Location}
    (pushed : b.opened = o.push pair place) :
    (b.remove pair).1 = some place ∧ (b.remove pair).2.opened = o := by
  have stack : b.opened pair = o pair ++ [place] := by
    rw [pushed, Openings.push, Function.update_self]
  unfold remove
  rw [stack, List.getLast?_concat, List.dropLast_concat]
  refine ⟨rfl, ?_⟩
  show (b.withStack pair (o pair)).opened = o
  rw [opened_withStack, pushed, Openings.push, Function.update_idem, Function.update_eq_self]

end OpenBrackets

/-! ### Inputs that carry stacks -/

namespace Input

variable {σ : Type}

/-- The stacks of open brackets that an input carries, if it does. -/
def openings (s : Input σ) : Option Openings :=
  (s.carried.get? .brackets).map OpenBrackets.opened

/-- An input on which brackets are watched: it tracks its place, keeps errors, and carries stacks
    of open brackets. -/
structure Bracketing (s : Input σ) : Prop where
  tracked : s.tracker.isSome = true
  collecting : ∃ latest, s.mode = .collect latest
  carrying : ∃ o, s.openings = some o

theorem openings_withState (s : Input σ) (b : OpenBrackets) :
    (s.withState .brackets b).openings = some b.opened := by
  show ((s.carried.put .brackets (some b)).get? .brackets).map _ = _
  rw [StateMap.get?_put_self]
  rfl

theorem openings_eq_some {s : Input σ} {o : Openings} :
    s.openings = some o ↔ ∃ b, s.carried.get? .brackets = some b ∧ b.opened = o :=
  Option.map_eq_some_iff

theorem openings_congr {s t : Input σ} (same : s.carried = t.carried) :
    s.openings = t.openings := by
  rw [openings, same, ← openings]

variable [Feed σ]

theorem carried_consume (s : Input σ) : (Feed.consume s).feed.carried = s.carried := by
  show (consume s).feed.carried = s.carried
  unfold consume
  dsimp only
  split <;> rfl

theorem carried_advance (n : Nat) (s : Input σ) : (Feed.advance n s).carried = s.carried :=
  Feed.advance_keeps carried_consume n s

/-- An input keeps collecting whatever a grammar does to it. -/
theorem invariant_collecting :
    Feed.Invariant fun (s : Input σ) _ => ∃ latest, s.mode = .collect latest where
  consume {s _} := fun ⟨latest, mode⟩ => ⟨latest, by rw [mode_consume, mode]⟩
  report {s _} message := fun ⟨latest, mode⟩ => by
    refine ⟨s.record message :: latest, ?_⟩
    rw [feed_report, mode]
    rfl
  setState _ collecting := collecting
  note _ collecting := collecting

end Input

namespace Read

section States

variable {μ σ α β : Type}

/-- The read leaves the state that the input carries as it is, however it ends. -/
def KeepsState (r : Read μ (Input σ) α) : Prop :=
  ∀ s, (r.perform s).2.feed.carried = s.feed.carried

theorem KeepsState.bind {r : Read μ (Input σ) α} {f : α → Read μ (Input σ) β}
    (first : r.KeepsState) (second : ∀ a, (f a).KeepsState) : (r >>= f).KeepsState := by
  intro s
  rw [perform_bind]
  cases start : r.perform s with
  | mk result t =>
      have kept : t.feed.carried = s.feed.carried := by simpa [start] using first s
      cases result with
      | error stop => exact kept
      | ok a => exact (second a t).trans kept

theorem keepsState_pure (a : α) : (pure a : Read μ (Input σ) α).KeepsState :=
  fun _ => rfl

variable [Feed σ]

theorem keepsState_consume : (consume : Read μ (Input σ) (Option Token)).KeepsState := by
  intro s
  rw [perform_consume]
  exact s.feed.carried_consume

theorem keepsState_consumeIf (test : Token → Bool) :
    (consumeIf test : Read μ (Input σ) (Option Token)).KeepsState := by
  intro s
  rw [perform_consumeIf]
  split
  · exact keepsState_consume s
  · rfl

theorem keepsState_report (message : String) :
    (report message : Read μ (Input σ) Unit).KeepsState := by
  intro s
  rw [perform_report]
  show (Feed.report s.feed message).feed.carried = _
  rw [Input.feed_report]
  rfl

theorem keepsState_skipTo {item : Read μ (Input σ) (Option α)} (item_keeps : item.KeepsState)
    (fuel : Nat) : (skipTo item fuel).KeepsState := by
  induction fuel with
  | zero => exact fun _ => rfl
  | succ fuel ih =>
      refine keepsState_consume.bind fun taken => ?_
      cases taken with
      | none => exact keepsState_pure none
      | some t =>
          refine item_keeps.bind fun found => ?_
          cases found with
          | none => exact ih
          | some a => exact keepsState_pure _

end States

/-! ### Pushing and popping -/

section Brackets

variable {μ σ : Type} [Feed σ] {pair : Char × Char} {place : Location} {o : Openings}
  {s : Session μ (Input σ)}

/-- What is reported for a close bracket that is missing where its open bracket is known. -/
def missing (closing : Char) (place : Location) : String :=
  "expecting " ++ Text.quotedChar closing ++ (" (from " ++ place.text ++ ")")

theorem perform_brackets {b : OpenBrackets} (held : s.feed.carried.get? .brackets = some b) :
    (state? .brackets : Read μ (Input σ) _).perform s = (.ok (some b), s) := by
  rw [perform_state?]
  exact congrArg (fun b => (Except.ok b, s)) held

theorem perform_pushBracket (pair : Char × Char) (placed : s.feed.place = some place)
    (held : s.feed.openings = some o) :
    ∃ b, (pushBracket pair).perform s = (.ok (), { s with feed := s.feed.withState .brackets b }) ∧
      b.opened = o.push pair place := by
  obtain ⟨b, carried, rfl⟩ := Input.openings_eq_some.mp held
  refine ⟨b.add pair place, ?_, OpenBrackets.opened_add b pair place⟩
  have located : (location : Read μ (Input σ) _).perform s = (.ok (some place), s) := by
    rw [perform_location]
    exact congrArg (fun l => (Except.ok l, s)) placed
  rw [pushBracket, perform_bind_ok located, perform_bind_ok (perform_brackets carried)]
  exact perform_setState .brackets _ s

theorem perform_popBracket {b : OpenBrackets} (held : s.feed.carried.get? .brackets = some b) :
    (popBracket pair).perform s =
      (.ok (b.remove pair).1, { s with feed := s.feed.withState .brackets (b.remove pair).2 }) := by
  rw [popBracket, perform_bind_ok (perform_brackets held),
    perform_bind_ok (perform_setState .brackets _ s)]
  rfl

/-- Where a pair was opened last, the place is given and taken off its stack. -/
theorem popBracket_of_push (held : s.feed.openings = some (o.push pair place)) :
    ∃ b, (popBracket pair).perform s =
        (.ok (some place), { s with feed := s.feed.withState .brackets b }) ∧
      b.opened = o := by
  obtain ⟨b, carried, pushed⟩ := Input.openings_eq_some.mp held
  obtain ⟨top, below⟩ := OpenBrackets.remove_of_push pushed
  refine ⟨(b.remove pair).2, ?_, below⟩
  rw [perform_popBracket carried, top]

/-- The message for a missing close bracket names the place of its open bracket, and takes it off
    the stack. -/
theorem words_closeMessage (held : s.feed.openings = some (o.push pair place)) :
    ∃ told, Words (closeMessage pair) s (missing pair.2 place) told ∧
      told.feed.openings = some o := by
  obtain ⟨b, popped, below⟩ := popBracket_of_push held
  refine ⟨{ s with feed := s.feed.withState .brackets b },
    ⟨?_, (s.feed.withState .brackets b).carried, rfl⟩, ?_⟩
  · rw [closeMessage, perform_bind_ok popped]
    rfl
  · rw [Input.openings_withState, below]

/-- A token that was read has been taken. -/
theorem feed_of_consumeIf {test : Token → Bool} {t : Token} {after : Session μ (Input σ)}
    (run : (consumeIf test).perform s = (.ok (some t), after)) :
    after.feed = (Feed.consume s.feed).feed := by
  rw [perform_consumeIf] at run
  split at run
  · rw [perform_consume] at run
    rw [← (Prod.mk.inj run).2]
  · cases run

/-- An open bracket that is read puts the place behind it on the stack of its pair. -/
theorem openBracket_opens {token : Token} {opened : Session μ (Input σ)}
    (run : (openBracket pair).perform s = (.ok (some token), opened))
    (tracked : s.feed.tracker.isSome = true) (held : s.feed.openings = some o) :
    ∃ place, (Feed.consume s.feed).feed.place = some place ∧
      opened.feed.openings = some (o.push pair place) ∧ opened.feed.mode = s.feed.mode ∧
      opened.feed.tracker.isSome = true := by
  obtain ⟨taken, between, took, rest⟩ := exists_of_bind_ok run
  cases taken with
  | none => cases rest
  | some t =>
      have behind : between.feed = (Feed.consume s.feed).feed := feed_of_consumeIf took
      -- the place is asked for when the bracket has been taken
      have still : between.feed.tracker.isSome = true := by
        rw [behind, Input.isSome_tracker_consume, tracked]
      obtain ⟨k, tracker⟩ := Option.isSome_iff_exists.mp still
      have placed : between.feed.place = some k.location := congrArg (Option.map _) tracker
      have holds : between.feed.openings = some o := by
        rw [← held, behind]
        exact Input.openings_congr s.feed.carried_consume
      obtain ⟨b, pushed, stack⟩ := perform_pushBracket pair placed holds
      have last : (.ok (some t), { between with feed := between.feed.withState .brackets b }) =
          ((.ok (some token), opened) : Except (Stop ReadFault) (Option Token) × _) := by
        rw [← rest, Option.isSome_some, if_pos rfl, perform_bind_ok pushed]
        rfl
      obtain ⟨_, rfl⟩ := Prod.mk.inj last
      refine ⟨k.location, behind ▸ placed, ?_, ?_, still⟩
      · rw [Input.openings_withState, stack]
      · show between.feed.mode = _
        rw [behind, Input.mode_consume]

variable [LawfulFeed σ] [StickyFeed σ] {fuel : Nat}

/-- A close bracket that is there is taken, and its open bracket off the stack. -/
theorem closeBracket_met (fuel : Nat) {rest : List Token}
    (left : remaining s.feed = .char pair.2 :: rest)
    (held : s.feed.openings = some (o.push pair place)) :
    ∃ t, (closeBracket fuel pair).perform s = (.ok (some (.char pair.2)), t) ∧
      remaining t.feed = rest ∧ t.feed.mode = s.feed.mode ∧ t.feed.openings = some o := by
  have meets : (Condition.equal (.char pair.2)).holds (.char pair.2) = true := beq_self_eq_true _
  obtain ⟨t, run, feed, _⟩ := reads_consumeIf (μ := μ) meets rest s left
  have holds : t.feed.openings = some (o.push pair place) := by
    rw [← held, feed]
    exact Input.openings_congr (s.feed.carried_advance 1)
  obtain ⟨b, popped, below⟩ := popBracket_of_push holds
  have behind : remaining t.feed = rest := by
    rw [feed]
    exact LawfulFeed.remaining_advance_one left
  refine ⟨{ t with feed := t.feed.withState .brackets b }, ?_, behind, ?_, ?_⟩
  · have taken : (Condition.equal (.char pair.2)).read.perform s =
        (.ok (some (.char pair.2)), t) := run
    rw [closeBracket, perform_bind_ok taken]
    dsimp only
    rw [perform_bind_ok popped]
    rfl
  · show t.feed.mode = _
    rw [feed, Input.mode_advance]
  · rw [Input.openings_withState, below]

theorem equal_unmet {t : Token} {ts : List Token} (ne : ts.head? ≠ some t) :
    ∀ u ∈ ts.head?, (Condition.equal t).holds u = false := by
  intro u first
  refine beq_eq_false_iff_ne.mpr ?_
  rintro rfl
  exact ne first

/-- A close bracket that is missing is insisted on. -/
theorem perform_closeBracket_unmet (gone : (remaining s.feed).head? ≠ some (.char pair.2)) :
    (closeBracket fuel pair).perform s =
      (insist fuel (closeMessage pair) (Condition.equal (.char pair.2)).read).perform s := by
  have missed : (Condition.equal (.char pair.2)).read.perform s = (.ok none, s) :=
    perform_consumeIf_none (equal_unmet gone)
  rw [closeBracket, perform_bind_ok missed]

/-- Once it is worded what is missing, insisting does nothing to the state. -/
theorem carried_insist {c : Condition} {message : Read μ (Input σ) String} {text : String}
    {told : Session μ (Input σ)} (unmet : ∀ t ∈ (remaining s.feed).head?, c.holds t = false)
    (words : Words message s text told) :
    ((insist fuel message c.read).perform s).2.feed.carried = told.feed.carried := by
  rw [perform_insist_unmet unmet words.gives]
  refine ((keepsState_report text).bind fun _ => ?_) told
  exact keepsState_skipTo (keepsState_consumeIf c.holds) fuel

/-- However a close bracket is read, its open bracket is off the stack. -/
theorem openings_closeBracket (held : s.feed.openings = some (o.push pair place)) :
    ((closeBracket fuel pair).perform s).2.feed.openings = some o := by
  by_cases met : (remaining s.feed).head? = some (.char pair.2)
  · obtain ⟨rest, left⟩ := List.head?_eq_some_iff.mp met
    obtain ⟨t, run, _, _, openings⟩ := closeBracket_met fuel left held
    rw [run]
    exact openings
  · obtain ⟨told, words, openings⟩ := words_closeMessage held
    rw [perform_closeBracket_unmet met, ← openings]
    exact Input.openings_congr (carried_insist (equal_unmet met) words)

/-- How a read ended that found itself at `past` with `v` and a close bracket to come, where the
    open bracket ends at `place`: up to the next close bracket all is skipped, and if that is not
    the current token, one error is kept that names the place. -/
structure Closed {α : Type} (closing : Char) (place : Location) (past : Session μ (Input σ)) (v : α)
    (out : Except (Stop ReadFault) (Option α) × Session μ (Input σ)) : Prop where
  found : ∀ skipped rest, remaining past.feed = skipped ++ .char closing :: rest →
    .char closing ∉ skipped → out.1 = .ok (some v) ∧ remaining out.2.feed = rest
  ended : .char closing ∉ remaining past.feed → out.1 = .ok none ∧ remaining out.2.feed = []
  silent : (remaining past.feed).head? = some (.char closing) → out.2.feed.mode = past.feed.mode
  told : (remaining past.feed).head? ≠ some (.char closing) →
    ∃ latest, past.feed.mode = .collect latest ∧
      out.2.feed.mode = .collect (past.feed.record (missing closing place) :: latest)

/-- Another result in place of the close bracket. -/
theorem Closed.map {α β : Type} {closing : Char} {past : Session μ (Input σ)} {a : α} {b : β}
    {out : Except (Stop ReadFault) (Option α) × Session μ (Input σ)}
    (closed : Closed closing place past a out) :
    Closed closing place past b (out.1.map (Option.map fun _ => b), out.2) where
  found skipped rest split first := by
    obtain ⟨result, left⟩ := closed.found skipped rest split first
    exact ⟨by rw [result]; rfl, left⟩
  ended none := by
    obtain ⟨result, left⟩ := closed.ended none
    exact ⟨by rw [result]; rfl, left⟩
  silent := closed.silent
  told := closed.told

theorem closed_closeBracket (held : s.feed.openings = some (o.push pair place))
    (collecting : ∃ latest, s.feed.mode = .collect latest)
    (enough : (remaining s.feed).length < fuel) :
    Closed pair.2 place s (.char pair.2) ((closeBracket fuel pair).perform s) := by
  by_cases met : (remaining s.feed).head? = some (.char pair.2)
  · obtain ⟨ahead, left⟩ := List.head?_eq_some_iff.mp met
    obtain ⟨t, run, behind, mode, _⟩ := closeBracket_met fuel left held
    rw [run]
    refine ⟨?_, ?_, fun _ => mode, fun gone => absurd met gone⟩
    · intro skipped rest split first
      -- the current token is the first close bracket, so that none is skipped
      cases skipped with
      | nil => exact ⟨rfl, behind.trans (List.cons.inj (left.symm.trans split)).2⟩
      | cons u skipped =>
          obtain ⟨rfl, _⟩ := List.cons.inj (left.symm.trans split)
          exact absurd List.mem_cons_self first
    · intro none
      rw [left] at none
      exact absurd List.mem_cons_self none
  · obtain ⟨told, words, _⟩ := words_closeMessage held
    obtain ⟨latest, mode⟩ := collecting
    have recovered := words.recovered (equal_unmet met) mode enough
    rw [perform_closeBracket_unmet met]
    refine ⟨?_, recovered.of_not_mem, fun here => absurd here met,
      fun _ => ⟨latest, mode, recovered.errors⟩⟩
    intro skipped rest split first
    rw [split] at recovered
    exact recovered.of_split first

end Brackets

end Read

end Duplex
