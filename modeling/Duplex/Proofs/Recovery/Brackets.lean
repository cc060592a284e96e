/-
Module: Duplex.Proofs.Recovery.Brackets
Purpose: Patterns between brackets.  What is read between keeps the stacks of open brackets, to any
  depth, and a missing close bracket is reported with the place of its own open bracket.  A bracket
  whose item does not read has no close bracket to take its place off the stack.
Main exports: Pattern.perform_bracketed, Pattern.KeepsBrackets, Pattern.nested,
  Pattern.bracketed_follows_stack, Pattern.bracketed_abandoned
-/
import Duplex.Grammar.Lexical
import Duplex.Proofs.Recovery.Settle
import Duplex.Proofs.Recovery.Stacks

namespace Duplex

/-! ### Patterns between brackets -/

namespace Read

section Surround

variable {μ σ α : Type} {left right : Read μ σ Bool} {item : Read μ σ (Option α)}
  {s opened past : Session μ σ} {a : α}

/-- Between brackets, the item's value waits for the close bracket. -/
theorem perform_surround_some (opens : left.perform s = (.ok true, opened))
    (reads : item.perform opened = (.ok (some a), past)) :
    (surround left right item).perform s =
      ((right.perform past).1.map fun closed => if closed then some a else none,
        (right.perform past).2) := by
  rw [surround, perform_bind_ok opens, if_pos rfl, perform_bind_ok reads]
  dsimp only
  rw [perform_bind]
  rcases right.perform past with ⟨stop | _ | _, t⟩ <;> rfl

/-- Where the item does not read, the close bracket is not even tried. -/
theorem perform_surround_none (opens : left.perform s = (.ok true, opened))
    (fails : item.perform opened = (.ok none, past)) :
    (surround left right item).perform s = (.ok none, past) := by
  rw [surround, perform_bind_ok opens, if_pos rfl, perform_bind_ok fails]
  rfl

/-- What has been read between brackets has been read in all three parts. -/
theorem surround_performed {after : Session μ σ}
    (run : (surround left right item).perform s = (.ok (some a), after)) :
    ∃ opened past, left.perform s = (.ok true, opened) ∧
      item.perform opened = (.ok (some a), past) ∧ right.perform past = (.ok true, after) := by
  obtain ⟨_ | _, opened, opens, run⟩ := exists_of_bind_ok run
  · cases run
  · obtain ⟨_ | b, past, reads, run⟩ := exists_of_bind_ok run
    · cases run
    · obtain ⟨_ | _, last, closes, run⟩ := exists_of_bind_ok run
      · cases run
      · cases run
        exact ⟨opened, past, opens, reads, closes⟩

end Surround

end Read

namespace Pattern

variable {σ : Type} [Feed σ] {opening closing : Char} {item : Pattern} {fuel : Nat}
  {s opened past : Session Memory (Input σ)} {token : Token} {v : Value}

omit [Feed σ] in
/-- A bracket as a pattern reads what it reads otherwise. -/
theorem perform_bracket (r : Read Memory (Input σ) (Option Token)) (s : Session Memory (Input σ)) :
    (do return (← Read.asValue r).isSome).perform s =
      ((r.perform s).1.map Option.isSome, (r.perform s).2) := by
  rw [Read.perform_bind, Read.asValue, Read.perform_bind]
  rcases r.perform s with ⟨stop | read, t⟩
  · rfl
  · cases read <;> rfl

omit [Feed σ] in
theorem bracket_performed {r : Read Memory (Input σ) (Option Token)}
    {after : Session Memory (Input σ)}
    (run : (do return (← Read.asValue r).isSome).perform s = (.ok true, after)) :
    ∃ token, r.perform s = (.ok (some token), after) := by
  obtain ⟨read, _, run, last⟩ := Read.exists_of_bind_ok run
  obtain ⟨_ | token, _, run, made⟩ := Read.exists_of_bind_ok run
  · cases made
    cases last
  · cases made
    cases last
    exact ⟨token, run⟩

theorem perform_openBracket (opens : (Read.openBracket (opening, closing)).perform s =
      (.ok (some token), opened)) :
    (readBracket (fuel + 1) (some (.openBracket (opening, closing)))).perform s =
      (.ok true, opened) := by
  refine (perform_bracket _ s).trans ?_
  rw [opens]
  rfl

/-- Behind its item, a pattern between brackets goes on as its close bracket does. -/
theorem perform_bracketed
    (opens : (Read.openBracket (opening, closing)).perform s = (.ok (some token), opened))
    (reads : (item.read (fuel + 1)).perform opened = (.ok (some v), past)) :
    let out := (Read.closeBracket fuel (opening, closing)).perform past
    ((bracketed opening closing item).read (fuel + 2)).perform s =
      (out.1.map (Option.map fun _ => v), out.2) := by
  intro out
  have closes : (readBracket (fuel + 1) (some (.closeBracket (opening, closing)))).perform past =
      (out.1.map Option.isSome, out.2) := perform_bracket _ past
  rw [bracketed, read_surround, Read.perform_surround_some (perform_openBracket opens) reads,
    closes]
  rcases out with ⟨stop | _ | _, t⟩ <;> rfl

theorem perform_bracketed_none
    (opens : (Read.openBracket (opening, closing)).perform s = (.ok (some token), opened))
    (fails : (item.read (fuel + 1)).perform opened = (.ok none, past)) :
    ((bracketed opening closing item).read (fuel + 2)).perform s = (.ok none, past) :=
  Read.perform_surround_none (perform_openBracket opens) fails

/-- What has been read between brackets has got past both of them. -/
theorem bracketed_performed {after : Session Memory (Input σ)}
    (run : ((bracketed opening closing item).read fuel).perform s = (.ok (some v), after)) :
    ∃ fuel token opened past,
      (Read.openBracket (opening, closing)).perform s = (.ok (some token), opened) ∧
      (item.read (fuel + 1)).perform opened = (.ok (some v), past) ∧
      after = ((Read.closeBracket fuel (opening, closing)).perform past).2 := by
  obtain _ | _ | fuel := fuel
  · cases run
  · obtain ⟨_, _, opens, _⟩ := Read.surround_performed run
    cases opens
  · obtain ⟨opened, past, opens, reads, closes⟩ := Read.surround_performed run
    obtain ⟨token, opens⟩ := bracket_performed opens
    obtain ⟨_, closes⟩ := bracket_performed closes
    exact ⟨fuel, token, opened, past, opens, reads, by rw [closes]⟩

/-! ### Keeping the stacks -/

/-- Whatever the pattern reads, it leaves the stacks of open brackets as they were before. -/
def KeepsBrackets (σ : Type) [Feed σ] (p : Pattern) : Prop :=
  ∀ ⦃s after : Session Memory (Input σ)⦄ ⦃fuel v⦄, s.feed.Bracketing →
    (p.read fuel).perform s = (.ok (some v), after) → after.feed.openings = s.feed.openings

/-- A single token has nothing to do with the stacks. -/
theorem keepsBrackets_token (t : Token) : (Pattern.token t).KeepsBrackets σ := by
  intro s after fuel v _ run
  cases fuel with
  | zero => cases run
  | succ fuel =>
      have keeps : (Read.asValue (Condition.equal t).read : Read Memory (Input σ) _).KeepsState :=
        (Read.keepsState_consumeIf _).bind fun _ => Read.keepsState_pure _
      have same := keeps s
      rw [show (Read.asValue (Condition.equal t).read).perform s = (.ok (some v), after) from run]
        at same
      exact Input.openings_congr same

/-- An open bracket leaves the input watched, with its place on top of the stack of its pair. -/
theorem opens_bracketing (watched : s.feed.Bracketing)
    (opens : (Read.openBracket (opening, closing)).perform s = (.ok (some token), opened)) :
    ∃ o place, s.feed.openings = some o ∧ (Feed.consume s.feed).feed.place = some place ∧
      opened.feed.Bracketing ∧ opened.feed.openings = some (o.push (opening, closing) place) := by
  obtain ⟨o, held⟩ := watched.carrying
  obtain ⟨latest, mode⟩ := watched.collecting
  obtain ⟨place, placed, pushed, same, tracked⟩ :=
    Read.openBracket_opens opens watched.tracked held
  exact ⟨o, place, held, placed, ⟨tracked, ⟨latest, same.trans mode⟩, ⟨_, pushed⟩⟩, pushed⟩

variable [LawfulFeed σ] [StickyFeed σ]

/-- Between brackets, what keeps the stacks keeps them together with its brackets. -/
theorem KeepsBrackets.bracketed (keeps : item.KeepsBrackets σ) :
    (bracketed opening closing item).KeepsBrackets σ := by
  intro s after fuel v watched run
  obtain ⟨fuel, token, opened, past, opens, reads, rfl⟩ := bracketed_performed run
  obtain ⟨o, place, held, _, still, pushed⟩ := opens_bracketing watched opens
  rw [held]
  exact Read.openings_closeBracket ((keeps still reads).trans pushed)

/-- An item within brackets within brackets, the outermost pair first. -/
def nested (pairs : List (Char × Char)) (item : Pattern) : Pattern :=
  pairs.foldr (fun pair p => Pattern.bracketed pair.1 pair.2 p) item

theorem KeepsBrackets.nested (keeps : item.KeepsBrackets σ) (pairs : List (Char × Char)) :
    (nested pairs item).KeepsBrackets σ := by
  induction pairs with
  | nil => exact keeps
  | cons pair pairs ih => exact ih.bracketed

/-- The places of open brackets follow stacks.  Take any item that keeps the stacks when it reads,
    within any brackets, one pair in the other.  All of it keeps the stacks when it reads.  And
    within one more pair, whenever a read gets past the open bracket and the item, the stacks are
    afterwards as they were before, and the close bracket was either the current token, which is
    taken without an error, or all up to the next one is skipped and just one error is kept, at the
    current token, that names the place behind this very open bracket; where none comes, nothing is
    left and nothing is read. -/
theorem bracketed_follows_stack (keeps : item.KeepsBrackets σ) (pairs : List (Char × Char)) :
    (nested pairs item).KeepsBrackets σ ∧
    ∀ (opening closing : Char) {s opened past : Session Memory (Input σ)} {token : Token}
      {v : Value},
      s.feed.Bracketing →
      (Read.openBracket (opening, closing)).perform s = (.ok (some token), opened) →
      Read.Ends (fun fuel => (nested pairs item).read fuel) opened (some v) past →
      ∃ place, (Feed.consume s.feed).feed.place = some place ∧
        Granted fun fuel =>
          let out := ((Pattern.bracketed opening closing (nested pairs item)).read fuel).perform s
          Read.Closed closing place past v out ∧ out.2.feed.openings = s.feed.openings := by
  refine ⟨keeps.nested pairs, ?_⟩
  intro opening closing s opened past token v watched opens ends
  obtain ⟨o, place, held, placed, still, pushed⟩ := opens_bracketing watched opens
  obtain ⟨fuel, reads⟩ := ends.exists
  have top : past.feed.openings = some (o.push (opening, closing) place) :=
    (keeps.nested pairs still reads).trans pushed
  have collecting : ∃ latest, past.feed.mode = .collect latest := by
    have kept := (nested pairs item).read_keeps Input.invariant_collecting fuel (s := opened)
      still.collecting
    rwa [reads] at kept
  refine ⟨place, placed, ?_⟩
  have enough := ends.shift.and (.atLeast ((remaining past.feed).length + 1))
  -- one turn goes to the brackets, and another one to the patterns in them
  refine Granted.succ (fun _ run => run) (Granted.succ (fun fuel both => ?_) enough)
  obtain ⟨reads, less⟩ := both
  refine ⟨?_, ?_⟩
  · rw [perform_bracketed opens reads]
    exact (Read.closed_closeBracket top collecting less).map
  · rw [perform_bracketed opens reads, held]
    exact Read.openings_closeBracket top

/-- A text `t` at its start, on which brackets are watched. -/
def watching (text : Slice) : Session Memory (Input Slice) where
  feed := ((Input.ofFeed text (some (.start "t" {}))).withState .brackets .empty).collecting
  memory := .empty

/-- An `a` behind two open brackets, of which only the second one is closed. -/
def halfClosed : Session Memory (Input Slice) :=
  watching ⟨#[.char '(', .char '(', .char 'a', .char ')'], 0, by decide⟩

/-- Behind the first bracket, the second one is read to the end of the text. -/
theorem nested_halfClosed : ∃ past,
    Read.Ends (fun fuel => (nested [('(', ')')] (Pattern.token (.char 'a'))).read fuel)
      ((Read.openBracket ('(', ')')).perform halfClosed).2 (some (Token.char 'a').toValue) past ∧
    remaining past.feed = [] ∧ past.feed.mode = .collect [] ∧
    ∀ text, past.feed.record text = ⟨.char ')', some ⟨"t", 1, 4, 4⟩, text⟩ := by
  refine ⟨(((nested [('(', ')')] (Pattern.token (.char 'a'))).read 3).perform
    ((Read.openBracket ('(', ')')).perform halfClosed).2).2, ⟨3, fun fuel enough => ?_⟩,
    rfl, rfl, fun _ => rfl⟩
  obtain ⟨fuel, rfl⟩ := Nat.exists_eq_add_of_le' enough
  rfl

/-- The close bracket is taken by the second bracket, and the one that is missing is reported with
    the place behind the first. -/
theorem bracketed_follows_stack_halfClosed :
    let p := Pattern.bracketed '(' ')' (nested [('(', ')')] (Pattern.token (.char 'a')))
    Granted fun fuel =>
      ((p.read fuel).perform halfClosed).1 = .ok none ∧
      ((p.read fuel).perform halfClosed).2.feed.mode =
        .collect [⟨.char ')', some ⟨"t", 1, 4, 4⟩, "expecting ')' (from t:1:1)"⟩] := by
  intro p
  have watched : halfClosed.feed.Bracketing := ⟨rfl, ⟨[], rfl⟩, ⟨_, rfl⟩⟩
  have opens : (Read.openBracket ('(', ')')).perform halfClosed =
    (.ok (some (.char '(')), ((Read.openBracket ('(', ')')).perform halfClosed).2) := rfl
  obtain ⟨past, ends, left, mode, record⟩ := nested_halfClosed
  obtain ⟨_, follows⟩ := bracketed_follows_stack (σ := Slice)
    (keepsBrackets_token (.char 'a')) [('(', ')')]
  obtain ⟨place, placed, granted⟩ := follows '(' ')' watched opens ends
  cases placed
  refine granted.mono fun fuel both => ?_
  obtain ⟨closed, _⟩ := both
  obtain ⟨latest, before, errors⟩ := closed.told (by simp [left])
  cases mode.symm.trans before
  refine ⟨(closed.ended (by simp [left])).1, ?_⟩
  have text : Read.missing ')' ⟨"t", 1, 1, 1⟩ = "expecting ')' (from t:1:1)" := by decide +kernel
  rw [← record, ← text]
  exact errors

/-! ### Abandoned brackets -/

/-- A bracket whose item does not read leaves its place on the stack.  Where an item that keeps the
    stacks does not read behind an open bracket, the pattern does not read either, and the place
    behind the open bracket stays on top of the stack of its pair.  So if a close bracket is
    missing later, for the open bracket before, that one's place is named if it is of another pair,
    and the place of the abandoned bracket if it is of the same. -/
theorem bracketed_abandoned {o : Openings} (tracked : s.feed.tracker.isSome = true)
    (held : s.feed.openings = some o)
    (opens : (Read.openBracket (opening, closing)).perform s = (.ok (some token), opened))
    (fails : Read.Ends (fun fuel => item.read fuel) opened none past)
    (stays : past.feed.openings = opened.feed.openings) :
    ∃ place, (Feed.consume s.feed).feed.place = some place ∧
      Read.Ends (fun fuel => (Pattern.bracketed opening closing item).read fuel) s none past ∧
      past.feed.openings = some (o.push (opening, closing) place) ∧
      ∀ (pair : Char × Char) (own : Location) (outer : Openings) (fuel : Nat)
        (later : Session Memory (Input σ)),
        o = outer.push pair own → later.feed.openings = past.feed.openings →
        (∃ latest, later.feed.mode = .collect latest) → (remaining later.feed).length < fuel →
        Read.Closed pair.2 (if pair = (opening, closing) then place else own) later (.char pair.2)
          ((Read.closeBracket fuel pair).perform later) := by
  obtain ⟨place, placed, pushed, _, _⟩ := Read.openBracket_opens opens tracked held
  have top : past.feed.openings = some (o.push (opening, closing) place) := stays.trans pushed
  refine ⟨place, placed, ?_, top, ?_⟩
  · exact Granted.succ (fun _ run => run)
      (Granted.succ (fun fuel run => perform_bracketed_none opens run) fails.shift)
  · intro pair own outer fuel later enclosing same collecting enough
    subst enclosing
    have now := same.trans top
    split
    · rename_i both
      subst both
      exact Read.closed_closeBracket now collecting enough
    · rename_i ne
      rw [Openings.push_comm outer ne] at now
      exact Read.closed_closeBracket now collecting enough

/-- A `b` behind two open brackets, none of which is closed. -/
def neverClosed : Session Memory (Input Slice) :=
  watching ⟨#[.char '(', .char '(', .char 'b'], 0, by decide⟩

/-- `neverClosed` behind the first bracket. -/
def oneOpen : Session Memory (Input Slice) :=
  ((Read.openBracket ('(', ')')).perform neverClosed).2

/-- `neverClosed` behind both brackets. -/
def bothOpen : Session Memory (Input Slice) :=
  ((Read.openBracket ('(', ')')).perform oneOpen).2

/-- Looking for an `a` behind the second bracket is given up; when a close bracket is missing
    behind the `b`, the error names the place behind the second bracket. -/
theorem bracketed_abandoned_neverClosed :
    let later := (((Pattern.token (.char 'b')).read 1).perform bothOpen).2
    Read.Ends (fun fuel => (Pattern.bracketed '(' ')' (Pattern.token (.char 'a'))).read fuel)
      oneOpen none bothOpen ∧
    ((Read.closeBracket 1 ('(', ')')).perform later).1 = .ok none ∧
    ((Read.closeBracket 1 ('(', ')')).perform later).2.feed.mode =
      .collect [⟨.char 'b', some ⟨"t", 1, 3, 3⟩, Read.missing ')' ⟨"t", 1, 2, 2⟩⟩] := by
  intro later
  have opens : (Read.openBracket ('(', ')')).perform oneOpen =
    (.ok (some (.char '(')), bothOpen) := rfl
  have first : oneOpen.feed.openings =
      some (Openings.push (fun _ => []) ('(', ')') ⟨"t", 1, 1, 1⟩) :=
    congrArg some (OpenBrackets.opened_add .empty _ _)
  have fails : Read.Ends (fun fuel => (Pattern.token (.char 'a')).read fuel) bothOpen none
      bothOpen :=
    Granted.succ (P := fun _ => True) (fun _ _ => rfl) (.of_forall fun _ => trivial)
  obtain ⟨place, placed, ends, _, names⟩ := bracketed_abandoned rfl first opens fails rfl
  cases placed
  have left : remaining later.feed = [] := rfl
  have closed := names ('(', ')') ⟨"t", 1, 1, 1⟩ (fun _ => []) 1 later rfl rfl ⟨[], rfl⟩
    (by rw [left]; exact Nat.one_pos)
  obtain ⟨latest, before, errors⟩ := closed.told (by simp [left])
  cases before
  exact ⟨ends, (closed.ended (by simp [left])).1, errors⟩

/-- The bracket given up leaves its place on the stack, and the error for the bracket at the start
    of the text names that place instead of its own. -/
theorem bracketed_leaves_place :
    let inner := Pattern.bracketed '(' ')' (Pattern.token (.char 'a'))
    let outer := Pattern.bracketed '(' ')' (.choice [inner, Pattern.token (.char 'b')])
    let abandoned := (inner.read 4).perform oneOpen
    let run := (outer.read 6).perform neverClosed
    (abandoned.1 = .ok none ∧
      oneOpen.feed.openings.map (fun o => o ('(', ')')) = some [⟨"t", 1, 1, 1⟩] ∧
      abandoned.2.feed.openings.map (fun o => o ('(', ')')) =
        some [⟨"t", 1, 1, 1⟩, ⟨"t", 1, 2, 2⟩]) ∧
    (Feed.consume neverClosed.feed).feed.place = some ⟨"t", 1, 1, 1⟩ ∧
      run.2.feed.takeErrors.1.map ErrorRecord.message = ["expecting ')' (from t:1:2)"] := by
  refine ⟨⟨rfl, rfl, rfl⟩, rfl, ?_⟩
  decide +kernel

end Pattern

end Duplex
