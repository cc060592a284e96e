/-
Module: Duplex.Proofs.Recovery.Settle
Purpose: Settling for a default.  Where the item does not read, an error is reported and a skipping
  pattern is read again and again, as long as it reads and takes a token by it.  What a round takes
  is gone from the tokens left, so the rounds come to an end whatever the skipping pattern is, and
  the default is given behind the last of them.
Main exports: Read.Ends, Read.Round, Read.Skips, Read.SkipsQuietly, Read.Skips.exists_le,
  Read.settle_gives
-/
import Duplex.Proofs.Recovery.Insist
import Duplex.Proofs.Termination.Pattern
import Mathlib.Logic.Relation

namespace Duplex

/-! ### Counted reads -/

/-- Counting leaves the tokens of a feed as they are. -/
instance {σ : Type} [Feed σ] [LawfulFeed σ] : LawfulFeed (Counted σ) where
  remaining s := remaining s.parent
  consume_nil {s} h := by
    have ended := LawfulFeed.consume_nil h
    show (⟨(Feed.consume s.parent).token, ⟨(Feed.consume s.parent).feed, _⟩, _, _⟩ :
      Consumed (Counted σ)) = _
    rw [ended]
    rfl
  consume_cons {s t ts} h := by
    obtain ⟨shown, next, notes, taken, left⟩ := LawfulFeed.consume_cons h
    refine ⟨shown, ⟨next, s.consumed + 1⟩, notes, ?_, left⟩
    show (⟨(Feed.consume s.parent).token, ⟨(Feed.consume s.parent).feed, _⟩, _, _⟩ :
      Consumed (Counted σ)) = _
    rw [taken]
    rfl
  atEnd_eq s := LawfulFeed.atEnd_eq s.parent

/-- The tokens counted and those left are together as many as there were. -/
theorem Counted.invariant_length {σ : Type} [Feed σ] [LawfulFeed σ] [StickyFeed σ] (total : Nat) :
    Feed.Invariant fun (s : Counted (Input σ)) _ =>
      s.consumed + (remaining s.parent).length = total where
  consume {s _} sum := by
    cases left : remaining s with
    | nil => rwa [LawfulFeed.consume_nil left]
    | cons t ts =>
        obtain ⟨_, next, notes, taken, behind⟩ := LawfulFeed.consume_cons (s := s.parent) left
        have before : (remaining s.parent).length = ts.length + 1 := by
          rw [show remaining s.parent = t :: ts from left, List.length_cons]
        show (if (Feed.consume s.parent).token.isSome then s.consumed + 1 else s.consumed) +
          (remaining (Feed.consume s.parent).feed).length = total
        rw [taken]
        simp only [Option.isSome_some, if_true, behind]
        omega
  report {s _} message sum := by
    show s.consumed + (remaining (Feed.report s.parent message).feed).length = total
    rw [Input.feed_report]
    exact sum
  setState _ sum := sum
  note _ sum := sum

namespace Read

/-! ### Reads that end -/

section Ending

variable {μ σ α β : Type}

/-- From some amount of fuel on, the read gives `a` and leaves `t`. -/
def Ends (r : Nat → Read μ σ α) (s : Session μ σ) (a : α) (t : Session μ σ) : Prop :=
  Granted fun fuel => (r fuel).perform s = (.ok a, t)

namespace Ends

variable {r : Nat → Read μ σ α} {f : Nat → α → Read μ σ β} {s t u : Session μ σ} {a b : α} {c : β}

/-- A read whose steps do not depend on the fuel. -/
theorem of_perform {step : Read μ σ α} (run : step.perform s = (.ok a, t)) :
    Ends (fun _ => step) s a t :=
  .of_forall fun _ => run

theorem bind (first : Ends r s a t) (second : Ends (fun fuel => f fuel a) t c u) :
    Ends (fun fuel => r fuel >>= f fuel) s c u := by
  refine (first.and second).mono fun fuel both => ?_
  rw [perform_bind_ok both.1]
  exact both.2

/-- A read ends in one way only. -/
theorem unique (one : Ends r s a t) (other : Ends r s b u) : a = b ∧ t = u := by
  obtain ⟨fuel, one, other⟩ := (one.and other).exists
  have same := one.symm.trans other
  simpa using same

end Ends

end Ending

/-! ### Rounds of skipping -/

section Skipping

variable {μ σ β : Type} {skip : Nat → Read μ (Counted σ) (Option β)}
  {s t u : Session μ σ}

/-- A round after which skipping goes on: it has read something, and taken at least one token. -/
def Round (skip : Nat → Read μ (Counted σ) (Option β)) (s t : Session μ σ) : Prop :=
  ∃ b taken, Ends (fun fuel => counting (skip fuel)) s (some b, taken) t ∧ 0 < taken

/-- Skipping ends with a round that reads nothing or takes no token, after a number of rounds that
    do both. -/
inductive Skips (skip : Nat → Read μ (Counted σ) (Option β)) :
    Nat → Session μ σ → Session μ σ → Prop
  | last {s read taken t} :
      Ends (fun fuel => counting (skip fuel)) s (read, taken) t → read = none ∨ taken = 0 →
      Skips skip 0 s t
  | more {n s t u} : Round skip s t → Skips skip n t u → Skips skip (n + 1) s u

/-- The loop carries out these rounds and the last one, so that it is not cut off where it may turn
    more often than there are rounds before the last one. -/
theorem Skips.turns {n : Nat} (skips : Skips skip n s t) :
    Granted fun fuel => ∀ turns, n < turns →
      (skipWhile (skip fuel) turns).perform s = (.ok (), t) := by
  induction skips with
  | last ends spent =>
      refine ends.mono fun fuel run turns left => ?_
      obtain ⟨turns, rfl⟩ := Nat.exists_eq_succ_of_ne_zero (Nat.ne_of_gt left)
      rw [skipWhile, perform_bind_ok run]
      dsimp only
      rcases spent with rfl | rfl
      · rfl
      · rw [beq_self_eq_true, Bool.or_true, if_pos rfl]
        rfl
  | more round _ ih =>
      obtain ⟨b, taken, ends, some⟩ := round
      refine (ends.and ih).mono fun fuel both turns left => ?_
      obtain ⟨turns, rfl⟩ := Nat.exists_eq_succ_of_ne_zero (Nat.ne_zero_of_lt left)
      have goes : ((Option.some b).isNone || taken == 0) = false := by
        simpa using Nat.ne_of_gt some
      rw [skipWhile, perform_bind_ok both.1]
      dsimp only
      rw [goes]
      exact both.2 turns (Nat.lt_of_succ_lt_succ left)

theorem Skips.ends {n : Nat} (skips : Skips skip n s t) :
    Ends (fun fuel => skipWhile (skip fuel) fuel) s () t :=
  (skips.turns.and (.atLeast (n + 1))).mono fun fuel ⟨run, enough⟩ => run fuel enough

end Skipping

/-! ### Skipping by a pattern -/

section Patterns

variable {σ : Type} [Feed σ] [LawfulFeed σ] [StickyFeed σ] {p : Pattern}
  {s t : Session Memory (Input σ)}

/-- The skipping reader ends here, and no error is kept or raised by it. -/
def SkipsQuietly {β : Type} (skip : Nat → Read Memory (Counted (Input σ)) (Option β))
    (s : Session Memory (Input σ)) : Prop :=
  ∃ read taken t, Ends (fun fuel => counting (skip fuel)) s (read, taken) t ∧
    t.feed.mode = s.feed.mode

/-- What a pattern is counted to have taken is gone from the tokens left. -/
theorem length_counting {fuel : Nat} {read : Option Value} {taken : Nat}
    (run : (counting (p.read fuel)).perform s = (.ok (read, taken), t)) :
    taken + (remaining t.feed).length = (remaining s.feed).length := by
  have kept := p.read_keeps (Counted.invariant_length (remaining s.feed).length) fuel
    (s := { s with feed := Counted.of s.feed }) (Nat.zero_add _)
  rw [perform_counting] at run
  rcases outcome : (p.read fuel).perform { s with feed := Counted.of s.feed } with ⟨stop | b, u⟩
  · rw [outcome] at run
    cases run
  · rw [outcome] at run kept
    cases run
    exact kept

/-- A round leaves fewer tokens. -/
theorem Round.length_lt (round : Round p.read s t) :
    (remaining t.feed).length < (remaining s.feed).length := by
  obtain ⟨b, taken, ends, some⟩ := round
  obtain ⟨fuel, run⟩ := ends.exists
  have sum := length_counting run
  omega

/-- Skipping ends whatever the pattern takes or gives, as long as each of its reads ends: there are
    no more rounds to go on after than there are tokens left. -/
theorem Skips.exists_le
    (quiet : ∀ t, Relation.ReflTransGen (Round p.read) s t → SkipsQuietly p.read t) :
    ∃ n t, Skips p.read n s t ∧ t.feed.mode = s.feed.mode ∧ n ≤ (remaining s.feed).length := by
  induction left : (remaining s.feed).length using Nat.strong_induction_on generalizing s with
  | _ size ih =>
      obtain ⟨read, taken, t, ends, mode⟩ := quiet s .refl
      by_cases spent : read = none ∨ taken = 0
      · exact ⟨0, t, .last ends spent, mode, Nat.zero_le size⟩
      · obtain ⟨something, some⟩ := not_or.mp spent
        obtain ⟨b, rfl⟩ := Option.ne_none_iff_exists'.mp something
        have round : Round p.read s t := ⟨b, taken, ends, Nat.pos_of_ne_zero some⟩
        -- the rounds after this one have fewer tokens to take
        have fewer : (remaining t.feed).length < size := left ▸ round.length_lt
        obtain ⟨n, u, skips, same, le⟩ :=
          ih _ fewer (fun u reached => quiet u (.head round reached)) rfl
        exact ⟨n + 1, u, .more round skips, same.trans mode, Nat.lt_of_le_of_lt le fewer⟩

/-! ### Skipping tokens that meet a condition -/

variable {c : Condition}

/-- A round that takes the current token. -/
theorem counting_satisfy_met {token : Token} {rest : List Token}
    (left : remaining s.feed = token :: rest) (meets : c.holds token = true) :
    ∃ t, Ends (fun fuel => counting ((Pattern.satisfy c).read fuel)) s (some token.toValue, 1) t ∧
      remaining t.feed = rest ∧ t.feed.mode = s.feed.mode := by
  have reads : ((Pattern.satisfy c).read 1 : Read Memory (Counted (Input σ)) _).Reads [token] rest
      (some token.toValue) := (reads_consumeIf meets rest).map _
  obtain ⟨u, run, feed, _⟩ := reads { s with feed := Counted.of s.feed } left
  have behind : remaining u.feed.parent = rest := by
    rw [feed]
    exact LawfulFeed.remaining_advance_one (s := Counted.of s.feed) left
  have counted : (counting ((Pattern.satisfy c).read 1)).perform s =
      (.ok (some token.toValue, u.feed.consumed), { u with feed := u.feed.parent }) := by
    rw [perform_counting, run]
    rfl
  have one : u.feed.consumed = 1 := by
    have sum := length_counting counted
    rw [behind, left, List.length_cons] at sum
    omega
  rw [one] at counted
  refine ⟨_, Granted.succ (P := fun _ => True) (fun _ _ => counted) (.of_forall fun _ => trivial),
    behind, ?_⟩
  show u.feed.parent.mode = _
  rw [feed]
  exact Input.mode_consume s.feed

/-- A round that takes nothing. -/
theorem counting_satisfy_unmet (unmet : ∀ t ∈ (remaining s.feed).head?, c.holds t = false) :
    Ends (fun fuel => counting ((Pattern.satisfy c).read fuel)) s (none, 0) s := by
  have idle : (c.read : Read Memory (Counted (Input σ)) _).perform
      { s with feed := Counted.of s.feed } = (.ok none, { s with feed := Counted.of s.feed }) :=
    perform_consumeIf_none unmet
  have counted : (counting ((Pattern.satisfy c).read 1)).perform s = (.ok (none, 0), s) := by
    show (counting (asValue c.read)).perform s = _
    rw [perform_counting, asValue, perform_bind_ok idle]
    rfl
  exact Granted.succ (P := fun _ => True) (fun _ _ => counted) (.of_forall fun _ => trivial)

/-- A round takes the current token if it meets the condition, and otherwise is the last one. -/
theorem counting_satisfy (c : Condition) (s : Session Memory (Input σ)) :
    (∃ token t, Ends (fun fuel => counting ((Pattern.satisfy c).read fuel)) s
        (some token.toValue, 1) t ∧
      remaining s.feed = token :: remaining t.feed ∧ c.holds token = true ∧
      t.feed.mode = s.feed.mode) ∨
    (Ends (fun fuel => counting ((Pattern.satisfy c).read fuel)) s (none, 0) s ∧
      (remaining s.feed).dropWhile c.holds = remaining s.feed) := by
  cases left : remaining s.feed with
  | nil => exact .inr ⟨counting_satisfy_unmet (by simp [left]), rfl⟩
  | cons token rest =>
      cases meets : c.holds token with
      | true =>
          obtain ⟨t, ends, behind, mode⟩ := counting_satisfy_met left meets
          exact .inl ⟨token, t, ends, by rw [behind], meets, mode⟩
      | false =>
          refine .inr ⟨counting_satisfy_unmet ?_, ?_⟩
          · rw [left]
            rintro _ ⟨⟩
            exact meets
          · rw [List.dropWhile_cons, meets, if_neg Bool.false_ne_true]

theorem skipsQuietly_satisfy (c : Condition) (s : Session Memory (Input σ)) :
    SkipsQuietly (Pattern.satisfy c).read s := by
  rcases counting_satisfy c s with ⟨token, t, ends, _, _, mode⟩ | ⟨ends, _⟩
  · exact ⟨_, _, t, ends, mode⟩
  · exact ⟨_, _, s, ends, rfl⟩

/-- Each token that meets the condition is skipped up to the first one that does not. -/
theorem Skips.remaining_satisfy {n : Nat} (skips : Skips (Pattern.satisfy c).read n s t) :
    remaining t.feed = (remaining s.feed).dropWhile c.holds := by
  induction skips with
  | @last s read taken t ends spent =>
      rcases counting_satisfy c s with ⟨token, u, goes, _⟩ | ⟨stays, none⟩
      · obtain ⟨same, _⟩ := ends.unique goes
        cases same
        simp at spent
      · obtain ⟨_, rfl⟩ := ends.unique stays
        exact none.symm
  | @more n s t u round _ ih =>
      obtain ⟨b, taken, ends, some⟩ := round
      rcases counting_satisfy c s with ⟨token, v, goes, left, meets, _⟩ | ⟨stays, _⟩
      · obtain ⟨_, rfl⟩ := ends.unique goes
        rw [ih, left, List.dropWhile_cons, if_pos meets]
      · obtain ⟨same, _⟩ := ends.unique stays
        cases same

/-! ### Settling -/

/-- How a read ended that kept the error `error` at the tokens `ahead` and then skipped by a
    pattern: no further error is kept, there is at most one more read of the pattern than there are
    tokens, and a single token that is to be skipped is skipped as often as it comes. -/
structure Settled (skip : Pattern) (ahead : List Token) (error : ErrorRecord)
    (latest : List ErrorRecord) (reported after : Session Memory (Input σ)) : Prop where
  errors : after.feed.mode = .collect (error :: latest)
  rounds : ∃ n, n ≤ ahead.length ∧ Skips skip.read n reported after
  turns : Granted fun fuel => ∀ turns, ahead.length < turns →
    (skipWhile (skip.read fuel) turns).perform reported = (.ok (), after)
  left : ∀ c, skip = .satisfy c → remaining after.feed = ahead.dropWhile c.holds

/-- Settling always gives a value, with one report at most.  If the item reads, its value is given
    and nothing is reported.  Otherwise an error with the token and the place at which the item
    gave up is kept, the skipping pattern is read until it reads nothing or takes nothing, and the
    default is given.  All that is asked of the skipping pattern is that its reads come to an end
    behind the rounds before, and neither keep nor raise errors. -/
theorem settle_gives (item skip : Pattern) (message : Read Memory (Input σ) String) (value : Value)
    {s gaveUp : Session Memory (Input σ)} {latest : List ErrorRecord} {read : Option Value}
    (collecting : s.feed.mode = .collect latest)
    (ends : Ends (fun fuel => item.read fuel) s read gaveUp)
    (quiet : gaveUp.feed.mode = s.feed.mode) :
    let settle := fun fuel => Read.settle fuel message (skip.read fuel) value (item.read fuel)
    (∀ v, read = some v → Ends settle s (some v) gaveUp) ∧
    ∀ text told, read = none → Words message gaveUp text told →
      let reported := ((report text).perform told).2
      (∀ t, Relation.ReflTransGen (Round skip.read) reported t → SkipsQuietly skip.read t) →
      ∃ after, Ends settle s (some value) after ∧
        Settled skip (remaining gaveUp.feed) (gaveUp.feed.record text) latest reported after := by
  intro settle
  refine ⟨?_, ?_⟩
  · rintro v rfl
    exact ends.bind (.of_perform (perform_pure _ _))
  · rintro text told rfl words reported skipsQuietly
    have mode : told.feed.mode = .collect latest := words.mode.trans (quiet.trans collecting)
    have reports := perform_report_collecting mode text
    have kept : reported.feed = told.feed.inMode (.collect (told.feed.record text :: latest)) := by
      show ((report text).perform told).2.feed = _
      rw [reports]
    have left : remaining reported.feed = remaining gaveUp.feed := by
      rw [kept, ← words.remaining_eq]
      rfl
    obtain ⟨n, after, skips, same, le⟩ := Skips.exists_le skipsQuietly
    rw [left] at le
    have told_ends : Ends (fun _ => report text) told () reported := by
      refine .of_perform ?_
      show _ = (_, ((report text).perform told).2)
      rw [reports]
    refine ⟨after, ?_, ?_, ⟨n, le, skips⟩, ?_, ?_⟩
    · have loop : Ends (fun fuel => skipWhile (skip.read fuel) fuel >>= fun _ => pure (some value))
          reported (some value) after := skips.ends.bind (.of_perform (perform_pure _ _))
      exact ends.bind ((Ends.of_perform words.gives).bind (told_ends.bind loop))
    · rw [same, kept, words.record]
      rfl
    · exact skips.turns.mono fun fuel run turns more => run turns (Nat.lt_of_le_of_lt le more)
    · rintro c rfl
      rw [skips.remaining_satisfy, left]

/-- An item that gives up behind a bracket: the error is that of the `x` it gave up at, the default
    is given behind the last `x`, and reading goes on at the `b`. -/
theorem settle_gives_behind_bracket :
    let item : Pattern := .tuple [.satisfy (.equal (.char '(')), .satisfy (.equal (.char 'a'))]
    let skip : Pattern := .satisfy (.equal (.char 'x'))
    let settle : Pattern := .settle item skip (.text "?") fun _ => "want a"
    let feed : Slice := ⟨#[.char '(', .char 'x', .char 'x', .char 'b'], 0, by decide⟩
    let input : Input Slice := (Input.ofFeed feed (some (.start "t" {}))).collecting
    let s : Session Memory (Input Slice) := { feed := input, memory := .empty }
    ∃ after, Ends (fun fuel => settle.read (fuel + 1)) s (some (.text "?")) after ∧
      after.feed.mode = .collect [⟨.char 'x', some ⟨"t", 1, 1, 1⟩, "want a"⟩] ∧
      remaining after.feed = [.char 'b'] := by
  intro item skip settle feed input s
  let gaveUp : Session Memory (Input Slice) := { s with feed := Feed.advance 1 input }
  have ends : Ends (fun fuel => item.read fuel) s none gaveUp := by
    refine ⟨3, fun fuel enough => ?_⟩
    obtain ⟨fuel, rfl⟩ := Nat.exists_eq_add_of_le' enough
    rfl
  let message : Read Memory (Input Slice) String := return (fun _ => "want a") (← peek)
  have collecting : s.feed.mode = .collect [] := rfl
  have words : Words message gaveUp "want a" gaveUp := ⟨rfl, gaveUp.feed.carried, rfl⟩
  obtain ⟨_, gives⟩ := settle_gives item skip message (.text "?") collecting ends rfl
  obtain ⟨after, settles, settled⟩ := gives _ _ rfl words fun t _ => skipsQuietly_satisfy _ t
  exact ⟨after, settles, settled.errors, settled.left _ rfl⟩

end Patterns

end Read

end Duplex
