/-
Module: Duplex.Proofs.Cursor
Purpose: Feeds as cursors over a list of tokens.  On a lawful feed the tokens still to be taken are
  a list, the feeds that hold tokens are all lawful, and a read is described by the tokens it takes,
  those it leaves, and what it gives: `Read.Reads`.
Main exports: LawfulFeed, Feed.advance, Read.Reads, Read.Reads.bind, Read.reads_consumeIf
-/
import Duplex.Proofs.Reading

namespace Duplex

/-! ### Lawful feeds -/

/-- A feed that hands out the tokens of a list one after the other. -/
class LawfulFeed (σ : Type) [Feed σ] where
  /-- The tokens not yet taken. -/
  remaining : σ → List Token
  consume_nil : ∀ {s}, remaining s = [] → Feed.consume s = { token := none, feed := s }
  consume_cons : ∀ {s t ts}, remaining s = t :: ts →
    Feed.peek s = t ∧ ∃ next notes,
      Feed.consume s = { token := some t, feed := next, notes := notes } ∧
      remaining next = ts
  atEnd_eq : ∀ s, Feed.atEnd s = (remaining s).isEmpty

export LawfulFeed (remaining)

/-- A feed that still shows the last token after it was taken. -/
class StickyFeed (σ : Type) [Feed σ] [LawfulFeed σ] : Prop where
  peek_last : ∀ {s : σ} {t}, remaining s = [t] → Feed.peek (Feed.consume s).feed = t

/-- The feed after taking a number of tokens. -/
def Feed.advance {σ : Type} [Feed σ] : Nat → σ → σ
  | 0, s => s
  | n + 1, s => advance n (Feed.consume s).feed

theorem Feed.advance_add {σ : Type} [Feed σ] (n m : Nat) (s : σ) :
    Feed.advance (n + m) s = Feed.advance m (Feed.advance n s) := by
  induction n generalizing s with
  | zero => rw [Nat.zero_add, advance]
  | succ n ih =>
      rw [Nat.succ_add, advance, advance]
      exact ih _

/-- What stays when one token is taken stays when any number of them is. -/
theorem Feed.advance_keeps {σ β : Type} [Feed σ] {f : σ → β}
    (kept : ∀ s, f (Feed.consume s).feed = f s) (n : Nat) (s : σ) : f (Feed.advance n s) = f s := by
  induction n generalizing s with
  | zero => rfl
  | succ n ih => rw [advance, ih, kept]

/-- After the tokens in front have been taken, those behind them remain. -/
theorem LawfulFeed.remaining_advance {σ : Type} [Feed σ] [LawfulFeed σ] {ts rest : List Token}
    {s : σ} (h : remaining s = ts ++ rest) : remaining (Feed.advance ts.length s) = rest := by
  induction ts generalizing s with
  | nil => exact h
  | cons t ts ih =>
      obtain ⟨_, next, notes, taken, left⟩ := consume_cons h
      rw [List.length_cons, Feed.advance, taken]
      exact ih left

/-! ### The feeds that hold tokens -/

theorem Slice.consume_of_lt {s : Slice} (inside : s.position < s.items.size) :
    Feed.consume s =
      { token := some s.items[s.position], feed := { s with position := s.position + 1 } } := by
  simp only [Feed.consume, Array.getElem?_eq_getElem inside]

theorem Slice.consume_of_le {s : Slice} (short : s.items.size ≤ s.position) :
    Feed.consume s = { token := none, feed := s } := by
  simp only [Feed.consume, Array.getElem?_eq_none short]

instance : LawfulFeed Slice where
  remaining s := s.items.toList.drop s.position
  consume_nil {s} h := by
    have short : s.items.size ≤ s.position := by simpa using h
    exact Slice.consume_of_le short
  consume_cons {s t ts} h := by
    have inside : s.position < s.items.size := by
      have := congrArg List.length h
      simp only [List.length_drop, Array.length_toList, List.length_cons] at this
      omega
    rw [List.drop_eq_getElem_cons (by simpa using inside), List.cons.injEq] at h
    obtain ⟨here, left⟩ := h
    have shown : Feed.peek s = t := by
      show s.items[min s.position (s.items.size - 1)] = t
      rw [← here, Array.getElem_toList]
      congr 1
      omega
    refine ⟨shown, { s with position := s.position + 1 }, [], ?_, left⟩
    rw [Slice.consume_of_lt inside, ← here, Array.getElem_toList]
  atEnd_eq s := by
    show decide (s.items.size ≤ s.position) = _
    rw [Bool.eq_iff_iff]
    simp

instance : StickyFeed Slice where
  peek_last {s t} h := by
    have size := congrArg List.length (show s.items.toList.drop s.position = [t] from h)
    simp only [List.length_drop, Array.length_toList, List.length_singleton] at size
    have inside : s.position < s.items.size := by omega
    obtain ⟨shown, _⟩ := LawfulFeed.consume_cons h
    rw [Slice.consume_of_lt inside]
    rw [← shown]
    show s.items[min (s.position + 1) (s.items.size - 1)] =
      s.items[min s.position (s.items.size - 1)]
    congr 1
    omega

instance : LawfulFeed Pulled where
  remaining s := if s.drained then [] else s.held :: s.rest
  consume_nil {s} h := by
    obtain ⟨rest, held, _ | _⟩ := s
    · cases h
    · rfl
  consume_cons {s t ts} h := by
    obtain ⟨rest, held, _ | _⟩ := s
    · cases h
      cases rest with
      | nil => exact ⟨rfl, _, _, rfl, rfl⟩
      | cons u rest => exact ⟨rfl, _, _, rfl, rfl⟩
    · cases h
  atEnd_eq s := by
    obtain ⟨rest, held, _ | _⟩ := s <;> rfl

instance : StickyFeed Pulled where
  peek_last {s t} h := by
    obtain ⟨rest, held, _ | _⟩ := s <;> cases h
    rfl

instance : LawfulFeed Single where
  remaining s := if s.taken then [] else [s.value]
  consume_nil {s} h := by
    obtain ⟨value, _ | _⟩ := s
    · cases h
    · rfl
  consume_cons {s t ts} h := by
    obtain ⟨value, _ | _⟩ := s
    · cases h
      exact ⟨rfl, _, _, rfl, rfl⟩
    · cases h
  atEnd_eq s := by
    obtain ⟨value, _ | _⟩ := s <;> rfl

instance : StickyFeed Single where
  peek_last {s t} h := by
    obtain ⟨value, _ | _⟩ := s <;> cases h
    rfl

instance : LawfulFeed Characters where
  remaining s := if s.drained then [] else (s.held :: s.rest).map .char
  consume_nil {s} h := by
    obtain ⟨rest, ending, held, _ | _, fault⟩ := s
    · cases h
    · rfl
  consume_cons {s t ts} h := by
    obtain ⟨rest, ending, held, _ | _, fault⟩ := s
    · cases h
      cases rest with
      | nil =>
          cases ending with
          | none => exact ⟨rfl, _, _, rfl, rfl⟩
          | some cause => exact ⟨rfl, _, _, rfl, rfl⟩
      | cons c rest => exact ⟨rfl, _, _, rfl, rfl⟩
    · cases h
  atEnd_eq s := by
    obtain ⟨rest, ending, held, _ | _, fault⟩ := s <;> rfl

instance : StickyFeed Characters where
  peek_last {s t} h := by
    obtain ⟨rest, ending, held, _ | _, fault⟩ := s
    · cases rest with
      | nil =>
          cases h
          cases ending <;> rfl
      | cons c rest => cases h
    · cases h

/-! ### Inputs -/

namespace Input

variable {σ : Type}

/-- Whether a token is swallowed together with the one before it. -/
def swallows (s : Input σ) (item next : Token) : Bool :=
  (s.tracker.map fun k => k.swallows item next).getD false

/-- The tokens of a list that are not swallowed together with the one before them. -/
def unswallowed (swallows : Token → Token → Bool) : List Token → List Token
  | [] => []
  | [t] => [t]
  | t :: u :: rest =>
      if swallows t u then t :: unswallowed swallows rest else t :: unswallowed swallows (u :: rest)

/-- A line feed is swallowed, and a carriage return takes it along. -/
theorem not_swallows_self (s : Input σ) (t : Token) : s.swallows t t = false := by
  unfold swallows
  cases s.tracker with
  | none => rfl
  | some k =>
      show k.swallows t t = false
      unfold Tracker.swallows
      by_cases h : t = .char '\r'
      · subst h
        simp
      · simp [h]

section Feed

variable [Feed σ]

/-- An input takes a token from the feed it dresses, and perhaps another one along with it. -/
theorem consume_cases (s : Input σ) :
    (Feed.consume s).token = (Feed.consume s.feed).token ∧
    (((Feed.consume s).feed.feed = (Feed.consume s.feed).feed ∧
        (Feed.consume s).halt = (Feed.consume s.feed).halt) ∨
      ((Feed.consume s).feed.feed = (Feed.consume (Feed.consume s.feed).feed).feed ∧
        (Feed.consume s).halt =
          (Feed.consume s.feed).halt.or (Feed.consume (Feed.consume s.feed).feed).halt)) := by
  change (consume s).token = _ ∧
    (((consume s).feed.feed = _ ∧ (consume s).halt = _) ∨
      ((consume s).feed.feed = _ ∧ (consume s).halt = _))
  unfold consume
  cases taken : (Feed.consume s.feed).token with
  | none => simp [taken]
  | some t =>
      simp only [taken, true_and]
      split
      · exact .inr ⟨rfl, rfl⟩
      · exact .inl ⟨rfl, Option.or_none⟩

/-- The input after a token that nothing is swallowed with. -/
theorem consume_of_taken {s : Input σ} {t : Token} {next : σ} {notes : List Note}
    (taken : Feed.consume s.feed = { token := some t, feed := next, notes := notes })
    (kept : s.swallows t (Feed.peek next) = false) :
    ∃ notes, Feed.consume s =
      { token := some t
        feed := { s with
          feed := next
          tracker := s.tracker.map fun k => k.after t (Feed.peek next) }
        notes := notes } := by
  refine ⟨(Feed.consume s).notes, ?_⟩
  show consume s = ⟨_, _, (consume s).notes, _⟩
  unfold consume
  rw [taken]
  unfold swallows at kept
  simp [kept]

/-- The input after a token together with the one that is swallowed with it. -/
theorem consume_of_swallowed {s : Input σ} {t u : Token} {next last : σ} {notes more : List Note}
    (taken : Feed.consume s.feed = { token := some t, feed := next, notes := notes })
    (swallowed : s.swallows t (Feed.peek next) = true)
    (along : Feed.consume next = { token := some u, feed := last, notes := more }) :
    ∃ notes, Feed.consume s =
      { token := some t
        feed := { s with
          feed := last
          tracker := s.tracker.map fun k => k.after t (Feed.peek next) }
        notes := notes } := by
  refine ⟨(Feed.consume s).notes, ?_⟩
  show consume s = ⟨_, _, (consume s).notes, _⟩
  unfold consume
  rw [taken]
  unfold swallows at swallowed
  simp [swallowed, along]

end Feed

/-- What is swallowed depends on the line breaks of the text, not on the place in it. -/
theorem swallows_after (s : Input σ) (feed : σ) (t u : Token) :
    ({ s with feed := feed, tracker := s.tracker.map fun k => k.after t u } : Input σ).swallows =
      s.swallows := by
  obtain ⟨_, tracker, _, _, _⟩ := s
  cases tracker <;> rfl

theorem unswallowed_eq_nil {swallows : Token → Token → Bool} {ts : List Token} :
    unswallowed swallows ts = [] ↔ ts = [] := by
  cases ts with
  | nil => simp [unswallowed]
  | cons t ts =>
      cases ts with
      | nil => simp [unswallowed]
      | cons u rest =>
          unfold unswallowed
          split <;> simp

variable [Feed σ] [LawfulFeed σ] [StickyFeed σ]

instance : LawfulFeed (Input σ) where
  remaining s := unswallowed s.swallows (remaining s.feed)
  consume_nil {s} h := by
    have ended := LawfulFeed.consume_nil (unswallowed_eq_nil.mp h)
    show consume s = _
    unfold consume
    rw [ended]
  consume_cons {s t ts} h := by
    cases left : remaining s.feed with
    | nil =>
        rw [left] at h
        cases h
    | cons a rest =>
        obtain ⟨shown, next, notes, taken, behind⟩ := LawfulFeed.consume_cons left
        cases rest with
        | nil =>
            rw [left] at h
            cases h
            have sticky : Feed.peek next = t := by
              have := StickyFeed.peek_last left
              rwa [taken] at this
            obtain ⟨notes, took⟩ := consume_of_taken taken (by rw [sticky, not_swallows_self])
            refine ⟨shown, _, notes, took, ?_⟩
            rw [swallows_after, behind]
            rfl
        | cons u rest =>
            obtain ⟨shownNext, last, more, along, behindNext⟩ := LawfulFeed.consume_cons behind
            rw [left, unswallowed] at h
            cases swallowed : s.swallows a u with
            | true =>
                rw [swallowed, if_pos rfl, List.cons.injEq] at h
                obtain ⟨rfl, rfl⟩ := h
                obtain ⟨notes, took⟩ :=
                  consume_of_swallowed taken (by rw [shownNext, swallowed]) along
                refine ⟨shown, _, notes, took, ?_⟩
                rw [swallows_after, behindNext]
            | false =>
                rw [swallowed, if_neg Bool.false_ne_true, List.cons.injEq] at h
                obtain ⟨rfl, rfl⟩ := h
                obtain ⟨notes, took⟩ := consume_of_taken taken (by rw [shownNext, swallowed])
                refine ⟨shown, _, notes, took, ?_⟩
                rw [swallows_after, behind]
  atEnd_eq s := by
    show Feed.atEnd s.feed = _
    rw [LawfulFeed.atEnd_eq, Bool.eq_iff_iff, List.isEmpty_iff, List.isEmpty_iff,
      unswallowed_eq_nil]

end Input

theorem Bounds.allows_iff {b : Bounds} {n : Nat} :
    b.allows n = true ↔ b.min ≤ n ∧ n ≤ b.max := by
  simp [Bounds.allows]

/-! ### What a read takes and gives -/

namespace Read

variable {μ σ α β : Type} [Feed σ] [LawfulFeed σ]

/-- Where the tokens `ts` and then `rest` remain, the read takes `ts`, leaves `rest`, and gives `a`;
    it reports nothing and leaves the memory alone. -/
def Reads (r : Read μ σ α) (ts rest : List Token) (a : α) : Prop :=
  ∀ s : Session μ σ, remaining s.feed = ts ++ rest →
    ∃ t : Session μ σ, r.perform s = (.ok a, t) ∧
      t.feed = Feed.advance ts.length s.feed ∧ t.memory = s.memory

theorem reads_pure (a : α) (rest : List Token) : (pure a : Read μ σ α).Reads [] rest a :=
  fun s _ => ⟨s, rfl, rfl, rfl⟩

theorem Reads.bind {r : Read μ σ α} {f : α → Read μ σ β} {ts us rest : List Token} {a : α} {b : β}
    (first : r.Reads ts (us ++ rest) a) (second : (f a).Reads us rest b) :
    (r >>= f).Reads (ts ++ us) rest b := by
  intro s left
  rw [List.append_assoc] at left
  obtain ⟨t, run, feed, memory⟩ := first s left
  have behind : remaining t.feed = us ++ rest := by
    rw [feed]
    exact LawfulFeed.remaining_advance left
  obtain ⟨u, run', feed', memory'⟩ := second t behind
  refine ⟨u, ?_, ?_, memory'.trans memory⟩
  · rw [perform_bind_ok run, run']
  · rw [feed', feed, List.length_append, Feed.advance_add]

/-- A first step that takes nothing. -/
theorem Reads.bind_nil {r : Read μ σ α} {f : α → Read μ σ β} {us rest : List Token} {a : α} {b : β}
    (first : r.Reads [] (us ++ rest) a) (second : (f a).Reads us rest b) :
    (r >>= f).Reads us rest b :=
  Reads.bind first second

/-- A last step that takes nothing. -/
theorem Reads.then_nil {r : Read μ σ α} {f : α → Read μ σ β} {ts rest : List Token} {a : α} {b : β}
    (first : r.Reads ts rest a) (second : (f a).Reads [] rest b) :
    (r >>= f).Reads ts rest b := by
  have whole : (r >>= f).Reads (ts ++ []) rest b := Reads.bind first second
  rwa [List.append_nil] at whole

theorem Reads.map {r : Read μ σ α} {ts rest : List Token} {a : α} (f : α → β)
    (h : r.Reads ts rest a) : (do return f (← r)).Reads ts rest (f a) :=
  h.then_nil (reads_pure (f a) rest)

theorem reads_note (n : Note) (rest : List Token) : (note n : Read μ σ Unit).Reads [] rest () :=
  fun s _ => ⟨{ s with journal := s.journal.add n }, rfl, rfl, rfl⟩

/-- A token that passes is taken. -/
theorem reads_consumeIf {test : Token → Bool} {t : Token} (passes : test t = true)
    (rest : List Token) : (consumeIf test : Read μ σ (Option Token)).Reads [t] rest (some t) := by
  intro s left
  obtain ⟨shown, next, notes, taken, _⟩ := LawfulFeed.consume_cons left
  refine ⟨{ s with feed := next, journal := s.journal.addAll notes }, ?_, ?_, rfl⟩
  · rw [perform_consumeIf, shown, if_pos passes, perform_consume, taken]
  · show next = Feed.advance 1 s.feed
    rw [Feed.advance, taken, Feed.advance]

/-- A token that does not pass is left, and at the end there is none to take, whatever is still
    shown. -/
theorem reads_consumeIf_none {test : Token → Bool} {rest : List Token}
    (fails : ∀ t ∈ rest.head?, test t = false) :
    (consumeIf test : Read μ σ (Option Token)).Reads [] rest none := by
  intro s left
  rw [List.nil_append] at left
  refine ⟨s, ?_, rfl, rfl⟩
  rw [perform_consumeIf]
  cases rest with
  | nil =>
      split
      · rw [perform_consume, LawfulFeed.consume_nil left]
        rfl
      · rfl
  | cons t rest =>
      obtain ⟨shown, _⟩ := LawfulFeed.consume_cons left
      have refused := fails t rfl
      rw [shown, refused]
      rfl

/-! ### Combinators -/

section Combinators

variable {ts us rest : List Token}

theorem reads_sequence_nil (rest : List Token) :
    (sequence [] : Read μ σ (Option (List α))).Reads [] rest (some []) :=
  reads_pure _ rest

theorem reads_sequence_cons {r : Read μ σ (Option α)} {rs : List (Read μ σ (Option α))} {a : α}
    {result : Option (List α)} (first : r.Reads ts (us ++ rest) (some a))
    (others : (sequence rs).Reads us rest result) :
    (sequence (r :: rs)).Reads (ts ++ us) rest (result.map (a :: ·)) := by
  apply first.bind
  apply others.then_nil
  cases result with
  | none => exact reads_pure _ rest
  | some as => exact reads_pure _ rest

theorem reads_sequence_none {r : Read μ σ (Option α)} (rs : List (Read μ σ (Option α)))
    (first : r.Reads ts rest none) : (sequence (r :: rs)).Reads ts rest none :=
  first.then_nil (reads_pure _ rest)

theorem reads_choice_here {r : Read μ σ (Option α)} (rs : List (Read μ σ (Option α))) {a : α}
    (i : Nat) (first : r.Reads ts rest (some a)) :
    (choice i (r :: rs)).Reads ts rest (some (i, a)) :=
  first.then_nil (reads_pure _ rest)

theorem reads_choice_skip {r : Read μ σ (Option α)} {rs : List (Read μ σ (Option α))} {i : Nat}
    {result : Option (Nat × α)} (first : r.Reads [] (ts ++ rest) none)
    (others : (choice (i + 1) rs).Reads ts rest result) :
    (choice i (r :: rs)).Reads ts rest result :=
  first.bind_nil others

section Repetition

variable {τ : Type} {accept : τ → α → Except FoldStop τ} {item : Read μ σ (Option α)}
  {limit fuel count : Nat} {sofar next : τ}

theorem reads_repeatLoop_full (full : limit ≤ count) (rest : List Token) :
    (repeatLoop accept item limit (fuel + 1) count sofar).Reads [] rest (some (count, sofar)) := by
  rw [repeatLoop, if_neg (Nat.not_lt_of_le full)]
  exact reads_pure _ rest

theorem reads_repeatLoop_stop (stop : item.Reads [] rest none) :
    (repeatLoop accept item limit (fuel + 1) count sofar).Reads [] rest (some (count, sofar)) := by
  by_cases more : count < limit
  · rw [repeatLoop, if_pos more]
    exact stop.bind_nil (reads_pure _ rest)
  · exact reads_repeatLoop_full (Nat.le_of_not_lt more) rest

theorem reads_repeatLoop_step {a : α} {result : Option (Nat × τ)} (more : count < limit)
    (here : item.Reads ts (us ++ rest) (some a)) (accepts : accept sofar a = .ok next)
    (others : (repeatLoop accept item limit fuel (count + 1) next).Reads us rest result) :
    (repeatLoop accept item limit (fuel + 1) count sofar).Reads (ts ++ us) rest result := by
  rw [repeatLoop, if_pos more]
  apply here.bind
  have gathered : (gather accept sofar a : Read μ σ (Option τ)).Reads [] (us ++ rest)
      (some next) := by
    rw [gather, accepts]
    exact reads_pure _ _
  exact gathered.bind_nil others

theorem reads_repeated {start gathered : τ} {bounds : Bounds}
    (loop : (repeatLoop accept item bounds.limit fuel 0 start).Reads ts rest
      (some (count, gathered))) :
    (repeated fuel accept start bounds item).Reads ts rest
      (if bounds.allows count then some gathered else none) :=
  loop.then_nil (reads_pure _ rest)

end Repetition

section Brackets

variable {left right : Read μ σ Bool} {item : Read μ σ (Option α)}

theorem reads_surround {vs : List Token} {a : α} {closed : Bool}
    (opening : left.Reads ts (us ++ (vs ++ rest)) true)
    (inner : item.Reads us (vs ++ rest) (some a)) (closing : right.Reads vs rest closed) :
    (surround left right item).Reads (ts ++ (us ++ vs)) rest
      (if closed then some a else none) := by
  rw [← List.append_assoc] at opening
  apply opening.bind
  apply inner.bind
  apply closing.then_nil
  cases closed <;> exact reads_pure _ rest

theorem reads_surround_none (right : Read μ σ Bool) (opening : left.Reads ts (us ++ rest) true)
    (inner : item.Reads us rest none) : (surround left right item).Reads (ts ++ us) rest none := by
  apply opening.bind
  exact inner.then_nil (reads_pure _ rest)

theorem reads_surround_closed (opening : left.Reads ts rest false) :
    (surround left right item).Reads ts rest none := by
  apply opening.then_nil
  exact reads_pure _ rest

end Brackets

section Joining

variable {sep : Read μ σ (Option β)} {item : Read μ σ (Option α)} {trailing : β → Bool}
  {rescue : List α → List β → Read μ σ (Option α)} {fuel : Nat} {items : List α} {seps : List β}

theorem reads_joinLoop_stop (stop : sep.Reads ts rest none) :
    (joinLoop sep item trailing rescue (fuel + 1) items seps).Reads ts rest
      (some (items.reverse, seps.reverse)) := by
  rw [joinLoop]
  exact stop.then_nil (reads_pure _ rest)

theorem reads_joinLoop_step {vs : List Token} {s : β} {a : α} {result : Option (List α × List β)}
    (mark : sep.Reads ts (us ++ (vs ++ rest)) (some s))
    (here : item.Reads us (vs ++ rest) (some a))
    (others : (joinLoop sep item trailing rescue fuel (a :: items) (s :: seps)).Reads vs rest
      result) :
    (joinLoop sep item trailing rescue (fuel + 1) items seps).Reads (ts ++ (us ++ vs)) rest
      result := by
  rw [joinLoop]
  rw [← List.append_assoc] at mark
  apply mark.bind
  exact here.bind others

theorem reads_joined {a : α} {result : Option (List α × List β)}
    (first : item.Reads ts (us ++ rest) (some a))
    (others : (joinLoop sep item trailing rescue fuel [a] []).Reads us rest result) :
    (joined fuel sep item trailing rescue).Reads (ts ++ us) rest result :=
  first.bind others

theorem reads_joined_none (first : item.Reads ts rest none) :
    (joined fuel sep item trailing rescue).Reads ts rest none :=
  first.then_nil (reads_pure _ rest)

end Joining

end Combinators

end Read

end Duplex
