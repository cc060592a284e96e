/-
Module: Duplex.Proofs.Conservation
Purpose: No token is lost, doubled or moved.  What an input has handed to its hook and what it still
  has to hand out are together the tokens it had, in their order, after every step of a grammar and
  so after every run, however it ends.  Behind a counter the tokens handed out are as many as were
  counted; looking ahead hands out none.
Main exports: HooklessFeed, Input.HandsAll, Conserved, Pattern.read_conserves,
  Pattern.read_counted, Grammar.readFrom_conserves
-/
import Duplex.Proofs.Lookahead
import Duplex.Proofs.Running

namespace Duplex

/-! ### Feeds behind an input -/

/-- A feed that hands nothing to a hook itself. -/
class HooklessFeed (σ : Type) [Feed σ] : Prop where
  handed_consume : ∀ s : σ, handed (Feed.consume s).notes = []

instance : HooklessFeed Slice where
  handed_consume s := by
    simp only [Feed.consume]
    split <;> rfl

instance : HooklessFeed Pulled where
  handed_consume s := by
    obtain ⟨_ | ⟨t, rest⟩, held, _ | _⟩ := s <;> rfl

instance : HooklessFeed Single where
  handed_consume s := by
    rw [Single.notes_consume]
    rfl

instance : HooklessFeed Characters where
  handed_consume s := by
    obtain ⟨_ | ⟨c, rest⟩, _ | ending, held, _ | _, fault⟩ := s <;> rfl

/-- A feed of tokens in memory hands them out. -/
theorem Slice.remaining_ofList {tokens : List Token} {s : Slice} (made : Slice.ofList tokens = .ok s) :
    remaining s = tokens := by
  unfold Slice.ofList at made
  split at made
  · cases made
    rfl
  · cases made

/-- A feed that pulls tokens hands them out. -/
theorem Pulled.remaining_ofList {tokens : List Token} {s : Pulled}
    (made : Pulled.ofList tokens = .ok s) : remaining s = tokens := by
  cases tokens with
  | nil => cases made
  | cons t rest =>
      cases made
      rfl

/-- A feed of bytes hands out the characters they are decoded to, up to where they fail. -/
theorem Characters.remaining_ofBytes {source : Text.ByteSource} {s : Characters}
    (made : Characters.ofBytes source = .ok s) : remaining s = source.decode.1.map .char := by
  change Characters.ofChars source.decode = .ok s at made
  cases decoded : source.decode with
  | mk chars ending =>
      rw [decoded] at made
      cases chars with
      | nil => cases ending <;> cases made
      | cons c rest =>
          cases made
          rfl

/-! ### One token -/

namespace Input

variable {σ : Type}

/-- The input tells a hook of every token taken, and swallows none. -/
structure HandsAll (s : Input σ) : Prop where
  hooked : s.hooked = true
  whole : ∀ t u, s.swallows t u = false

variable [Feed σ]

/-- A token that is taken is handed to the hook once, and it is the first of those that were left. -/
theorem HandsAll.consume [LawfulFeed σ] [HooklessFeed σ] {s : Input σ} (hands : s.HandsAll) :
    (Feed.consume s).feed.HandsAll ∧
    handed (Feed.consume s).notes = (Feed.consume s).token.toList ∧
    (Feed.consume s).token.toList ++ remaining (Feed.consume s).feed.feed = remaining s.feed := by
  have silent := HooklessFeed.handed_consume s.feed
  cases left : remaining s.feed with
  | nil =>
      have ended := LawfulFeed.consume_nil left
      have same : Feed.consume s = { token := none, feed := s } := by
        show Input.consume s = _
        unfold Input.consume
        rw [ended]
      rw [same]
      exact ⟨hands, rfl, left⟩
  | cons t ts =>
      obtain ⟨_, next, notes, taken, behind⟩ := LawfulFeed.consume_cons left
      rw [taken] at silent
      have kept := hands.whole t (Feed.peek next)
      have same : Feed.consume s =
          { token := some t
            feed := { s with
              feed := next
              tracker := s.tracker.map fun k => k.after t (Feed.peek next) }
            notes := notes ++ [.took t] } := by
        show Input.consume s = _
        unfold Input.consume
        rw [taken]
        unfold swallows at kept
        simp [kept, hands.hooked]
      rw [same]
      refine ⟨⟨hands.hooked, ?_⟩, ?_, ?_⟩
      · rw [swallows_after]
        exact hands.whole
      · rw [handed_append, silent]
        rfl
      · rw [← behind]
        rfl

theorem HandsAll.report {s : Input σ} (hands : s.HandsAll) (message : String) :
    (Feed.report s message).feed.HandsAll := by
  rw [feed_report]
  exact ⟨hands.hooked, hands.whole⟩

end Input

/-! ### All tokens -/

/-- Of the tokens `ts` that were there at first, `n` have been handed to the hook since, and the
    others are left. -/
structure Conserved {σ : Type} [Feed σ] [LawfulFeed σ] (ts : List Token) (start : Journal) (n : Nat)
    (s : Input σ) (j : Journal) : Prop where
  hands : s.HandsAll
  bound : n ≤ ts.length
  handed : handed j.toList = handed start.toList ++ ts.take n
  left : remaining s.feed = ts.drop n

namespace Conserved

variable {σ : Type} [Feed σ] [LawfulFeed σ] {ts : List Token} {start : Journal} {n : Nat}
  {s : Input σ} {j : Journal}

theorem refl (hands : s.HandsAll) (start : Journal) :
    Conserved (remaining s.feed) start 0 s start :=
  ⟨hands, Nat.zero_le _, by simp, by simp⟩

theorem consume [HooklessFeed σ] (h : Conserved ts start n s j) :
    Conserved ts start (if (Feed.consume s).token.isSome then n + 1 else n) (Feed.consume s).feed
      (j.addAll (Feed.consume s).notes) := by
  obtain ⟨hands, told, split⟩ := h.hands.consume
  rw [h.left] at split
  have grown : Duplex.handed (j.addAll (Feed.consume s).notes).toList =
      Duplex.handed start.toList ++ (ts.take n ++ (Feed.consume s).token.toList) := by
    rw [Journal.toList_addAll, handed_append, told, h.handed, List.append_assoc]
  cases token : (Feed.consume s).token with
  | none =>
      rw [token] at grown split
      exact ⟨hands, h.bound, by simpa using grown, split⟩
  | some t =>
      rw [token] at grown split
      have inside : n < ts.length := by
        have size := congrArg List.length split
        simp only [Option.toList_some, List.length_append, List.length_singleton,
          List.length_drop] at size
        omega
      -- so the token that was taken is the one with number `n`
      rw [List.drop_eq_getElem_cons inside] at split
      obtain ⟨rfl, behind⟩ := List.cons.inj split
      refine ⟨hands, inside, ?_, behind⟩
      rw [grown, Option.isSome_some, if_pos rfl, ← List.take_append_getElem inside]
      rfl

theorem report (h : Conserved ts start n s j) (message : String) :
    Conserved ts start n (Feed.report s message).feed
      (j.addAll (Feed.report s message).notes) := by
  refine ⟨h.hands.report message, h.bound, ?_, ?_⟩
  · rw [Journal.toList_addAll, handed_append, Input.handed_report, List.append_nil, h.handed]
  · rw [Input.feed_report]
    exact h.left

theorem setState (h : Conserved ts start n s j) (m : StateMap) :
    Conserved ts start n (Feed.setState s m) j :=
  ⟨⟨h.hands.hooked, h.hands.whole⟩, h.bound, h.handed, h.left⟩

theorem note (h : Conserved ts start n s j) {note : Note} (own : note.byFeed = false) :
    Conserved ts start n s (j.add note) := by
  have silent : Duplex.handed [note] = [] := handed_of_own (by simpa using own)
  refine ⟨h.hands, h.bound, ?_, h.left⟩
  rw [Journal.toList_add, handed_append, silent, List.append_nil, h.handed]

variable [HooklessFeed σ]

/-- Nothing a grammar does to an input loses a token. -/
theorem invariant (ts : List Token) (start : Journal) :
    Feed.Invariant fun (s : Input σ) j => ∃ n, Conserved ts start n s j where
  consume := fun ⟨_, h⟩ => ⟨_, h.consume⟩
  report := fun message ⟨_, h⟩ => ⟨_, h.report message⟩
  setState := fun m ⟨_, h⟩ => ⟨_, h.setState m⟩
  note := fun own ⟨_, h⟩ => ⟨_, h.note own⟩

/-- A counter counts what is handed out. -/
theorem invariant_counted (ts : List Token) (start : Journal) :
    Feed.Invariant fun (c : Counted (Input σ)) j => Conserved ts start c.consumed c.parent j where
  consume := consume
  report := fun message h => h.report message
  setState := fun m h => h.setState m
  note := fun own h => h.note own

end Conserved

/-! ### Whole runs -/

section Runs

variable {σ : Type} [Feed σ] [LawfulFeed σ]

namespace Pattern

variable [HooklessFeed σ]

/-- A pattern loses no token. -/
theorem read_conserves (fuel : Nat) (p : Pattern) {t : Session Memory (Input σ)}
    (hands : t.feed.HandsAll) :
    ∃ n, Conserved (remaining t.feed.feed) t.journal n ((p.read fuel).perform t).2.feed
      ((p.read fuel).perform t).2.journal :=
  p.read_keeps (Conserved.invariant _ _) fuel ⟨0, .refl hands _⟩

/-- A pattern behind a counter takes as many tokens as are counted. -/
theorem read_counted (fuel : Nat) (p : Pattern) {t : Session Memory (Input σ)}
    (hands : t.feed.HandsAll) :
    let run := (p.read fuel).perform { t with feed := Counted.of t.feed }
    Conserved (remaining t.feed.feed) t.journal run.2.feed.consumed run.2.feed.parent
      run.2.journal :=
  p.read_keeps (Conserved.invariant_counted _ _) fuel
    (s := { t with feed := Counted.of t.feed }) (.refl hands _)

end Pattern

/-- Draining an input that swallows nothing gives the tokens left behind it. -/
theorem Input.HandsAll.drain [StickyFeed σ] {s : Input σ} (hands : s.HandsAll) {fuel : Nat}
    (enough : (remaining s.feed).length < fuel) (memory : Memory) (journal : Journal) :
    ((Read.takeWhile fuel fun _ => true).perform (⟨s, memory, journal⟩ : Session Memory _)).1 =
      .ok (remaining s.feed) := by
  have left : remaining s = remaining s.feed ++ [] := by
    rw [List.append_nil]
    exact Input.unswallowed_of_never hands.whole _
  have reads : (Read.takeWhile fuel fun _ => true : Read Memory (Input σ) (List Token)).Reads
      (remaining s.feed) [] (remaining s.feed) :=
    Read.reads_takeWhile (fun _ _ => rfl) (by simp) enough
  obtain ⟨after, run, _⟩ := reads ⟨s, memory, journal⟩ left
  rw [run]

/-- No token is lost, doubled or moved.  Whatever a grammar reads from a hooked input that swallows
    nothing, and however the read ends, the tokens handed to the hook followed by those that draining
    the input then gives are the tokens that the input had.  A look ahead hands nothing to the hook,
    and a read behind a counter hands over just the tokens it counts, each of them once. -/
theorem Grammar.readFrom_conserves [StickyFeed σ] [HooklessFeed σ] (g : Grammar) (s : Input σ)
    (hands : s.HandsAll) :
    let answer := g.readFrom s
    let rest := remaining answer.feed.feed
    handed answer.notes ++ rest = remaining s.feed ∧
    (∀ fuel > rest.length, ∀ memory journal,
      ((Read.takeWhile fuel fun _ => true).perform
        (⟨answer.feed, memory, journal⟩ : Session Memory (Input σ))).1 = .ok rest) ∧
    (∀ fuel (p : Pattern) (t : Session Memory (Input σ)),
      handed ((Read.peeking (p.read fuel)).perform t).2.journal.toList =
        handed t.journal.toList) ∧
    ∀ fuel (p : Pattern) (t : Session Memory (Input σ)), t.feed.HandsAll →
      let run := (p.read fuel).perform { t with feed := Counted.of t.feed }
      let taken := (remaining t.feed.feed).take run.2.feed.consumed
      handed run.2.journal.toList = handed t.journal.toList ++ taken ∧
      taken ++ remaining run.2.feed.parent.feed = remaining t.feed.feed ∧
      taken.length = run.2.feed.consumed := by
  intro answer rest
  obtain ⟨n, conserved⟩ := g.pattern.read_conserves g.fuel
    (t := { feed := s, memory := g.memory }) hands
  have notes : handed answer.notes = (remaining s.feed).take n := conserved.handed
  have left : rest = (remaining s.feed).drop n := conserved.left
  refine ⟨?_, ?_, ?_, ?_⟩
  · rw [notes, left, List.take_append_drop]
  · intro fuel enough memory journal
    exact conserved.hands.drain enough memory journal
  · intro fuel p t
    obtain ⟨_, looked, _⟩ := p.looked fuel t
    rw [p.perform_peeking fuel t]
    exact looked.handed
  · intro fuel p t hands run taken
    have counted := p.read_counted fuel hands
    refine ⟨counted.handed, ?_, ?_⟩
    · rw [counted.left, List.take_append_drop]
    · exact List.length_take_of_le counted.bound

end Runs

namespace Grammar

/-- An input that tells a hook of each token. -/
def hookedOn {σ : Type} (feed : σ) : Input σ :=
  { Input.ofFeed feed (some (.start "t" {})) with hooked := true }

/-- The text `ayb` from memory, pulled token by token, and from bytes in two chunks: looking for a `b`
    behind the `a` ends the read with an error, where the `a` was handed out and the rest is left. -/
theorem readFrom_conserves_halfway :
    let text : List Token := [.char 'a', .char 'y', .char 'b']
    let bytes : Text.ByteSource := ⟨[[97, 121], [98]], .finished⟩
    let missing : Stop ReadFault := .fault (.located ⟨"t", 1, 1, 1⟩ "want b")
    (∃ feed, Slice.ofList text = .ok feed ∧
      (insisting.readFrom (hookedOn feed)).result = .error missing ∧
      handed (insisting.readFrom (hookedOn feed)).notes = [.char 'a'] ∧
      [.char 'a'] ++ remaining (insisting.readFrom (hookedOn feed)).feed.feed = text) ∧
    (∃ feed, Pulled.ofList text = .ok feed ∧
      (insisting.readFrom (hookedOn feed)).result = .error missing ∧
      handed (insisting.readFrom (hookedOn feed)).notes = [.char 'a'] ∧
      [.char 'a'] ++ remaining (insisting.readFrom (hookedOn feed)).feed.feed = text) ∧
    ∃ feed, Characters.ofBytes bytes = .ok feed ∧
      (insisting.readFrom (hookedOn feed)).result = .error missing ∧
      handed (insisting.readFrom (hookedOn feed)).notes = [.char 'a'] ∧
      [.char 'a'] ++ remaining (insisting.readFrom (hookedOn feed)).feed.feed = text := by
  intro text bytes missing
  have split : ∀ {σ : Type} [Feed σ] [LawfulFeed σ] [StickyFeed σ] [HooklessFeed σ] {feed : σ},
      remaining feed = text → handed (insisting.readFrom (hookedOn feed)).notes = [.char 'a'] →
      [.char 'a'] ++ remaining (insisting.readFrom (hookedOn feed)).feed.feed = text := by
    intro σ _ _ _ _ feed whole first
    rw [← first, (readFrom_conserves insisting (hookedOn feed) ⟨rfl, fun _ _ => rfl⟩).1]
    exact whole
  refine ⟨⟨_, rfl, rfl, rfl, ?_⟩, ⟨_, rfl, rfl, rfl, ?_⟩, ⟨_, rfl, rfl, rfl, ?_⟩⟩
  · exact split (Slice.remaining_ofList rfl) rfl
  · exact split (Pulled.remaining_ofList rfl) rfl
  · have made : Characters.ofBytes bytes = .ok _ := rfl
    exact split (Characters.remaining_ofBytes made) rfl

end Grammar

end Duplex
