/-
Module: Duplex.Proofs.Trie.Descent
Purpose: Reading along a trie.  A descent takes the tokens of a path as long as it leads to a node, and
  whatever a policy makes of the node, the memory stays as it is.  On a feed whose tokens are known
  the descent ends where the path does; on any other feed the tokens taken tell where it has ended.
Main exports: Read.Quiet, FaithfulFeed, Read.descend_performed, Read.takeWhile_performed,
  Read.descend_eq, Read.reads_takeWhile
-/
import Duplex.Feed.Any
import Duplex.Proofs.Cursor
import Duplex.Proofs.Trie.Paths

namespace Duplex

/-! ### Reads that leave the memory alone -/

namespace Read

variable {μ σ α β : Type}

/-- The read leaves the memory of the grammar as it is, however it ends. -/
def Quiet (r : Read μ σ α) : Prop :=
  ∀ s, (r.perform s).2.memory = s.memory

theorem quiet_pure (a : α) : (pure a : Read μ σ α).Quiet :=
  fun _ => rfl

theorem Quiet.bind {r : Read μ σ α} {f : α → Read μ σ β} (first : r.Quiet)
    (second : ∀ a, (f a).Quiet) : (r >>= f).Quiet := by
  intro s
  rw [perform_bind]
  cases start : r.perform s with
  | mk result t =>
      have kept : t.memory = s.memory := by simpa [start] using first s
      cases result with
      | error stop => exact kept
      | ok a => exact (second a t).trans kept

theorem quiet_throw (stop : Stop ReadFault) : (throw stop : Read μ σ α).Quiet :=
  fun _ => rfl

theorem quiet_note (n : Note) : (note n : Read μ σ Unit).Quiet :=
  fun _ => rfl

variable [Feed σ]

theorem quiet_peek : (peek : Read μ σ Token).Quiet :=
  fun _ => rfl

theorem quiet_consume : (consume : Read μ σ (Option Token)).Quiet := by
  intro s
  rw [perform_consume]

theorem quiet_consumeIf (test : Token → Bool) :
    (consumeIf test : Read μ σ (Option Token)).Quiet := by
  intro s
  rw [perform_consumeIf]
  split
  · exact quiet_consume s
  · rfl

theorem quiet_takeWhile (fuel : Nat) (test : Token → Bool) :
    (takeWhile fuel test : Read μ σ (List Token)).Quiet := by
  induction fuel with
  | zero => exact quiet_throw _
  | succ fuel ih =>
      apply (quiet_consumeIf test).bind
      intro taken
      cases taken with
      | none => exact quiet_pure _
      | some t => exact ih.bind fun _ => quiet_pure _

theorem quiet_descend {ν : Type} (path : List Token) (t : Trie Token ν) :
    (descend path t : Read μ σ (Descent × Trie Token ν)).Quiet := by
  unfold descend
  apply quiet_peek.bind
  intro current
  split
  · exact quiet_pure _
  · rename_i next found
    apply quiet_consume.bind
    intro taken
    cases taken with
    | none => exact quiet_pure _
    | some k =>
        have smaller : sizeOf next < sizeOf t := Trie.sizeOf_route?_lt found
        exact quiet_descend (path ++ [k]) next
termination_by sizeOf t

theorem quiet_judgeValue (fuel : Nat) (policy : Policy) (root : Trie Token Value) (w : Descent)
    (v : Value) : (judgeValue fuel policy root w v : Read μ σ Verdict).Quiet := by
  unfold judgeValue
  cases policy with
  | exact => exact quiet_pure _
  | lazy classify => exact quiet_pure _
  | greedy continues =>
      apply quiet_peek.bind
      intro current
      split
      · exact quiet_pure _
      · apply (quiet_takeWhile fuel _).bind
        intro run
        split <;> exact quiet_pure _

theorem quiet_judgeUnknown (fuel : Nat) (policy : Policy) (root : Trie Token Value) (w : Descent) :
    (judgeUnknown fuel policy root w : Read μ σ Verdict).Quiet := by
  unfold judgeUnknown
  cases policy with
  | exact => exact quiet_pure _
  | lazy classify =>
      dsimp only
      split
      · exact quiet_pure _
      · apply (quiet_note _).bind
        intro _
        split
        · exact (quiet_note _).bind fun _ => quiet_pure _
        · exact quiet_pure _
  | greedy continues =>
      dsimp only
      split
      · apply (quiet_pure _).bind
        intro run
        split <;> exact quiet_pure _
      · apply (quiet_takeWhile fuel _).bind
        intro run
        split <;> exact quiet_pure _

/-- A judgement is not yet remembered. -/
theorem quiet_judge (fuel : Nat) (policy : Policy) (root : Trie Token Value) :
    (judge fuel policy root : Read μ σ (Descent × Verdict)).Quiet := by
  apply (quiet_descend [] root).bind
  rintro ⟨w, reached⟩
  dsimp only
  split
  · exact (quiet_judgeValue fuel policy root w _).bind fun _ => quiet_pure _
  · exact (quiet_judgeUnknown fuel policy root w).bind fun _ => quiet_pure _

end Read

/-! ### Feeds that hand out what they show -/

/-- A feed whose tokens are taken as they were shown. -/
class FaithfulFeed (σ : Type) [Feed σ] : Prop where
  shown : ∀ {s : σ} {t : Token}, (Feed.consume s).token = some t → Feed.peek s = t

instance {σ : Type} [Feed σ] [LawfulFeed σ] : FaithfulFeed σ where
  shown {s t} taken := by
    cases left : remaining s with
    | nil => simp [LawfulFeed.consume_nil left] at taken
    | cons u ts =>
        obtain ⟨here, next, notes, consumed, _⟩ := LawfulFeed.consume_cons left
        rw [consumed] at taken
        cases taken
        exact here

instance {σ : Type} [Feed σ] : FaithfulFeed (Lexer σ) where
  shown {s t} taken := by
    change (Lexer.consume s).token = some t at taken
    change s.held.getD s.eof = t
    unfold Lexer.consume at taken
    cases held : s.held with
    | none => simp [held] at taken
    | some u =>
        -- the token held back is handed out, whatever comes of cutting the next one
        rw [held] at taken
        dsimp only at taken
        split at taken <;> simpa using taken

instance {ρ σ : Type} [Feed ρ] [Feed σ] [FaithfulFeed ρ] : FaithfulFeed (Within ρ σ) where
  shown {s} _ taken := FaithfulFeed.shown (s := s.child) taken

instance {σ : Type} [Feed σ] [FaithfulFeed σ] : FaithfulFeed (Counted σ) where
  shown {s} _ taken := FaithfulFeed.shown (s := s.parent) taken

instance : FaithfulFeed AnyFeed where
  shown {s t} taken := by
    cases s with
    | input s => exact FaithfulFeed.shown (s := s) taken
    | pulledInput s => exact FaithfulFeed.shown (s := s) taken
    | byteInput s => exact FaithfulFeed.shown (s := s) taken
    | slice s => exact FaithfulFeed.shown (s := s) taken
    | pulled s => exact FaithfulFeed.shown (s := s) taken
    | single s => exact FaithfulFeed.shown (s := s) taken
    | characters s => exact FaithfulFeed.shown (s := s) taken
    | lexer s => exact FaithfulFeed.shown (s := s) taken

namespace Read

variable {μ σ α β : Type}

/-- A read that goes through has gone through in its first step and in its second. -/
theorem exists_of_bind_ok {r : Read μ σ α} {f : α → Read μ σ β} {s after : Session μ σ} {b : β}
    (run : (r >>= f).perform s = (.ok b, after)) :
    ∃ a between, r.perform s = (.ok a, between) ∧ (f a).perform between = (.ok b, after) := by
  rw [perform_bind] at run
  cases start : r.perform s with
  | mk result between =>
      rw [start] at run
      cases result with
      | error stop => cases run
      | ok a => exact ⟨a, between, rfl, run⟩

variable [Feed σ]

/-- What taking a token has given. -/
theorem token_of_consume_ok {s after : Session μ σ} {result : Option Token}
    (run : (consume : Read μ σ (Option Token)).perform s = (.ok result, after)) :
    (Feed.consume s.feed).token = result := by
  rw [perform_consume] at run
  cases halted : (Feed.consume s.feed).halt with
  | some cause => simp [halted] at run
  | none =>
      simp only [halted, Prod.mk.injEq, Except.ok.injEq] at run
      exact run.1

/-! ### What was taken -/

section Performed

variable [FaithfulFeed σ]

/-- A descent takes the path to the node where it ends, and if tokens were left, there is no route
    for the next one. -/
theorem descend_performed {ν : Type} (path : List Token) (t : Trie Token ν) {s after : Session μ σ}
    {w : Descent} {reached : Trie Token ν}
    (run : (descend path t : Read μ σ (Descent × Trie Token ν)).perform s =
      (.ok (w, reached), after)) :
    ∃ taken, w.path = path ++ taken ∧ t.node? taken = some reached ∧
      (w.atEnd = false → reached.route? (Feed.peek after.feed) = none) := by
  unfold descend at run
  rw [perform_bind_ok (perform_peek s)] at run
  split at run
  · rename_i stops
    cases run
    exact ⟨[], by simp, by simp, fun _ => stops⟩
  · rename_i next found
    obtain ⟨token, between, took, run⟩ := exists_of_bind_ok run
    cases token with
    | none =>
        cases run
        exact ⟨[], by simp, by simp, by simp⟩
    | some k =>
        have smaller : sizeOf next < sizeOf t := Trie.sizeOf_route?_lt found
        obtain ⟨taken, path', node, stops⟩ := descend_performed (path ++ [k]) next run
        rw [FaithfulFeed.shown (token_of_consume_ok took)] at found
        exact ⟨k :: taken, by simp [path'], by simp [found, node], stops⟩
termination_by sizeOf t

theorem consumeIf_performed {test : Token → Bool} {s after : Session μ σ} {t : Token}
    (run : (consumeIf test : Read μ σ (Option Token)).perform s = (.ok (some t), after)) :
    test t = true ∧ Feed.peek s.feed = t := by
  rw [perform_consumeIf] at run
  by_cases passes : test (Feed.peek s.feed)
  · rw [if_pos passes] at run
    have shown : Feed.peek s.feed = t := FaithfulFeed.shown (token_of_consume_ok run)
    exact ⟨by rw [← shown]; exact passes, shown⟩
  · simp [passes] at run

/-- The tokens of a run all pass the test, and the first one is that shown before it. -/
theorem takeWhile_performed {test : Token → Bool} (fuel : Nat) {s after : Session μ σ}
    {run : List Token}
    (performed : (takeWhile fuel test : Read μ σ (List Token)).perform s = (.ok run, after)) :
    (∀ t ∈ run, test t = true) ∧ ∀ t ∈ run.head?, t = Feed.peek s.feed := by
  induction fuel generalizing s run with
  | zero => cases performed
  | succ fuel ih =>
      obtain ⟨token, between, took, rest⟩ := exists_of_bind_ok performed
      cases token with
      | none =>
          cases rest
          simp
      | some t =>
          obtain ⟨passes, shown⟩ := consumeIf_performed took
          obtain ⟨more, last, others, rest⟩ := exists_of_bind_ok rest
          cases rest
          have later := (ih others).1
          simp only [List.mem_cons, forall_eq_or_imp, passes, true_and, List.head?_cons,
            Option.mem_some_iff]
          exact ⟨later, fun u same => by rw [shown, same]⟩

end Performed

/-! ### Known tokens -/

section Known

variable [LawfulFeed σ]

/-- Where the tokens of a path are ahead, and then none that leads on, the descent ends with the
    path. -/
theorem descend_eq {ν : Type} (path : List Token) {t reached : Trie Token ν}
    {taken rest : List Token} {s : Session μ σ} (left : remaining s.feed = taken ++ rest)
    (node : t.node? taken = some reached) (stops : ∀ c ∈ rest.head?, reached.route? c = none) :
    ∃ atEnd after,
      (descend path t : Read μ σ (Descent × Trie Token ν)).perform s =
        (.ok (⟨path ++ taken, atEnd⟩, reached), after) ∧
      remaining after.feed = rest ∧ (rest ≠ [] → atEnd = false) := by
  induction taken generalizing path t s with
  | nil =>
      cases node
      unfold descend
      rw [perform_bind_ok (perform_peek s)]
      split
      · exact ⟨false, s, by simp, left, fun _ => rfl⟩
      · rename_i next found
        cases rest with
        | nil =>
            -- the token shown leads on, but it has been taken before
            have ended : (consume : Read μ σ (Option Token)).perform s = (.ok none, s) := by
              rw [perform_consume, LawfulFeed.consume_nil left]
              rfl
            rw [perform_bind_ok ended]
            exact ⟨true, s, by simp, left, by simp⟩
        | cons c rest =>
            obtain ⟨shown, _⟩ := LawfulFeed.consume_cons left
            rw [shown, stops c rfl] at found
            cases found
  | cons k taken ih =>
      obtain ⟨shown, next, notes, consumed, behind⟩ := LawfulFeed.consume_cons left
      rw [Trie.node?_cons] at node
      obtain ⟨child, found, node⟩ := Option.bind_eq_some_iff.mp node
      have took : (consume : Read μ σ (Option Token)).perform s =
          (.ok (some k), { s with feed := next, journal := s.journal.addAll notes }) := by
        rw [perform_consume, consumed]
      unfold descend
      rw [perform_bind_ok (perform_peek s)]
      split
      · rename_i none
        rw [shown, found] at none
        cases none
      · rename_i child' found'
        rw [shown, found] at found'
        cases found'
        rw [perform_bind_ok took]
        obtain ⟨atEnd, after, run, rest, kept⟩ := ih (path ++ [k])
          (s := { s with feed := next, journal := s.journal.addAll notes }) behind node
        exact ⟨atEnd, after, by simpa using run, rest, kept⟩

/-- Tokens are taken as long as they pass. -/
theorem reads_takeWhile {test : Token → Bool} {ts rest : List Token} {fuel : Nat}
    (passes : ∀ t ∈ ts, test t = true) (fails : ∀ t ∈ rest.head?, test t = false)
    (enough : ts.length < fuel) :
    (takeWhile fuel test : Read μ σ (List Token)).Reads ts rest ts := by
  induction ts generalizing fuel with
  | nil =>
      obtain ⟨fuel, rfl⟩ : ∃ k, fuel = k + 1 := ⟨fuel - 1, by omega⟩
      exact (reads_consumeIf_none fails).then_nil (reads_pure _ rest)
  | cons t ts ih =>
      obtain ⟨fuel, rfl⟩ : ∃ k, fuel = k + 1 := ⟨fuel - 1, by omega⟩
      have first := reads_consumeIf (μ := μ) (σ := σ) (passes t List.mem_cons_self) (ts ++ rest)
      have others := ih (fun u mem => passes u (List.mem_cons_of_mem t mem))
        (Nat.lt_of_succ_lt_succ enough)
      exact first.bind (others.map (t :: ·))

end Known

end Read

end Duplex
