/-
Module: Duplex.Proofs.Calls
Purpose: All feeds are the same cursor.  A call asks a feed for something, and the reply to it is known
  from the tokens that are left and the last one of all; whatever calls are made one after the other,
  each of the feeds that hold tokens gives these replies.
Main exports: Call, Call.reply, Follows, Call.askAll_follows, Stands, Walks, feeds_walk
-/
import Duplex.Proofs.Conservation
import Mathlib.Data.List.TakeWhile

namespace Duplex

/-! ### Calls and replies -/

/-- What a feed can be asked for. -/
inductive Call where
  | peek
  | consume
  | atEnd
  | consumeIf (test : Token → Bool)
  | takeWhile (test : Token → Bool)
  | noneLeft
  | collectAll

/-- What a call gives. -/
inductive Reply where
  | shown (t : Token)
  | taken (t : Option Token)
  | truth (answer : Bool)
  | run (tokens : List Token)
deriving DecidableEq

namespace Call

section Asking

variable {μ σ : Type} [Feed σ]

/-- Makes a call; a run of tokens is taken in at most `fuel` steps. -/
def ask (fuel : Nat) : Call → Read μ σ Reply
  | peek => return .shown (← Read.peek)
  | consume => return .taken (← Read.consume)
  | atEnd => return .truth (← Read.atEnd)
  | consumeIf test => return .taken (← Read.consumeIf test)
  | takeWhile test => return .run (← Read.takeWhile fuel test)
  | noneLeft => return .truth (← Read.noneLeft)
  | collectAll => return .run (← Read.takeWhile fuel fun _ => true)

/-- Makes calls one after the other. -/
def askAll (fuel : Nat) : List Call → Read μ σ (List Reply)
  | [] => return []
  | call :: calls => return (← call.ask fuel) :: (← askAll fuel calls)

end Asking

/-- The reply to a call where the tokens `ahead` are left, and the tokens that are left then; `last` is
    the last of all tokens, and is shown when none is left. -/
def reply (last : Token) (ahead : List Token) : Call → Reply × List Token
  | peek => (.shown (ahead.headD last), ahead)
  | consume => (.taken ahead.head?, ahead.tail)
  | atEnd => (.truth ahead.isEmpty, ahead)
  | consumeIf test =>
      if test (ahead.headD last) then (.taken ahead.head?, ahead.tail) else (.taken none, ahead)
  | takeWhile test => (.run (ahead.takeWhile test), ahead.dropWhile test)
  | noneLeft => (.truth ahead.isEmpty, ahead.tail)
  | collectAll => (.run ahead, [])

/-- The replies to calls made one after the other. -/
def replies (last : Token) (ahead : List Token) : List Call → List Reply
  | [] => []
  | call :: calls => (call.reply last ahead).1 :: replies last (call.reply last ahead).2 calls

/-- No call gives a token back. -/
theorem length_reply_le (last : Token) (ahead : List Token) (call : Call) :
    (call.reply last ahead).2.length ≤ ahead.length := by
  cases call with
  | peek => exact Nat.le_refl _
  | consume => simp [reply]
  | atEnd => exact Nat.le_refl _
  | consumeIf test =>
      rw [reply]
      split <;> simp
  | takeWhile test => exact (List.dropWhile_sublist test).length_le
  | noneLeft => simp [reply]
  | collectAll => exact Nat.zero_le _

end Call

/-! ### Feeds that hand out a list -/

section Following

variable {σ : Type} [Feed σ]

/-- Wherever `P` holds of tokens and of a feed, the feed shows the first of the tokens, or `last` if
    there is none, and hands that token out; and `P` then holds of the others. -/
structure Follows (last : Token) (P : List Token → σ → Prop) : Prop where
  peek : ∀ {ahead s}, P ahead s → Feed.peek s = ahead.headD last
  atEnd : ∀ {ahead s}, P ahead s → Feed.atEnd s = ahead.isEmpty
  token : ∀ {ahead s}, P ahead s → (Feed.consume s).token = ahead.head?
  behind : ∀ {ahead s}, P ahead s → P ahead.tail (Feed.consume s).feed

namespace Follows

variable {last : Token} {P : List Token → σ → Prop} {ahead : List Token} {s : σ}

theorem advance (follows : Follows last P) (holds : P ahead s) (n : Nat) :
    P (ahead.drop n) (Feed.advance n s) := by
  induction n generalizing s ahead with
  | zero => exact holds
  | succ n ih =>
      have later := ih (follows.behind holds)
      rwa [List.drop_tail] at later

theorem token_advance (follows : Follows last P) (holds : P ahead s) (n : Nat) :
    (Feed.consume (Feed.advance n s)).token = ahead[n]? := by
  rw [follows.token (follows.advance holds n), List.head?_drop]

theorem peek_advance (follows : Follows last P) (holds : P ahead s) (n : Nat) :
    Feed.peek (Feed.advance n s) = ahead[n]?.getD last := by
  rw [follows.peek (follows.advance holds n), List.headD_eq_head?_getD, List.head?_drop]

theorem atEnd_advance (follows : Follows last P) (holds : P ahead s) (n : Nat) :
    Feed.atEnd (Feed.advance n s) = decide (ahead.length ≤ n) := by
  rw [follows.atEnd (follows.advance holds n), Bool.eq_iff_iff, List.isEmpty_iff,
    List.drop_eq_nil_iff, decide_eq_true_iff]

end Follows

end Following

/-! ### Calls to a feed -/

section Calls

variable {μ σ : Type} [Feed σ] {last : Token} {P : List Token → σ → Prop} {ahead : List Token}
  (follows : Follows last P) (unhalted : ∀ {ahead s}, P ahead s → (Feed.consume s).halt = none)

include follows unhalted

theorem Read.consume_follows {s : Session μ σ} (holds : P ahead s.feed) :
    ∃ after, (Read.consume : Read μ σ _).perform s = (.ok ahead.head?, after) ∧
      P ahead.tail after.feed :=
  ⟨_, by rw [Read.perform_consume, unhalted holds, follows.token holds], follows.behind holds⟩

/-- Tokens are taken as long as they pass, and the last one is not taken twice. -/
theorem Read.takeWhile_follows (test : Token → Bool) {fuel : Nat} {s : Session μ σ}
    (holds : P ahead s.feed) (enough : ahead.length < fuel) :
    ∃ after, (Read.takeWhile fuel test : Read μ σ _).perform s =
        (.ok (ahead.takeWhile test), after) ∧
      P (ahead.dropWhile test) after.feed := by
  induction fuel generalizing ahead s with
  | zero => omega
  | succ fuel ih =>
      have shown := follows.peek holds
      obtain ⟨next, took, behind⟩ := Read.consume_follows follows unhalted holds
      rw [Read.takeWhile]
      cases ahead with
      | nil =>
          -- the last token is still shown, but there is none to take
          have none : ∃ after, (Read.consumeIf test : Read μ σ _).perform s = (.ok none, after) ∧
              P [] after.feed := by
            rw [Read.perform_consumeIf]
            split
            · exact ⟨next, took, behind⟩
            · exact ⟨s, rfl, holds⟩
          obtain ⟨after, tried, still⟩ := none
          exact ⟨after, Read.perform_bind_ok tried _, still⟩
      | cons t ahead =>
          rw [List.takeWhile_cons, List.dropWhile_cons]
          cases passes : test t with
          | true =>
              have tried : (Read.consumeIf test : Read μ σ _).perform s = (.ok (some t), next) := by
                rw [Read.perform_consumeIf, shown, List.headD_cons, passes, if_pos rfl, took]
                rfl
              obtain ⟨after, others, standing⟩ := ih behind (Nat.lt_of_succ_lt_succ enough)
              refine ⟨after, ?_, standing⟩
              rw [Read.perform_bind_ok tried, Read.perform_bind_ok others]
              rfl
          | false =>
              have tried : (Read.consumeIf test : Read μ σ _).perform s = (.ok none, s) := by
                rw [Read.perform_consumeIf, shown, List.headD_cons, passes, if_neg (by simp)]
              exact ⟨s, Read.perform_bind_ok tried _, holds⟩

namespace Call

/-- A call is replied to as the tokens ahead have it. -/
theorem ask_follows (call : Call) {fuel : Nat} {s : Session μ σ} (holds : P ahead s.feed)
    (enough : ahead.length < fuel) :
    ∃ after, (call.ask fuel : Read μ σ _).perform s = (.ok (call.reply last ahead).1, after) ∧
      P (call.reply last ahead).2 after.feed := by
  cases call with
  | peek => exact ⟨s, by rw [reply, ← follows.peek holds]; rfl, holds⟩
  | atEnd => exact ⟨s, by rw [reply, ← follows.atEnd holds]; rfl, holds⟩
  | consume =>
      obtain ⟨after, took, behind⟩ := Read.consume_follows follows unhalted holds
      exact ⟨after, Read.perform_bind_ok took _, behind⟩
  | noneLeft =>
      obtain ⟨after, took, behind⟩ := Read.consume_follows follows unhalted holds
      refine ⟨after, ?_, behind⟩
      rw [ask, Read.noneLeft, bind_assoc, Read.perform_bind_ok took]
      cases ahead <;> rfl
  | consumeIf test =>
      rw [reply, ← follows.peek holds]
      by_cases passes : test (Feed.peek s.feed)
      · obtain ⟨after, took, behind⟩ := Read.consume_follows follows unhalted holds
        have tried : (Read.consumeIf test : Read μ σ _).perform s = (.ok ahead.head?, after) := by
          rw [Read.perform_consumeIf, if_pos passes, took]
        rw [if_pos passes]
        exact ⟨after, Read.perform_bind_ok tried _, behind⟩
      · have tried : (Read.consumeIf test : Read μ σ _).perform s = (.ok none, s) := by
          rw [Read.perform_consumeIf, if_neg passes]
        rw [if_neg passes]
        exact ⟨s, Read.perform_bind_ok tried _, holds⟩
  | takeWhile test =>
      obtain ⟨after, took, behind⟩ := Read.takeWhile_follows follows unhalted test holds enough
      exact ⟨after, Read.perform_bind_ok took _, behind⟩
  | collectAll =>
      obtain ⟨after, took, behind⟩ :=
        Read.takeWhile_follows follows unhalted (fun _ => true) holds enough
      have all : ahead.takeWhile (fun _ => true) = ahead :=
        List.takeWhile_eq_self_iff.mpr fun _ _ => rfl
      have none : ahead.dropWhile (fun _ => true) = [] :=
        List.dropWhile_eq_nil_iff.mpr fun _ _ => rfl
      rw [all] at took
      rw [none] at behind
      exact ⟨after, Read.perform_bind_ok took _, behind⟩

/-- So are calls made one after the other. -/
theorem askAll_follows (calls : List Call) {fuel : Nat} {s : Session μ σ} (holds : P ahead s.feed)
    (enough : ahead.length < fuel) :
    ((askAll fuel calls : Read μ σ _).perform s).1 = .ok (replies last ahead calls) := by
  induction calls generalizing s ahead with
  | nil => rfl
  | cons call calls ih =>
      obtain ⟨between, replied, behind⟩ := ask_follows follows unhalted call holds enough
      have others := ih behind ((call.length_reply_le last ahead).trans_lt enough)
      rw [askAll, Read.perform_bind_ok replied, Read.perform_bind]
      generalize run : (askAll fuel calls).perform between = rest at others
      obtain ⟨result, after⟩ := rest
      cases others
      rfl

end Call

end Calls

/-! ### Where a feed stands -/

section Standing

variable {σ : Type} [Feed σ] [LawfulFeed σ]

/-- The feed has the tokens `ahead` left, of tokens that end in `last`; with none left it shows that
    one. -/
structure Stands (last : Token) (ahead : List Token) (s : σ) : Prop where
  left : remaining s = ahead
  ends : ∀ t ∈ ahead.getLast?, t = last
  sticks : ahead = [] → Feed.peek s = last

variable {last : Token} {ahead : List Token} {s : σ}

theorem Stands.peek (stands : Stands last ahead s) : Feed.peek s = ahead.headD last := by
  cases ahead with
  | nil => exact stands.sticks rfl
  | cons t ahead => exact (LawfulFeed.consume_cons stands.left).1

/-- A token is taken, if one is left; the last one is shown on. -/
theorem Stands.consume [StickyFeed σ] (stands : Stands last ahead s) :
    ∃ next notes, Feed.consume s = { token := ahead.head?, feed := next, notes := notes } ∧
      Stands last ahead.tail next := by
  cases ahead with
  | nil => exact ⟨s, [], LawfulFeed.consume_nil stands.left, stands⟩
  | cons t ahead =>
      obtain ⟨_, next, notes, took, left⟩ := LawfulFeed.consume_cons stands.left
      refine ⟨next, notes, took, left, ?_, ?_⟩
      · cases ahead with
        | nil => simp
        | cons u ahead => simpa using stands.ends
      · rintro rfl
        have shown := StickyFeed.peek_last stands.left
        rw [took] at shown
        exact shown.trans (stands.ends t rfl)

theorem Stands.follows [StickyFeed σ] : Follows last (Stands (σ := σ) last) where
  peek stands := stands.peek
  atEnd stands := by rw [LawfulFeed.atEnd_eq, stands.left]
  token stands := by
    obtain ⟨_, _, took, _⟩ := stands.consume
    rw [took]
  behind stands := by
    obtain ⟨_, _, took, behind⟩ := stands.consume
    rwa [took]

theorem Stands.unhalted [StickyFeed σ] (stands : Stands last ahead s) :
    (Feed.consume s).halt = none := by
  obtain ⟨_, _, took, _⟩ := stands.consume
  rw [took]

end Standing

/-! ### All feeds are one cursor -/

section Walking

variable {σ : Type} [Feed σ]

/-- The feed is a cursor over the tokens: it hands them out in order, then nothing, and shows the one
    to be taken next, then the last one for good; it is at the end from the moment the last token was
    taken; and every sequence of calls has the replies that follow from that. -/
structure Walks (tokens : List Token) (nonempty : tokens ≠ []) (s : σ) : Prop where
  token : ∀ n, (Feed.consume (Feed.advance n s)).token = tokens[n]?
  shown : ∀ n, Feed.peek (Feed.advance n s) = tokens[n]?.getD (tokens.getLast nonempty)
  ended : ∀ n, Feed.atEnd (Feed.advance n s) = decide (tokens.length ≤ n)
  replied : ∀ {μ : Type} (m : μ) (calls : List Call) {fuel : Nat}, tokens.length < fuel →
    ((Call.askAll fuel calls).perform { feed := s, memory := m }).1 =
      .ok (Call.replies (tokens.getLast nonempty) tokens calls)

variable [LawfulFeed σ] [StickyFeed σ]

/-- Where a feed stands at first is all there is to know. -/
theorem walks_of_remaining {tokens : List Token} (nonempty : tokens ≠ []) {s : σ}
    (left : remaining s = tokens) : Walks tokens nonempty s := by
  have stands : Stands (tokens.getLast nonempty) tokens s :=
    ⟨left, by simp [List.getLast?_eq_some_getLast nonempty], fun empty => absurd empty nonempty⟩
  exact ⟨Stands.follows.token_advance stands, Stands.follows.peek_advance stands,
    Stands.follows.atEnd_advance stands,
    fun m calls _ enough => Call.askAll_follows Stands.follows Stands.unhalted calls
      (s := { feed := s, memory := m }) stands enough⟩

end Walking

/-- The place that is looked at is always one of the tokens in memory. -/
theorem Slice.peek_inside (s : Slice) :
    s.items[min s.position (s.items.size - 1)]? = some (Feed.peek s) := by
  have inside : min s.position (s.items.size - 1) < s.items.size := by
    have := s.nonempty
    omega
  rw [Array.getElem?_eq_getElem inside]
  rfl

/-- Over tokens of which there is at least one, each of the feeds that hold tokens can be made and is
    the same cursor: tokens in memory, tokens pulled one by one, characters of bytes that are decoded
    without a fault, and a token on its own.  In memory the cursor never looks beside the tokens. -/
theorem feeds_walk (tokens : List Token) (nonempty : tokens ≠ []) :
    (∃ s, Slice.ofList tokens = .ok s ∧ Walks tokens nonempty s ∧
      ∀ n, let here := Feed.advance n s
        here.items[min here.position (here.items.size - 1)]? = some (Feed.peek here)) ∧
    (∃ s, Pulled.ofList tokens = .ok s ∧ Walks tokens nonempty s) ∧
    (∀ (source : Text.ByteSource) (chars : List Char), source.decode = (chars, none) →
      chars.map .char = tokens →
      ∃ s, Characters.ofBytes source = .ok s ∧ Walks tokens nonempty s) ∧
    (∀ t, tokens = [t] → Walks tokens nonempty (Single.of t)) := by
  obtain ⟨t, rest, rfl⟩ := List.exists_cons_of_ne_nil nonempty
  refine ⟨?_, ?_, ?_, ?_⟩
  · obtain ⟨s, made⟩ : ∃ s, Slice.ofList (t :: rest) = .ok s := ⟨_, dif_pos (by simp)⟩
    exact ⟨s, made, walks_of_remaining nonempty (Slice.remaining_ofList made),
      fun n => Slice.peek_inside _⟩
  · exact ⟨_, rfl, walks_of_remaining nonempty (Pulled.remaining_ofList rfl)⟩
  · intro source chars decoded spelled
    obtain ⟨s, made⟩ : ∃ s, Characters.ofBytes source = .ok s := by
      show ∃ s, Characters.ofChars source.decode = .ok s
      rw [decoded]
      cases chars with
      | nil => cases spelled
      | cons c chars => exact ⟨_, rfl⟩
    have left := Characters.remaining_ofBytes made
    rw [decoded, spelled] at left
    exact ⟨s, made, walks_of_remaining nonempty left⟩
  · intro u only
    cases only
    exact walks_of_remaining nonempty rfl

/-- Around the end of two tokens a feed in memory and one that decodes them from two chunks are asked
    the same, and reply the same. -/
theorem feeds_walk_twoTokens :
    let calls : List Call :=
      [.peek, .consume, .consumeIf (· == .char 'x'), .atEnd, .takeWhile fun _ => true, .peek, .atEnd,
        .consume, .noneLeft, .collectAll]
    let replies : List Reply :=
      [.shown (.char 'x'), .taken (some (.char 'x')), .taken none, .truth false, .run [.char 'y'],
        .shown (.char 'y'), .truth true, .taken none, .truth true, .run []]
    (∃ s, Slice.ofList (Token.ofText "xy") = .ok s ∧
      ((Call.askAll 3 calls).perform { feed := s, memory := () }).1 = .ok replies) ∧
    ∃ s, Characters.ofBytes ⟨[[0x78], [0x79]], .finished⟩ = .ok s ∧
      ((Call.askAll 3 calls).perform { feed := s, memory := () }).1 = .ok replies := by
  intro calls replies
  obtain ⟨⟨s, made, walks, _⟩, _, decoding, _⟩ := feeds_walk (Token.ofText "xy") (by decide)
  obtain ⟨t, opened, follows⟩ := decoding ⟨[[0x78], [0x79]], .finished⟩ ['x', 'y'] rfl rfl
  exact ⟨⟨s, made, walks.replied () calls (by decide)⟩,
    ⟨t, opened, follows.replied () calls (by decide)⟩⟩

end Duplex
