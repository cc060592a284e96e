/-
Module: Duplex.Proofs.LineBreaks
Purpose: Line feeds that are swallowed.  An input that takes a line feed along with the carriage return
  before it hands out the text with these pairs squeezed to carriage returns, whatever calls are made.
  Behind the end it still shows the last character of the text itself: where that is a swallowed line
  feed, it comes into view there, and nowhere else.
Main exports: Text.squeezed, Text.getLast?_squeezed, Input.follows, Newline.returns,
  Input.swallowing_replies, Input.swallowed_shown
-/
import Duplex.Proofs.Calls

namespace Duplex

/-! ### Squeezed texts -/

namespace Text

/-- A text with a carriage return in place of each carriage return and line feed. -/
def squeezed : List Char → List Char
  | c :: d :: rest =>
      if c = '\r' ∧ d = '\n' then c :: squeezed rest else c :: squeezed (d :: rest)
  | short => short

theorem squeezed_eq_nil {text : List Char} : squeezed text = [] ↔ text = [] := by
  unfold squeezed
  split
  · split <;> simp
  · rfl

/-- Squeezing keeps the last character, unless that is a line feed that is swallowed. -/
theorem getLast?_squeezed (text : List Char) :
    (squeezed text).getLast? =
      if ['\r', '\n'] <:+ text then some '\r' else text.getLast? := by
  induction text using squeezed.induct with
  | case1 c d rest pair ih =>
      obtain ⟨rfl, rfl⟩ := pair
      rw [squeezed, if_pos ⟨rfl, rfl⟩]
      cases rest with
      | nil => simp [squeezed]
      | cons e rest =>
          have some : squeezed (e :: rest) ≠ [] := by simp [squeezed_eq_nil]
          rw [List.getLast?_cons_of_ne_nil some, ih, List.getLast?_cons_cons, List.getLast?_cons_cons]
          simp [List.suffix_cons_iff]
  | case2 c d rest apart ih =>
      have some : squeezed (d :: rest) ≠ [] := by simp [squeezed_eq_nil]
      have whole : ['\r', '\n'] ≠ c :: d :: rest := by
        rintro same
        simp only [List.cons.injEq] at same
        exact apart ⟨same.1.symm, same.2.1.symm⟩
      rw [squeezed, if_neg apart, List.getLast?_cons_of_ne_nil some, ih, List.getLast?_cons_cons]
      simp only [List.suffix_cons_iff (a := c), whole, false_or]
  | case3 short brief =>
      have none : ¬ ['\r', '\n'] <:+ short := by
        intro ends
        have long := ends.length_le
        obtain _ | ⟨c, _ | ⟨d, rest⟩⟩ := short
        · simp at long
        · simp at long
        · exact brief c d rest rfl
      have same : squeezed short = short := by
        unfold squeezed
        split
        · exact (brief _ _ _ rfl).elim
        · rfl
      rw [same, if_neg none]

end Text

/-! ### Inputs that swallow -/

/-- Lines end with carriage returns, and a line feed behind one belongs to it. -/
def Newline.returns : Newline :=
  { eol := '\r', crlf := true }

namespace Input

section Swallowing

variable {σ : Type} [Feed σ] [LawfulFeed σ] [StickyFeed σ]

/-- Whatever an input swallows, it hands out what it does not swallow, and shows behind the end what
    the feed that it dresses shows there. -/
theorem follows {last : Token} :
    Follows last fun ahead (s : Input σ) => remaining s = ahead ∧ ∃ raw, Stands last raw s.feed where
  peek {ahead s} standing := by
    obtain ⟨left, raw, stands⟩ := standing
    cases ahead with
    | nil =>
        have ended : remaining s.feed = [] := unswallowed_eq_nil.mp left
        exact stands.sticks (stands.left.symm.trans ended)
    | cons t ahead => exact (LawfulFeed.consume_cons left).1
  atEnd {ahead s} standing := by rw [LawfulFeed.atEnd_eq, standing.1]
  token {ahead s} standing := by
    cases ahead with
    | nil => rw [LawfulFeed.consume_nil standing.1]; rfl
    | cons t ahead =>
        obtain ⟨_, next, notes, took, _⟩ := LawfulFeed.consume_cons standing.1
        rw [took]; rfl
  behind {ahead s} standing := by
    obtain ⟨left, raw, stands⟩ := standing
    constructor
    · cases ahead with
      | nil =>
          rw [LawfulFeed.consume_nil left]
          exact left
      | cons t ahead =>
          obtain ⟨_, next, notes, took, behind⟩ := LawfulFeed.consume_cons left
          rw [took]
          exact behind
    · -- behind the token perhaps another one is taken from the feed that is dressed
      have first := Stands.follows.behind stands
      obtain ⟨_, ⟨feed, _⟩ | ⟨feed, _⟩⟩ := s.consume_cases
      · exact ⟨_, feed ▸ first⟩
      · exact ⟨_, feed ▸ Stands.follows.behind first⟩

theorem unhalted {ahead : List Token} {s : Input σ} (left : remaining s = ahead) :
    (Feed.consume s).halt = none := by
  cases ahead with
  | nil => rw [LawfulFeed.consume_nil left]
  | cons t ahead =>
      obtain ⟨_, next, notes, took, _⟩ := LawfulFeed.consume_cons left
      rw [took]

omit [StickyFeed σ] in
/-- An input stands at the start of a feed that has tokens left. -/
theorem stands_of_remaining {tokens : List Token} {last : Token} {s : Input σ}
    (left : remaining s.feed = tokens) (ends : tokens.getLast? = some last) :
    Stands last tokens s.feed := by
  refine ⟨left, ?_, ?_⟩
  · intro t mem
    exact Option.some.inj (mem.symm.trans ends)
  · rintro rfl
    cases ends

/-- Whatever an input has yet to hand out, the feed that it dresses stands somewhere. -/
theorem exists_stands {s : Input σ} (ne : remaining s ≠ []) :
    ∃ last raw, Stands last raw s.feed := by
  have some : remaining s.feed ≠ [] := fun none => ne (unswallowed_eq_nil.mpr none)
  exact ⟨_, _, stands_of_remaining rfl (List.getLast?_eq_some_getLast some)⟩

omit [Feed σ] [LawfulFeed σ] [StickyFeed σ] in
theorem swallows_returns {s : Input σ} (breaks : s.tracker.map Tracker.newline = some .returns)
    (c d : Char) : s.swallows (.char c) (.char d) = decide (c = '\r' ∧ d = '\n') := by
  obtain ⟨k, tracked, returns⟩ := Option.map_eq_some_iff.mp breaks
  unfold swallows
  rw [tracked]
  show k.swallows (.char c) (.char d) = _
  rw [Tracker.swallows, returns, Bool.eq_iff_iff]
  simp [Newline.returns]

theorem remaining_of_returns {s : Input σ} {text : List Char}
    (breaks : s.tracker.map Tracker.newline = some .returns)
    (left : remaining s.feed = text.map .char) : remaining s = (Text.squeezed text).map .char := by
  show unswallowed s.swallows (remaining s.feed) = _
  rw [left]
  clear left
  induction text using Text.squeezed.induct with
  | case1 c d rest pair ih =>
      rw [List.map_cons, List.map_cons, unswallowed, swallows_returns breaks, Text.squeezed,
        decide_eq_true pair, if_pos rfl, if_pos pair, ih, List.map_cons]
  | case2 c d rest apart ih =>
      rw [List.map_cons, List.map_cons, unswallowed, swallows_returns breaks, Text.squeezed,
        decide_eq_false apart, if_neg Bool.false_ne_true, if_neg apart, List.map_cons, ← ih]
      rfl
  | case3 short brief =>
      obtain _ | ⟨c, _ | ⟨d, rest⟩⟩ := short
      · rfl
      · rfl
      · exact (brief c d rest rfl).elim

theorem remaining_of_plain {s : Input σ} (plain : s.tracker.map Tracker.newline = some {}) :
    remaining s = remaining s.feed := by
  obtain ⟨k, tracked, usual⟩ := Option.map_eq_some_iff.mp plain
  refine unswallowed_of_never ?_ _
  intro t u
  unfold swallows
  rw [tracked]
  show k.swallows t u = false
  rw [Tracker.swallows, usual]
  rfl

end Swallowing

/-- Swallowed line feeds are invisible up to the end.  Two inputs, one that swallows line feeds behind
    carriage returns, over a text that is not empty, and one with the usual line ends over the
    squeezed text, hand out the same tokens, are at the end at the same time and show the same until
    then.  Both reply to calls as the squeezed text has it, and behind the end each shows the last
    character of its own text; so they cannot be told apart unless a pair ends the text.  There the
    one shows the line feed that it swallowed, and the other the carriage return. -/
theorem swallowing_replies {σ ρ : Type} [Feed σ] [LawfulFeed σ] [StickyFeed σ] [Feed ρ]
    [LawfulFeed ρ] [StickyFeed ρ] {text : List Char} (nonempty : text ≠ []) {s : Input σ}
    {p : Input ρ} (breaks : s.tracker.map Tracker.newline = some .returns)
    (left : remaining s.feed = text.map .char) (plain : p.tracker.map Tracker.newline = some {})
    (squeezed : remaining p.feed = (Text.squeezed text).map .char) :
    let tokens : List Token := (Text.squeezed text).map .char
    let last := text.getLast nonempty
    let kept := if ['\r', '\n'] <:+ text then '\r' else last
    (∀ n, (Feed.consume (Feed.advance n s)).token = (Feed.consume (Feed.advance n p)).token ∧
      Feed.atEnd (Feed.advance n s) = Feed.atEnd (Feed.advance n p) ∧
      (n < tokens.length → Feed.peek (Feed.advance n s) = Feed.peek (Feed.advance n p)) ∧
      (tokens.length ≤ n → Feed.peek (Feed.advance n s) = .char last ∧
        Feed.peek (Feed.advance n p) = .char kept)) ∧
    (∀ {μ : Type} (m : μ) (calls : List Call) {fuel : Nat}, tokens.length < fuel →
      ((Call.askAll fuel calls).perform { feed := s, memory := m }).1 =
        .ok (Call.replies (.char last) tokens calls) ∧
      ((Call.askAll fuel calls).perform { feed := p, memory := m }).1 =
        .ok (Call.replies (.char kept) tokens calls)) ∧
    (['\r', '\n'] <:+ text → last = '\n' ∧ kept = '\r') ∧
    (¬ ['\r', '\n'] <:+ text → ∀ {μ : Type} (m : μ) (calls : List Call) {fuel : Nat},
      tokens.length < fuel →
      ((Call.askAll fuel calls).perform { feed := s, memory := m }).1 =
        ((Call.askAll fuel calls).perform { feed := p, memory := m }).1) := by
  intro tokens last kept
  have lastOf : text.getLast? = some last := List.getLast?_eq_some_getLast nonempty
  have keptOf : (Text.squeezed text).getLast? = some kept := by
    rw [Text.getLast?_squeezed, lastOf]
    show _ = some (if ['\r', '\n'] <:+ text then '\r' else last)
    split <;> rfl
  have ahead : remaining s = tokens ∧ ∃ raw, Stands (.char last) raw s.feed :=
    ⟨remaining_of_returns breaks left, _,
      stands_of_remaining left (by rw [List.getLast?_map, lastOf, Option.map_some])⟩
  have aheadPlain : remaining p = tokens ∧ ∃ raw, Stands (.char kept) raw p.feed :=
    ⟨(remaining_of_plain plain).trans squeezed, _,
      stands_of_remaining squeezed (by rw [List.getLast?_map, keptOf, Option.map_some])⟩
  have replies {μ : Type} (m : μ) (calls : List Call) {fuel : Nat} (enough : tokens.length < fuel) :
      ((Call.askAll fuel calls).perform { feed := s, memory := m }).1 =
        .ok (Call.replies (.char last) tokens calls) ∧
      ((Call.askAll fuel calls).perform { feed := p, memory := m }).1 =
        .ok (Call.replies (.char kept) tokens calls) :=
    ⟨Call.askAll_follows follows (fun standing => unhalted standing.1) calls
        (s := { feed := s, memory := m }) ahead enough,
      Call.askAll_follows follows (fun standing => unhalted standing.1) calls
        (s := { feed := p, memory := m }) aheadPlain enough⟩
  refine ⟨?_, replies, ?_, ?_⟩
  · intro n
    rw [follows.token_advance ahead, follows.token_advance aheadPlain, follows.atEnd_advance ahead,
      follows.atEnd_advance aheadPlain, follows.peek_advance ahead, follows.peek_advance aheadPlain]
    refine ⟨rfl, rfl, ?_, ?_⟩
    · intro inside
      rw [List.getElem?_eq_getElem inside]
      rfl
    · intro short
      rw [List.getElem?_eq_none short]
      exact ⟨rfl, rfl⟩
  · intro ends
    refine ⟨?_, if_pos ends⟩
    obtain ⟨front, rfl⟩ := ends
    show (front ++ ['\r', '\n']).getLast nonempty = '\n'
    simp
  · intro apart μ m calls fuel enough
    obtain ⟨swallowing, usual⟩ := replies m calls enough
    have same : kept = last := if_neg apart
    rw [swallowing, usual, same]

/-- A run of carriage returns and line feeds, of which only the pair in the middle is squeezed: with a
    letter behind the run, the inputs reply the same. -/
theorem swallowing_replies_run :
    let s : Input Slice :=
      .ofFeed ⟨#[.char '\r', .char '\r', .char '\n', .char '\n', .char 'b'], 0, by decide⟩
        (some (.start "t" .returns))
    let p : Input Slice :=
      .ofFeed ⟨#[.char '\r', .char '\r', .char '\n', .char 'b'], 0, by decide⟩
        (some (.start "t" {}))
    let calls : List Call := [.consume, .consume, .peek, .consume, .peek, .collectAll, .atEnd, .peek]
    ((Call.askAll 6 calls).perform { feed := s, memory := () }).1 =
      ((Call.askAll 6 calls).perform { feed := p, memory := () }).1 := by
  intro s p calls
  obtain ⟨_, _, _, same⟩ :=
    @swallowing_replies _ _ _ _ _ _ _ _ ['\r', '\r', '\n', '\n', 'b'] (by decide) s p rfl rfl rfl
      (by decide)
  exact same (by decide) () calls (by decide)

/-- Behind the end of a text that ends in a pair the swallowed line feed is shown. -/
theorem swallowed_shown :
    let s : Input Slice :=
      .ofFeed ⟨#[.char 'a', .char '\r', .char '\n'], 0, by decide⟩ (some (.start "t" .returns))
    let p : Input Slice :=
      .ofFeed ⟨#[.char 'a', .char '\r'], 0, by decide⟩ (some (.start "t" {}))
    let calls : List Call := [.consume, .consume, .atEnd, .peek]
    let taken : List Reply :=
      [.taken (some (.char 'a')), .taken (some (.char '\r')), .truth true]
    ((Call.askAll 4 calls).perform { feed := s, memory := () }).1 =
        .ok (taken ++ [.shown (.char '\n')]) ∧
      ((Call.askAll 4 calls).perform { feed := p, memory := () }).1 =
        .ok (taken ++ [.shown (.char '\r')]) :=
  ⟨rfl, rfl⟩

end Input

end Duplex
