/-
Module: Duplex.Proofs.Places
Purpose: Places in a text.  The place that an input tells depends on the text and on how many of its
  characters were taken, and on nothing else: not on the calls that took them, and not on what was
  shown ahead of them.  `Newline.lineAt` and `Newline.columnAt` say which line and column that are,
  by looking at the text from the outside.
Main exports: Newline.PairAt, Newline.BreakAt, Newline.lineAt, Newline.columnAt, Location.Marks,
  Tracker.marks_after, Input.location_of_taken
-/
import Duplex.Proofs.Cursor

namespace Duplex

/-! ### Lines and columns of a text -/

namespace Newline

variable (n : Newline) (text : List Char)

/-- At `i` stand a carriage return and a line feed that are one line break together. -/
def PairAt (i : Nat) : Prop :=
  n.crlf = true ∧ text[i]? = some '\r' ∧ text[i + 1]? = some '\n'

/-- At `i` stands the last character of a line break: one that ends lines on its own, or the line feed
    of a pair. -/
def BreakAt (i : Nat) : Prop :=
  (text[i]? = some n.eol ∧ ¬ n.PairAt text i) ∨ (0 < i ∧ n.PairAt text (i - 1))

instance (i : Nat) : Decidable (n.PairAt text i) :=
  inferInstanceAs (Decidable (_ ∧ _ ∧ _))

instance (i : Nat) : Decidable (n.BreakAt text i) :=
  inferInstanceAs (Decidable ((_ ∧ _) ∨ (_ ∧ _)))

/-- The line that is reached when `taken` characters were taken: the first one, and one more for each
    line break among them. -/
def lineAt (taken : Nat) : Nat :=
  1 + (List.range taken).countP fun i => n.BreakAt text i

/-- The column that is reached when `taken` characters were taken: how many of them stand behind the
    last line break, not counting the carriage return of a pair. -/
def columnAt (taken : Nat) : Nat :=
  (List.range taken).countP fun j =>
    ¬ n.PairAt text j ∧ ∀ i < taken, j ≤ i → ¬ n.BreakAt text i

theorem lineAt_succ (taken : Nat) :
    n.lineAt text (taken + 1) = n.lineAt text taken + if n.BreakAt text taken then 1 else 0 := by
  unfold lineAt
  rw [List.range_succ, List.countP_append, List.countP_singleton, Nat.add_assoc]
  simp only [decide_eq_true_eq]

/-- Behind a line break no column counts. -/
theorem columnAt_succ_of_break {taken : Nat} (breaks : n.BreakAt text taken) :
    n.columnAt text (taken + 1) = 0 := by
  unfold columnAt
  rw [List.countP_eq_zero]
  intro j mem
  have bound : j ≤ taken := Nat.le_of_lt_succ (List.mem_range.mp mem)
  simp only [decide_eq_true_eq, not_and]
  intro _ clear
  exact clear taken (Nat.lt_succ_self taken) bound breaks

theorem columnAt_succ {taken : Nat} (goesOn : ¬ n.BreakAt text taken) :
    n.columnAt text (taken + 1) = n.columnAt text taken + if n.PairAt text taken then 0 else 1 := by
  -- a line that goes on past `taken` has the same line breaks before it
  have same : ∀ j, (∀ i < taken + 1, j ≤ i → ¬ n.BreakAt text i) ↔
      ∀ i < taken, j ≤ i → ¬ n.BreakAt text i := by
    intro j
    constructor
    · intro clear i lt
      exact clear i (Nat.lt_succ_of_lt lt)
    · intro clear i lt le
      rcases Nat.lt_succ_iff_lt_or_eq.mp lt with lt | rfl
      · exact clear i lt le
      · exact goesOn
  have last : ∀ i < taken, taken ≤ i → ¬ n.BreakAt text i := by
    intro i lt le
    omega
  unfold columnAt
  simp only [same]
  rw [List.range_succ, List.countP_append, List.countP_singleton]
  congr 1
  by_cases pair : n.PairAt text taken
  · simp [pair]
  · simpa [pair] using last

end Newline

/-! ### Tracking -/

/-- The location is that of a text with the characters before its position taken.  No pair is taken
    in half where its line feed is swallowed. -/
structure Location.Marks (l : Location) (n : Newline) (text : List Char) : Prop where
  inside : l.position ≤ text.length
  line : l.line = n.lineAt text l.position
  column : l.column = n.columnAt text l.position
  whole : n.eol = '\r' → 0 < l.position → ¬ n.PairAt text (l.position - 1)

theorem Location.marks_start (file : String) (n : Newline) (text : List Char) :
    (Location.start file).Marks n text where
  inside := Nat.zero_le _
  line := rfl
  column := rfl
  whole := by simp [Location.start]

namespace Tracker

variable {k : Tracker} {text : List Char} {c d : Char}

/-- How far the tracker moves on with a character, and the one that is swallowed with it. -/
def span (k : Tracker) (item next : Token) : Nat :=
  if k.swallows item next then 2 else 1

theorem after_of_apart (apart : ¬ (k.newline.crlf = true ∧ c = '\r' ∧ d = '\n')) :
    k.after (.char c) (.char d) =
      { k with
        location :=
          (if c = k.newline.eol then k.location.newLine else k.location.nextColumn).advance 1 } := by
  unfold after
  simp [and_assoc, apart]

theorem after_of_pair (crlf : k.newline.crlf = true) :
    k.after (.char '\r') (.char '\n') =
      { k with
        location :=
          (if k.newline.eol = '\r' then (k.location.advance 1).newLine else k.location).advance 1 } := by
  unfold after
  simp [crlf]

/-- The file keeps its name. -/
theorem file_after (item next : Token) : (k.after item next).location.file = k.location.file := by
  unfold after
  dsimp only
  split
  · split <;> rfl
  · split <;> rfl

/-- Outside pairs a character either ends the line or counts in it. -/
theorem marks_after_apart (marks : k.location.Marks k.newline text)
    (usual : k.newline.crlf = true → k.newline.eol = '\r' ∨ k.newline.eol = '\n')
    (here : text[k.location.position]? = some c)
    (noPair : ¬ k.newline.PairAt text k.location.position) :
    (if c = k.newline.eol then k.location.newLine else k.location.nextColumn).advance 1
      |>.Marks k.newline text := by
  obtain ⟨inside, line, column, whole⟩ := marks
  have before : k.location.position < text.length := (List.getElem?_eq_some_iff.mp here).1
  by_cases ends : c = k.newline.eol
  · have breaks : k.newline.BreakAt text k.location.position := .inl ⟨ends ▸ here, noPair⟩
    rw [if_pos ends]
    refine ⟨before, ?_, ?_, fun _ _ => noPair⟩
    · show k.location.line + 1 = k.newline.lineAt text (k.location.position + 1)
      rw [Newline.lineAt_succ, if_pos breaks, line]
    · show 0 = k.newline.columnAt text (k.location.position + 1)
      rw [Newline.columnAt_succ_of_break _ _ breaks]
  · have goesOn : ¬ k.newline.BreakAt text k.location.position := by
      rintro (⟨eol, _⟩ | ⟨pos, crlf, first, second⟩)
      · exact ends (Option.some.inj (here.symm.trans eol))
      · -- a line feed behind its carriage return ends the line, or has been swallowed with it
        rcases usual crlf with eol | eol
        · exact whole eol pos ⟨crlf, first, second⟩
        · rw [Nat.sub_add_cancel pos, here] at second
          exact ends ((Option.some.inj second).trans eol.symm)
    rw [if_neg ends]
    refine ⟨before, ?_, ?_, fun _ _ => noPair⟩
    · show k.location.line = k.newline.lineAt text (k.location.position + 1)
      rw [Newline.lineAt_succ, if_neg goesOn, line, Nat.add_zero]
    · show k.location.column + 1 = k.newline.columnAt text (k.location.position + 1)
      rw [Newline.columnAt_succ _ _ goesOn, if_neg noPair, column]

/-- The carriage return of a pair ends the line together with its line feed, or is passed over. -/
theorem marks_after_pair (marks : k.location.Marks k.newline text)
    (pair : k.newline.PairAt text k.location.position) :
    (if k.newline.eol = '\r' then (k.location.advance 1).newLine else k.location).advance 1
      |>.Marks k.newline text := by
  obtain ⟨inside, line, column, whole⟩ := marks
  obtain ⟨crlf, first, second⟩ := pair
  have before : k.location.position + 1 < text.length := (List.getElem?_eq_some_iff.mp second).1
  -- at the carriage return itself no line ends
  have goesOn : ¬ k.newline.BreakAt text k.location.position := by
    rintro (⟨_, apart⟩ | ⟨pos, _, _, feed⟩)
    · exact apart ⟨crlf, first, second⟩
    · rw [Nat.sub_add_cancel pos, first] at feed
      cases feed
  by_cases returns : k.newline.eol = '\r'
  · have breaks : k.newline.BreakAt text (k.location.position + 1) :=
      .inr ⟨Nat.succ_pos _, crlf, first, second⟩
    rw [if_pos returns]
    refine ⟨before, ?_, ?_, ?_⟩
    · show k.location.line + 1 = k.newline.lineAt text (k.location.position + 1 + 1)
      rw [Newline.lineAt_succ, if_pos breaks, Newline.lineAt_succ, if_neg goesOn, line]
    · show 0 = k.newline.columnAt text (k.location.position + 1 + 1)
      rw [Newline.columnAt_succ_of_break _ _ breaks]
    · rintro - - ⟨_, feed, _⟩
      change text[k.location.position + 1]? = some '\r' at feed
      rw [second] at feed
      cases feed
  · rw [if_neg returns]
    refine ⟨Nat.le_of_lt before, ?_, ?_, fun eol => absurd eol returns⟩
    · show k.location.line = k.newline.lineAt text (k.location.position + 1)
      rw [Newline.lineAt_succ, if_neg goesOn, line, Nat.add_zero]
    · show k.location.column = k.newline.columnAt text (k.location.position + 1)
      rw [Newline.columnAt_succ _ _ goesOn, if_pos ⟨crlf, first, second⟩, column, Nat.add_zero]

/-- A step keeps the location that of the text.  Behind the last character this character itself is
    still shown. -/
theorem marks_after (marks : k.location.Marks k.newline text)
    (usual : k.newline.crlf = true → k.newline.eol = '\r' ∨ k.newline.eol = '\n')
    (here : text[k.location.position]? = some c)
    (shown : d = (text[k.location.position + 1]?).getD c) :
    (k.after (.char c) (.char d)).location.Marks k.newline text ∧
      (k.after (.char c) (.char d)).location.position =
        k.location.position + k.span (.char c) (.char d) := by
  by_cases pair : k.newline.PairAt text k.location.position
  · have both := pair
    obtain ⟨crlf, first, second⟩ := both
    obtain rfl : c = '\r' := Option.some.inj (here.symm.trans first)
    rw [second, Option.getD_some] at shown
    subst shown
    rw [after_of_pair crlf]
    refine ⟨marks_after_pair marks pair, ?_⟩
    by_cases returns : k.newline.eol = '\r' <;>
      simp [span, swallows, crlf, returns, Location.advance, Location.newLine]
  · have apart : ¬ (k.newline.crlf = true ∧ c = '\r' ∧ d = '\n') := by
      rintro ⟨crlf, rfl, rfl⟩
      cases ahead : text[k.location.position + 1]? with
      | none => simp [ahead] at shown
      | some u =>
          rw [ahead, Option.getD_some] at shown
          exact pair ⟨crlf, here, by rw [ahead, shown]⟩
    have single : k.span (.char c) (.char d) = 1 := by
      simp only [span, swallows, Bool.and_eq_true, beq_iff_eq, Token.char.injEq, ite_eq_right_iff]
      rintro ⟨⟨⟨crlf, first⟩, second⟩, _⟩
      exact absurd ⟨crlf, first, second⟩ apart
    rw [after_of_apart apart, single]
    refine ⟨marks_after_apart marks usual here pair, ?_⟩
    by_cases ends : c = k.newline.eol <;>
      simp [ends, Location.advance, Location.newLine, Location.nextColumn]

end Tracker

/-! ### Inputs -/

namespace Input

variable {σ : Type} [Feed σ] [LawfulFeed σ] [StickyFeed σ] {n : Newline} {text : List Char}
  {file : String}

/-- What taking a token does to the tracker and to the feed that is dressed.  Behind the token the next
    one is shown, or at the end the token itself. -/
theorem consume_tracked {s : Input σ} {k : Tracker} {t : Token} {rest : List Token}
    (tracked : s.tracker = some k) (left : remaining s.feed = t :: rest) :
    (Feed.consume s).feed.tracker = some (k.after t (rest.headD t)) ∧
      remaining (Feed.consume s).feed.feed = (t :: rest).drop (k.span t (rest.headD t)) := by
  obtain ⟨_, next, notes, taken, behind⟩ := LawfulFeed.consume_cons left
  have peeked : Feed.peek next = rest.headD t := by
    cases rest with
    | nil =>
        have last := StickyFeed.peek_last left
        rwa [taken] at last
    | cons u rest => exact (LawfulFeed.consume_cons behind).1
  have same : s.swallows t (rest.headD t) = k.swallows t (rest.headD t) := by
    rw [swallows, tracked]
    rfl
  rw [Tracker.span, ← same]
  cases swallowed : s.swallows t (rest.headD t) with
  | false =>
      obtain ⟨notes, took⟩ := consume_of_taken taken (by rw [peeked, swallowed])
      rw [took]
      exact ⟨by rw [tracked, peeked]; rfl, behind⟩
  | true =>
      cases rest with
      | nil => cases (s.not_swallows_self t).symm.trans swallowed
      | cons u rest =>
          obtain ⟨_, last, more, along, behindNext⟩ := LawfulFeed.consume_cons behind
          obtain ⟨notes, took⟩ := consume_of_swallowed taken (by rw [peeked, swallowed]) along
          rw [took]
          exact ⟨by rw [tracked, peeked]; rfl, behindNext⟩

/-- The input has taken the beginning of a text, and its tracker marks the place there. -/
def KeepsPlace (s : Input σ) (file : String) (n : Newline) (text : List Char) : Prop :=
  ∃ k : Tracker, s.tracker = some k ∧ k.newline = n ∧ k.location.file = file ∧
    k.location.Marks n text ∧ remaining s.feed = (text.drop k.location.position).map .char

omit [StickyFeed σ] in
theorem keepsPlace_start {s : Input σ} (tracked : s.tracker = some (.start file n))
    (left : remaining s.feed = text.map .char) : s.KeepsPlace file n text :=
  ⟨.start file n, tracked, rfl, rfl, Location.marks_start file n text, left⟩

/-- Taking a token keeps the place, whether a line feed is swallowed or none. -/
theorem KeepsPlace.consume (usual : n.crlf = true → n.eol = '\r' ∨ n.eol = '\n') {s : Input σ}
    (keeps : s.KeepsPlace file n text) : (Feed.consume s).feed.KeepsPlace file n text := by
  obtain ⟨k, tracked, rfl, named, marks, left⟩ := keeps
  cases ahead : text.drop k.location.position with
  | nil =>
      have ended : remaining s = [] := by
        rw [ahead] at left
        exact unswallowed_eq_nil.mpr left
      rw [LawfulFeed.consume_nil ended]
      exact ⟨k, tracked, rfl, named, marks, left⟩
  | cons c rest =>
      have here : text[k.location.position]? = some c := by
        rw [← List.head?_drop, ahead, List.head?_cons]
      have behind : text[k.location.position + 1]? = rest.head? := by
        rw [← List.head?_drop, ← List.drop_drop, ahead, List.drop_one, List.tail_cons]
      have shown : (rest.map Token.char).headD (.char c) = .char (rest.head?.getD c) := by
        cases rest <;> rfl
      obtain ⟨after, taken⟩ := consume_tracked tracked (left.trans (by rw [ahead]; rfl))
      obtain ⟨marks, moved⟩ := Tracker.marks_after (d := rest.head?.getD c) marks usual here
        (by rw [behind])
      rw [shown] at after taken
      refine ⟨_, after, rfl, (Tracker.file_after _ _).trans named, marks, ?_⟩
      rw [taken, moved, ← List.drop_drop, ahead, ← List.map_cons, List.map_drop]

/-- However many tokens are taken from an input of a text, its place is exact.  The position counts the
    characters taken from the feed that it dresses, with those that were swallowed; the line and the
    column are those of the text there. -/
theorem location_of_taken (usual : n.crlf = true → n.eol = '\r' ∨ n.eol = '\n') {s : Input σ}
    (tracked : s.tracker = some (.start file n)) (left : remaining s.feed = text.map .char)
    (calls : Nat) :
    ∃ l, Feed.location (Feed.advance calls s) = some l ∧ l.file = file ∧
      l.position ≤ text.length ∧
      remaining (Feed.advance calls s).feed = (text.drop l.position).map .char ∧
      l.line = n.lineAt text l.position ∧ l.column = n.columnAt text l.position := by
  have keeps : (Feed.advance calls s).KeepsPlace file n text := by
    have start := keepsPlace_start tracked left
    clear tracked left
    induction calls generalizing s with
    | zero => exact start
    | succ calls ih => exact ih (start.consume usual)
  obtain ⟨k, tracked, _, named, marks, left⟩ := keeps
  exact ⟨k.location, congrArg (Option.map Tracker.location) tracked, named, marks.inside, left,
    marks.line, marks.column⟩

/-- Four tokens of a text whose lines end with carriage returns: the line feed behind the first of these
    is swallowed, and counts in the position only; the second one ends a line on its own. -/
theorem location_of_taken_returns :
    let n : Newline := { eol := '\r', crlf := true }
    let text := ['a', '\r', '\n', '\r', 'b', '\n']
    let s : Input Slice :=
      .ofFeed ⟨#[.char 'a', .char '\r', .char '\n', .char '\r', .char 'b', .char '\n'], 0, by decide⟩
        (some (.start "t" n))
    Feed.location (Feed.advance 4 s) = some ⟨"t", 3, 1, 5⟩ ∧
      n.lineAt text 5 = 3 ∧ n.columnAt text 5 = 1 := by
  intro n text s
  have place : Feed.location (Feed.advance 4 s) = some ⟨"t", 3, 1, 5⟩ := by decide +kernel
  obtain ⟨l, told, _, _, _, line, column⟩ :=
    location_of_taken (by decide) (show s.tracker = some (.start "t" n) from rfl)
      (show remaining s.feed = text.map .char from rfl) 4
  obtain rfl : l = ⟨"t", 3, 1, 5⟩ := Option.some.inj (told.symm.trans place)
  exact ⟨place, line.symm, column.symm⟩

end Input

end Duplex
