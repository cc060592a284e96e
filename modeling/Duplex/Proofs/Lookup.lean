/-
Module: Duplex.Proofs.Lookup
Purpose: Tokens looked up among entries, and back.  Of several entries for one token the last one
  counts in reading, of several entries for one value the first one in writing.  So what is written for
  a value is read as that value again, unless its token was listed once more with another one.
Main exports: Pattern.mapped, Pattern.mapped_of_read, Pattern.lookup_comesTo, Pattern.lookup_gives,
  Pattern.ShownBy, Pattern.lookup_shows_first
-/
import Duplex.Proofs.Bounds
import Duplex.Proofs.Equality

namespace Duplex

/-- The last entry of a key stands before none of that key. -/
theorem lookup_reverse_eq_some_iff {α β : Type} [BEq α] [LawfulBEq α] {l : List (α × β)} {a : α}
    {b : β} :
    l.reverse.lookup a = some b ↔
      ∃ before behind, l = before ++ (a, b) :: behind ∧ ∀ e ∈ behind, e.1 ≠ a := by
  rw [List.lookup_eq_some_iff]
  constructor
  · rintro ⟨latest, earlier, split, others⟩
    refine ⟨earlier.reverse, latest.reverse, ?_, ?_⟩
    · rw [← List.reverse_inj, split]
      simp
    · intro e mem
      exact Ne.symm (bne_iff_ne.mp (others e (List.mem_reverse.mp mem)))
  · rintro ⟨before, behind, rfl, others⟩
    refine ⟨behind.reverse, before.reverse, by simp, ?_⟩
    intro e mem
    exact bne_iff_ne.mpr (Ne.symm (others e (List.mem_reverse.mp mem)))

namespace Pattern

variable {entries : List (Token × Value)} {k : Token} {v w : Value}

/-! ### Tokens to values -/

/-- What a token is looked up to: the value it is listed with last. -/
def mapped (entries : List (Token × Value)) (k : Token) : Option Value :=
  entries.reverse.lookup k

theorem mem_of_mapped (value : mapped entries k = some v) : (k, v) ∈ entries := by
  obtain ⟨before, behind, rfl, _⟩ := lookup_reverse_eq_some_iff.mp value
  simp

/-- A token that is listed is looked up to what it is listed with there or further behind. -/
theorem mapped_of_split (before behind : List (Token × Value)) :
    ∃ u, mapped (before ++ (k, w) :: behind) k = some u ∧ (u = w ∨ (k, u) ∈ behind) := by
  have value : mapped (before ++ (k, w) :: behind) k = (mapped behind k).or (some w) := by
    rw [mapped, List.reverse_append, List.reverse_cons, List.append_assoc, List.lookup_append,
      List.singleton_append, List.lookup_cons_self]
    rfl
  cases later : mapped behind k with
  | none => exact ⟨w, by rw [value, later]; rfl, .inl rfl⟩
  | some u => exact ⟨u, by rw [value, later]; rfl, .inr (mem_of_mapped later)⟩

/-! ### Reading and writing -/

section Reading

variable {σ : Type} [Feed σ] {absent : Option Recovery} {fuel : Nat} {s t : Session Memory σ}

/-- Without a recovery, what is read is what the current token is looked up to. -/
theorem mapped_of_read
    (read : ((Pattern.lookup entries none).read (fuel + 1)).perform s = (.ok (some v), t)) :
    mapped entries (Feed.peek s.feed) = some v := by
  change (Read.lookupToken entries none).perform s = _ at read
  rw [Read.lookupToken, Read.perform_bind_ok (Read.perform_peek s)] at read
  unfold mapped
  split at read
  · rename_i u value
    rw [Read.perform_bind] at read
    split at read
    · rename_i gone _ _
      cases gone with
      | true => simp at read
      | false =>
          obtain ⟨rfl, _⟩ : u = v ∧ _ = t := by simpa using read
          exact value
    · simp at read
  · simp at read

/-- A token that is listed is taken, and gives its value. -/
theorem lookup_comesTo {last : Token} {P : List Token → σ → Prop} (follows : Follows last P)
    (unhalted : ∀ {ahead s}, P ahead s → (Feed.consume s).halt = none) {rest : List Token}
    (value : mapped entries k = some v) (holds : P (k :: rest) s.feed) :
    ((Pattern.lookup entries absent).read (fuel + 1)).ComesTo P s (some v) rest := by
  refine (Read.comesTo_peek follows holds).bind fun t left _ => ?_
  rw [List.headD_cons, show entries.reverse.lookup k = some v from value]
  have taken : (Read.noneLeft : Read Memory σ Bool).ComesTo P t false rest :=
    (Read.comesTo_consume follows unhalted left).map Option.isNone
  exact taken.bind fun _ left _ => Read.comesTo_pure left

end Reading

/-- A value is written as the token of the first entry with it. -/
theorem lookup_gives {before behind : List (Token × Value)} (same : (w == v) = true)
    (first : ∀ e ∈ before, (e.2 == v) = false) (absent : Option Recovery) (fuel : Nat) :
    ((Pattern.lookup (before ++ (k, w) :: behind) absent).write (fuel + 1) v).Gives [k] := by
  have found : (before ++ (k, w) :: behind).find? (fun e => e.2 == v) = some (k, w) := by
    rw [List.find?_append, List.find?_eq_none.mpr (by simpa using first), Option.none_or,
      List.find?_cons_of_pos (p := fun e : Token × Value => e.2 == v) same]
  intro d
  rw [Pattern.write, found]
  rfl

/-! ### There and back -/

/-- How entries show a value `v`: the first entry with it stands behind `before` and has the token
    `k`, which is written; and what `k` is looked up to, the value `u`, is read from it again. -/
structure ShownBy (entries before : List (Token × Value)) (k : Token) (w : Value)
    (behind : List (Token × Value)) (v u : Value) : Prop where
  split : entries = before ++ (k, w) :: behind
  same : (w == v) = true
  first : ∀ e ∈ before, (e.2 == v) = false
  value : mapped entries k = some u
  written : ∀ (absent : Option Recovery) (fuel : Nat),
    ((Pattern.lookup entries absent).write (fuel + 1) v).Gives [k]
  readAgain : ∀ {σ : Type} [Feed σ] {last : Token} {P : List Token → σ → Prop}, Follows last P →
    (∀ {ahead s}, P ahead s → (Feed.consume s).halt = none) →
    ∀ (absent : Option Recovery) (fuel : Nat) (s : Session Memory σ) (rest : List Token),
      P (k :: rest) s.feed →
      ((Pattern.lookup entries absent).read (fuel + 1)).ComesTo P s (some u) rest

/-- A value that a token is looked up to is shown by some entry, if it equals itself. -/
theorem exists_shownBy (value : mapped entries k = some v) (self : (v == v) = true) :
    ∃ before first w behind u, ShownBy entries before first w behind v u ∧
      (u = w ∨ (first, u) ∈ behind) := by
  obtain ⟨⟨first, w⟩, found⟩ := Option.isSome_iff_exists.mp
    (List.find?_isSome (p := fun e : Token × Value => e.2 == v).mpr ⟨_, mem_of_mapped value, self⟩)
  obtain ⟨same, before, behind, rfl, others⟩ := List.find?_eq_some_iff_append.mp found
  have others : ∀ e ∈ before, (e.2 == v) = false := by simpa using others
  obtain ⟨u, again, place⟩ := mapped_of_split (k := first) (w := w) before behind
  refine ⟨before, first, w, behind, u, ⟨rfl, same, others, again, lookup_gives same others, ?_⟩, place⟩
  intro σ _ last P follows unhalted absent fuel s rest holds
  exact lookup_comesTo follows unhalted again holds

/-- A lookup shows what it reads.  Whatever value was read by a list of entries, from whatever feed, it
    is written as one token, that of the first entry with it.  This token is read as that value again,
    unless a later entry lists it with another one.  If no token at all is listed with different values,
    it is also the first token, in the order of the entries, that is looked up to the value.  All of
    this is for values that equal themselves. -/
theorem lookup_shows_first {σ : Type} [Feed σ] {fuel : Nat} {s t : Session Memory σ}
    (read : ((Pattern.lookup entries none).read (fuel + 1)).perform s = (.ok (some v), t))
    (self : (v == v) = true) :
    ∃ before first w behind u, ShownBy entries before first w behind v u ∧
      ((∀ e ∈ behind, e.1 = first → (e.2 == v) = true) → (u == v) = true) ∧
      ((∀ e ∈ entries, ∀ f ∈ entries, e.1 = f.1 → (e.2 == f.2) = true) → (u == v) = true ∧
        ∀ e ∈ before, ∀ x, mapped entries e.1 = some x → (x == v) = false) := by
  obtain ⟨before, first, w, behind, u, shows, place⟩ := exists_shownBy (mapped_of_read read) self
  have again : (∀ e ∈ behind, e.1 = first → (e.2 == v) = true) → (u == v) = true := by
    intro kept
    rcases place with rfl | later
    · exact shows.same
    · exact kept _ later rfl
  refine ⟨before, first, w, behind, u, shows, again, ?_⟩
  intro consistent
  have among : ∀ {e}, e ∈ before ∨ e = (first, w) ∨ e ∈ behind → e ∈ entries := by
    intro e place
    rw [shows.split]
    simpa using place
  constructor
  · apply again
    intro e later key
    exact BEq.trans (consistent e (among (.inr (.inr later))) (first, w) (among (.inr (.inl rfl))) key)
      shows.same
  · intro e earlier x value
    by_contra reads
    have agree := consistent e (among (.inl earlier)) (e.1, x) (mem_of_mapped value) rfl
    have shown : (e.2 == v) = true := BEq.trans agree (by simpa using reads)
    rw [shows.first e earlier] at shown
    cases shown

/-- Of three letters two stand for one; the first of them is written, and read again. -/
theorem lookup_shows_first_letter :
    let entries : List (Token × Value) :=
      [(.char 'a', .int 1), (.char 'b', .int 2), (.char 'c', .int 1)]
    let one : Session Memory Pulled := { feed := ⟨[], .char 'c', false⟩, memory := .empty }
    let again : Session Memory Pulled := { feed := ⟨[], .char 'a', false⟩, memory := .empty }
    (((Pattern.lookup entries none).read 1).perform one).1 = .ok (some (.int 1)) ∧
      ((Pattern.lookup entries none).write 1 (.int 1)).Gives [.char 'a'] ∧
      ∃ u, (u == .int 1) = true ∧
        ((Pattern.lookup entries none).read 1).ComesTo (Stands (.char 'a')) again (some u) [] := by
  intro entries one again
  obtain ⟨t, read⟩ : ∃ t, ((Pattern.lookup entries none).read 1).perform one =
      (.ok (some (.int 1)), t) := ⟨_, rfl⟩
  have consistent : ∀ e ∈ entries, ∀ f ∈ entries, e.1 = f.1 → (e.2 == f.2) = true := by decide
  obtain ⟨before, first, w, behind, u, shows, _, same⟩ :=
    lookup_shows_first (v := .int 1) read (by decide)
  obtain ⟨back, _⟩ := same consistent
  cases before with
  | nil =>
      obtain rfl : Token.char 'a' = first := congrArg Prod.fst (List.cons.inj shows.split).1
      have stands : Stands (.char 'a') [.char 'a'] again.feed := ⟨rfl, by simp, by simp⟩
      exact ⟨by rw [read], shows.written none 0, u, back,
        shows.readAgain Stands.follows Stands.unhalted none 0 again [] stands⟩
  | cons e before =>
      have head : (Token.char 'a', Value.int 1) = e := (List.cons.inj shows.split).1
      have other := shows.first e List.mem_cons_self
      rw [← head] at other
      exact absurd other (by decide)

/-- The first letter is listed twice, and its first value is that of the second letter, too.  That value
    is read from the second letter and written as the first one, which stands for another value by
    now. -/
theorem lookup_shows_stale :
    let entries : List (Token × Value) :=
      [(.char 'a', .int 1), (.char 'a', .int 2), (.char 'b', .int 1)]
    let letter (c : Char) : Session Memory Pulled :=
      { feed := ⟨[], .char c, false⟩, memory := .empty }
    (((Pattern.lookup entries none).read 1).perform (letter 'b')).1 = .ok (some (.int 1)) ∧
      ((Pattern.lookup entries none).write 1 (.int 1)).Gives [.char 'a'] ∧
      (((Pattern.lookup entries none).read 1).perform (letter 'a')).1 = .ok (some (.int 2)) ∧
      (Value.int 2 == .int 1) = false := by
  intro entries letter
  exact ⟨rfl, fun _ => rfl, rfl, by decide⟩

end Pattern

end Duplex
