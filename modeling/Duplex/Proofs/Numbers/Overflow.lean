/-
Module: Duplex.Proofs.Numbers.Overflow
Purpose: Digits gathered into numbers.  Integers of any size take every digit; a machine integer takes
  them as long as the number they denote has room in it, and refuses the first one with which it has
  none.  The refusal names the number before it, and a repetition that meets it has one error, behind
  that digit.
Main exports: appendDigit?_eq, accept_gathered, Digits.value, Digits.Fits, Digits.IsLongestFit,
  Digits.accept_int, Digits.gathered_exactly
-/
import Duplex.Grammar.Lexical
import Duplex.Proofs.Recovery.Insist
import Duplex.Proofs.Repeating
import Mathlib.Data.Nat.Digits.Defs

namespace Duplex

/-- A digit as item of a fold. -/
def Value.ofDigit (d : UInt32) : Value :=
  .ofCount d.toNat

/-- Counts that a digit can be are kept. -/
theorem digitOf_ofNat {n : Nat} (small : n < UInt32.size) : digitOf (.ofNat n) = n := by
  have kept : (Int64.ofNat n).toInt = n :=
    Int64.toInt_ofNat_of_lt (Nat.lt_trans small (by decide))
  rw [digitOf, kept, ← Int.natCast_mod, Int.toNat_natCast, Nat.mod_eq_of_lt small]

@[simp] theorem digitOf_toNat (d : UInt32) : digitOf (.ofNat d.toNat) = d.toNat :=
  digitOf_ofNat d.toNat_lt_size

theorem Value.digit_ofCount {n : Nat} (small : n < UInt32.size) : (Value.ofCount n).digit = n :=
  digitOf_ofNat small

/-! ### The two checks of a digit -/

theorem machineInt?_of_nonneg {n : Int} (natural : 0 ≤ n) :
    machineInt? n = if n ≤ maxInt then some (Int64.ofInt n) else none := by
  have above : minInt ≤ n := Int.le_trans (by decide) natural
  simp only [machineInt?, above, true_and]

/-- Behind a number that is not negative, a digit can be appended just if there is room for the sum:
    the product never is too large before. -/
theorem appendDigit?_eq {n : Int64} (natural : 0 ≤ n.toInt) (radix d : Nat) :
    appendDigit? radix n d =
      if n.toInt * radix + d ≤ maxInt then some (Int64.ofInt (n.toInt * radix + d)) else none := by
  have product : 0 ≤ n.toInt * radix := Int.mul_nonneg natural (Int.natCast_nonneg radix)
  have grows : n.toInt * radix ≤ n.toInt * radix + d :=
    Int.le_add_of_nonneg_right (Int.natCast_nonneg d)
  rw [appendDigit?, machineInt?_of_nonneg product]
  by_cases room : n.toInt * radix ≤ maxInt
  · have held : (Int64.ofInt (n.toInt * radix)).toInt = n.toInt * radix :=
      Int64.toInt_ofInt_of_le (Int.le_trans (by decide) product)
        (Int.lt_of_le_of_lt room (by decide))
    rw [if_pos room]
    show machineInt? ((Int64.ofInt (n.toInt * radix)).toInt + d) = _
    rw [held, machineInt?_of_nonneg (Int.le_trans product grows)]
  · rw [if_neg room, if_neg fun fits => room (Int.le_trans grows fits)]
    rfl

/-- So one comparison decides whether a digit is accepted. -/
theorem accept_digit {n : Int64} (natural : 0 ≤ n.toInt) (radix : Nat) (d : Int64) :
    Tally.accept (.int radix n) (.int d) =
      if n.toInt * radix + digitOf d ≤ maxInt then
        .ok (.int radix (Int64.ofInt (n.toInt * radix + digitOf d)))
      else .error (.refused (.overflow n)) := by
  rw [Tally.accept, appendDigit?_eq natural]
  by_cases room : n.toInt * radix + digitOf d ≤ maxInt
  · rw [if_pos room, if_pos room]
  · rw [if_neg room, if_neg room]

/-- A digit that is accepted leaves a number that is not negative either. -/
theorem exists_of_accept_int {radix : Nat} {n : Int64} (natural : 0 ≤ n.toInt) {v : Value}
    {next : Tally} (accepts : Tally.accept (.int radix n) v = .ok next) :
    ∃ m, next = .int radix m ∧ 0 ≤ m.toInt := by
  cases v with
  | int d =>
      have sum : 0 ≤ n.toInt * radix + digitOf d :=
        Int.add_nonneg (Int.mul_nonneg natural (Int.natCast_nonneg _)) (Int.natCast_nonneg _)
      rw [accept_digit natural] at accepts
      split at accepts
      · rename_i room
        cases accepts
        refine ⟨_, rfl, ?_⟩
        rwa [Int64.toInt_ofInt_of_le (Int.le_trans (by decide) sum)
          (Int.lt_of_le_of_lt room (by decide))]
      · cases accepts
  | _ => cases accepts

theorem exists_of_foldlM_int {radix : Nat} {n : Int64} (natural : 0 ≤ n.toInt) {items : List Value}
    {final : Tally} (folded : items.foldlM Tally.accept (.int radix n) = .ok final) :
    ∃ m, final = .int radix m ∧ 0 ≤ m.toInt := by
  induction items generalizing n with
  | nil =>
      cases folded
      exact ⟨n, rfl, natural⟩
  | cons v items ih =>
      rw [List.foldlM_cons] at folded
      cases accepts : Tally.accept (.int radix n) v with
      | error stop =>
          rw [accepts] at folded
          cases folded
      | ok next =>
          rw [accepts] at folded
          obtain ⟨m, rfl, natural⟩ := exists_of_accept_int natural accepts
          exact ih natural folded

/-- Whatever was gathered from the start on, one comparison decides. -/
theorem accept_gathered {radix : Nat} {n : Int64} {items : List Value}
    (gathered : items.foldlM Tally.accept (Fold.int radix).start = .ok (.int radix n)) (d : Int64) :
    Tally.accept (.int radix n) (.int d) =
      if n.toInt * radix + digitOf d ≤ maxInt then
        .ok (.int radix (Int64.ofInt (n.toInt * radix + digitOf d)))
      else .error (.refused (.overflow n)) := by
  have start : 0 ≤ (0 : Int64).toInt := Int.le_refl 0
  obtain ⟨m, same, natural⟩ := exists_of_foldlM_int start gathered
  cases same
  exact accept_digit natural radix d

/-- The errors that an input has kept stay, whatever a grammar does to it. -/
theorem Input.invariant_collecting_from {σ : Type} [Feed σ] (before : List ErrorRecord) :
    Feed.Invariant fun (s : Input σ) _ => ∃ own, s.mode = .collect (own ++ before) where
  consume {s _} := fun ⟨own, mode⟩ => ⟨own, by rw [mode_consume, mode]⟩
  report {s _} message := fun ⟨own, mode⟩ => by
    refine ⟨s.record message :: own, ?_⟩
    rw [feed_report, mode]
    rfl
  setState _ collecting := collecting
  note _ collecting := collecting

namespace Digits

variable {radix : Nat} {front ds : List UInt32} {d : UInt32}

/-! ### Numbers of digits -/

/-- The number that digits denote in a positional system, the most significant digit first. -/
def value (radix : Nat) (ds : List UInt32) : Nat :=
  Nat.ofDigits radix (ds.map UInt32.toNat).reverse

@[simp] theorem value_nil (radix : Nat) : value radix [] = 0 :=
  rfl

@[simp] theorem value_concat (radix : Nat) (ds : List UInt32) (d : UInt32) :
    value radix (ds ++ [d]) = value radix ds * radix + d.toNat := by
  rw [value, List.map_append, List.map_singleton, List.reverse_concat, Nat.ofDigits_cons,
    Nat.mul_comm, Nat.add_comm]
  rfl

/-- More digits do not denote less. -/
theorem value_le_append (pos : 0 < radix) (front ds : List UInt32) :
    value radix front ≤ value radix (front ++ ds) := by
  induction ds generalizing front with
  | nil => rw [List.append_nil]
  | cons d ds ih =>
      calc value radix front
        _ ≤ value radix front * radix := Nat.le_mul_of_pos_right _ pos
        _ ≤ value radix front * radix + d.toNat := Nat.le_add_right _ _
        _ = value radix (front ++ [d]) := (value_concat radix front d).symm
        _ ≤ value radix (front ++ [d] ++ ds) := ih (front ++ [d])
        _ = value radix (front ++ d :: ds) := by rw [List.append_assoc, List.singleton_append]

/-- A machine integer has room for the number. -/
def Fits (radix : Nat) (ds : List UInt32) : Prop :=
  (value radix ds : Int) ≤ maxInt

instance (radix : Nat) (ds : List UInt32) : Decidable (Fits radix ds) :=
  inferInstanceAs (Decidable (_ ≤ _))

theorem fits_nil (radix : Nat) : Fits radix [] := by
  show ((0 : Nat) : Int) ≤ maxInt
  decide

theorem Fits.of_append (pos : 0 < radix) (fits : Fits radix (front ++ ds)) : Fits radix front :=
  Int.le_trans (Int.ofNat_le.mpr (value_le_append pos front ds)) fits

/-- The number as machine integer. -/
def held (radix : Nat) (ds : List UInt32) : Int64 :=
  .ofNat (value radix ds)

theorem toInt_held (fits : Fits radix ds) : (held radix ds).toInt = value radix ds := by
  have small : value radix ds < Int64.maxValue.toNatClampNeg + 1 :=
    Nat.lt_succ_of_le (Int.ofNat_le.mp fits)
  exact Int64.toInt_ofNat_of_lt small

/-! ### One digit -/

/-- A machine integer takes a digit as long as the number has room; else it stays as it is. -/
theorem accept_int (fits : Fits radix ds) (d : UInt32) :
    Tally.accept (.int radix (held radix ds)) (.ofDigit d) =
      if Fits radix (ds ++ [d]) then .ok (.int radix (held radix (ds ++ [d])))
      else .error (.refused (.overflow (held radix ds))) := by
  have natural : 0 ≤ (held radix ds).toInt := by
    rw [toInt_held fits]
    exact Int.natCast_nonneg _
  have next : (held radix ds).toInt * (radix : Int) + (d.toNat : Int) = value radix (ds ++ [d]) := by
    rw [toInt_held fits, value_concat]
    push_cast
    rfl
  rw [Value.ofDigit, Value.ofCount, accept_digit natural, digitOf_toNat, next, Int64.ofInt_eq_ofNat]
  rfl

theorem accept_big (radix : Nat) (ds : List UInt32) (d : UInt32) :
    Tally.accept (.big radix (value radix ds)) (.ofDigit d) =
      .ok (.big radix (value radix (ds ++ [d]))) := by
  rw [Value.ofDigit, Value.ofCount, Tally.accept, digitOf_toNat, value_concat]
  push_cast
  rfl

/-! ### All digits -/

theorem foldlM_big (radix : Nat) (front ds : List UInt32) :
    (ds.map Value.ofDigit).foldlM Tally.accept (.big radix (value radix front)) =
      .ok (.big radix (value radix (front ++ ds))) := by
  induction ds generalizing front with
  | nil =>
      rw [List.append_nil]
      rfl
  | cons d ds ih =>
      rw [List.map_cons, List.foldlM_cons, accept_big]
      show (ds.map Value.ofDigit).foldlM Tally.accept (.big radix (value radix (front ++ [d]))) = _
      rw [ih, List.append_assoc, List.singleton_append]

/-- As long as there is room, a machine integer takes every digit. -/
theorem foldlM_int (pos : 0 < radix) (front : List UInt32) (fits : Fits radix (front ++ ds)) :
    (ds.map Value.ofDigit).foldlM Tally.accept (.int radix (held radix front)) =
      .ok (.int radix (held radix (front ++ ds))) := by
  induction ds generalizing front with
  | nil =>
      rw [List.append_nil]
      rfl
  | cons d ds ih =>
      have split : front ++ d :: ds = front ++ [d] ++ ds := by
        rw [List.append_assoc, List.singleton_append]
      rw [split] at fits ⊢
      rw [List.map_cons, List.foldlM_cons, accept_int ((fits.of_append pos).of_append pos),
        if_pos (fits.of_append pos)]
      exact ih (front ++ [d]) fits

/-- Where there is no room for all digits, there is a first one without. -/
theorem exists_first_unfit (unfit : ¬ Fits radix ds) :
    ∃ front d behind, ds = front ++ d :: behind ∧ Fits radix front ∧ ¬ Fits radix (front ++ [d]) := by
  suffices search : ∀ front rest : List UInt32, Fits radix front → ¬ Fits radix (front ++ rest) →
      ∃ more d behind, rest = more ++ d :: behind ∧ Fits radix (front ++ more) ∧
        ¬ Fits radix (front ++ more ++ [d]) by
    exact search [] ds (fits_nil radix) unfit
  intro front rest fits unfit
  induction rest generalizing front with
  | nil =>
      rw [List.append_nil] at unfit
      exact absurd fits unfit
  | cons d rest ih =>
      by_cases room : Fits radix (front ++ [d])
      · rw [← List.singleton_append, ← List.append_assoc] at unfit
        obtain ⟨more, e, behind, rfl, fits, unfit⟩ := ih _ room unfit
        refine ⟨d :: more, e, behind, rfl, ?_, ?_⟩
        · rwa [← List.singleton_append, ← List.append_assoc]
        · rwa [← List.singleton_append, ← List.append_assoc]
      · exact ⟨[], d, rest, rfl, by rwa [List.append_nil], by rwa [List.append_nil]⟩

/-- The longest beginning of some digits that a machine integer has room for. -/
structure IsLongestFit (radix : Nat) (ds front : List UInt32) : Prop where
  begins : front <+: ds
  fits : Fits radix front
  longest : ∀ other, other <+: ds → Fits radix other → other <+: front

/-- Behind the first digit without room, no more digits help. -/
theorem isLongestFit_of_unfit (pos : 0 < radix) (fits : Fits radix front)
    (unfit : ¬ Fits radix (front ++ [d])) (behind : List UInt32) :
    IsLongestFit radix (front ++ d :: behind) front := by
  refine ⟨List.prefix_append _ _, fits, fun other begins fitsOther => ?_⟩
  have closed : ∀ {front whole}, front <+: whole → Fits radix whole → Fits radix front := by
    rintro front _ ⟨more, rfl⟩ fits
    exact fits.of_append pos
  exact prefix_of_unfit closed unfit begins fitsOther

/-- From the start on, a machine integer takes digits as long as there is room. -/
theorem foldlM_start (pos : 0 < radix) (fits : Fits radix ds) :
    (ds.map Value.ofDigit).foldlM Tally.accept (Fold.int radix).start =
      .ok (.int radix (held radix ds)) :=
  foldlM_int pos [] fits

/-- Digits for which there is no room are refused behind the longest beginning for which there is. -/
theorem foldAll_unfit (pos : 0 < radix) (unfit : ¬ Fits radix ds) :
    ∃ front, IsLongestFit radix ds front ∧
      foldAll (.int radix) (ds.map .ofDigit) = .error (.refused (.overflow (held radix front))) := by
  obtain ⟨front, d, behind, rfl, room, refused⟩ := exists_first_unfit unfit
  have refuses : Tally.accept (.int radix (held radix front)) (.ofDigit d) =
      .error (.refused (.overflow (held radix front))) := by
    rw [accept_int room, if_neg refused]
  refine ⟨front, isLongestFit_of_unfit pos room refused behind, foldAll_error ?_⟩
  rw [List.map_append, List.foldlM_append, foldlM_start pos room]
  show ((d :: behind).map Value.ofDigit).foldlM Tally.accept (.int radix (held radix front)) = _
  rw [List.map_cons, List.foldlM_cons, refuses]
  rfl

/-- The refusal names the number before the digit. -/
theorem message_overflow (fits : Fits radix front) :
    (FoldFault.overflow (held radix front)).message =
      "integer overflow after " ++ toString (value radix front) := by
  have printed : ∀ n : Nat, toString (n : Int) = toString n := fun _ => rfl
  have worded : (FoldFault.overflow (held radix front)).message =
      "integer overflow after " ++ toString (held radix front).toInt := rfl
  rw [worded, toInt_held fits, printed]

/-! ### Repeated digits -/

section Repeated

variable {σ : Type} [Feed σ] {item : Pattern} {back : Option Unfold} {bounds : Bounds}
  {skippable : Bool} {fuel : Nat}

/-- A repetition of digits ends at the first one for which there is no room, and all that happens
    behind it is the report. -/
theorem perform_overflow (pos : 0 < radix) {s t : Session Memory σ}
    (repeats : Read.Repeats (item.read fuel) s ((front ++ [d]).map .ofDigit) t)
    (fits : Fits radix front) (unfit : ¬ Fits radix (front ++ [d]))
    (room : front.length < bounds.limit) (enough : front.length < fuel) :
    ((Pattern.repeated ⟨.int radix, back⟩ item bounds skippable).read (fuel + 1)).perform s =
      (Read.report ("integer overflow after " ++ toString (value radix front)) >>=
        fun _ => pure none).perform t := by
  have refuses : Tally.accept (.int radix (held radix front)) (.ofDigit d) =
      .error (.refused (.overflow (held radix front))) := by
    rw [accept_int fits, if_neg unfit]
  have ends :
      (Read.repeated fuel Tally.accept (Fold.int radix).start bounds (item.read fuel)).perform s =
        (Read.report (FoldFault.overflow (held radix front)).message >>=
          fun _ => pure none).perform t := by
    rw [List.map_append] at repeats
    exact repeats.perform_refused (foldlM_start pos fits) refuses (by rwa [List.length_map])
      (by rwa [List.length_map])
  rw [message_overflow fits] at ends
  rw [Pattern.read]
  show (Read.repeated fuel Tally.accept (Fold.int radix).start bounds (item.read fuel) >>=
    fun gathered => pure (gathered.map Tally.finish)).perform s = _
  rw [Read.perform_bind, ends, ← Read.perform_bind, Read.none_bind _ (by rfl)]

/-- Reading items leaves the errors that an input keeps. -/
theorem collecting_of_repeats {s t : Session Memory (Input σ)} {vs : List Value}
    {before : List ErrorRecord} (repeats : Read.Repeats (item.read fuel) s vs t)
    (collecting : ∃ own, s.feed.mode = .collect (own ++ before)) :
    ∃ own, t.feed.mode = .collect (own ++ before) := by
  induction repeats with
  | nothing s => exact collecting
  | more first _ ih =>
      have kept := item.read_keeps (Input.invariant_collecting_from before) fuel collecting
      rw [first] at kept
      exact ih kept

end Repeated

/-- Digits gather exactly.  An integer of any size takes them all, and so does a machine integer that
    has room for the number; otherwise the refusal names the number of the longest beginning that it
    has room for.  A repetition of such digits on an input that keeps errors keeps just this one more,
    gives nothing, and is left directly behind the digit for which there was no room. -/
theorem gathered_exactly (radix : Nat) (pos : 0 < radix) :
    (∀ ds : List UInt32,
      foldAll (.big radix) (ds.map .ofDigit) = .ok (.big (value radix ds)) ∧
      ((value radix ds : Int) ≤ maxInt → ∃ n : Int64, n.toInt = value radix ds ∧
        foldAll (.int radix) (ds.map .ofDigit) = .ok (.int n)) ∧
      (¬ (value radix ds : Int) ≤ maxInt → ∃ front refusal, IsLongestFit radix ds front ∧
        foldAll (.int radix) (ds.map .ofDigit) = .error (.refused refusal) ∧
        refusal.message = "integer overflow after " ++ toString (value radix front))) ∧
    ∀ {σ : Type} [Feed σ] (item : Pattern) (back : Option Unfold) (bounds : Bounds)
      (skippable : Bool) (fuel : Nat) {s t : Session Memory (Input σ)} {before : List ErrorRecord}
      (front : List UInt32) (d : UInt32),
      s.feed.mode = .collect before →
      Read.Repeats (item.read fuel) s ((front ++ [d]).map .ofDigit) t →
      (value radix front : Int) ≤ maxInt → ¬ (value radix (front ++ [d]) : Int) ≤ maxInt →
      front.length < bounds.limit → front.length < fuel →
      ∃ own journal, t.feed.mode = .collect (own ++ before) ∧
        ((Pattern.repeated ⟨.int radix, back⟩ item bounds skippable).read (fuel + 1)).perform s =
          (.ok none, ⟨t.feed.inMode (.collect (t.feed.record
            ("integer overflow after " ++ toString (value radix front)) :: own ++ before)),
            t.memory, journal⟩) := by
  refine ⟨fun ds => ⟨foldAll_ok (f := .big radix) (foldlM_big radix [] ds), fun fits => ?_,
    fun unfit => ?_⟩, ?_⟩
  · exact ⟨held radix ds, toInt_held fits, foldAll_ok (foldlM_start pos fits)⟩
  · obtain ⟨front, longest, refused⟩ := foldAll_unfit pos unfit
    exact ⟨front, _, longest, refused, message_overflow longest.fits⟩
  · intro σ _ item back bounds skippable fuel s t before front d collecting repeats fits unfit room
      enough
    obtain ⟨own, kept⟩ := collecting_of_repeats repeats ⟨[], collecting⟩
    have reported := Read.perform_bind_ok (f := fun _ => pure (none : Option Value))
      (Read.perform_report_collecting kept
        ("integer overflow after " ++ toString (value radix front)))
    exact ⟨own, _, kept, (perform_overflow pos repeats fits unfit room enough).trans reported⟩

/-- A letter as digit, where the last one stands for as much as a digit can. -/
def letter : Pattern :=
  .digitBetween 'a' 'z' 'a' 4294967270

/-- An input of eight letters that keeps errors, where some of them have been taken. -/
def letters (taken : Nat) : Session Memory (Input Pulled) :=
  let text : Pulled := ⟨List.replicate 7 (.char 'z'), .char 'z', false⟩
  { feed := Feed.advance taken (Input.ofFeed text none).collecting
    memory := .empty }

/-- With six of the letters, a machine integer has no room for a seventh.  A repetition keeps an error
    about the number of the six, and leaves the eighth letter. -/
theorem gathered_exactly_letters :
    (∃ n : Int64, n.toInt = value 36 (List.replicate 6 4294967295) ∧
      foldAll (.int 36) ((List.replicate 6 4294967295).map .ofDigit) = .ok (.int n)) ∧
    (∃ front refusal, IsLongestFit 36 (List.replicate 8 4294967295) front ∧
      foldAll (.int 36) ((List.replicate 8 4294967295).map .ofDigit) = .error (.refused refusal) ∧
      refusal.message = "integer overflow after " ++ toString (value 36 front)) ∧
    ∃ own journal, (letters 7).feed.mode = .collect (own ++ []) ∧
      ((Pattern.repeated { fold := .int 36 } letter .some false).read 10).perform (letters 0) =
        (.ok none, ⟨(letters 7).feed.inMode (.collect ((letters 7).feed.record
          ("integer overflow after " ++ toString 267120255347392395) :: own ++ [])),
          .empty, journal⟩) := by
  have exactly := gathered_exactly 36 (by decide)
  have number : value 36 (List.replicate 6 4294967295) = 267120255347392395 := by decide
  have run : Read.Repeats (letter.read 9) (letters 0)
      ((List.replicate 6 (4294967295 : UInt32) ++ [4294967295]).map .ofDigit) (letters 7) :=
    .more (t := letters 1) rfl (.more (t := letters 2) rfl (.more (t := letters 3) rfl
      (.more (t := letters 4) rfl (.more (t := letters 5) rfl (.more (t := letters 6) rfl
        (.more (t := letters 7) rfl (.nothing (letters 7))))))))
  refine ⟨?_, ?_, ?_⟩
  · exact (exactly.1 (List.replicate 6 4294967295)).2.1 (by decide)
  · exact (exactly.1 (List.replicate 8 4294967295)).2.2 (by decide)
  · rw [← number]
    exact exactly.2 letter none .some false 9 (List.replicate 6 4294967295) 4294967295 rfl run
      (by decide) (by decide) (by decide) (by decide)

end Digits

end Duplex
