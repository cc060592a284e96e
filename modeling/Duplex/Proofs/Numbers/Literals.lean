/-
Module: Duplex.Proofs.Numbers.Literals
Purpose: Number literals, decimal and hexadecimal.  A number is written in its canonical form: its
  digits without leading zeros, letters in upper case.  It is read from any digits that denote it, and
  rebuilding brings these into the canonical form.
Main exports: Digits.canonical, NumeralBase, NumeralBase.numeral, NumeralBase.IsNumeral,
  NumeralBase.valueOf, NumeralBase.literal, NumeralBase.literal_canonical
-/
import Duplex.Proofs.Numbers.Overflow
import Duplex.Proofs.Running
import Mathlib.Data.Nat.Digits.Lemmas

namespace Duplex

/-! ### Digits of numbers -/

namespace Digits

variable {radix n : Nat}

/-- The digits of a number, the most significant one first.  Zero has one digit; no other number
    begins with a zero. -/
def canonical (radix n : Nat) : List Nat :=
  if n = 0 then [0] else (Nat.digits radix n).reverse

theorem canonical_of_ne_zero (pos : n ≠ 0) : canonical radix n = (Nat.digits radix n).reverse :=
  if_neg pos

theorem canonical_ne_nil (radix n : Nat) : canonical radix n ≠ [] := by
  by_cases zero : n = 0
  · subst zero
    nofun
  · rw [canonical_of_ne_zero zero, Ne, List.reverse_eq_nil_iff]
    exact Nat.digits_ne_nil_iff_ne_zero.mpr zero

theorem lt_of_mem_canonical (two : 1 < radix) {d : Nat} (mem : d ∈ canonical radix n) :
    d < radix := by
  by_cases zero : n = 0
  · subst zero
    cases List.mem_singleton.mp mem
    omega
  · rw [canonical_of_ne_zero zero, List.mem_reverse] at mem
    exact Nat.digits_lt_base two mem

theorem ofDigits_canonical (radix n : Nat) : Nat.ofDigits radix (canonical radix n).reverse = n := by
  by_cases zero : n = 0
  · subst zero
    rfl
  · rw [canonical_of_ne_zero zero, List.reverse_reverse, Nat.ofDigits_digits]

theorem head_canonical (pos : n ≠ 0) : (canonical radix n).head? ≠ some 0 := by
  have some : Nat.digits radix n ≠ [] := Nat.digits_ne_nil_iff_ne_zero.mpr pos
  rw [canonical_of_ne_zero pos, List.head?_reverse, List.getLast?_eq_some_getLast some]
  exact fun zero => Nat.getLast_digit_ne_zero radix pos (Option.some.inj zero)

theorem canonical_of_lt (small : n < radix) : canonical radix n = [n] := by
  by_cases zero : n = 0
  · subst zero
    rfl
  · rw [canonical_of_ne_zero zero, Nat.digits_of_lt radix n zero small]
    rfl

theorem canonical_of_le (two : 1 < radix) (large : radix ≤ n) :
    canonical radix n = canonical radix (n / radix) ++ [n % radix] := by
  have pos : n ≠ 0 := by omega
  have more : n / radix ≠ 0 := (Nat.div_pos large (by omega)).ne'
  rw [canonical_of_ne_zero pos, canonical_of_ne_zero more, Nat.digits_def' two (by omega),
    List.reverse_cons]

/-- The digits that are printed are the canonical ones. -/
theorem digitsOnto_eq (r n : Nat) (known : List Nat) :
    Decimal.digitsOnto r n known = canonical (r + 2) n ++ known := by
  fun_induction Decimal.digitsOnto r n known with
  | case1 n known small =>
      rw [canonical_of_lt small]
      rfl
  | case2 n known large ih =>
      rw [ih, canonical_of_le (n := n) (by omega) (by omega), List.append_assoc]
      rfl

theorem digits_eq_canonical (two : 1 < radix) : Decimal.digits radix n = canonical radix n := by
  obtain ⟨r, rfl⟩ : ∃ r, radix = r + 2 := ⟨radix - 2, by omega⟩
  rw [Decimal.digits, digitsOnto_eq, List.append_nil]

/-- A number below a power of the radix has no more digits than its exponent. -/
theorem length_canonical_le (two : 1 < radix) {count : Nat} (pos : 0 < count)
    (below : n < radix ^ count) : (canonical radix n).length ≤ count := by
  by_cases zero : n = 0
  · subst zero
    exact pos
  · rw [canonical_of_ne_zero zero, List.length_reverse]
    exact (Nat.digits_length_le_iff two n).mpr below

/-- A number has no more digits than it counts, zero apart. -/
theorem length_canonical_le_self (two : 1 < radix) : (canonical radix n).length ≤ n + 1 := by
  have below : n < radix ^ (n + 1) :=
    (Nat.lt_pow_self two).trans (Nat.pow_lt_pow_right two (Nat.lt_succ_self n))
  exact length_canonical_le two (Nat.succ_pos n) below

end Digits

/-! ### Texts of numbers -/

namespace Decimal

theorem digitOf?_glyph {radix d : Nat} (most : radix ≤ 36) (small : d < radix) :
    digitOf? radix (glyph d) = some d := by
  have all : ∀ d < 36, glyphValue? (glyph d) = some d := by decide
  rw [digitOf?, all d (Nat.lt_of_lt_of_le small most), Option.filter_some,
    if_pos (decide_eq_true small)]

/-- The characters of the text stand for the digits of the number. -/
theorem digits_of_printed {radix : Nat} (two : 1 < radix) (most : radix ≤ 36) (n : Nat) :
    (printed radix n).filterMap (digitOf? radix) = digits radix n := by
  have small : ∀ d ∈ digits radix n, digitOf? radix (glyph d) = some d := by
    rw [Digits.digits_eq_canonical two]
    exact fun d mem => digitOf?_glyph most (Digits.lt_of_mem_canonical two mem)
  rw [printed, List.filterMap_map]
  calc (digits radix n).filterMap (digitOf? radix ∘ glyph)
    _ = (digits radix n).filterMap some := List.filterMap_congr small
    _ = digits radix n := List.filterMap_some

end Decimal

/-! ### Bases -/

/-- The bases that literals are written in. -/
inductive NumeralBase where
  | decimal
  | hexadecimal
deriving DecidableEq, Repr

namespace NumeralBase

variable {b : NumeralBase} {c : Char} {cs : List Char} {d n : Nat}

def radix : NumeralBase → Nat
  | .decimal => 10
  | .hexadecimal => 16

/-- The pattern of one digit. -/
def digit : NumeralBase → Pattern
  | .decimal => Pattern.digit
  | .hexadecimal => Pattern.hexDigit

/-- The digits as they are written, in their order. -/
def glyphs : NumeralBase → List Char
  | .decimal => ['0', '1', '2', '3', '4', '5', '6', '7', '8', '9']
  | .hexadecimal =>
      ['0', '1', '2', '3', '4', '5', '6', '7', '8', '9', 'A', 'B', 'C', 'D', 'E', 'F']

/-- How a digit is written. -/
def glyph (b : NumeralBase) (d : Nat) : Char :=
  b.glyphs.getD d '0'

/-- What a character in either case counts as digit, if it is one. -/
def digitOf? (b : NumeralBase) (c : Char) : Option Nat :=
  b.glyphs.idxOf? c <|> (b.glyphs.map Char.toLower).idxOf? c

/-- The canonical form of a number. -/
def numeral (b : NumeralBase) (n : Nat) : List Char :=
  (Digits.canonical b.radix n).map b.glyph

/-- Digits in any case, with any leading zeros. -/
structure IsNumeral (b : NumeralBase) (cs : List Char) : Prop where
  nonempty : cs ≠ []
  digits : ∀ c ∈ cs, (b.digitOf? c).isSome = true

/-- A character as digit. -/
def digitOf (b : NumeralBase) (c : Char) : UInt32 :=
  .ofNat ((b.digitOf? c).getD 0)

/-- The number that digits denote. -/
def valueOf (b : NumeralBase) (cs : List Char) : Nat :=
  Digits.value b.radix (cs.map b.digitOf)

theorem two_le_radix (b : NumeralBase) : 1 < b.radix := by
  cases b <;> decide

theorem digitOf?_glyph (small : d < b.radix) : b.digitOf? (b.glyph d) = some d := by
  cases b with
  | decimal =>
      have all : ∀ d < 10, decimal.digitOf? (decimal.glyph d) = some d := by decide
      exact all d small
  | hexadecimal =>
      have all : ∀ d < 16, hexadecimal.digitOf? (hexadecimal.glyph d) = some d := by decide
      exact all d small

theorem mem_of_digitOf? (found : b.digitOf? c = some d) :
    c ∈ b.glyphs ++ b.glyphs.map Char.toLower := by
  by_contra unknown
  rw [List.mem_append, not_or] at unknown
  rw [digitOf?, List.idxOf?_eq_none_iff.mpr unknown.1, List.idxOf?_eq_none_iff.mpr unknown.2] at found
  cases found

/-- What can be checked of all digits holds of each. -/
theorem of_digitOf? (test : Char → Nat → Bool)
    (all : ((b.glyphs ++ b.glyphs.map Char.toLower).all fun c => (b.digitOf? c).all (test c)) = true)
    (found : b.digitOf? c = some d) : test c d = true := by
  have tested := List.all_eq_true.mp all c (mem_of_digitOf? found)
  rwa [found] at tested

theorem digitOf?_lt (found : b.digitOf? c = some d) : d < b.radix := by
  refine of_decide_eq_true (of_digitOf? (fun _ d => decide (d < b.radix)) ?_ found)
  cases b <;> decide

/-! ### Denoting numbers -/

theorem toNat_digitOf (found : b.digitOf? c = some d) : (b.digitOf c).toNat = d := by
  have small : d < UInt32.size := by
    have below := digitOf?_lt found
    cases b <;> exact Nat.lt_trans below (by decide)
  rw [digitOf, found, Option.getD_some, UInt32.toNat_ofNat', Nat.mod_eq_of_lt small]

theorem isNumeral_numeral (b : NumeralBase) (n : Nat) : b.IsNumeral (b.numeral n) where
  nonempty := by
    rw [numeral, Ne, List.map_eq_nil_iff]
    exact Digits.canonical_ne_nil _ n
  digits := by
    intro c mem
    obtain ⟨d, among, rfl⟩ := List.mem_map.mp mem
    rw [digitOf?_glyph (Digits.lt_of_mem_canonical b.two_le_radix among)]
    rfl

/-- The canonical form denotes the number. -/
theorem valueOf_numeral (b : NumeralBase) (n : Nat) : b.valueOf (b.numeral n) = n := by
  have same : ((b.numeral n).map b.digitOf).map UInt32.toNat = Digits.canonical b.radix n := by
    rw [numeral, List.map_map, List.map_map]
    calc (Digits.canonical b.radix n).map _
      _ = (Digits.canonical b.radix n).map id := List.map_congr_left fun d mem =>
            toNat_digitOf (digitOf?_glyph (Digits.lt_of_mem_canonical b.two_le_radix mem))
      _ = Digits.canonical b.radix n := List.map_id _
  rw [valueOf, Digits.value, same, Digits.ofDigits_canonical]

/-- No form of a number is shorter than the canonical one. -/
theorem length_numeral_valueOf (isNumeral : b.IsNumeral cs) :
    (b.numeral (b.valueOf cs)).length ≤ cs.length := by
  have digits : ∀ d ∈ ((cs.map b.digitOf).map UInt32.toNat).reverse, d < b.radix := by
    intro d mem
    rw [List.mem_reverse, List.map_map] at mem
    obtain ⟨c, among, rfl⟩ := List.mem_map.mp mem
    obtain ⟨e, found⟩ := Option.isSome_iff_exists.mp (isNumeral.digits c among)
    show (b.digitOf c).toNat < b.radix
    rw [toNat_digitOf found]
    exact digitOf?_lt found
  have below := Nat.ofDigits_lt_base_pow_length b.two_le_radix digits
  rw [List.length_reverse, List.length_map, List.length_map] at below
  rw [numeral, List.length_map]
  exact Digits.length_canonical_le b.two_le_radix (List.length_pos_iff.mpr isNumeral.nonempty) below

/-- Only zero begins with a zero. -/
theorem head_numeral (pos : n ≠ 0) : (b.numeral n).head? ≠ some '0' := by
  rw [numeral, List.head?_map]
  intro zero
  obtain ⟨d, first, glyph⟩ := Option.map_eq_some_iff.mp zero
  have small : d < b.radix :=
    Digits.lt_of_mem_canonical b.two_le_radix (List.mem_of_head? first)
  have digit : b.digitOf? '0' = some 0 := by
    cases b <;> decide
  have same := digitOf?_glyph small
  rw [glyph, digit, Option.some.injEq] at same
  subst same
  exact Digits.head_canonical pos first

/-! ### One digit -/

/-- A character between two others counts its distance from the lower one, and some more. -/
def Between (low high : Char) (pad : Nat) (c : Char) (d : Nat) : Prop :=
  low.toNat ≤ c.toNat ∧ c.toNat ≤ high.toNat ∧ d = c.toNat - low.toNat + pad

instance (low high : Char) (pad : Nat) (c : Char) (d : Nat) : Decidable (Between low high pad c d) :=
  inferInstanceAs (Decidable (_ ∧ _))

theorem between_of_decimal (found : decimal.digitOf? c = some d) : Between '0' '9' 0 c d :=
  of_decide_eq_true (of_digitOf? (fun c d => decide (Between '0' '9' 0 c d)) (by decide) found)

theorem between_of_hexadecimal (found : hexadecimal.digitOf? c = some d) :
    Between '0' '9' 0 c d ∨ Between 'A' 'F' 10 c d ∨ Between 'a' 'f' 10 c d :=
  of_decide_eq_true (of_digitOf? (fun c d => decide
    (Between '0' '9' 0 c d ∨ Between 'A' 'F' 10 c d ∨ Between 'a' 'f' 10 c d)) (by decide) found)

/-- A token that is no digit. -/
def NoDigit (b : NumeralBase) (t : Token) : Prop :=
  ∀ c, t = .char c → b.digitOf? c = none

/-- Where all characters between two others are digits, a token that is no digit is none of them. -/
theorem NoDigit.not_between {low high : Char} {t : Token} (noDigit : b.NoDigit t)
    (all : ∀ k < high.toNat + 1, low.toNat ≤ k → (b.digitOf? (Char.ofNat k)).isSome = true) :
    (Condition.range (.char low) (.char high)).holds t = false := by
  cases t with
  | int n => rfl
  | word s => rfl
  | char c =>
      by_contra holds
      rw [Bool.not_eq_false, Condition.holds, Bool.and_eq_true] at holds
      have lower : low.toNat ≤ c.toNat := of_decide_eq_true holds.1
      have upper : c.toNat ≤ high.toNat := of_decide_eq_true holds.2
      have found := all c.toNat (Nat.lt_succ_of_le upper) lower
      rw [Char.ofNat_toNat, noDigit c rfl] at found
      cases found

section Reading

variable {σ : Type} [Feed σ] [LawfulFeed σ] {rest : List Token} {fuel : Nat} {low high : Char}
  {pad : Nat}

theorem reads_between (between : Between low high pad c d) (small : d < Conversion.digitLimit) :
    ((Pattern.digitBetween low high low pad).read (fuel + 2) (σ := σ)).Reads [.char c] rest
      (some (.ofCount d)) := by
  obtain ⟨lower, upper, rfl⟩ := between
  have holds : (Condition.range (.char low) (.char high)).holds (.char c) = true := by
    rw [Condition.holds, Bool.and_eq_true]
    exact ⟨decide_eq_true lower, decide_eq_true upper⟩
  have converts : (Conversion.digitFrom low pad).forward (.char c) =
      .ok (.ofCount (c.toNat - low.toNat + pad)) := by
    show (if c.toNat < low.toNat then _ else _) = _
    rw [if_neg (Nat.not_lt_of_le lower)]
    exact if_pos small
  exact Pattern.reads_convert ((Read.reads_consumeIf holds rest).map (Option.map Token.toValue))
    converts

theorem reads_between_none (low high : Char) (pad fuel : Nat)
    (ends : ∀ t ∈ rest.head?, (Condition.range (.char low) (.char high)).holds t = false) :
    ((Pattern.digitBetween low high low pad).read (fuel + 2) (σ := σ)).Reads [] rest none :=
  Pattern.reads_convert_none ((Read.reads_consumeIf_none ends).map (Option.map Token.toValue))

theorem reads_between_above (low : Char) (pad fuel : Nat) (rest : List Token)
    (above : high.toNat < c.toNat) :
    ((Pattern.digitBetween low high low pad).read (fuel + 2) (σ := σ)).Reads [] ([.char c] ++ rest)
      none := by
  apply reads_between_none
  rintro _ ⟨rfl⟩
  rw [Condition.holds, Bool.and_eq_false_iff]
  exact .inr (decide_eq_false (Nat.not_le_of_lt above))

/-- A digit in either case is read. -/
theorem reads_digit (found : b.digitOf? c = some d) :
    (b.digit.read (fuel + 4) (σ := σ)).Reads [.char c] rest (some (.ofDigit (b.digitOf c))) := by
  have small : d < Conversion.digitLimit := by
    have below := digitOf?_lt found
    cases b <;> exact Nat.lt_trans below (by decide)
  have digit : Value.ofDigit (b.digitOf c) = .ofCount d := by
    rw [Value.ofDigit, toNat_digitOf found]
  rw [digit]
  cases b with
  | decimal => exact reads_between (between_of_decimal found) small
  | hexadecimal =>
      -- the case that was read is forgotten
      suffices chosen : ∃ i, (Read.choice 0 ([Pattern.digit, .digitBetween 'A' 'F' 'A' 10,
          .digitBetween 'a' 'f' 'a' 10].map fun p => p.read (fuel + 2) (σ := σ))).Reads [.char c] rest
            (some (i, .ofCount d)) by
        obtain ⟨i, reads⟩ := chosen
        exact Pattern.reads_convert (reads.map
          (Option.map fun (taken : Nat × Value) => Value.pair (.ofCount taken.1) taken.2)) rfl
      rcases between_of_hexadecimal found with here | here | here
      · exact ⟨_, Read.reads_choice_here _ _ (reads_between here small)⟩
      · have decimals := reads_between_above (σ := σ) '0' 0 fuel rest
          (Nat.lt_of_lt_of_le (by decide : '9'.toNat < 'A'.toNat) here.1)
        exact ⟨_, Read.reads_choice_skip decimals
          (Read.reads_choice_here _ _ (reads_between here small))⟩
      · have decimals := reads_between_above (σ := σ) '0' 0 fuel rest
          (Nat.lt_of_lt_of_le (by decide : '9'.toNat < 'a'.toNat) here.1)
        have capitals := reads_between_above (σ := σ) 'A' 10 fuel rest
          (Nat.lt_of_lt_of_le (by decide : 'F'.toNat < 'a'.toNat) here.1)
        exact ⟨_, Read.reads_choice_skip decimals (Read.reads_choice_skip capitals
          (Read.reads_choice_here _ _ (reads_between here small)))⟩

/-- At another token, or at the end, no digit is read. -/
theorem reads_digit_none (ends : Pattern.Ahead b.NoDigit rest) :
    (b.digit.read (fuel + 4) (σ := σ)).Reads [] rest none := by
  cases b with
  | decimal =>
      exact reads_between_none '0' '9' 0 (fuel + 2) fun t mem => (ends t mem).not_between (by decide)
  | hexadecimal =>
      have decimals := reads_between_none (σ := σ) '0' '9' 0 fuel
        fun t mem => (ends t mem).not_between (by decide)
      have capitals := reads_between_none (σ := σ) 'A' 'F' 10 fuel
        fun t mem => (ends t mem).not_between (by decide)
      have letters := reads_between_none (σ := σ) 'a' 'f' 10 fuel
        fun t mem => (ends t mem).not_between (by decide)
      have chosen : (Read.choice 0 ([Pattern.digit, .digitBetween 'A' 'F' 'A' 10,
          .digitBetween 'a' 'f' 'a' 10].map fun p => p.read (fuel + 2) (σ := σ))).Reads [] rest
            none :=
        Read.reads_choice_skip decimals (Read.reads_choice_skip capitals
          (Read.reads_choice_skip letters (Read.reads_pure none rest)))
      exact Pattern.reads_convert_none
        (chosen.map (Option.map fun (taken : Nat × Value) => Value.pair (.ofCount taken.1) taken.2))

end Reading

section Writing

variable {fuel : Nat} {low high : Char} {pad : Nat}

theorem gives_between (between : Between low high pad c d) (small : d < Conversion.digitLimit) :
    ((Pattern.digitBetween low high low pad).write (fuel + 2) (.ofCount d)).Gives [.char c] := by
  obtain ⟨lower, _, rfl⟩ := between
  have same : low.toNat + (c.toNat - low.toNat + pad - pad) = c.toNat := by omega
  have limit : c.toNat < Conversion.digitLimit := c.val.toNat_lt
  have char : Conversion.charOf? (c.toNat : Int) = some c := by
    rw [Conversion.charOf?, Int.toNat_natCast, if_pos ⟨Int.natCast_nonneg _, c.valid⟩,
      Char.ofNat_toNat]
  have back : (Conversion.digitFrom low pad).back (.ofCount (c.toNat - low.toNat + pad)) =
      .ok (some (.char c)) := by
    unfold Conversion.digitFrom
    dsimp only
    rw [Value.digit_ofCount small, if_neg (by omega), same, if_pos limit, char]
    rfl
  exact Pattern.gives_convert back (Write.gives_pure _)

/-- A digit is written by its glyph. -/
theorem gives_digit (small : d < b.radix) :
    (b.digit.write (fuel + 4) (.ofCount d)).Gives [.char (b.glyph d)] := by
  cases b with
  | decimal =>
      have limit : d < Conversion.digitLimit := Nat.lt_trans small (by decide)
      exact gives_between (between_of_decimal (digitOf?_glyph small)) limit
  | hexadecimal =>
      have limit : d < Conversion.digitLimit := Nat.lt_trans small (by decide)
      have glyphs : ∀ d < 16, Between '0' '9' 0 (hexadecimal.glyph d) d ∧ d < 10 ∨
          Between 'A' 'F' 10 (hexadecimal.glyph d) d ∧ ¬ d < 10 := by decide
      -- the case is found again by the size of the digit
      have back : ∀ i, (if d < 10 then 0 else 1) = i →
          (Conversion.keepSecond fun v => some (.ofCount (if v.digit < 10 then 0 else 1))).back
            (.ofCount d) = .ok (some (.pair (.ofCount i) (.ofCount d))) := by
        rintro _ rfl
        show Except.ok (some (Value.pair (.ofCount (if (Value.ofCount d).digit < 10 then 0 else 1)) _))
          = _
        rw [Value.digit_ofCount limit]
      rcases glyphs d small with ⟨between, few⟩ | ⟨between, many⟩
      · exact Pattern.gives_convert (back 0 (if_pos few)) (gives_between between limit)
      · exact Pattern.gives_convert (back 1 (if_neg many)) (gives_between between limit)

end Writing

/-! ### Literals -/

/-- The numbers that literals are gathered into. -/
inductive Width where
  | machine
  | big
deriving DecidableEq, Repr

namespace Width

/-- How digits are gathered. -/
def fold (b : NumeralBase) : Width → Fold
  | .machine => .int b.radix
  | .big => .big b.radix

/-- A number as value. -/
def number (n : Nat) : Width → Value
  | .machine => .int (.ofNat n)
  | .big => .big n

/-- Machine integers have room for some numbers, and the others for all. -/
def Fits (n : Nat) : Width → Prop
  | .machine => (n : Int) ≤ maxInt
  | .big => True

end Width

/-- One or more digits. -/
def literal (b : NumeralBase) (w : Width) : Pattern :=
  .repeated { fold := w.fold b } b.digit .some false

variable {w : Width}

namespace Width

variable {radix : Nat} {ds : List UInt32}

/-- How digits of a radix are gathered. -/
def foldIn (radix : Nat) : Width → Fold
  | .machine => .int radix
  | .big => .big radix

theorem fold_eq (b : NumeralBase) (w : Width) : w.fold b = w.foldIn b.radix := by
  cases w <;> rfl

/-- Digits are gathered into the number that they denote. -/
theorem gathers (pos : 0 < radix) (fits : w.Fits (Digits.value radix ds)) :
    ∃ gathered, (ds.map Value.ofDigit).foldlM Tally.accept (w.foldIn radix).start =
      .ok gathered ∧ gathered.finish = w.number (Digits.value radix ds) := by
  cases w with
  | machine => exact ⟨_, Digits.foldlM_start pos fits, rfl⟩
  | big => exact ⟨_, Digits.foldlM_big radix [] ds, rfl⟩

theorem toInt_ofNat (fits : machine.Fits n) : (Int64.ofNat n).toInt = n :=
  Int64.toInt_ofNat_of_lt (Nat.lt_succ_of_le (Int.ofNat_le.mp fits))

/-- A number is taken apart into its canonical digits. -/
theorem items_number (two : 2 ≤ radix) (most : radix ≤ 36) (fits : w.Fits n) :
    (w.foldIn radix).items (w.number n) = .ok ((Digits.canonical radix n).map .ofCount) := by
  have items : digitItems radix n = .ok ((Digits.canonical radix n).map .ofCount) := by
    rw [digitItems, if_neg (Int.not_lt.mpr (Int.natCast_nonneg n)), if_pos ⟨two, most⟩,
      Int.toNat_natCast, Decimal.digits_of_printed two most, Digits.digits_eq_canonical two]
  cases w with
  | big => exact items
  | machine =>
      show digitItems radix (Int64.ofNat n).toInt = _
      rw [toInt_ofNat fits, items]

end Width

theorem radix_le (b : NumeralBase) : b.radix ≤ 36 := by
  cases b <;> decide

theorem allows_length {n : Nat} (pos : 0 < n) (short : n < UInt64.size) :
    Bounds.some.allows n = true :=
  Bounds.allows_iff.mpr ⟨pos, Nat.le_pred_of_lt short⟩

/-- Digits are read up to another token. -/
theorem reads_literal {σ : Type} [Feed σ] [LawfulFeed σ] {rest : List Token} {fuel : Nat}
    (isNumeral : b.IsNumeral cs) (short : cs.length < UInt64.size) (fits : w.Fits (b.valueOf cs))
    (enough : cs.length ≤ fuel) (ends : Pattern.Ahead b.NoDigit rest) :
    ((b.literal w).read (fuel + 5) (σ := σ)).Reads (cs.map .char) rest
      (some (w.number (b.valueOf cs))) := by
  have fits : w.Fits (Digits.value b.radix (cs.map b.digitOf)) := fits
  obtain ⟨gathered, folded, finish⟩ := Width.gathers (Nat.lt_of_succ_lt b.two_le_radix) fits
  rw [← Width.fold_eq] at folded
  let values : List (Token × Value) := cs.map fun c => (.char c, .ofDigit (b.digitOf c))
  have size : values.length = cs.length := List.length_map _
  have tokens : values.map Prod.fst = cs.map .char := by
    rw [List.map_map]
    rfl
  have digits : values.map Prod.snd = (cs.map b.digitOf).map Value.ofDigit := by
    rw [List.map_map, List.map_map]
    rfl
  have here : ∀ v ∈ values, ∀ rest,
      (b.digit.read (fuel + 4) (σ := σ)).Reads [v.1] rest (some v.2) := by
    intro v mem rest
    obtain ⟨c, among, rfl⟩ := List.mem_map.mp mem
    obtain ⟨d, found⟩ := Option.isSome_iff_exists.mp (isNumeral.digits c among)
    exact reads_digit found
  rw [← digits] at folded
  have allowed : Bounds.some.allows values.length = true := by
    rw [size]
    exact allows_length (List.length_pos_iff.mpr isNumeral.nonempty) short
  have room : values.length ≤ Bounds.some.limit := (Bounds.allows_iff.mp allowed).2
  have run := Pattern.reads_repeated_each { fold := w.fold b } .some false here
    (reads_digit_none ends) folded room (by omega)
  rw [tokens, if_pos allowed, finish] at run
  exact run

/-- A number is written in its canonical form. -/
theorem gives_literal {fuel : Nat} (fits : w.Fits n) (short : (b.numeral n).length < UInt64.size) :
    ((b.literal w).write (fuel + 5) (w.number n)).Gives ((b.numeral n).map .char) := by
  let pieces : List (List Token × Value) :=
    (Digits.canonical b.radix n).map fun d => ([.char (b.glyph d)], .ofCount d)
  have tokens : pieces.flatMap Prod.fst = (b.numeral n).map .char := by
    rw [List.flatMap_map, numeral, List.map_map]
    exact List.map_eq_flatMap.symm
  have digits : pieces.map Prod.snd = (Digits.canonical b.radix n).map .ofCount := by
    rw [List.map_map]
    rfl
  have here : ∀ piece ∈ pieces, (b.digit.write (fuel + 4) piece.2).Gives piece.1 := by
    intro piece mem
    obtain ⟨d, among, rfl⟩ := List.mem_map.mp mem
    exact gives_digit (Digits.lt_of_mem_canonical b.two_le_radix among)
  have allowed :
      Bounds.some.allows ((Digits.canonical b.radix n).map Value.ofCount).length = true := by
    rw [List.length_map]
    rw [numeral, List.length_map] at short
    exact allows_length (List.length_pos_iff.mpr (Digits.canonical_ne_nil _ n)) short
  have items : (Write.ofExcept ((w.fold b).items (w.number n)) : Write Memory _).Gives
      ((Digits.canonical b.radix n).map .ofCount) := by
    rw [Width.fold_eq, Width.items_number b.two_le_radix b.radix_le fits]
    exact Write.gives_pure _
  apply items.bind
  rw [if_pos allowed, ← digits, ← tokens]
  exact Write.gives_each here

/-- Numbers that a machine integer has room for have few digits. -/
theorem length_numeral_of_fits (fits : Width.machine.Fits n) :
    (b.numeral n).length < UInt64.size := by
  have few := Digits.length_canonical_le_self (n := n) b.two_le_radix
  have small : n ≤ Int64.maxValue.toNatClampNeg := Int.ofNat_le.mp fits
  have room : Int64.maxValue.toNatClampNeg + 1 < UInt64.size := by decide
  rw [numeral, List.length_map]
  omega

/-- The literal is read from these characters as this number, on every feed and whatever follows, as
    long as it is no digit.  Just the characters are taken, and nothing is remembered. -/
def Spells (b : NumeralBase) (w : Width) (fuel : Nat) (cs : List Char) (n : Nat) : Prop :=
  ∀ {σ : Type} [Feed σ] [LawfulFeed σ] (s : Session Memory σ) (rest : List Token),
    remaining s.feed = cs.map .char ++ rest → (∀ t ∈ rest.head?, b.NoDigit t) →
    ∃ t, ((b.literal w).read fuel).perform s = (.ok (some (w.number n)), t) ∧
      t.feed = Feed.advance cs.length s.feed ∧ remaining t.feed = rest ∧ t.memory = s.memory

theorem spells_valueOf {fuel : Nat} (isNumeral : b.IsNumeral cs) (short : cs.length < UInt64.size)
    (fits : w.Fits (b.valueOf cs)) (enough : cs.length ≤ fuel) :
    b.Spells w (fuel + 5) cs (b.valueOf cs) := by
  intro σ _ _ s rest left ends
  obtain ⟨t, run, feed, memory⟩ := reads_literal isNumeral short fits enough ends s left
  rw [List.length_map] at feed
  refine ⟨t, run, feed, ?_, memory⟩
  rw [feed, ← List.length_map (f := Token.char)]
  exact LawfulFeed.remaining_advance left

/-- A text of digits is rebuilt in the canonical form. -/
theorem rebuild_literal {fuel : Nat} (isNumeral : b.IsNumeral cs) (short : cs.length < UInt64.size)
    (fits : w.Fits (b.valueOf cs)) (enough : cs.length ≤ fuel) (memory : Memory) (file : String) :
    (Grammar.rebuild ⟨b.literal w, memory, fuel + 5⟩
      (Input.ofText (String.ofList cs) file)).result =
        .ok (some (Token.ofText (String.ofList (b.numeral (b.valueOf cs))))) := by
  have text : Token.ofText (String.ofList cs) = cs.map .char := by
    rw [Token.ofText, String.toList_ofList]
  have written : Token.ofText (String.ofList (b.numeral (b.valueOf cs))) =
      (b.numeral (b.valueOf cs)).map .char := by
    rw [Token.ofText, String.toList_ofList]
  have nonempty : (String.ofList cs).toList ≠ [] := by
    rw [String.toList_ofList]
    exact isNumeral.nonempty
  have few : (b.numeral (b.valueOf cs)).length < UInt64.size :=
    Nat.lt_of_le_of_lt (length_numeral_valueOf isNumeral) short
  have ends : Pattern.Ahead b.NoDigit [] := by simp [Pattern.Ahead]
  obtain ⟨input, made, _, left⟩ := Input.ofText_ok nonempty file
  rw [made, written]
  refine Grammar.rebuild_of_write (v := w.number (b.valueOf cs)) ?_ fun m => ?_
  · exact (Grammar.readFrom_of_reads (g := ⟨b.literal w, memory, fuel + 5⟩)
      (reads_literal isNumeral short fits enough ends) (left.trans text)).1
  · exact Grammar.write_of_gives (g := ⟨b.literal w, m, fuel + 5⟩) (gives_literal fits few)

/-- Literals have a canonical form.  Every number is written in it, and read back from it behind which
    no digit follows; any digits in any case and with any leading zeros are read as the number that they
    denote, and rebuilt in its canonical form, where rebuilding once more changes nothing.  Only zero
    begins with a zero, and the digits of a machine integer are never too many to be counted. -/
theorem literal_canonical (b : NumeralBase) (w : Width) :
    (∀ n, w.Fits n → (b.numeral n).length < UInt64.size → ∃ enough, ∀ fuel, enough ≤ fuel →
      (∀ d, ((b.literal w).write fuel (w.number n)).perform d =
        (.ok ((b.numeral n).map .char), d)) ∧
      b.Spells w fuel (b.numeral n) n) ∧
    (∀ cs, b.IsNumeral cs → cs.length < UInt64.size → w.Fits (b.valueOf cs) →
      ∃ enough, ∀ fuel, enough ≤ fuel →
        b.Spells w fuel cs (b.valueOf cs) ∧
        ∀ memory file,
          let rebuilt := fun text =>
            (Grammar.rebuild ⟨b.literal w, memory, fuel⟩ (Input.ofText text file)).result
          let canonical := String.ofList (b.numeral (b.valueOf cs))
          rebuilt (String.ofList cs) = .ok (some (Token.ofText canonical)) ∧
          rebuilt canonical = .ok (some (Token.ofText canonical))) ∧
    (∀ n, n ≠ 0 → (b.numeral n).head? ≠ some '0') ∧
    ∀ n, Width.machine.Fits n → (b.numeral n).length < UInt64.size := by
  refine ⟨fun n fits short => ?_, fun cs isNumeral short fits => ?_, fun n => head_numeral,
    fun n => length_numeral_of_fits⟩
  · have spelled := b.valueOf_numeral n
    refine ⟨(b.numeral n).length + 5, fun fuel enough => ?_⟩
    obtain ⟨fuel, rfl⟩ : ∃ k, fuel = k + 5 := ⟨fuel - 5, by omega⟩
    have within : (b.numeral n).length ≤ fuel := Nat.le_of_add_le_add_right enough
    have spells : b.Spells w (fuel + 5) (b.numeral n) (b.valueOf (b.numeral n)) :=
      spells_valueOf (b.isNumeral_numeral n) short (by rwa [spelled]) within
    rw [spelled] at spells
    exact ⟨gives_literal fits short, spells⟩
  · refine ⟨cs.length + 5, fun fuel enough => ?_⟩
    obtain ⟨fuel, rfl⟩ : ∃ k, fuel = k + 5 := ⟨fuel - 5, by omega⟩
    have within : cs.length ≤ fuel := Nat.le_of_add_le_add_right enough
    have few := length_numeral_valueOf isNumeral
    have same := b.valueOf_numeral (b.valueOf cs)
    refine ⟨spells_valueOf isNumeral short fits within, fun memory file => ⟨?_, ?_⟩⟩
    · exact rebuild_literal isNumeral short fits within memory file
    · have again := rebuild_literal (w := w) (b.isNumeral_numeral (b.valueOf cs)) (by omega)
        (by rwa [same]) (few.trans within) memory file
      rwa [same] at again

/-- The digits `00fF` are rebuilt as `FF`, which is what is written for the number. -/
theorem literal_canonical_hexadecimal :
    (∃ enough, ∀ fuel, enough ≤ fuel →
      (∀ d, ((hexadecimal.literal .machine).write fuel (.int 255)).perform d =
        (.ok [.char 'F', .char 'F'], d)) ∧
      hexadecimal.Spells .machine fuel ['F', 'F'] 255) ∧
    ∃ enough, ∀ fuel, enough ≤ fuel →
      hexadecimal.Spells .machine fuel ['0', '0', 'f', 'F'] 255 ∧
      (Grammar.rebuild ⟨hexadecimal.literal .machine, .empty, fuel⟩
        (Input.ofText (String.ofList ['0', '0', 'f', 'F']) stringFile)).result =
          .ok (some (Token.ofText (String.ofList ['F', 'F']))) := by
  have canonical := literal_canonical hexadecimal .machine
  have numeral : hexadecimal.numeral 255 = ['F', 'F'] := by decide
  have value : hexadecimal.valueOf ['0', '0', 'f', 'F'] = 255 := by decide
  have fits : Width.machine.Fits 255 := by
    show ((255 : Nat) : Int) ≤ maxInt
    decide
  have digits : hexadecimal.IsNumeral ['0', '0', 'f', 'F'] :=
    ⟨nofun, List.all_eq_true.mp (by decide)⟩
  have written := canonical.1 255 fits (canonical.2.2.2 255 fits)
  rw [numeral] at written
  obtain ⟨enough, rebuilt⟩ := canonical.2.1 _ digits (by decide) (by rwa [value])
  rw [value, numeral] at rebuilt
  refine ⟨written, enough, fun fuel granted => ?_⟩
  exact (rebuilt fuel granted).imp_right fun same => (same .empty stringFile).1

end NumeralBase

end Duplex
