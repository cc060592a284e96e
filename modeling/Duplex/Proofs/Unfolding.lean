/-
Module: Duplex.Proofs.Unfolding
Purpose: Folds that can be undone.  The items that a list, a text, a map or a number is taken apart into
  gather into it again: a map in whatever order its entries come, a number in any radix by the digits
  that its text shows.  Digits that were gathered come back without their leading zeros.
Main exports: Token.Before, Value.IsMap, Value.gather_entries, Digits.trimmed, Digits.canonical_value,
  NumeralBase.Width.Holds, Fold.items_gather
-/
import Duplex.Proofs.Numbers.Literals

namespace Duplex

/-! ### Maps -/

namespace Token

theorem le_trans {a b c : Token} (ab : a.le b = true) (bc : b.le c = true) : a.le c = true := by
  cases a <;> cases b <;> cases c <;> simp_all only [le, decide_eq_true_eq, Bool.not_eq_true',
    decide_eq_false_iff_not, Bool.false_eq_true]
  · exact Nat.le_trans ab bc
  · exact Int.le_trans ab bc
  · exact String.le_trans ab bc

theorem le_antisymm {a b : Token} (ab : a.le b = true) (ba : b.le a = true) : a = b := by
  cases a <;> cases b <;> simp_all only [le, decide_eq_true_eq, Bool.not_eq_true',
    decide_eq_false_iff_not, Bool.false_eq_true]
  · rw [Char.toNat_inj.mp (Nat.le_antisymm ab ba)]
  · rw [Int64.toInt_inj.mp (Int.le_antisymm ab ba)]
  · rw [String.le_antisymm ab ba]

/-- A key that comes before another one.  Only keys of one kind come before each other. -/
def Before (a b : Token) : Prop :=
  a ≠ b ∧ a.le b = true

instance (a b : Token) : Decidable (Before a b) :=
  inferInstanceAs (Decidable (_ ∧ _))

theorem Before.trans {a b c : Token} (ab : a.Before b) (bc : b.Before c) : a.Before c := by
  refine ⟨?_, le_trans ab.2 bc.2⟩
  rintro rfl
  exact ab.1 (le_antisymm ab.2 bc.2)

theorem Before.asymm {a b : Token} (ab : a.Before b) : ¬ b.Before a :=
  fun ba => ab.1 (le_antisymm ab.2 ba.2)

end Token

namespace Value

variable {entries order : List (Token × Value)} {k : Token} {v : Value}

/-- Entries that a map holds: keys of one kind, each once and in their order. -/
def IsMap (entries : List (Token × Value)) : Prop :=
  entries.Pairwise fun a b => a.1.Before b.1

instance (entries : List (Token × Value)) : Decidable (IsMap entries) :=
  inferInstanceAs (Decidable (List.Pairwise _ _))

/-- Keys of one kind that are not the same. -/
def Apart (a b : Token × Value) : Prop :=
  a.1.Before b.1 ∨ b.1.Before a.1

theorem Apart.symm {a b : Token × Value} (apart : Apart a b) : Apart b a :=
  Or.symm apart

/-- A new key only adds its entry. -/
theorem insertEntry_perm (apart : ∀ e ∈ entries, Apart (k, v) e) :
    (insertEntry k v entries).Perm ((k, v) :: entries) := by
  induction entries with
  | nil => exact .refl _
  | cons e rest ih =>
      obtain ⟨first, others⟩ := List.forall_mem_cons.mp apart
      have fresh : k ≠ e.1 := first.elim (fun before => before.1) fun behind => behind.1.symm
      rw [insertEntry, if_neg fresh]
      split
      · exact .refl _
      · exact ((ih others).cons e).trans (.swap (k, v) e rest)

/-- A new key takes its place among the others. -/
theorem IsMap.insertEntry (isMap : IsMap entries) (apart : ∀ e ∈ entries, Apart (k, v) e) :
    IsMap (insertEntry k v entries) := by
  induction entries with
  | nil => exact List.pairwise_singleton _ _
  | cons e rest ih =>
      obtain ⟨first, others⟩ := List.forall_mem_cons.mp apart
      obtain ⟨before, restMap⟩ := List.pairwise_cons.mp isMap
      have fresh : k ≠ e.1 := first.elim (fun before => before.1) fun behind => behind.1.symm
      rw [Value.insertEntry, if_neg fresh]
      by_cases here : k.le e.1 = true
      · have front : k.Before e.1 := ⟨fresh, here⟩
        rw [if_pos here]
        refine List.pairwise_cons.mpr ⟨fun f mem => ?_, isMap⟩
        rcases List.mem_cons.mp mem with rfl | mem
        · exact front
        · exact front.trans (before f mem)
      · rw [if_neg here]
        refine List.pairwise_cons.mpr ⟨fun f mem => ?_, ih restMap others⟩
        rcases List.mem_cons.mp ((insertEntry_perm others).mem_iff.mp mem) with rfl | mem
        · exact first.resolve_left fun front => here front.2
        · exact before f mem

/-- Entries put one after the other among those of a map, keys that are not there yet. -/
theorem foldl_insertEntry (isMap : IsMap entries) (pairwise : order.Pairwise Apart)
    (apart : ∀ e ∈ order, ∀ f ∈ entries, Apart e f) :
    IsMap (order.foldl (fun sofar e => insertEntry e.1 e.2 sofar) entries) ∧
      (order.foldl (fun sofar e => insertEntry e.1 e.2 sofar) entries).Perm (order ++ entries) := by
  induction order generalizing entries with
  | nil => exact ⟨isMap, .refl _⟩
  | cons e rest ih =>
      obtain ⟨first, others⟩ := List.pairwise_cons.mp pairwise
      obtain ⟨here, later⟩ := List.forall_mem_cons.mp apart
      have grown := insertEntry_perm here
      have stillApart : ∀ d ∈ rest, ∀ f ∈ insertEntry e.1 e.2 entries, Apart d f := by
        intro d among f mem
        rcases List.mem_cons.mp (grown.mem_iff.mp mem) with rfl | mem
        · exact (first d among).symm
        · exact later d among f mem
      obtain ⟨sorted, perm⟩ := ih (isMap.insertEntry here) others stillApart
      exact ⟨sorted, perm.trans ((grown.append_left rest).trans List.perm_middle)⟩

/-- The entries of a map, put in whatever order, are the map again. -/
theorem foldl_insertEntry_order (isMap : IsMap entries) (perm : order.Perm entries) :
    order.foldl (fun sofar e => insertEntry e.1 e.2 sofar) [] = entries := by
  have pairwise : order.Pairwise Apart :=
    (perm.pairwise_iff Apart.symm).mpr (isMap.imp Or.inl)
  obtain ⟨sorted, same⟩ := foldl_insertEntry (List.Pairwise.nil) pairwise (by simp)
  rw [List.append_nil] at same
  exact (same.trans perm).eq_of_pairwise (fun a b _ _ ab ba => absurd ba ab.asymm) sorted isMap

theorem foldlM_accept_map (order entries : List (Token × Value)) :
    (order.map fun e => Value.pair e.1.toValue e.2).foldlM Tally.accept (.map entries) =
      .ok (.map (order.foldl (fun sofar e => insertEntry e.1 e.2 sofar) entries)) := by
  induction order generalizing entries with
  | nil => rfl
  | cons e rest ih =>
      have accepts : Tally.accept (.map entries) (.pair e.1.toValue e.2) =
          .ok (.map (insertEntry e.1 e.2 entries)) := by
        rw [Value.pair, Tally.accept, Token.toToken?_toValue]
      rw [List.map_cons, List.foldlM_cons, accepts]
      exact ih _

/-- The entries of a map gather into it in whatever order they come. -/
theorem gather_entries (isMap : IsMap entries) (perm : order.Perm entries) :
    foldAll .map (order.map fun e => Value.pair e.1.toValue e.2) = .ok (.map entries) := by
  have folded := foldlM_accept_map order []
  rw [foldl_insertEntry_order isMap perm] at folded
  exact foldAll_ok (f := .map) folded

end Value

/-! ### Digits -/

namespace Digits

variable {radix : Nat} {ds : List UInt32}

/-- Digits without leading zeros; one zero is left where there is nothing else. -/
def trimmed (ds : List UInt32) : List UInt32 :=
  match ds.dropWhile (· == 0) with
  | [] => [0]
  | d :: rest => d :: rest

/-- Leading zeros count nothing. -/
theorem value_dropWhile (radix : Nat) (ds : List UInt32) :
    value radix (ds.dropWhile (· == 0)) = value radix ds := by
  induction ds with
  | nil => rfl
  | cons d rest ih =>
      rw [List.dropWhile_cons]
      split
      case isTrue zero =>
        cases eq_of_beq zero
        rw [ih, value, value, List.map_cons, List.reverse_cons, UInt32.toNat_zero,
          Nat.ofDigits_append_zero]
      case isFalse => rfl

/-- Digits that begin with no zero are the canonical ones of the number they denote. -/
theorem canonical_value_of_head (two : 1 < radix) (small : ∀ d ∈ ds, d.toNat < radix)
    {first : UInt32} (head : ds.head? = some first) (nonzero : first ≠ 0) :
    canonical radix (value radix ds) = ds.map UInt32.toNat := by
  have below : ∀ d ∈ (ds.map UInt32.toNat).reverse, d < radix := by
    intro d mem
    obtain ⟨e, among, rfl⟩ := List.mem_map.mp (List.mem_reverse.mp mem)
    exact small e among
  have last : ∀ some : (ds.map UInt32.toNat).reverse ≠ [],
      (ds.map UInt32.toNat).reverse.getLast some ≠ 0 := by
    intro some zero
    have same : (ds.map UInt32.toNat).reverse.getLast? = Option.some first.toNat := by
      rw [List.getLast?_reverse, List.head?_map, head]
      rfl
    rw [List.getLast?_eq_some_getLast some, zero, Option.some.injEq] at same
    exact nonzero (UInt32.toNat_inj.mp same.symm)
  have digits : Nat.digits radix (value radix ds) = (ds.map UInt32.toNat).reverse :=
    Nat.digits_ofDigits radix two _ below last
  have pos : value radix ds ≠ 0 := by
    intro zero
    rw [zero, Nat.digits_zero] at digits
    cases ds with
    | nil => cases head
    | cons d rest => simp at digits
  rw [canonical_of_ne_zero pos, digits, List.reverse_reverse]

/-- The canonical digits of a number are those it was denoted by, without leading zeros. -/
theorem canonical_value (two : 1 < radix) (small : ∀ d ∈ ds, d.toNat < radix) :
    canonical radix (value radix ds) = (trimmed ds).map UInt32.toNat := by
  rw [← value_dropWhile]
  have within : ∀ d ∈ ds.dropWhile (· == 0), d.toNat < radix :=
    fun d mem => small d ((List.dropWhile_suffix _).subset mem)
  have head := List.head?_dropWhile_not (· == 0) ds
  rw [trimmed]
  cases rest : ds.dropWhile (· == 0) with
  | nil => rfl
  | cons d more =>
      rw [rest] at head within
      exact canonical_value_of_head two within rfl (ne_of_beq_false head)

/-- The canonical digits as digits of a fold. -/
theorem canonical_digits (two : 1 < radix) (most : radix ≤ 36) (n : Nat) :
    ((canonical radix n).map UInt32.ofNat).map UInt32.toNat = canonical radix n := by
  rw [List.map_map]
  calc (canonical radix n).map (UInt32.toNat ∘ UInt32.ofNat)
    _ = (canonical radix n).map id := List.map_congr_left fun d mem => by
          have small : d < UInt32.size :=
            (lt_of_mem_canonical two mem).trans (Nat.lt_of_le_of_lt most (by decide))
          rw [Function.comp_apply, UInt32.toNat_ofNat', Nat.mod_eq_of_lt small, id]
    _ = canonical radix n := List.map_id _

theorem map_ofDigit (ds : List UInt32) :
    ds.map Value.ofDigit = (ds.map UInt32.toNat).map Value.ofCount := by
  rw [List.map_map]
  rfl

end Digits

/-! ### Numbers -/

namespace NumeralBase.Width

variable {w : Width} {n : Int} {v : Value} {radix : Nat}

/-- The integers that can be held, as values. -/
inductive Holds : Width → Int → Value → Prop
  | machine (n : Int64) : Holds .machine n.toInt (.int n)
  | big (n : Int) : Holds .big n (.big n)

/-- What is not negative is held as a number. -/
theorem Holds.number (holds : w.Holds n v) (natural : 0 ≤ n) :
    w.Fits n.toNat ∧ v = w.number n.toNat := by
  cases holds with
  | machine n =>
      have fits : Width.machine.Fits n.toInt.toNat := by
        show ((n.toInt.toNat : Nat) : Int) ≤ maxInt
        rw [Int.toNat_of_nonneg natural]
        exact n.toInt_le
      refine ⟨fits, congrArg Value.int (Int64.toInt_inj.mp ?_)⟩
      rw [toInt_ofNat fits, Int.toNat_of_nonneg natural]
  | big n => exact ⟨trivial, congrArg Value.big (Int.toNat_of_nonneg natural).symm⟩

/-- A number that fits is held. -/
theorem holds_number {n : Nat} (fits : w.Fits n) : w.Holds n (w.number n) := by
  cases w with
  | machine =>
      have holds := Holds.machine (Int64.ofNat n)
      rwa [toInt_ofNat fits] at holds
  | big => exact .big n

/-- Negative numbers are refused. -/
theorem items_negative (radix : Nat) (holds : w.Holds n v) (negative : n < 0) :
    (w.foldIn radix).items v = .error (.fault (.unsupported "unfold of negative integer")) := by
  cases holds with
  | machine n => exact if_pos negative
  | big n => exact if_pos negative

/-- Digits gather into the number that they denote. -/
theorem foldAll_digits (pos : 0 < radix) {ds : List UInt32}
    (fits : w.Fits (Digits.value radix ds)) :
    foldAll (w.foldIn radix) (ds.map .ofDigit) = .ok (w.number (Digits.value radix ds)) := by
  obtain ⟨gathered, folded, finish⟩ := gathers pos fits
  rw [foldAll_ok folded, finish]

end NumeralBase.Width

open NumeralBase (Width)

namespace Fold

/-- What a fold takes apart it gathers again.  A list, a text and a map come back from their items, the
    map whichever order its entries are held in.  A number that is not negative comes back from its
    digits in any radix, which are what the characters of its text stand for; each is below the radix,
    and only zero begins with a zero.  Digits that are gathered come back without leading zeros.
    Negative numbers are refused. -/
theorem items_gather :
    (∀ vs, ∃ items, Fold.list.items (.list vs) = .ok items ∧
      foldAll .list items = .ok (.list vs)) ∧
    (∀ s, ∃ items, Fold.text.items (.text s) = .ok items ∧ foldAll .text items = .ok (.text s)) ∧
    (∀ entries, Value.IsMap entries → ∀ order, order.Perm entries →
      ∃ items, Fold.map.items (.map order) = .ok items ∧
        foldAll .map items = .ok (.map entries)) ∧
    (∀ radix, 2 ≤ radix → radix ≤ 36 → ∀ w : Width,
      (∀ n v, w.Holds n v → 0 ≤ n → ∃ ds : List UInt32,
        (w.foldIn radix).items v = .ok (ds.map .ofDigit) ∧
        foldAll (w.foldIn radix) (ds.map .ofDigit) = .ok v ∧
        (∀ d ∈ ds, d.toNat < radix) ∧ (ds.head? = some 0 → n = 0) ∧
        ds.map UInt32.toNat =
          (Decimal.printed radix n.toNat).filterMap (Decimal.digitOf? radix)) ∧
      ∀ ds : List UInt32, (∀ d ∈ ds, d.toNat < radix) → w.Fits (Digits.value radix ds) →
        ∃ v, w.Holds (Digits.value radix ds) v ∧
          foldAll (w.foldIn radix) (ds.map .ofDigit) = .ok v ∧
          (w.foldIn radix).items v = .ok ((Digits.trimmed ds).map .ofDigit)) ∧
    ∀ radix (w : Width) n v, w.Holds n v → n < 0 →
      (w.foldIn radix).items v = .error (.fault (.unsupported "unfold of negative integer")) := by
  refine ⟨fun vs => ⟨vs, rfl, ?_⟩, fun s => ⟨s.toList.map .char, rfl, ?_⟩, ?_, ?_, ?_⟩
  · have folded := Pattern.foldlM_accept_list vs []
    rw [List.append_nil] at folded
    have gathered := foldAll_ok (f := .list) folded
    rwa [Tally.finish, List.reverse_reverse] at gathered
  · have gathered := foldAll_ok (f := .text) (Pattern.foldlM_accept_text s.toList "")
    rwa [Tally.finish, String.empty_append, String.ofList_toList] at gathered
  · intro entries isMap order perm
    exact ⟨_, rfl, Value.gather_entries isMap perm⟩
  · intro radix two most w
    constructor
    · intro n v holds natural
      obtain ⟨fits, rfl⟩ := holds.number natural
      have digits := Digits.canonical_digits two most n.toNat
      have denoted : Digits.value radix ((Digits.canonical radix n.toNat).map UInt32.ofNat) =
          n.toNat := by
        rw [Digits.value, digits, Digits.ofDigits_canonical]
      have fits' : w.Fits (Digits.value radix ((Digits.canonical radix n.toNat).map UInt32.ofNat)) := by
        rwa [denoted]
      have gathered := Width.foldAll_digits (Nat.lt_of_lt_of_le Nat.two_pos two) fits'
      rw [denoted] at gathered
      refine ⟨_, ?_, gathered, ?_, ?_, ?_⟩
      · rw [Width.items_number two most fits, Digits.map_ofDigit, digits]
      · intro d mem
        apply Digits.lt_of_mem_canonical two (n := n.toNat)
        rw [← digits]
        exact List.mem_map_of_mem mem
      · intro zero
        have first : (Digits.canonical radix n.toNat).head? = some 0 := by
          rw [← digits, List.head?_map, zero]
          rfl
        by_contra nonzero
        exact Digits.head_canonical (by omega) first
      · rw [digits, Decimal.digits_of_printed two most, Digits.digits_eq_canonical two]
    · intro ds small fits
      refine ⟨_, Width.holds_number fits, Width.foldAll_digits (by omega) fits, ?_⟩
      rw [Width.items_number two most fits, Digits.canonical_value two small, Digits.map_ofDigit]
  · intro radix w n v holds negative
    exact Width.items_negative radix holds negative

/-- Two entries come in the other order; the number 255 in hexadecimal; the digits 0, 0, 15, 15; and
    a number below zero. -/
theorem items_gather_samples :
    let entries : List (Token × Value) := [(.char 'a', .int 1), (.char 'b', .int 2)]
    (∃ items, Fold.map.items (.map entries.reverse) = .ok items ∧
      foldAll .map items = .ok (.map entries)) ∧
    (∃ ds : List UInt32, (Fold.int 16).items (.int 255) = .ok (ds.map .ofDigit) ∧
      foldAll (.int 16) (ds.map .ofDigit) = .ok (.int 255) ∧
      (∀ d ∈ ds, d.toNat < 16) ∧ (ds.head? = some 0 → (255 : Int) = 0) ∧
      ds.map UInt32.toNat = (Decimal.printed 16 255).filterMap (Decimal.digitOf? 16)) ∧
    (∃ v, Width.big.Holds (Digits.value 16 [0, 0, 15, 15]) v ∧
      foldAll (.big 16) ([0, 0, 15, 15].map .ofDigit) = .ok v ∧
      (Fold.big 16).items v = .ok ([15, 15].map .ofDigit)) ∧
    (Fold.int 16).items (.int (-1)) =
      .error (.fault (.unsupported "unfold of negative integer")) := by
  obtain ⟨_, _, maps, numbers, negatives⟩ := items_gather
  have hexadecimal := numbers 16 (by decide) (by decide)
  refine ⟨maps _ (by decide) _ (List.reverse_perm _), ?_, ?_, ?_⟩
  · exact (hexadecimal .machine).1 255 (.int 255) (.machine 255) (by decide)
  · exact (hexadecimal .big).2 [0, 0, 15, 15] (by simp) trivial
  · exact negatives 16 .machine (-1) (.int (-1)) (.machine (-1)) (by decide)

end Fold

end Duplex
