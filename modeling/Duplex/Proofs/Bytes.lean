/-
Module: Duplex.Proofs.Bytes
Purpose: Bytes as encodings of characters.  The decoder completes a character exactly on the bytes that
  encode it, so a run of bytes is the encoding of the characters it gives and of what is kept as the
  beginning of another one.
Main exports: Text.Decoder.Completes, Text.Decoder.completes_idle_iff, Text.encode_of_completes,
  Text.completes_encode, Text.Decoder.run_splits
-/
import Duplex.Proofs.Conservation
import Mathlib.Data.List.Forall2

namespace Duplex

namespace Text

/-! ### Bytes that complete a character -/

theorem ByteRange.holds_iff {r : ByteRange} {b : UInt8} :
    r.holds b = true ↔ r.low.toNat ≤ b.toNat ∧ b.toNat ≤ r.high.toNat := by
  simp [ByteRange.holds, UInt8.le_iff_toNat_le]

theorem ByteRange.holds_tail_iff {b : UInt8} :
    ByteRange.tail.holds b = true ↔ 0x80 ≤ b.toNat ∧ b.toNat ≤ 0xbf :=
  ByteRange.holds_iff

namespace Decoder

theorem step_first (taken : List UInt8) (code : Nat) (b : UInt8) :
    (⟨taken, code, []⟩ : Decoder).step b =
      if b < 0x80 then .char (Char.ofNat b.toNat)
      else
        match lead? b with
        | some (code, owed) => .more ⟨[b], code, owed⟩
        | none => .invalid [b] :=
  rfl

theorem step_last (taken : List UInt8) (code : Nat) (range : ByteRange) (b : UInt8) :
    (⟨taken, code, [range]⟩ : Decoder).step b =
      if range.holds b then .char (Char.ofNat (code * 64 + b.toNat % 64)) else .invalid taken :=
  rfl

theorem step_next (taken : List UInt8) (code : Nat) (range next : ByteRange)
    (owed : List ByteRange) (b : UInt8) :
    (⟨taken, code, range :: next :: owed⟩ : Decoder).step b =
      if range.holds b then .more ⟨taken ++ [b], code * 64 + b.toNat % 64, next :: owed⟩
      else .invalid taken :=
  rfl

/-- From this decoder on, the bytes complete a character with the last of them. -/
inductive Completes : Decoder → List UInt8 → Char → Prop
  | last {d b c} : d.step b = .char c → Completes d [b] c
  | more {d b next rest c} : d.step b = .more next → Completes next rest c →
      Completes d (b :: rest) c

/-- The code point that continuation bytes make of the bits before them. -/
def codeWith (code : Nat) (bytes : List UInt8) : Nat :=
  bytes.foldl (fun code b => code * 64 + b.toNat % 64) code

/-- The bytes are of the kinds that are owed. -/
def Pays (owed : List ByteRange) (bytes : List UInt8) : Prop :=
  List.Forall₂ (fun range b => range.holds b = true) owed bytes

/-- Inside a character, bytes complete it if they are those that are owed. -/
theorem completes_owed_iff {range : ByteRange} {owed : List ByteRange} {taken : List UInt8}
    {code : Nat} {bytes : List UInt8} {c : Char} :
    Completes ⟨taken, code, range :: owed⟩ bytes c ↔
      Pays (range :: owed) bytes ∧ c = Char.ofNat (codeWith code bytes) := by
  induction owed generalizing range taken code bytes with
  | nil =>
      constructor
      · intro completes
        cases completes with
        | last done =>
            rw [step_last] at done
            split at done
            · rename_i holds
              cases done
              exact ⟨.cons holds .nil, rfl⟩
            · cases done
        | more done rest =>
            rw [step_last] at done
            split at done <;> cases done
      · rintro ⟨_ | ⟨holds, _ | _⟩, rfl⟩
        exact .last (by rw [step_last, if_pos holds]; rfl)
  | cons next owed ih =>
      constructor
      · intro completes
        cases completes with
        | last done =>
            rw [step_next] at done
            split at done <;> cases done
        | more done rest =>
            rw [step_next] at done
            split at done
            · rename_i holds
              cases done
              obtain ⟨others, made⟩ := ih.mp rest
              exact ⟨.cons holds others, made⟩
            · cases done
      · rintro ⟨_ | ⟨holds, others⟩, rfl⟩
        exact .more (by rw [step_next, if_pos holds]) (ih.mpr ⟨others, rfl⟩)

theorem lead?_owes {b : UInt8} {code : Nat} {owed : List ByteRange}
    (lead : lead? b = some (code, owed)) : owed ≠ [] := by
  rintro rfl
  simp only [lead?] at lead
  split_ifs at lead <;> simp at lead

/-- Between characters either a single byte is one, or a first byte tells what is owed. -/
theorem completes_idle_iff {bytes : List UInt8} {c : Char} :
    Completes idle bytes c ↔
      (∃ b, b < 0x80 ∧ bytes = [b] ∧ c = Char.ofNat b.toNat) ∨
      ∃ b code owed rest, ¬ b < 0x80 ∧ lead? b = some (code, owed) ∧ bytes = b :: rest ∧
        Pays owed rest ∧ c = Char.ofNat (codeWith code rest) := by
  constructor
  · intro completes
    cases completes with
    | @last _ b _ done =>
        rw [idle, step_first] at done
        split at done
        · rename_i small
          cases done
          exact .inl ⟨b, small, rfl, rfl⟩
        · split at done <;> cases done
    | @more _ b next rest _ done completes =>
        rw [idle, step_first] at done
        split at done
        · cases done
        · rename_i big
          split at done
          · rename_i code owed lead
            cases done
            cases owed with
            | nil => exact absurd rfl (lead?_owes lead)
            | cons range owed =>
                obtain ⟨pays, made⟩ := completes_owed_iff.mp completes
                exact .inr ⟨b, code, range :: owed, rest, big, lead, rfl, pays, made⟩
          · cases done
  · rintro (⟨b, small, rfl, rfl⟩ | ⟨b, code, owed, rest, big, lead, rfl, pays, rfl⟩)
    · exact .last (by rw [idle, step_first, if_pos small])
    · cases owed with
      | nil => exact absurd rfl (lead?_owes lead)
      | cons range owed =>
          refine .more (by rw [idle, step_first, if_neg big, lead]) ?_
          exact completes_owed_iff.mpr ⟨pays, rfl⟩

/-! ### Completed characters -/

theorem lead?_one {b : UInt8} (low : 0xc2 ≤ b.toNat) (high : b.toNat ≤ 0xdf) :
    lead? b = some (b.toNat - 0xc0, [.tail]) := by
  simp only [lead?]
  rw [if_pos ⟨low, high⟩]

/-- The second byte of three is such that the character is not too short for them, and no
    surrogate. -/
theorem lead?_two {b : UInt8} (low : 0xe0 ≤ b.toNat) (high : b.toNat ≤ 0xef) :
    ∃ range, lead? b = some (b.toNat - 0xe0, [range, .tail]) ∧
      ∀ c : UInt8, range.holds c = true ↔
        (0x80 ≤ c.toNat ∧ c.toNat ≤ 0xbf) ∧ 0x20 ≤ (b.toNat - 0xe0) * 64 + c.toNat % 64 ∧
          ¬ (0x360 ≤ (b.toNat - 0xe0) * 64 + c.toNat % 64 ∧
            (b.toNat - 0xe0) * 64 + c.toNat % 64 < 0x380) := by
  simp only [lead?]
  rw [if_neg (by omega)]
  by_cases first : b.toNat = 0xe0
  · refine ⟨⟨0xa0, 0xbf⟩, by rw [if_pos first, first], fun c => ?_⟩
    rw [ByteRange.holds_iff]
    simp only [UInt8.reduceToNat]
    omega
  rw [if_neg first]
  by_cases surrogates : b.toNat = 0xed
  · refine ⟨⟨0x80, 0x9f⟩, by rw [if_pos surrogates, surrogates], fun c => ?_⟩
    rw [ByteRange.holds_iff]
    simp only [UInt8.reduceToNat]
    omega
  rw [if_neg surrogates, if_pos (by omega)]
  refine ⟨.tail, rfl, fun c => ?_⟩
  rw [ByteRange.holds_tail_iff]
  omega

/-- The second byte of four is such that the character is not too short for them, and a code point. -/
theorem lead?_three {b : UInt8} (low : 0xf0 ≤ b.toNat) (high : b.toNat ≤ 0xf4) :
    ∃ range, lead? b = some (b.toNat - 0xf0, [range, .tail, .tail]) ∧
      ∀ c : UInt8, range.holds c = true ↔
        (0x80 ≤ c.toNat ∧ c.toNat ≤ 0xbf) ∧ 0x10 ≤ (b.toNat - 0xf0) * 64 + c.toNat % 64 ∧
          (b.toNat - 0xf0) * 64 + c.toNat % 64 < 0x110 := by
  simp only [lead?]
  rw [if_neg (by omega), if_neg (by omega), if_neg (by omega), if_neg (by omega)]
  by_cases first : b.toNat = 0xf0
  · refine ⟨⟨0x90, 0xbf⟩, by rw [if_pos first, first], fun c => ?_⟩
    rw [ByteRange.holds_iff]
    simp only [UInt8.reduceToNat]
    omega
  rw [if_neg first]
  by_cases last : b.toNat = 0xf4
  · refine ⟨⟨0x80, 0x8f⟩, by rw [if_neg (by omega), if_pos last, last], fun c => ?_⟩
    rw [ByteRange.holds_iff]
    simp only [UInt8.reduceToNat]
    omega
  rw [if_pos (by omega)]
  refine ⟨.tail, rfl, fun c => ?_⟩
  rw [ByteRange.holds_tail_iff]
  omega

theorem lead?_none {b : UInt8} (outside : b.toNat < 0xc2 ∨ 0xf4 < b.toNat) : lead? b = none := by
  simp only [lead?]
  rw [if_neg (by omega), if_neg (by omega), if_neg (by omega), if_neg (by omega), if_neg (by omega),
    if_neg (by omega), if_neg (by omega)]

end Decoder

/-! ### The encoding of a character -/

theorem toNat_ofNat {n : Nat} (valid : n.isValidChar) : (Char.ofNat n).toNat = n := by
  rw [Char.ofNat, dif_pos valid]
  rfl

theorem encode_eq (c : Char) :
    String.utf8EncodeChar c =
      if c.toNat ≤ 0x7f then [UInt8.ofNat c.toNat]
      else if c.toNat ≤ 0x7ff then
        [UInt8.ofNat (c.toNat / 64 % 32 + 192), UInt8.ofNat (c.toNat % 64 + 128)]
      else if c.toNat ≤ 0xffff then
        [UInt8.ofNat (c.toNat / 4096 % 16 + 224), UInt8.ofNat (c.toNat / 64 % 64 + 128),
          UInt8.ofNat (c.toNat % 64 + 128)]
      else
        [UInt8.ofNat (c.toNat / 262144 % 8 + 240), UInt8.ofNat (c.toNat / 4096 % 64 + 128),
          UInt8.ofNat (c.toNat / 64 % 64 + 128), UInt8.ofNat (c.toNat % 64 + 128)] :=
  rfl

theorem ofNat_eq_of_toNat {n : Nat} {b : UInt8} (same : n = b.toNat) : UInt8.ofNat n = b := by
  rw [same, UInt8.ofNat_toNat]

/-! ### What is completed is an encoding -/

theorem encode_two {a b : UInt8} (first : 0xc2 ≤ a.toNat ∧ a.toNat ≤ 0xdf)
    (second : 0x80 ≤ b.toNat ∧ b.toNat ≤ 0xbf) :
    String.utf8EncodeChar (Char.ofNat (Decoder.codeWith (a.toNat - 0xc0) [b])) = [a, b] := by
  have value := toNat_ofNat (n := (a.toNat - 0xc0) * 64 + b.toNat % 64) (.inl (by omega))
  simp only [Decoder.codeWith, List.foldl_cons, List.foldl_nil]
  rw [encode_eq, value, if_neg (by omega), if_pos (by omega),
    ofNat_eq_of_toNat (b := a) (by omega), ofNat_eq_of_toNat (b := b) (by omega)]

theorem encode_three {a b c : UInt8} (first : 0xe0 ≤ a.toNat ∧ a.toNat ≤ 0xef)
    (second : 0x80 ≤ b.toNat ∧ b.toNat ≤ 0xbf)
    (long : 0x20 ≤ (a.toNat - 0xe0) * 64 + b.toNat % 64)
    (valid : ¬ (0x360 ≤ (a.toNat - 0xe0) * 64 + b.toNat % 64 ∧
      (a.toNat - 0xe0) * 64 + b.toNat % 64 < 0x380))
    (third : 0x80 ≤ c.toNat ∧ c.toNat ≤ 0xbf) :
    String.utf8EncodeChar (Char.ofNat (Decoder.codeWith (a.toNat - 0xe0) [b, c])) = [a, b, c] := by
  have value := toNat_ofNat
    (n := ((a.toNat - 0xe0) * 64 + b.toNat % 64) * 64 + c.toNat % 64) (by unfold Nat.isValidChar; omega)
  simp only [Decoder.codeWith, List.foldl_cons, List.foldl_nil]
  rw [encode_eq, value, if_neg (by omega), if_neg (by omega), if_pos (by omega),
    ofNat_eq_of_toNat (b := a) (by omega), ofNat_eq_of_toNat (b := b) (by omega),
    ofNat_eq_of_toNat (b := c) (by omega)]

theorem encode_four {a b c d : UInt8} (first : 0xf0 ≤ a.toNat ∧ a.toNat ≤ 0xf4)
    (second : 0x80 ≤ b.toNat ∧ b.toNat ≤ 0xbf)
    (long : 0x10 ≤ (a.toNat - 0xf0) * 64 + b.toNat % 64)
    (valid : (a.toNat - 0xf0) * 64 + b.toNat % 64 < 0x110)
    (third : 0x80 ≤ c.toNat ∧ c.toNat ≤ 0xbf) (fourth : 0x80 ≤ d.toNat ∧ d.toNat ≤ 0xbf) :
    String.utf8EncodeChar (Char.ofNat (Decoder.codeWith (a.toNat - 0xf0) [b, c, d])) =
      [a, b, c, d] := by
  have value := toNat_ofNat
    (n := (((a.toNat - 0xf0) * 64 + b.toNat % 64) * 64 + c.toNat % 64) * 64 + d.toNat % 64)
    (by unfold Nat.isValidChar; omega)
  simp only [Decoder.codeWith, List.foldl_cons, List.foldl_nil]
  rw [encode_eq, value, if_neg (by omega), if_neg (by omega), if_neg (by omega),
    ofNat_eq_of_toNat (b := a) (by omega), ofNat_eq_of_toNat (b := b) (by omega),
    ofNat_eq_of_toNat (b := c) (by omega), ofNat_eq_of_toNat (b := d) (by omega)]

/-- What the decoder completes to a character is the encoding of the character. -/
theorem encode_of_completes {bytes : List UInt8} {c : Char}
    (completes : Decoder.Completes .idle bytes c) : String.utf8EncodeChar c = bytes := by
  rcases Decoder.completes_idle_iff.mp completes with
    ⟨a, small, rfl, rfl⟩ | ⟨a, code, owed, rest, big, lead, rfl, pays, rfl⟩
  · have small : a.toNat < 0x80 := small
    have value := toNat_ofNat (n := a.toNat) (.inl (by omega))
    rw [encode_eq, value, if_pos (by omega), UInt8.ofNat_toNat]
  · -- the first byte tells how many bytes there are
    by_cases outside : a.toNat < 0xc2 ∨ 0xf4 < a.toNat
    · rw [Decoder.lead?_none outside] at lead
      cases lead
    by_cases two : a.toNat ≤ 0xdf
    · have first : 0xc2 ≤ a.toNat ∧ a.toNat ≤ 0xdf := by omega
      rw [Decoder.lead?_one first.1 first.2, Option.some.injEq, Prod.mk.injEq] at lead
      obtain ⟨rfl, rfl⟩ := lead
      rcases pays with _ | ⟨second, _ | _⟩
      exact encode_two first (ByteRange.holds_tail_iff.mp second)
    by_cases three : a.toNat ≤ 0xef
    · have first : 0xe0 ≤ a.toNat ∧ a.toNat ≤ 0xef := by omega
      obtain ⟨range, known, allows⟩ := Decoder.lead?_two first.1 first.2
      rw [known, Option.some.injEq, Prod.mk.injEq] at lead
      obtain ⟨rfl, rfl⟩ := lead
      rcases pays with _ | ⟨second, _ | ⟨third, _ | _⟩⟩
      obtain ⟨second, long, valid⟩ := (allows _).mp second
      exact encode_three first second long valid (ByteRange.holds_tail_iff.mp third)
    · have first : 0xf0 ≤ a.toNat ∧ a.toNat ≤ 0xf4 := by omega
      obtain ⟨range, known, allows⟩ := Decoder.lead?_three first.1 first.2
      rw [known, Option.some.injEq, Prod.mk.injEq] at lead
      obtain ⟨rfl, rfl⟩ := lead
      rcases pays with _ | ⟨second, _ | ⟨third, _ | ⟨fourth, _ | _⟩⟩⟩
      obtain ⟨second, long, valid⟩ := (allows _).mp second
      exact encode_four first second long valid (ByteRange.holds_tail_iff.mp third)
        (ByteRange.holds_tail_iff.mp fourth)

/-! ### An encoding is completed -/

theorem exists_byte {n : Nat} (small : n < 0x100) : ∃ b : UInt8, UInt8.ofNat n = b ∧ b.toNat = n :=
  ⟨_, rfl, UInt8.toNat_ofNat_of_lt' small⟩

theorem not_small {b : UInt8} (big : 0x80 ≤ b.toNat) : ¬ b < 0x80 :=
  UInt8.not_lt.mpr (UInt8.le_iff_toNat_le.mpr big)

/-- On the encoding of a character the decoder completes that character. -/
theorem completes_encode (v : Char) : Decoder.Completes .idle (String.utf8EncodeChar v) v := by
  have valid : v.toNat < 0xd800 ∨ 0xdfff < v.toNat ∧ v.toNat < 0x110000 := v.valid
  rw [Decoder.completes_idle_iff, encode_eq]
  by_cases one : v.toNat ≤ 0x7f
  · obtain ⟨a, first, value⟩ := exists_byte (n := v.toNat) (by omega)
    rw [if_pos one, first]
    have small : a < 0x80 := UInt8.lt_iff_toNat_lt.mpr (by rw [value]; exact Nat.lt_succ_of_le one)
    exact .inl ⟨a, small, rfl, by rw [value, Char.ofNat_toNat]⟩
  rw [if_neg one]
  right
  by_cases two : v.toNat ≤ 0x7ff
  · obtain ⟨a, first, ha⟩ := exists_byte (n := v.toNat / 64 % 32 + 192) (by omega)
    obtain ⟨b, second, hb⟩ := exists_byte (n := v.toNat % 64 + 128) (by omega)
    have code : Decoder.codeWith (a.toNat - 0xc0) [b] = v.toNat := by
      simp only [Decoder.codeWith, List.foldl_cons, List.foldl_nil]
      omega
    rw [if_pos two, first, second]
    exact ⟨a, _, _, [b], not_small (by omega), Decoder.lead?_one (by omega) (by omega), rfl,
      .cons (ByteRange.holds_tail_iff.mpr (by omega)) .nil, by rw [code, Char.ofNat_toNat]⟩
  rw [if_neg two]
  by_cases three : v.toNat ≤ 0xffff
  · obtain ⟨a, first, ha⟩ := exists_byte (n := v.toNat / 4096 % 16 + 224) (by omega)
    obtain ⟨b, second, hb⟩ := exists_byte (n := v.toNat / 64 % 64 + 128) (by omega)
    obtain ⟨c, third, hc⟩ := exists_byte (n := v.toNat % 64 + 128) (by omega)
    have code : Decoder.codeWith (a.toNat - 0xe0) [b, c] = v.toNat := by
      simp only [Decoder.codeWith, List.foldl_cons, List.foldl_nil]
      omega
    obtain ⟨range, lead, allows⟩ := Decoder.lead?_two (b := a) (by omega) (by omega)
    rw [if_pos three, first, second, third]
    exact ⟨a, _, _, [b, c], not_small (by omega), lead, rfl,
      .cons ((allows b).mpr (by omega)) (.cons (ByteRange.holds_tail_iff.mpr (by omega)) .nil),
      by rw [code, Char.ofNat_toNat]⟩
  · obtain ⟨a, first, ha⟩ := exists_byte (n := v.toNat / 262144 % 8 + 240) (by omega)
    obtain ⟨b, second, hb⟩ := exists_byte (n := v.toNat / 4096 % 64 + 128) (by omega)
    obtain ⟨c, third, hc⟩ := exists_byte (n := v.toNat / 64 % 64 + 128) (by omega)
    obtain ⟨d, fourth, hd⟩ := exists_byte (n := v.toNat % 64 + 128) (by omega)
    have code : Decoder.codeWith (a.toNat - 0xf0) [b, c, d] = v.toNat := by
      simp only [Decoder.codeWith, List.foldl_cons, List.foldl_nil]
      omega
    obtain ⟨range, lead, allows⟩ := Decoder.lead?_three (b := a) (by omega) (by omega)
    rw [if_neg three, first, second, third, fourth]
    exact ⟨a, _, _, [b, c, d], not_small (by omega), lead, rfl,
      .cons ((allows b).mpr (by omega)) (.cons (ByteRange.holds_tail_iff.mpr (by omega))
        (.cons (ByteRange.holds_tail_iff.mpr (by omega)) .nil)),
      by rw [code, Char.ofNat_toNat]⟩

/-! ### Runs of bytes -/

namespace Decoder

/-- Bytes that complete a character give it first; then the decoder starts over. -/
theorem run_of_completes {d : Decoder} {front : List UInt8} {c : Char} (completes : d.Completes front c)
    (rest : List UInt8) :
    d.run (front ++ rest) = (c :: (idle.run rest).1, (idle.run rest).2) := by
  induction completes with
  | last done => rw [List.singleton_append, run, done]
  | more done _ ih =>
      rw [List.cons_append, run, done]
      exact ih

/-- The encoding of characters gives these characters first. -/
theorem run_encode (cs : List Char) (rest : List UInt8) :
    idle.run (cs.flatMap String.utf8EncodeChar ++ rest) =
      (cs ++ (idle.run rest).1, (idle.run rest).2) := by
  induction cs with
  | nil => rfl
  | cons c cs ih =>
      rw [List.flatMap_cons, List.append_assoc, run_of_completes (completes_encode c), ih]
      rfl

/-- Bytes that arrive later are taken by the decoder that those before them have left, unless they
    were refused. -/
theorem run_append (d : Decoder) (bytes more : List UInt8) :
    d.run (bytes ++ more) =
      match d.run bytes with
      | (cs, .waiting next) => (cs ++ (next.run more).1, (next.run more).2)
      | (cs, .refused bad) => (cs, .refused bad) := by
  induction bytes generalizing d with
  | nil => rfl
  | cons b bytes ih =>
      rw [List.cons_append, run, run]
      cases d.step b with
      | more next => exact ih next
      | invalid bad => rfl
      | char c =>
          dsimp only
          rw [ih idle]
          cases idle.run bytes with
          | mk cs left => cases left <;> rfl

/-- A decoder that waits for more has kept the byte, and knows what it waits for. -/
theorem step_more {d next : Decoder} {b : UInt8} (between : d.owed = [] → d.taken = [])
    (stepped : d.step b = .more next) : next.taken = d.taken ++ [b] ∧ next.owed ≠ [] := by
  obtain ⟨taken, code, owed⟩ := d
  cases owed with
  | nil =>
      obtain rfl : taken = [] := between rfl
      rw [step_first] at stepped
      split at stepped
      · cases stepped
      · split at stepped
        · rename_i lead
          cases stepped
          exact ⟨rfl, lead?_owes lead⟩
        · cases stepped
  | cons range owed =>
      cases owed with
      | nil =>
          rw [step_last] at stepped
          split at stepped <;> cases stepped
      | cons following owed =>
          rw [step_next] at stepped
          split at stepped
          · cases stepped
            exact ⟨rfl, List.cons_ne_nil _ _⟩
          · cases stepped

/-- Either a character is completed, or all bytes are kept as the beginning of one unless they are
    refused. -/
theorem run_cases (d : Decoder) (between : d.owed = [] → d.taken = []) (bytes : List UInt8) :
    (∃ front rest c, bytes = front ++ rest ∧ d.Completes front c) ∨
    ((d.run bytes).1 = [] ∧
      ∀ next, (d.run bytes).2 = .waiting next → next.taken = d.taken ++ bytes) := by
  induction bytes generalizing d with
  | nil =>
      right
      exact ⟨rfl, by rintro next ⟨⟩; simp⟩
  | cons b bytes ih =>
      cases stepped : d.step b with
      | char c => exact .inl ⟨[b], bytes, c, rfl, .last stepped⟩
      | invalid bad =>
          right
          rw [run, stepped]
          exact ⟨rfl, by rintro next ⟨⟩⟩
      | more next =>
          obtain ⟨grown, owes⟩ := step_more between stepped
          rcases ih next (fun none => absurd none owes) with
            ⟨front, rest, c, rfl, completes⟩ | ⟨none, kept⟩
          · exact .inl ⟨b :: front, rest, c, rfl, .more stepped completes⟩
          · right
            rw [run, stepped]
            refine ⟨none, ?_⟩
            intro last left
            rw [kept last left, grown, List.append_assoc, List.singleton_append]

/-- The bytes are the encoding of the characters they give, and behind it, if none was refused, those
    that are kept as the beginning of another character. -/
theorem run_splits (bytes : List UInt8) :
    ∃ rest, bytes = (idle.run bytes).1.flatMap String.utf8EncodeChar ++ rest ∧
      ∀ next, (idle.run bytes).2 = .waiting next → next.taken = rest := by
  rcases run_cases idle (fun _ => rfl) bytes with ⟨front, rest, c, rfl, completes⟩ | ⟨none, kept⟩
  · have shorter : rest.length < (front ++ rest).length := by
      have nonempty : 0 < front.length := by
        cases completes <;> exact Nat.succ_pos _
      rw [List.length_append]
      omega
    obtain ⟨left, splits, kept⟩ := run_splits rest
    rw [run_of_completes completes]
    refine ⟨left, ?_, kept⟩
    dsimp only
    rw [List.flatMap_cons, encode_of_completes completes, List.append_assoc, ← splits]
  · exact ⟨bytes, by simp [none], fun next left => kept next left⟩
termination_by bytes.length

end Decoder

end Text

end Duplex
