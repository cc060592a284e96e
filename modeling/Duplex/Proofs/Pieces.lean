/-
Module: Duplex.Proofs.Pieces
Purpose: Characters from the answers of a decoder.  A decoder is only known to answer with text in
  pieces and then, unless the bytes end with it, with the first bytes that are none or with why they
  cannot be read.  The characters of its answers then are the longest text that the bytes begin with,
  whatever chunks they arrive in, and the fault behind them is met when the last of them is taken.
Main exports: Text.LongestText, Text.Ends, Text.Decodes, Text.Decodes.unique,
  Text.ByteSource.pieces_decodes, Text.bufferedChars_ofBytes, characters_ofBytes
-/
import Duplex.Proofs.Bytes

namespace Duplex

namespace Text

variable {bytes rest : List UInt8} {chars : List Char}

/-! ### Texts at the front of bytes -/

/-- No encoding begins another one: bytes have one first character, and one rest behind it. -/
theorem encode_append_inj {c d : Char} {front behind : List UInt8}
    (same : String.utf8EncodeChar c ++ front = String.utf8EncodeChar d ++ behind) :
    c = d ∧ front = behind := by
  have first := Decoder.run_of_completes (completes_encode c) front
  rw [same, Decoder.run_of_completes (completes_encode d) behind] at first
  obtain rfl : c = d := by
    rw [Prod.mk.injEq, List.cons.injEq] at first
    exact first.1.1.symm
  exact ⟨rfl, List.append_cancel_left same⟩

/-- No character stands at the front of the bytes. -/
def Textless (bytes : List UInt8) : Prop :=
  ∀ c, ¬ String.utf8EncodeChar c <+: bytes

theorem textless_nil : Textless [] := by
  intro c none
  have run := Decoder.run_of_completes (completes_encode c) []
  rw [List.prefix_nil.mp none] at run
  cases run

/-- The characters whose encoding the bytes begin with, as many as there are. -/
structure LongestText (bytes : List UInt8) (chars : List Char) : Prop where
  begins : chars.flatMap String.utf8EncodeChar <+: bytes
  longest : ∀ other : List Char, other.flatMap String.utf8EncodeChar <+: bytes → other <+: chars

namespace LongestText

theorem unique {other : List Char} (first : LongestText bytes chars)
    (second : LongestText bytes other) : chars = other :=
  (second.longest chars first.begins).eq_of_length_le
    (first.longest other second.begins).length_le

theorem of_textless (textless : Textless bytes) : LongestText bytes [] := by
  refine ⟨List.nil_prefix, fun other begins => ?_⟩
  cases other with
  | nil => exact List.prefix_rfl
  | cons c other =>
      rw [List.flatMap_cons] at begins
      exact absurd ((List.prefix_append _ _).trans begins) (textless c)

/-- A character in front of the bytes is in front of their text. -/
theorem cons (longest : LongestText rest chars) (c : Char) :
    LongestText (String.utf8EncodeChar c ++ rest) (c :: chars) := by
  constructor
  · rw [List.flatMap_cons]
    exact (List.prefix_append_right_inj _).mpr longest.begins
  · intro other begins
    cases other with
    | nil => exact List.nil_prefix
    | cons d other =>
        obtain ⟨behind, same⟩ := begins
        rw [List.flatMap_cons, List.append_assoc] at same
        obtain ⟨rfl, left⟩ := encode_append_inj same
        exact List.cons_prefix_cons.mpr ⟨rfl, longest.longest other ⟨behind, left⟩⟩

theorem append (longest : LongestText rest chars) (front : List Char) :
    LongestText (front.flatMap String.utf8EncodeChar ++ rest) (front ++ chars) := by
  induction front with
  | nil => exact longest
  | cons c front ih =>
      rw [List.flatMap_cons, List.append_assoc]
      exact ih.cons c

/-- Bytes that are the encoding of characters are the text of these. -/
theorem of_encode (chars : List Char) :
    LongestText (chars.flatMap String.utf8EncodeChar) chars := by
  have whole := (of_textless textless_nil).append chars
  rwa [List.append_nil, List.append_nil] at whole

end LongestText

/-! ### What a decoder does -/

/-- The bytes begin a character, or are one. -/
def Begun (bytes : List UInt8) : Prop :=
  ∃ c, bytes <+: String.utf8EncodeChar c

theorem Begun.of_prefix {front : List UInt8} (begun : Begun bytes) (isPrefix : front <+: bytes) :
    Begun front :=
  begun.imp fun _ within => isPrefix.trans within

theorem begun_nil : Begun [] :=
  ⟨'a', List.nil_prefix⟩

/-- Bytes of no text in front of others: as many as could still begin a character, and one byte where
    the first one does not begin any. -/
structure IsInvalid (bytes bad : List UInt8) : Prop where
  textless : Textless bytes
  stuck : ¬ Begun bytes
  front : bad <+: bytes
  some : bad ≠ []
  fits : bad.length = 1 ∨ Begun bad
  longest : ∀ other, other <+: bytes → Begun other → other <+: bad

namespace IsInvalid

variable {bad other : List UInt8}

theorem length_le (first : IsInvalid bytes bad) (second : IsInvalid bytes other) :
    bad.length ≤ other.length := by
  rcases first.fits with single | begun
  · rw [single]
    exact List.length_pos_iff.mpr second.some
  · exact (second.longest bad first.front begun).length_le

theorem unique (first : IsInvalid bytes bad) (second : IsInvalid bytes other) : bad = other := by
  have within : bad <+: other :=
    List.prefix_of_prefix_length_le first.front second.front (first.length_le second)
  exact within.eq_of_length_le (second.length_le first)

end IsInvalid

/-- What comes behind the text of bytes, with what follows the bytes: nothing, bytes that cannot be
    read on, a character that is cut short, or bytes that belong to none. -/
inductive Ends : Closing → List UInt8 → Option ByteFault → Prop
  | done : Ends .finished [] none
  | broken {left : List UInt8} {message : String} (textless : Textless left) (begun : Begun left) :
      Ends (.broken message) left (some (.device message))
  | truncated {left : List UInt8} (textless : Textless left) (begun : Begun left) (some : left ≠ []) :
      Ends .finished left (.some (.invalid left))
  | invalid {closing : Closing} {left bad : List UInt8} (isInvalid : IsInvalid left bad) :
      Ends closing left (some (.invalid bad))

namespace Ends

variable {closing : Closing} {fault other : Option ByteFault}

theorem textless (ends : Ends closing bytes fault) : Textless bytes := by
  cases ends with
  | done => exact textless_nil
  | broken textless => exact textless
  | truncated textless => exact textless
  | invalid isInvalid => exact isInvalid.textless

/-- Nothing is wrong just with bytes that end in time and are all text. -/
theorem eq_none_iff (ends : Ends closing bytes fault) :
    fault = none ↔ closing = .finished ∧ bytes = [] := by
  cases ends with
  | done => simp
  | broken => simp
  | truncated _ _ some => simp [some]
  | invalid isInvalid =>
      simp only [reduceCtorEq, false_iff, not_and]
      rintro _ rfl
      exact isInvalid.stuck begun_nil

theorem unique (first : Ends closing bytes fault) (second : Ends closing bytes other) :
    fault = other := by
  cases first with
  | done => exact (second.eq_none_iff.mpr ⟨rfl, rfl⟩).symm
  | broken _ begun =>
      cases second with
      | broken => rfl
      | invalid isInvalid => exact absurd begun isInvalid.stuck
  | truncated _ begun some =>
      cases second with
      | done => exact absurd rfl some
      | truncated => rfl
      | invalid isInvalid => exact absurd begun isInvalid.stuck
  | invalid isInvalid =>
      cases second with
      | done => exact absurd begun_nil isInvalid.stuck
      | broken _ begun => exact absurd begun isInvalid.stuck
      | truncated _ begun => exact absurd begun isInvalid.stuck
      | invalid isInvalid' => rw [isInvalid.unique isInvalid']

end Ends

/-- What is documented of the answers of a decoder of bytes.  It answers with text that the bytes begin
    with, piece by piece, and has no more answer where the bytes end with it.  Otherwise it answers
    with what is wrong with the bytes behind the text; of its answers behind that nothing is known. -/
inductive Decodes (closing : Closing) : List UInt8 → List Piece → Prop
  | text {left : List UInt8} {pieces : List Piece} (piece : List Char)
      (others : Decodes closing left pieces) :
      Decodes closing (piece.flatMap String.utf8EncodeChar ++ left) (.text piece :: pieces)
  | fault {left : List UInt8} {cause : ByteFault} (ends : Ends closing left (some cause))
      (behind : List Piece) : Decodes closing left (.fault cause :: behind)
  | ended {left : List UInt8} (ends : Ends closing left none) : Decodes closing left []

namespace Decodes

variable {closing : Closing} {pieces other : List Piece}

/-- The characters of the answers are in front of the bytes, and the fault is about what is behind
    them. -/
theorem splits (decodes : Decodes closing bytes pieces) :
    ∃ rest, bytes = (bufferedChars pieces).1.flatMap String.utf8EncodeChar ++ rest ∧
      Ends closing rest (bufferedChars pieces).2 := by
  induction decodes with
  | text chars others ih =>
      obtain ⟨behind, rfl, ends⟩ := ih
      refine ⟨behind, ?_, ends⟩
      rw [bufferedChars, List.flatMap_append, List.append_assoc]
  | fault ends behind => exact ⟨_, rfl, ends⟩
  | ended ends => exact ⟨_, rfl, ends⟩

theorem longest (decodes : Decodes closing bytes pieces) :
    LongestText bytes (bufferedChars pieces).1 := by
  obtain ⟨rest, split, ends⟩ := decodes.splits
  have whole := (LongestText.of_textless ends.textless).append (bufferedChars pieces).1
  rwa [← split, List.append_nil] at whole

/-- Nothing is wrong just with bytes that end in time and are all text. -/
theorem sound_iff (decodes : Decodes closing bytes pieces) :
    (bufferedChars pieces).2 = none ↔
      closing = .finished ∧ bytes = (bufferedChars pieces).1.flatMap String.utf8EncodeChar := by
  obtain ⟨rest, split, ends⟩ := decodes.splits
  have whole : rest = [] ↔ bytes = (bufferedChars pieces).1.flatMap String.utf8EncodeChar := by
    conv_rhs => lhs; rw [split]
    exact List.append_right_eq_self.symm
  rw [ends.eq_none_iff, whole]

/-- All decoders that do as is documented give the same characters and the same fault, for the same
    bytes in whatever chunks. -/
theorem unique (first : Decodes closing bytes pieces) (second : Decodes closing bytes other) :
    bufferedChars pieces = bufferedChars other := by
  have chars := first.longest.unique second.longest
  obtain ⟨rest, split, ends⟩ := first.splits
  obtain ⟨rest', split', ends'⟩ := second.splits
  rw [split, chars] at split'
  obtain rfl := List.append_cancel_left split'
  exact Prod.ext chars (ends.unique ends')

/-- An empty piece is left out. -/
theorem ofChars (others : Decodes closing rest pieces) (chars : List Char) :
    Decodes closing (chars.flatMap String.utf8EncodeChar ++ rest) (Piece.ofChars chars ++ pieces) := by
  cases chars with
  | nil => exact others
  | cons c chars => exact .text (c :: chars) others

end Decodes

/-! ### The decoder for UTF-8 -/

theorem textless_of_run {left : Decoder.Rest} (run : Decoder.idle.run bytes = ([], left)) :
    Textless bytes := by
  rintro c ⟨behind, rfl⟩
  rw [Decoder.run_of_completes (completes_encode c)] at run
  cases run

/-- Refused bytes could begin no character. -/
theorem not_begun_of_run {bad : List UInt8} (run : Decoder.idle.run bytes = ([], .refused bad)) :
    ¬ Begun bytes := by
  rintro ⟨c, behind, same⟩
  have whole := Decoder.run_of_completes (completes_encode c) []
  rw [List.append_nil, ← same, Decoder.run_append, run] at whole
  cases whole

namespace Decoder

/-- A decoder inside a character, or between two: it remembers what it has taken, and what it owes can
    be paid. -/
structure Midway (d : Decoder) : Prop where
  taken : idle.run d.taken = ([], .waiting d)
  between : d.owed = [] → d.taken = []
  payable : ∀ range ∈ d.owed, range.low ≤ range.high

theorem midway_idle : idle.Midway :=
  ⟨rfl, fun _ => rfl, nofun⟩

theorem lead?_payable {b : UInt8} {code : Nat} {owed : List ByteRange}
    (lead : lead? b = some (code, owed)) : ∀ range ∈ owed, range.low ≤ range.high := by
  simp only [lead?] at lead
  split_ifs at lead
  all_goals
    rw [Option.some.injEq, Prod.mk.injEq] at lead
    obtain ⟨_, rfl⟩ := lead
    simp [ByteRange.tail]

theorem step_payable {d next : Decoder} {b : UInt8}
    (payable : ∀ range ∈ d.owed, range.low ≤ range.high) (stepped : d.step b = .more next) :
    ∀ range ∈ next.owed, range.low ≤ range.high := by
  obtain ⟨taken, code, owed⟩ := d
  cases owed with
  | nil =>
      rw [step_first] at stepped
      split at stepped
      · cases stepped
      · split at stepped
        · rename_i lead
          cases stepped
          exact lead?_payable lead
        · cases stepped
  | cons range owed =>
      cases owed with
      | nil =>
          rw [step_last] at stepped
          split at stepped <;> cases stepped
      | cons following owed =>
          rw [step_next] at stepped
          split at stepped
          · cases stepped
            exact fun other mem => payable other (List.mem_cons_of_mem range mem)
          · cases stepped

theorem Midway.step {d next : Decoder} (midway : d.Midway) {b : UInt8}
    (stepped : d.step b = .more next) : next.Midway := by
  obtain ⟨grown, owes⟩ := step_more midway.between stepped
  refine ⟨?_, fun none => absurd none owes, step_payable midway.payable stepped⟩
  rw [grown, run_append, midway.taken]
  dsimp only
  rw [run, stepped]
  rfl

theorem Midway.run {d next : Decoder} (midway : d.Midway) {chars : List Char}
    (run : d.run bytes = (chars, .waiting next)) : next.Midway := by
  induction bytes generalizing d chars with
  | nil =>
      cases run
      exact midway
  | cons b bytes ih =>
      rw [Decoder.run] at run
      cases stepped : d.step b with
      | more mid =>
          rw [stepped] at run
          exact ih (midway.step stepped) run
      | char c =>
          rw [stepped, Prod.mk.injEq] at run
          exact ih midway_idle (Prod.ext rfl run.2)
      | invalid bad =>
          rw [stepped] at run
          cases run

/-- What completes a character behind bytes that do not yet complete it. -/
theorem Completes.behind {d next : Decoder} {front bytes : List UInt8} {c : Char}
    (completes : next.Completes bytes c) (run : d.run front = ([], .waiting next)) :
    d.Completes (front ++ bytes) c := by
  induction front generalizing d with
  | nil =>
      cases run
      exact completes
  | cons b front ih =>
      rw [Decoder.run] at run
      cases stepped : d.step b with
      | more mid =>
          rw [stepped] at run
          exact .more stepped (ih run)
      | char c =>
          rw [stepped] at run
          cases run
      | invalid bad =>
          rw [stepped] at run
          cases run

/-- What a decoder has taken begins a character. -/
theorem Midway.begun {d : Decoder} (midway : d.Midway) : Begun d.taken := by
  obtain ⟨taken, code, owed⟩ := d
  cases owed with
  | nil =>
      rw [show taken = [] from midway.between rfl]
      exact begun_nil
  | cons range owed =>
      have pays : Pays (range :: owed) ((range :: owed).map ByteRange.low) := by
        rw [Pays, List.forall₂_map_right_iff, List.forall₂_same]
        intro other mem
        exact ByteRange.holds_iff.mpr
          ⟨Nat.le_refl _, UInt8.le_iff_toNat_le.mp (midway.payable other mem)⟩
      have completes := (completes_owed_iff.mpr ⟨pays, rfl⟩).behind midway.taken
      exact ⟨_, by rw [encode_of_completes completes]; exact List.prefix_append _ _⟩

/-- Bytes are refused at a byte that the bytes before it cannot be followed by. -/
theorem exists_refusing {d : Decoder} {bad : List UInt8} (run : d.run bytes = ([], .refused bad)) :
    ∃ front b behind next, bytes = front ++ b :: behind ∧ d.run front = ([], .waiting next) ∧
      next.step b = .invalid bad := by
  induction bytes generalizing d with
  | nil => cases run
  | cons b bytes ih =>
      rw [Decoder.run] at run
      cases stepped : d.step b with
      | more mid =>
          rw [stepped] at run
          obtain ⟨front, c, behind, next, rfl, ran, refused⟩ := ih run
          exact ⟨b :: front, c, behind, next, rfl, by rw [Decoder.run, stepped]; exact ran, refused⟩
      | char c =>
          rw [stepped] at run
          cases run
      | invalid bytes =>
          rw [stepped] at run
          cases run
          exact ⟨[], b, _, d, rfl, rfl, stepped⟩

/-- A first byte is refused by itself, any other one by what was taken before it. -/
theorem step_invalid {d : Decoder} {b : UInt8} {bad : List UInt8}
    (stepped : d.step b = .invalid bad) :
    (d.owed = [] ∧ bad = [b]) ∨ (d.owed ≠ [] ∧ bad = d.taken) := by
  obtain ⟨taken, code, owed⟩ := d
  cases owed with
  | nil =>
      rw [step_first] at stepped
      split at stepped
      · cases stepped
      · split at stepped
        · cases stepped
        · cases stepped
          exact .inl ⟨rfl, rfl⟩
  | cons range owed =>
      refine .inr ⟨List.cons_ne_nil _ _, ?_⟩
      cases owed with
      | nil =>
          rw [step_last] at stepped
          split at stepped <;> cases stepped
          rfl
      | cons following owed =>
          rw [step_next] at stepped
          split at stepped <;> cases stepped
          rfl

/-- A decoder that waits behind bytes that complete no character has taken them all. -/
theorem taken_of_run {d : Decoder} (ran : idle.run bytes = ([], .waiting d)) : d.taken = bytes := by
  obtain ⟨rest, split, kept⟩ := run_splits bytes
  rw [ran] at split kept
  rw [kept d rfl, split]
  rfl

/-- Refused bytes are those that could still begin a character. -/
theorem isInvalid_of_run {bad : List UInt8} (refused : idle.run bytes = ([], .refused bad)) :
    IsInvalid bytes bad := by
  have textless := textless_of_run refused
  have stuck := not_begun_of_run refused
  obtain ⟨front, b, behind, d, rfl, ran, stepped⟩ := exists_refusing refused
  have midway := midway_idle.run ran
  obtain rfl : d.taken = front := taken_of_run ran
  have unfit : ¬ Begun (d.taken ++ [b]) := by
    refine not_begun_of_run (?_ : idle.run _ = ([], .refused bad))
    rw [run_append, ran]
    dsimp only
    rw [run, stepped]
    rfl
  have shorter : ∀ other, other <+: d.taken ++ b :: behind → Begun other → other <+: d.taken :=
    fun _ begins begun =>
      prefix_of_unfit (fun within whole => whole.of_prefix within) unfit begins begun
  rcases step_invalid stepped with ⟨none, rfl⟩ | ⟨owes, rfl⟩
  · have first := midway.between none
    rw [first] at textless stuck shorter ⊢
    exact ⟨textless, stuck, ⟨behind, rfl⟩, List.cons_ne_nil _ _, .inl rfl,
      fun other begins begun => (shorter other begins begun).trans List.nil_prefix⟩
  · have some : d.taken ≠ [] := by
      intro none
      have start := midway.taken
      rw [none] at start
      cases start
      exact owes rfl
    exact ⟨textless, stuck, List.prefix_append _ _, some, .inr midway.begun, shorter⟩

end Decoder

namespace ByteSource

theorem piecesFrom_decodes {d : Decoder} (midway : d.Midway) (closing : Closing)
    (chunks : List (List UInt8)) :
    Decodes closing (d.taken ++ chunks.flatten) (piecesFrom d closing chunks) := by
  induction chunks generalizing d with
  | nil =>
      rw [List.flatten_nil, List.append_nil]
      have textless := textless_of_run midway.taken
      cases closing with
      | broken message => exact .fault (.broken textless midway.begun) []
      | finished =>
          rw [piecesFrom]
          split
          · rename_i none
            rw [List.isEmpty_iff.mp none]
            exact .ended .done
          · rename_i some
            exact .fault (.truncated textless midway.begun fun none => some (by rw [none]; rfl)) []
  | cons chunk chunks ih =>
      cases run : d.run chunk with
      | mk chars left =>
          have whole : Decoder.idle.run (d.taken ++ chunk) = (chars, left) := by
            rw [Decoder.run_append, midway.taken]
            dsimp only
            rw [run]
            rfl
          obtain ⟨rest, split, kept⟩ := Decoder.run_splits (d.taken ++ chunk)
          rw [whole] at split kept
          rw [piecesFrom, run, List.flatten_cons, ← List.append_assoc, split, List.append_assoc]
          cases left with
          | waiting next =>
              rw [← kept next rfl]
              exact (ih (midway.run run)).ofChars chars
          | refused bad =>
              have refused : Decoder.idle.run rest = ([], .refused bad) := by
                rw [split, Decoder.run_encode, Prod.mk.injEq, List.append_right_eq_self] at whole
                exact Prod.ext whole.1 whole.2
              have further : Decoder.idle.run (rest ++ chunks.flatten) = ([], .refused bad) := by
                rw [Decoder.run_append, refused]
              have ends : Ends closing (rest ++ chunks.flatten) (some (.invalid bad)) :=
                .invalid (Decoder.isInvalid_of_run further)
              exact (Decodes.fault ends []).ofChars chars

/-- The decoder for UTF-8 answers as is documented. -/
theorem pieces_decodes (source : ByteSource) :
    Decodes source.closing source.chunks.flatten source.pieces :=
  piecesFrom_decodes Decoder.midway_idle source.closing source.chunks

end ByteSource

/-! ### Bytes in chunks -/

theorem flatten_chunked {size : Nat} (positive : 1 ≤ size) (bytes : List UInt8) :
    (chunked size bytes).flatten = bytes := by
  fun_induction chunked size bytes with
  | case1 => rfl
  | case2 b rest zero => omega
  | case3 b rest some ih =>
      rw [List.flatten_cons, ih, List.cons_append, List.take_append_drop]

/-- The bytes that arrive before reading them fails. -/
def arriving (bytes : List UInt8) : Option Nat → List UInt8
  | some n => bytes.take n
  | none => bytes

/-- Whether reading the bytes fails before their end is noticed. -/
def failing (bytes : List UInt8) (failAt : Option Nat) : Bool :=
  failAt.any fun n => n ≤ bytes.length

/-- What comes after the bytes. -/
def closingOf (bytes : List UInt8) (failAt : Option Nat) (message : String) : Closing :=
  if failing bytes failAt then .broken message else .finished

theorem arriving_eq {bytes : List UInt8} {failAt : Option Nat}
    (unfailing : failing bytes failAt = false) : arriving bytes failAt = bytes := by
  cases failAt with
  | none => rfl
  | some n =>
      have late : bytes.length < n := by simpa [failing] using unfailing
      exact List.take_of_length_le (Nat.le_of_lt late)

theorem closingOf_eq_finished_iff {bytes : List UInt8} {failAt : Option Nat} {message : String} :
    closingOf bytes failAt message = .finished ↔ failing bytes failAt = false := by
  unfold closingOf
  cases failing bytes failAt <;> simp

/-- Whatever the size of the chunks, all bytes arrive that come before reading them fails. -/
theorem ByteSource.ofBytes_arrive (bytes : List UInt8) {size : Nat} (positive : 1 ≤ size)
    (failAt : Option Nat) (message : String) :
    (ofBytes bytes size failAt message).chunks.flatten = arriving bytes failAt ∧
      (ofBytes bytes size failAt message).closing = closingOf bytes failAt message := by
  unfold ofBytes
  rw [if_neg (by omega)]
  cases failAt with
  | none => exact ⟨flatten_chunked positive bytes, rfl⟩
  | some n =>
      dsimp only
      by_cases early : n ≤ bytes.length
      · rw [if_pos early]
        exact ⟨flatten_chunked positive _, by simp [closingOf, failing, early]⟩
      · rw [if_neg early]
        refine ⟨?_, by simp [closingOf, failing, early]⟩
        rw [flatten_chunked positive]
        exact (List.take_of_length_le (Nat.le_of_not_le early)).symm

/-- Chunks do not matter: the characters are those of the longest text, and the fault is absent just if
    nothing fails and the bytes are all of that text. -/
theorem bufferedChars_ofBytes (decoder : ByteSource → List Piece)
    (documented : ∀ source : ByteSource,
      Decodes source.closing source.chunks.flatten (decoder source))
    (bytes : List UInt8) (failAt : Option Nat) (message : String) :
    ∃ chars ending, LongestText (arriving bytes failAt) chars ∧
      (ending = none ↔
        failing bytes failAt = false ∧ bytes = chars.flatMap String.utf8EncodeChar) ∧
      ∀ size, 1 ≤ size →
        bufferedChars (decoder (.ofBytes bytes size failAt message)) = (chars, ending) := by
  have answers : ∀ size, 1 ≤ size → Decodes (closingOf bytes failAt message)
      (arriving bytes failAt) (decoder (.ofBytes bytes size failAt message)) := by
    intro size positive
    obtain ⟨arrive, closes⟩ := ByteSource.ofBytes_arrive bytes positive failAt message
    have decodes := documented (.ofBytes bytes size failAt message)
    rwa [arrive, closes] at decodes
  have first := answers 1 (Nat.le_refl 1)
  refine ⟨_, _, first.longest, ?_, fun size positive => (answers size positive).unique first⟩
  rw [first.sound_iff, closingOf_eq_finished_iff]
  refine and_congr_right fun unfailing => ?_
  rw [arriving_eq unfailing]

/-- A text is stored as the encoding of its characters. -/
theorem toUTF8_eq_encode (text : String) :
    text.toUTF8.data.toList = text.toList.flatMap String.utf8EncodeChar := by
  change text.toByteArray.data.toList = _
  rw [← String.utf8Encode_toList, List.utf8Encode, List.data_toByteArray]

end Text

/-! ### Feeds of bytes -/

namespace Characters

theorem advance_drained {s : Characters} (drained : s.drained = true) (n : Nat) :
    Feed.advance n s = s := by
  induction n with
  | zero => rfl
  | succ n ih =>
      have stays : (Feed.consume s).feed = s := by simp [Feed.consume, drained]
      rw [Feed.advance, stays, ih]

/-- A fault is met with the last character, and not before it. -/
theorem fault_advance {s : Characters} (drained : s.drained = false) (clean : s.fault = none)
    (n : Nat) :
    if n ≤ s.rest.length then (Feed.advance n s).fault = none
    else (Feed.advance n s).fault = s.ending ∧ (Feed.advance n s).drained = true := by
  obtain ⟨rest, ending, held, _, _⟩ := s
  subst drained clean
  induction rest generalizing held n with
  | nil =>
      cases n with
      | zero => rfl
      | succ n =>
          rw [if_neg (by simp), Feed.advance]
          cases ending with
          | none =>
              have stays := advance_drained (s := ⟨[], none, held, true, none⟩) rfl n
              exact ⟨congrArg fault stays, congrArg Characters.drained stays⟩
          | some cause =>
              have stays := advance_drained (s := ⟨[], none, held, true, some cause⟩) rfl n
              exact ⟨congrArg fault stays, congrArg Characters.drained stays⟩
  | cons c rest ih =>
      cases n with
      | zero => rfl
      | succ n =>
          have later := ih n c
          simp only [List.length_cons, Nat.add_le_add_iff_right]
          exact later

section Made

variable {pieces : List Text.Piece} {chars : List Char} {ending : Option Text.ByteFault}

theorem ofPieces_eq_emptyInput_iff (buffered : Text.bufferedChars pieces = (chars, ending)) :
    ofPieces pieces = .error .emptyInput ↔ chars = [] ∧ ending = none := by
  rw [ofPieces, buffered]
  cases chars with
  | nil => cases ending <;> simp [ofChars]
  | cons c chars => simp [ofChars]

theorem ofPieces_eq_source (buffered : Text.bufferedChars pieces = (chars, ending))
    (fault : Text.ByteFault) (none : chars = []) (ends : ending = some fault) :
    ofPieces pieces = .error (.source fault.message) := by
  rw [ofPieces, buffered, none, ends]
  rfl

/-- A feed of characters hands them out; the fault behind them is met with the last one, and once it
    was given up there is no other. -/
theorem ofPieces_eq_ok (buffered : Text.bufferedChars pieces = (chars, ending)) (some : chars ≠ []) :
    ∃ s, ofPieces pieces = .ok s ∧ remaining s = chars.map .char ∧
      (∀ n, (Feed.advance n s).fault = if n < chars.length then none else ending) ∧
      ∀ n m, chars.length ≤ n → (Feed.advance m (Feed.advance n s).takeFault.2).fault = none := by
  obtain ⟨c, rest, rfl⟩ := List.exists_cons_of_ne_nil some
  have faults := fault_advance (s := ⟨rest, ending, c, false, none⟩) rfl rfl
  refine ⟨⟨rest, ending, c, false, none⟩, ?_, rfl, ?_, ?_⟩
  · rw [ofPieces, buffered]
    rfl
  · intro n
    have fault := faults n
    simp only [List.length_cons, Nat.lt_succ_iff]
    split at fault
    · rename_i early
      rw [if_pos early, fault]
    · rename_i late
      rw [if_neg late, fault.1]
  · intro n m late
    have fault := faults n
    rw [if_neg (Nat.not_le.mpr late)] at fault
    rw [advance_drained (s := (takeFault _).2) fault.2 m]
    rfl

end Made

end Characters

/-- Whatever the bytes, wherever reading them fails, and whichever decoder answers as is documented,
    what comes of the bytes does not depend on the size of the chunks they arrive in.  The characters
    are those of the longest text that the bytes given begin with; there is no fault if and only if
    nothing fails and the bytes are all of that text.  Without bytes there is no feed, nor where a
    fault comes before the first character; else the feed hands out the characters, and meets the
    fault once, when the last of them is taken. -/
theorem characters_ofBytes (decoder : Text.ByteSource → List Text.Piece)
    (documented : ∀ source : Text.ByteSource,
      Text.Decodes source.closing source.chunks.flatten (decoder source))
    (bytes : List UInt8) (failAt : Option Nat) (message : String) :
    ∃ chars ending,
      Text.LongestText (Text.arriving bytes failAt) chars ∧
      (ending = none ↔
        Text.failing bytes failAt = false ∧ bytes = chars.flatMap String.utf8EncodeChar) ∧
      (∀ text : String, text.toUTF8.data.toList = bytes → Text.failing bytes failAt = false →
        chars = text.toList ∧ ending = none) ∧
      ∀ size, 1 ≤ size →
        let made := Characters.ofPieces (decoder (.ofBytes bytes size failAt message))
        (made = .error .emptyInput ↔ bytes = [] ∧ Text.failing bytes failAt = false) ∧
        (∀ fault, chars = [] → ending = some fault → made = .error (.source fault.message)) ∧
        (chars ≠ [] → ∃ s, made = .ok s ∧ remaining s = chars.map .char ∧
          (∀ n, (Feed.advance n s).fault = if n < chars.length then none else ending) ∧
          ∀ n m, chars.length ≤ n →
            (Feed.advance m (Feed.advance n s).takeFault.2).fault = none) := by
  obtain ⟨chars, ending, longest, whole, buffered⟩ :=
    Text.bufferedChars_ofBytes decoder documented bytes failAt message
  refine ⟨chars, ending, longest, whole, ?_, ?_⟩
  · intro text encoded unfailing
    have all : bytes = text.toList.flatMap String.utf8EncodeChar := by
      rw [← encoded, Text.toUTF8_eq_encode]
    rw [Text.arriving_eq unfailing, all] at longest
    obtain rfl := longest.unique (Text.LongestText.of_encode text.toList)
    exact ⟨rfl, whole.mpr ⟨unfailing, all⟩⟩
  · intro size positive made
    have same := buffered size positive
    refine ⟨?_, Characters.ofPieces_eq_source same, Characters.ofPieces_eq_ok same⟩
    rw [Characters.ofPieces_eq_emptyInput_iff same, whole]
    constructor
    · rintro ⟨none, unfailing, all⟩
      exact ⟨by rw [all, none]; rfl, unfailing⟩
    · rintro ⟨rfl, unfailing⟩
      rw [Text.arriving_eq unfailing] at longest
      obtain rfl := longest.unique (.of_encode [])
      exact ⟨rfl, unfailing, rfl⟩

/-- A character is cut in two by the chunks, and a byte that begins none follows it. -/
theorem characters_ofBytes_cut :
    let source := Text.ByteSource.ofBytes [0x61, 0xe2, 0x82, 0xac, 0xff] 2 none ""
    source.pieces = [.text ['a'], .text ['€'], .fault (.invalid [0xff])] ∧
    ∃ s, Characters.ofPieces source.pieces = .ok s ∧
      remaining s = [.char 'a', .char '€'] ∧
      (Feed.advance 1 s).fault = none ∧ (Feed.advance 2 s).fault ≠ none := by
  intro source
  have chunks : source = ⟨[[0x61, 0xe2], [0x82, 0xac], [0xff]], .finished⟩ := by
    simp [source, Text.ByteSource.ofBytes, Text.chunked]
  have pieces : source.pieces = [.text ['a'], .text ['€'], .fault (.invalid [0xff])] := by
    rw [chunks]
    rfl
  obtain ⟨chars, ending, longest, sound, _, made⟩ :=
    characters_ofBytes Text.ByteSource.pieces Text.ByteSource.pieces_decodes
      [0x61, 0xe2, 0x82, 0xac, 0xff] none ""
  obtain rfl : chars = ['a', '€'] := by
    have decodes := source.pieces_decodes
    rw [pieces, chunks] at decodes
    exact longest.unique decodes.longest
  obtain ⟨_, _, feed⟩ := made 2 (by decide)
  obtain ⟨s, opened, left, faults, _⟩ := feed (by decide)
  refine ⟨pieces, s, opened, left, faults 1, ?_⟩
  rw [faults 2, if_neg (by decide), ne_eq, sound]
  decide

end Duplex
