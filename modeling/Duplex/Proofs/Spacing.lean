/-
Module: Duplex.Proofs.Spacing
Purpose: White space around the words of a list.  A separator reads the white space before it even
  where no separator follows, so that the loop over the words is cut at each word, and what is behind
  the last one is read by the separator that fails.  However the words are spaced, the list is the
  same; it is written without white space.
Main exports: Blank, ListGrammar, ListGrammar.spell, ListGrammar.goesOn_words,
  ListGrammar.reads_list, ListGrammar.reports_list, ListGrammar.spacing_free
-/
import Duplex.Proofs.Joining
import Duplex.Proofs.Repeating
import Duplex.Proofs.Reporting
import Duplex.Proofs.Running
import Mathlib.Algebra.BigOperators.Group.List.Basic

namespace Duplex

namespace Pattern

/-! ### White space and brackets -/

section Brackets

variable {σ : Type} [Feed σ] [LawfulFeed σ] {left right item : Pattern} {l r v : Value}
  {ts us vs rest : List Token} {fuel : Nat}

theorem reads_between (opening : (left.read fuel (σ := σ)).Reads ts (us ++ (vs ++ rest)) (some l))
    (inner : (item.read fuel (σ := σ)).Reads us (vs ++ rest) (some v))
    (closing : (right.read fuel (σ := σ)).Reads vs rest (some r)) :
    ((Pattern.surround (some left) (some right) item).read (fuel + 1) (σ := σ)).Reads
      (ts ++ (us ++ vs)) rest (some v) :=
  Read.reads_surround (opening.map Option.isSome) inner (closing.map Option.isSome)

theorem reads_between_none (right : Pattern)
    (opening : (left.read fuel (σ := σ)).Reads ts (us ++ rest) (some l))
    (inner : (item.read fuel (σ := σ)).Reads us rest none) :
    ((Pattern.surround (some left) (some right) item).read (fuel + 1) (σ := σ)).Reads
      (ts ++ us) rest none :=
  Read.reads_surround_none _ (opening.map Option.isSome) inner

theorem reports_between [StickyFeed σ] {message : String}
    (opening : (left.read fuel (σ := Input σ)).Reads ts (us ++ rest) (some l))
    (inner : (item.read fuel (σ := Input σ)).Reports us rest message (some v))
    (closing : (right.read fuel (σ := Input σ)).Reads [] rest (some r)) :
    ((Pattern.surround (some left) (some right) item).read (fuel + 1) (σ := Input σ)).Reports
      (ts ++ us) rest message (some v) := by
  apply ((opening.map Option.isSome).goesOn _).reports
  apply inner.then_nil
  exact (closing.map Option.isSome).then_nil (Read.reads_pure _ rest)

end Brackets

theorem gives_between {left right item : Pattern} {v : Value} {ts us vs : List Token} {fuel : Nat}
    (opening : (writeBracket (write fuel) left).Gives ts)
    (inner : (item.write fuel v).Gives us)
    (closing : (writeBracket (write fuel) right).Gives vs) :
    ((Pattern.surround (some left) (some right) item).write (fuel + 1) v).Gives
      (ts ++ us ++ vs) := by
  apply opening.bind
  apply inner.bind
  exact closing.bind (Write.gives_pure _)

/-- A description is made without taking anything. -/
theorem reads_describeHere {σ : Type} [Feed σ] [LawfulFeed σ] {p : Pattern} {fuel : Nat}
    {text : String} (rest : List Token) (gives : (p.describe fuel []).Gives text) :
    (describeHere (σ := σ) fuel p).Reads [] rest text := by
  intro s _
  have words := Read.perform_atDesk (s := s) rfl (gives ⟨s.memory, s.journal⟩)
  refine ⟨s, ?_, rfl, rfl⟩
  rw [describeHere, Read.perform_bind_ok words]
  rfl

/-- The white space characters. -/
def whites : List Char :=
  [' ', '\t', '\n', '\r']

/-- A token is white space. -/
def isWhite : Condition :=
  .oneOf (whites.map .char)

theorem holds_isWhite {c : Char} : isWhite.holds (.char c) = true ↔ c ∈ whites := by
  simp [isWhite, Condition.holds]

theorem ahead_chars {P : Token → Prop} {cs : List Char} (first : ∀ c ∈ cs.head?, P (.char c)) :
    Ahead P (cs.map .char) := by
  intro t mem
  rw [List.head?_map] at mem
  obtain ⟨c, is, rfl⟩ := Option.map_eq_some_iff.mp mem
  exact first c is

end Pattern

open Pattern (whites isWhite Ahead)

/-- White space, of any length. -/
structure Blank where
  chars : List Char
  white : ∀ c ∈ chars, c ∈ whites

namespace Blank

/-- No white space. -/
def empty : Blank :=
  ⟨[], nofun⟩

instance : Append Blank where
  append a b :=
    ⟨a.chars ++ b.chars, fun c mem => (List.mem_append.mp mem).elim (a.white c) (b.white c)⟩

theorem chars_append (a b : Blank) : (a ++ b).chars = a.chars ++ b.chars :=
  rfl

/-- What holds of white space and of the tokens behind it holds of what comes next. -/
theorem ahead (b : Blank) {P : Token → Prop} (white : ∀ c ∈ whites, P (.char c))
    {rest : List Token} (behind : Ahead P rest) : Ahead P (b.chars.map .char ++ rest) := by
  obtain ⟨_ | ⟨c, cs⟩, whites⟩ := b
  · exact behind
  · rintro _ ⟨rfl⟩
    exact white c (whites c List.mem_cons_self)

section Reading

variable {σ : Type} [Feed σ] [LawfulFeed σ] {bounds : Bounds} {n : Nat} {rest : List Token}

/-- White space is read up to another token. -/
theorem reads (b : Blank) (skippable : Bool) (greedy : bounds.greedy = true)
    (allowed : bounds.allows b.chars.length = true) (enough : b.chars.length ≤ n)
    (ends : Ahead (fun t => isWhite.holds t = false) rest) :
    ((Pattern.repeated Pattern.asText Pattern.white bounds skippable).read (n + 3) (σ := σ)).Reads
      (b.chars.map .char) rest (some (.text (String.ofList b.chars))) := by
  have here : ∀ c ∈ (String.ofList b.chars).toList, ∀ rest,
      (Pattern.white.read (n + 2) (σ := σ)).Reads [.char c] rest (some (.char c)) := by
    intro c mem rest
    rw [String.toList_ofList] at mem
    have isWhite := Pattern.holds_isWhite.mpr (b.white c mem)
    exact (Read.reads_consumeIf isWhite rest).map (Option.map Token.toValue)
  have stop : (Pattern.white.read (n + 2) (σ := σ)).Reads [] rest none :=
    (Read.reads_consumeIf_none ends).map (Option.map Token.toValue)
  have size : (String.ofList b.chars).length = b.chars.length := String.length_ofList
  rw [← size] at allowed
  have text : ((Pattern.repeated Pattern.asText Pattern.white bounds skippable).read (n + 3)
      (σ := σ)).Reads _ rest _ := Pattern.reads_text greedy allowed here stop (by omega)
  rwa [String.toList_ofList] at text

/-- As much as fits is read where there may be white space. -/
theorem reads_optional (b : Blank) (fits : b.chars.length ≤ min n Bounds.unlimited)
    (ends : Ahead (fun t => isWhite.holds t = false) rest) :
    (Pattern.optionalSpace.read (n + 4) (σ := σ)).Reads (b.chars.map .char) rest
      (some (.text (String.ofList b.chars))) := by
  have most : b.chars.length ≤ Bounds.many.max := Nat.le_trans fits (Nat.min_le_right _ _)
  exact b.reads true rfl (Bounds.allows_iff.mpr ⟨Nat.zero_le _, most⟩) (by omega) ends

/-- Where there has to be white space, it is not empty. -/
theorem reads_required (b : Blank) (ne : b.chars ≠ [])
    (fits : b.chars.length ≤ min n Bounds.unlimited)
    (ends : Ahead (fun t => isWhite.holds t = false) rest) :
    (Pattern.requiredSpace.read (n + 4) (σ := σ)).Reads (b.chars.map .char) rest
      (some (.text (String.ofList b.chars))) := by
  have pos : 1 ≤ b.chars.length := List.length_pos_iff.mpr ne
  have most : b.chars.length ≤ Bounds.some.max := Nat.le_trans fits (Nat.min_le_right _ _)
  exact b.reads false rfl (Bounds.allows_iff.mpr ⟨pos, most⟩) (by omega) ends

end Reading

end Blank

/-! ### Lists of words -/

/-- The grammar of lists of words.  White space and the separator are no letters, and the separator is
    no white space. -/
structure ListGrammar where
  letters : Condition
  sep : Char
  white_not_letter : ∀ c ∈ whites, letters.holds (.char c) = false
  sep_not_letter : letters.holds (.char sep) = false
  sep_not_white : sep ∉ whites

namespace ListGrammar

/-- One or more letters. -/
structure Word (g : ListGrammar) where
  text : String
  ne : text ≠ ""
  letters : ∀ c ∈ text.toList, g.letters.holds (.char c) = true

/-- A word with white space around it. -/
structure Item (g : ListGrammar) where
  before : Blank
  word : g.Word
  behind : Blank

variable (g : ListGrammar)

/-- The pattern of a word. -/
def word : Pattern :=
  .repeated Pattern.asText (.satisfy g.letters) .some false

/-- The pattern of a separator, with white space around it. -/
def mark : Pattern :=
  Pattern.padded (Pattern.char g.sep)

/-- The pattern of the lists, with separators between the words. -/
def list : Pattern :=
  Pattern.separated g.sep g.word

/-- The pattern of the lists, without the white space around the whole. -/
def inner : Pattern :=
  .optional (.convert (.joined g.mark g.word none false) (.itemsOnly (.char g.sep))) (.list [])

/-- The pattern of words with white space behind each. -/
def words : Pattern :=
  .repeated { fold := .list } (Pattern.spaced g.word) .some false

/-- The list that is read. -/
def texts (ws : List g.Word) : Value :=
  .list (ws.map fun w => .text w.text)

variable {g}

/-- The text of a word with its white space. -/
def Item.spell (i : g.Item) : List Char :=
  i.before.chars ++ (i.word.text.toList ++ i.behind.chars)

variable (g)

/-- The text of a list, with more white space before it. -/
def spell (lead : Blank) (items : List g.Item) : List Char :=
  lead.chars ++ [g.sep].intercalate (items.map Item.spell)

/-- The text behind the first word and its white space. -/
def joints (items : List g.Item) : List Char :=
  items.flatMap fun i => g.sep :: i.spell

theorem spell_cons (lead : Blank) (i : g.Item) (items : List g.Item) :
    g.spell lead (i :: items) =
      (lead ++ i.before).chars ++ (i.word.text.toList ++ (i.behind.chars ++ g.joints items)) := by
  have between : ∀ l (ls : List (List Char)),
      [g.sep].intercalate (l :: ls) = l ++ ls.flatMap (g.sep :: ·) := by
    intro l ls
    induction ls generalizing l with
    | nil => rw [List.intercalate_singleton, List.flatMap_nil, List.append_nil]
    | cons m ls ih =>
        rw [List.intercalate_cons_cons, ih, List.flatMap_cons, List.append_assoc]
        rfl
  rw [spell, List.map_cons, between, List.flatMap_map, Item.spell, Blank.chars_append, joints]
  simp only [List.append_assoc]

/-! ### Words, and what follows them -/

section Words

variable {g} {σ : Type} [Feed σ] [LawfulFeed σ] {n : Nat} {rest : List Token}

theorem Word.toList_eq (w : g.Word) :
    ∃ c cs, w.text.toList = c :: cs ∧ g.letters.holds (.char c) = true := by
  cases chars : w.text.toList with
  | nil => exact absurd (String.toList_eq_nil_iff.mp chars) w.ne
  | cons c cs => exact ⟨c, cs, rfl, w.letters c (chars ▸ List.mem_cons_self)⟩

/-- A word begins by a letter, which is no white space. -/
theorem Word.ahead (w : g.Word) (rest : List Token) :
    Ahead (fun t => isWhite.holds t = false) (w.text.toList.map .char ++ rest) := by
  obtain ⟨c, cs, chars, letter⟩ := w.toList_eq
  rw [chars]
  rintro _ ⟨rfl⟩
  rw [Bool.eq_false_iff]
  intro white
  rw [g.white_not_letter c (Pattern.holds_isWhite.mp white)] at letter
  cases letter

theorem sep_not_isWhite : isWhite.holds (.char g.sep) = false := by
  rw [Bool.eq_false_iff]
  exact fun white => g.sep_not_white (Pattern.holds_isWhite.mp white)

/-- Behind a word come white space, a separator, or what is no letter. -/
theorem ahead_joints (behind : Blank) (items : List g.Item)
    (ends : Ahead (fun t => g.letters.holds t = false) rest) :
    Ahead (fun t => g.letters.holds t = false)
      ((behind.chars ++ g.joints items).map .char ++ rest) := by
  rw [List.map_append, List.append_assoc]
  refine behind.ahead (P := fun t => g.letters.holds t = false) g.white_not_letter ?_
  cases items with
  | nil => exact ends
  | cons i items =>
      rintro _ ⟨rfl⟩
      exact g.sep_not_letter

theorem Word.allowed (w : g.Word) (short : w.text.toList.length ≤ Bounds.unlimited) :
    Bounds.some.allows w.text.length = true := by
  obtain ⟨c, cs, chars, _⟩ := w.toList_eq
  have pos : 1 ≤ w.text.length := by
    rw [← String.length_toList, chars]
    exact Nat.succ_pos _
  rw [String.length_toList] at short
  exact Bounds.allows_iff.mpr ⟨pos, short⟩

theorem reads_word (w : g.Word) (fits : w.text.toList.length ≤ min n Bounds.unlimited)
    (ends : Ahead (fun t => g.letters.holds t = false) rest) :
    (g.word.read (n + 2) (σ := σ)).Reads (w.text.toList.map .char) rest (some (.text w.text)) := by
  have short : w.text.toList.length ≤ Bounds.unlimited := Nat.le_trans fits (Nat.min_le_right _ _)
  have enough : w.text.length ≤ n := by
    rw [← String.length_toList]
    exact Nat.le_trans fits (Nat.min_le_left _ _)
  exact Pattern.reads_letters rfl (w.allowed short) w.letters ends enough

/-- Where no letter is ahead, no word is read. -/
theorem reads_word_none (ends : Ahead (fun t => g.letters.holds t = false) rest) :
    (g.word.read (n + 2) (σ := σ)).Reads [] rest none :=
  Pattern.reads_run Pattern.asText .some false rfl nofun ends rfl (Nat.zero_le _) (Nat.zero_le _)

/-- A separator is read with the white space around it. -/
theorem reads_mark (before behind : Blank) (front : before.chars.length ≤ min n Bounds.unlimited)
    (back : behind.chars.length ≤ min n Bounds.unlimited)
    (ends : Ahead (fun t => isWhite.holds t = false) rest) :
    (g.mark.read (n + 5) (σ := σ)).Reads
      (before.chars.map .char ++ ([.char g.sep] ++ behind.chars.map .char)) rest
      (some (.char g.sep)) := by
  have sepAhead : Ahead (fun t => isWhite.holds t = false)
      ([Token.char g.sep] ++ (behind.chars.map .char ++ rest)) := by
    rintro _ ⟨rfl⟩
    exact sep_not_isWhite
  have holds : (Condition.equal (.char g.sep)).holds (.char g.sep) = true := beq_self_eq_true _
  exact Pattern.reads_between (before.reads_optional front sepAhead)
    ((Read.reads_consumeIf holds _).map (Option.map Token.toValue)) (behind.reads_optional back ends)

/-- White space is read also where no separator follows. -/
theorem reads_mark_none (before : Blank) (front : before.chars.length ≤ min n Bounds.unlimited)
    (ends : Ahead (fun t => isWhite.holds t = false) rest)
    (noSep : Ahead (· ≠ .char g.sep) rest) :
    (g.mark.read (n + 5) (σ := σ)).Reads (before.chars.map .char) rest none := by
  have fails : ∀ t ∈ rest.head?, (Condition.equal (.char g.sep)).holds t = false :=
    fun t mem => beq_false_of_ne (noSep t mem)
  have absent : ((Pattern.char g.sep).read (n + 4) (σ := σ)).Reads [] rest none :=
    (Read.reads_consumeIf_none fails).map (Option.map Token.toValue)
  have space : (Pattern.optionalSpace.read (n + 4) (σ := σ)).Reads (before.chars.map .char)
      ([] ++ rest) (some (.text (String.ofList before.chars))) := before.reads_optional front ends
  have whole := Pattern.reads_between_none Pattern.optionalSpace space absent
  rwa [List.append_nil] at whole

/-! ### Words joined -/

/-- The loop that joins the words of a list. -/
def joinWords (g : ListGrammar) (n turns : Nat) (items seps : List Value) :
    Read Memory σ (Option (List Value × List Value)) :=
  Read.joinLoop (Pattern.noting false .separator (g.mark.read (n + 5)))
    (Pattern.noting false .item (g.word.read (n + 5))) g.mark.isTrailing
    (fun items _ => Pattern.rescueJoin (n + 5) g.mark none items) turns items seps

/-- What one turn of the loop takes: a separator with the white space around it, and a word. -/
def link (g : ListGrammar) (behind before : Blank) (w : g.Word) : List Char :=
  behind.chars ++ g.sep :: (before.chars ++ w.text.toList)

theorem append_joints_cons (behind : Blank) (i : g.Item) (items : List g.Item) :
    behind.chars ++ g.joints (i :: items) =
      g.link behind i.before i.word ++ (i.behind.chars ++ g.joints items) := by
  simp [link, joints, Item.spell]

theorem goesOn_word (turns : Nat) (behind before : Blank) (w : g.Word) (found seps : List Value)
    (fits : (g.link behind before w).length ≤ min n Bounds.unlimited)
    (ends : Ahead (fun t => g.letters.holds t = false) rest) :
    (g.joinWords (σ := σ) n (turns + 1) found seps).GoesOn ((g.link behind before w).map .char) rest
      (g.joinWords n turns (.text w.text :: found) (.char g.sep :: seps)) := by
  simp only [link, List.length_append, List.length_cons] at fits
  have mark : (g.mark.read (n + 5) (σ := σ)).Reads
      (behind.chars.map .char ++ ([.char g.sep] ++ before.chars.map .char))
      (w.text.toList.map .char ++ rest) (some (.char g.sep)) :=
    reads_mark behind before (by omega) (by omega) (w.ahead rest)
  have here : (g.word.read (n + 5) (σ := σ)).Reads (w.text.toList.map .char) rest
      (some (.text w.text)) := reads_word w (by omega) ends
  have turn : (g.joinWords (σ := σ) n (turns + 1) found seps).GoesOn
      (behind.chars.map .char ++ ([.char g.sep] ++ before.chars.map .char) ++
        w.text.toList.map .char) rest
      (g.joinWords n turns (.text w.text :: found) (.char g.sep :: seps)) :=
    Read.goesOn_joinLoop (Pattern.reads_noting false .separator mark)
      (Pattern.reads_noting false .item here)
  simpa [link] using turn

/-- The loop goes through all words, up to the white space behind the last one. -/
theorem goesOn_words (turns : Nat) (items : List g.Item) (behind : Blank) (found seps : List Value)
    (fits : (behind.chars ++ g.joints items).length ≤ min n Bounds.unlimited)
    (ends : Ahead (fun t => g.letters.holds t = false) rest) :
    ∃ (front : List Char) (last : Blank) (seps' : List Value),
      behind.chars ++ g.joints items = front ++ last.chars ∧
      (g.joinWords (σ := σ) n (turns + items.length) found seps).GoesOn (front.map .char)
        (last.chars.map .char ++ rest)
        (g.joinWords n turns ((items.map fun i => .text i.word.text).reverse ++ found) seps') := by
  -- each turn leaves the white space behind its word to the separator of the next one
  induction items generalizing behind found seps with
  | nil => exact ⟨[], behind, seps, List.append_nil _, .refl _ _⟩
  | cons i items ih =>
      rw [append_joints_cons, List.length_append] at fits
      obtain ⟨front, last, seps', same, others⟩ := ih i.behind (.text i.word.text :: found)
        (.char g.sep :: seps) (by omega)
      have stops := ahead_joints i.behind items ends
      rw [same, List.map_append, List.append_assoc] at stops
      have turn := goesOn_word (σ := σ) (n := n) (turns + items.length) behind i.before i.word found
        seps (by omega) stops
      refine ⟨g.link behind i.before i.word ++ front, last, seps', ?_, ?_⟩
      · rw [append_joints_cons, same, List.append_assoc]
      · rw [List.map_append, List.map_cons, List.reverse_cons, List.append_assoc]
        exact turn.trans others

theorem length_le_joints (items : List g.Item) : items.length ≤ (g.joints items).length := by
  induction items with
  | nil => exact Nat.le_refl 0
  | cons i items ih =>
      rw [joints, List.flatMap_cons, List.cons_append, List.length_cons, List.length_cons,
        List.length_append]
      exact Nat.succ_le_succ (Nat.le_trans ih (Nat.le_add_left _ _))

/-- A join goes through all words, with at least one turn left. -/
theorem goesOn_joined (i : g.Item) (items : List g.Item)
    (fits : (i.word.text.toList ++ (i.behind.chars ++ g.joints items)).length ≤
      min n Bounds.unlimited)
    (ends : Ahead (fun t => g.letters.holds t = false) rest) :
    ∃ (front : List Char) (last : Blank) (seps : List Value) (turns : Nat),
      i.word.text.toList ++ (i.behind.chars ++ g.joints items) = front ++ last.chars ∧
      (Read.joined (n + 5) (Pattern.noting false .separator (g.mark.read (n + 5) (σ := σ)))
        (Pattern.noting false .item (g.word.read (n + 5))) g.mark.isTrailing
        fun items _ => Pattern.rescueJoin (n + 5) g.mark none items).GoesOn (front.map .char)
        (last.chars.map .char ++ rest)
        (g.joinWords n (turns + 1) ((i :: items).map fun i => Value.text i.word.text).reverse
          seps) := by
  simp only [List.length_append] at fits
  obtain ⟨turns, room⟩ : ∃ k, n + 5 = k + 1 + items.length :=
    ⟨n + 4 - items.length, by have few := g.length_le_joints items; omega⟩
  obtain ⟨front, last, seps, same, others⟩ := goesOn_words (σ := σ) (n := n) (turns + 1) items
    i.behind [.text i.word.text] [] (by rw [List.length_append]; omega) ends
  have stops := ahead_joints i.behind items ends
  rw [same, List.map_append, List.append_assoc] at stops
  have first : (g.word.read (n + 5) (σ := σ)).Reads (i.word.text.toList.map .char)
      (front.map .char ++ (last.chars.map .char ++ rest)) (some (.text i.word.text)) :=
    reads_word i.word (by omega) stops
  refine ⟨i.word.text.toList ++ front, last, seps, turns, ?_, ?_⟩
  · rw [same, List.append_assoc]
  · rw [← room] at others
    rw [List.map_append, List.map_cons, List.reverse_cons]
    exact ((Pattern.reads_noting false .item first).goesOn _).trans others

/-- The words are joined, and the separator that fails reads the white space behind the last one. -/
theorem reads_joined (i : g.Item) (items : List g.Item)
    (fits : (i.word.text.toList ++ (i.behind.chars ++ g.joints items)).length ≤
      min n Bounds.unlimited) :
    ∃ seps, ((Pattern.joined g.mark g.word none false).read (n + 6) (σ := σ)).Reads
      ((i.word.text.toList ++ (i.behind.chars ++ g.joints items)).map .char) []
      (some (.pair (.list ((i :: items).map fun i => Value.text i.word.text)) (.list seps))) := by
  have ends : Ahead (fun t => g.letters.holds t = false) [] := nofun
  obtain ⟨front, last, seps, turns, same, goes⟩ := goesOn_joined (σ := σ) i items fits ends
  rw [same, List.length_append] at fits
  have absent : (g.mark.read (n + 5) (σ := σ)).Reads (last.chars.map .char) [] none :=
    reads_mark_none last (by omega) nofun nofun
  have loop := goes.reads (Read.reads_joinLoop_stop (Pattern.reads_noting false .separator absent))
  rw [List.reverse_reverse, ← List.map_append, ← same] at loop
  refine ⟨seps.reverse, ?_⟩
  exact loop.map (Option.map fun parts => Value.pair (.list parts.1) (.list parts.2))

/-- A list of words is read without the separators. -/
theorem reads_items (i : g.Item) (items : List g.Item)
    (fits : (i.word.text.toList ++ (i.behind.chars ++ g.joints items)).length ≤
      min n Bounds.unlimited) :
    (g.inner.read (n + 8) (σ := σ)).Reads
      ((i.word.text.toList ++ (i.behind.chars ++ g.joints items)).map .char) []
      (some (g.texts ((i :: items).map Item.word))) := by
  obtain ⟨seps, joined⟩ := reads_joined (σ := σ) i items fits
  have converted : ((Pattern.convert (.joined g.mark g.word none false)
      (.itemsOnly (.char g.sep))).read (n + 7) (σ := σ)).Reads _ [] _ :=
    Pattern.reads_convert joined rfl
  rw [texts, List.map_map]
  exact converted.map fun found => some (found.getD (.list []))

/-- Where no letter is ahead, the list is empty. -/
theorem reads_no_items (ends : Ahead (fun t => g.letters.holds t = false) rest) :
    (g.inner.read (n + 8) (σ := σ)).Reads [] rest (some (g.texts [])) := by
  have absent : (g.word.read (n + 5) (σ := σ)).Reads [] rest none := reads_word_none ends
  have joined : ((Pattern.joined g.mark g.word none false).read (n + 6) (σ := σ)).Reads [] rest
      none := by
    apply (Read.reads_joined_none (Pattern.reads_noting false .item absent)).then_nil
    exact Read.reads_pure none rest
  exact (Pattern.reads_convert_none joined).map fun found => some (found.getD (.list []))

/-- White space is read before the words. -/
theorem reads_around {chars : List Char} {v : Value} (lead : Blank)
    (fits : lead.chars.length ≤ min n Bounds.unlimited)
    (ends : Ahead (fun t => isWhite.holds t = false) (chars.map .char))
    (inner : (g.inner.read (n + 8) (σ := σ)).Reads (chars.map .char) [] (some v)) :
    (g.list.read (n + 9) (σ := σ)).Reads ((lead.chars ++ chars).map .char) [] (some v) := by
  have opening : (Pattern.optionalSpace.read (n + 8) (σ := σ)).Reads (lead.chars.map .char)
      (chars.map .char ++ ([] ++ [])) (some (.text (String.ofList lead.chars))) := by
    rw [List.append_nil, List.append_nil]
    exact lead.reads_optional (by omega) ends
  have closing : (Pattern.optionalSpace.read (n + 8) (σ := σ)).Reads [] [] (some (.text "")) :=
    Blank.empty.reads_optional (Nat.zero_le _) nofun
  have whole := Pattern.reads_between opening inner closing
  rw [List.append_nil, ← List.map_append] at whole
  exact whole

/-- A list is read from any text of it, and from white space alone if it is empty. -/
theorem reads_list (lead : Blank) (items : List g.Item)
    (fits : (g.spell lead items).length ≤ min n Bounds.unlimited) :
    (g.list.read (n + 9) (σ := σ)).Reads ((g.spell lead items).map .char) []
      (some (g.texts (items.map Item.word))) := by
  cases items with
  | nil =>
      rw [spell, List.length_append] at fits
      exact reads_around lead (by omega) nofun (reads_no_items nofun)
  | cons i items =>
      rw [spell_cons, List.length_append] at fits
      rw [spell_cons]
      refine reads_around (lead ++ i.before) (by omega) ?_ (reads_items i items (by omega))
      rw [List.map_append]
      exact i.word.ahead _

end Words

/-! ### A further separator -/

section Further

/-- How a separator is described, with the white space around it. -/
def markText : String :=
  "\x7bwhite\x7d?" ++ Text.quotedChar g.sep ++ "\x7bwhite\x7d?"

/-- What is reported where no word follows a separator. -/
def complaint : String :=
  "expecting item for last separator " ++ g.markText

theorem describe_mark (fuel : Nat) : (g.mark.describe (fuel + 5) []).Gives g.markText :=
  fun _ => rfl

variable {g} {σ : Type} [Feed σ] [LawfulFeed σ] [StickyFeed σ] {n : Nat} {rest : List Token}

theorem reports_rescue (found : List Value) :
    (Pattern.rescueJoin (σ := Input σ) (n + 5) g.mark none found).Reports [] rest g.complaint
      none := by
  apply (Pattern.reads_describeHere rest (g.describe_mark n)).then_reports
  exact (Read.reports_report g.complaint rest).then_nil (Read.reads_pure none rest)

/-- A separator that no word follows ends the join with a report. -/
theorem reports_joinWords {turns : Nat} {found seps : List Value} (last behind : Blank)
    (front : last.chars.length ≤ min n Bounds.unlimited)
    (back : behind.chars.length ≤ min n Bounds.unlimited)
    (noLetter : Ahead (fun t => g.letters.holds t = false) rest)
    (noWhite : Ahead (fun t => isWhite.holds t = false) rest) :
    (g.joinWords (σ := Input σ) n (turns + 1) found seps).Reports
      (last.chars.map .char ++ ([.char g.sep] ++ behind.chars.map .char)) rest g.complaint none := by
  have absent : (g.word.read (n + 5) (σ := Input σ)).Reads [] rest none := reads_word_none noLetter
  have mark := reads_mark (g := g) (σ := Input σ) last behind front back noWhite
  exact Read.reports_joinLoop (Pattern.reads_noting false .separator mark)
    (Pattern.reads_noting false .item absent) rfl (reports_rescue found)

theorem reports_items (i : g.Item) (items : List g.Item) (behind : Blank)
    (fits : (i.word.text.toList ++ (i.behind.chars ++ g.joints items)).length ≤
      min n Bounds.unlimited)
    (back : behind.chars.length ≤ min n Bounds.unlimited)
    (noLetter : Ahead (fun t => g.letters.holds t = false) rest)
    (noWhite : Ahead (fun t => isWhite.holds t = false) rest) :
    (g.inner.read (n + 8) (σ := Input σ)).Reports
      ((i.word.text.toList ++ (i.behind.chars ++ g.joints items) ++ g.sep :: behind.chars).map
        .char) rest g.complaint (some (g.texts [])) := by
  have ends : Ahead (fun t => g.letters.holds t = false)
      ([.char g.sep] ++ behind.chars.map .char ++ rest) := by
    rintro _ ⟨rfl⟩
    exact g.sep_not_letter
  obtain ⟨front, last, seps, turns, same, goes⟩ := goesOn_joined (σ := Input σ) i items fits ends
  rw [same, List.length_append] at fits
  rw [← List.append_assoc] at goes
  have joined := goes.reports
    (reports_joinWords last behind (by omega) back noLetter noWhite)
  rw [same, List.append_assoc, List.map_append, List.map_append, List.map_cons]
  have unread : ((Pattern.joined g.mark g.word none false).read (n + 6) (σ := Input σ)).Reports _
      rest g.complaint none := joined.then_nil (Read.reads_pure none rest)
  have converted : ((Pattern.convert (.joined g.mark g.word none false)
      (.itemsOnly (.char g.sep))).read (n + 7) (σ := Input σ)).Reports _ rest g.complaint none :=
    unread.then_nil (Read.reads_pure none rest)
  exact converted.map fun found => some (found.getD (.list []))

/-- A further separator behind the last word is reported, and no list is read. -/
theorem reports_list (lead : Blank) (i : g.Item) (items : List g.Item) (behind : Blank)
    (fits : (g.spell lead (i :: items) ++ g.sep :: behind.chars).length ≤ min n Bounds.unlimited)
    (noLetter : Ahead (fun t => g.letters.holds t = false) rest)
    (noWhite : Ahead (fun t => isWhite.holds t = false) rest) :
    (g.list.read (n + 9) (σ := Input σ)).Reports
      ((g.spell lead (i :: items) ++ g.sep :: behind.chars).map .char) rest g.complaint
      (some (g.texts [])) := by
  have split : g.spell lead (i :: items) ++ g.sep :: behind.chars = (lead ++ i.before).chars ++
      (i.word.text.toList ++ (i.behind.chars ++ g.joints items) ++ g.sep :: behind.chars) := by
    rw [spell_cons, List.append_assoc]
  rw [split] at fits ⊢
  simp only [List.length_append, List.length_cons] at fits
  have opening : (Pattern.optionalSpace.read (n + 8) (σ := Input σ)).Reads
      ((lead ++ i.before).chars.map .char)
      ((i.word.text.toList ++ (i.behind.chars ++ g.joints items) ++ g.sep :: behind.chars).map .char
        ++ rest) (some (.text (String.ofList (lead ++ i.before).chars))) := by
    refine (lead ++ i.before).reads_optional (by omega) ?_
    rw [List.append_assoc, List.map_append, List.append_assoc]
    exact i.word.ahead _
  have items := reports_items (σ := σ) (n := n) i items behind
    (by simp only [List.length_append]; omega) (by omega) noLetter noWhite
  have closing : (Pattern.optionalSpace.read (n + 8) (σ := Input σ)).Reads [] rest
      (some (.text "")) := Blank.empty.reads_optional (Nat.zero_le _) noWhite
  have whole := Pattern.reports_between opening items closing
  rw [← List.map_append] at whole
  exact whole

end Further

/-! ### Words one behind the other -/

section Entries

variable {g}

/-- A word with white space behind it, at least one character. -/
structure Entry (g : ListGrammar) where
  word : g.Word
  behind : Blank
  ne : behind.chars ≠ []

/-- The text of a word with the white space behind it. -/
def Entry.spell (e : g.Entry) : List Char :=
  e.word.text.toList ++ e.behind.chars

variable {σ : Type} [Feed σ] [LawfulFeed σ] {n : Nat} {rest : List Token}

/-- A word is read with the white space behind it, up to another character. -/
theorem Entry.reads (e : g.Entry) (fits : e.spell.length ≤ min n Bounds.unlimited)
    (ends : Ahead (fun t => isWhite.holds t = false) rest) :
    ((Pattern.spaced g.word).read (n + 5) (σ := σ)).Reads (e.spell.map .char) rest
      (some (.text e.word.text)) := by
  rw [spell, List.length_append] at fits
  obtain ⟨c, cs, blank⟩ := List.exists_cons_of_ne_nil e.ne
  have stops : Ahead (fun t => g.letters.holds t = false) (e.behind.chars.map .char ++ rest) := by
    rw [blank]
    rintro _ ⟨rfl⟩
    exact g.white_not_letter c (e.behind.white c (blank ▸ List.mem_cons_self))
  have opening : (Pattern.optionalSpace.read (n + 4) (σ := σ)).Reads []
      (e.word.text.toList.map .char ++ (e.behind.chars.map .char ++ rest)) (some (.text "")) :=
    Blank.empty.reads_optional (Nat.zero_le _) (e.word.ahead _)
  have word : (g.word.read (n + 4) (σ := σ)).Reads (e.word.text.toList.map .char)
      (e.behind.chars.map .char ++ rest) (some (.text e.word.text)) :=
    reads_word e.word (by omega) stops
  have closing := e.behind.reads_required (n := n) (σ := σ) e.ne (by omega) ends
  have whole := Pattern.reads_between opening word closing
  rw [List.nil_append, ← List.map_append] at whole
  exact whole

theorem Entry.exists_cons (e : g.Entry) :
    ∃ t ts, e.spell.map .char = t :: ts ∧ isWhite.holds t = false := by
  obtain ⟨c, cs, chars, _⟩ := e.word.toList_eq
  refine ⟨.char c, (cs ++ e.behind.chars).map .char, ?_, ?_⟩
  · rw [spell, chars]
    rfl
  · exact e.word.ahead [] (.char c) (by rw [chars]; rfl)

theorem Entry.length_le {entries : List g.Entry} {e : g.Entry} (mem : e ∈ entries) :
    e.spell.length ≤ (entries.flatMap Entry.spell).length :=
  (List.sublist_flatten_of_mem (List.mem_map_of_mem mem)).length_le

theorem length_le_entries (entries : List g.Entry) :
    entries.length ≤ (entries.flatMap Entry.spell).length := by
  have pos : ∀ k ∈ entries.map fun e => e.spell.length, 1 ≤ k := by
    intro k mem
    obtain ⟨e, _, rfl⟩ := List.mem_map.mp mem
    obtain ⟨t, ts, spelled, _⟩ := e.exists_cons
    rw [← List.length_map Token.char, spelled]
    exact Nat.succ_pos _
  have few := List.length_le_sum_of_one_le _ pos
  rwa [List.length_map, ← List.length_flatMap] at few

/-- Words with white space behind each are read into the list of them. -/
theorem reads_words (entries : List g.Entry) (ne : entries ≠ [])
    (fits : (entries.flatMap Entry.spell).length ≤ min n Bounds.unlimited) :
    (g.words.read (n + 6) (σ := σ)).Reads ((entries.flatMap Entry.spell).map .char) []
      (some (g.texts (entries.map Entry.word))) := by
  let pieces : List (List Token × Value) :=
    entries.map fun e => (e.spell.map .char, .text e.word.text)
  have size : pieces.length = entries.length := List.length_map _
  have tokens : pieces.flatMap Prod.fst = (entries.flatMap Entry.spell).map .char := by
    rw [List.flatMap_map, List.map_flatMap]
  have begins : ∀ piece ∈ pieces, ∃ t ts, piece.1 = t :: ts ∧ isWhite.holds t = false := by
    intro piece mem
    obtain ⟨e, _, rfl⟩ := List.mem_map.mp mem
    exact e.exists_cons
  have here : ∀ piece ∈ pieces, ∀ {rest}, Ahead (fun t => isWhite.holds t = false) rest →
      ((Pattern.spaced g.word).read (n + 5) (σ := σ)).Reads piece.1 rest (some piece.2) := by
    intro piece mem rest ends
    obtain ⟨e, among, rfl⟩ := List.mem_map.mp mem
    exact e.reads (Nat.le_trans (Entry.length_le among) fits) ends
  have opening : (Pattern.optionalSpace.read (n + 4) (σ := σ)).Reads [] [] (some (.text "")) :=
    Blank.empty.reads_optional (Nat.zero_le _) nofun
  have stop : ((Pattern.spaced g.word).read (n + 5) (σ := σ)).Reads [] [] none :=
    Pattern.reads_between_none _ opening (reads_word_none nofun)
  have folded := Pattern.foldlM_accept_list (pieces.map Prod.snd) []
  have few := length_le_entries entries
  have most : pieces.length ≤ Bounds.some.max := by
    rw [size]
    exact Nat.le_trans few (Nat.le_trans fits (Nat.min_le_right _ _))
  have allowed : Bounds.some.allows pieces.length = true := by
    rw [Bounds.allows_iff, size]
    exact ⟨List.length_pos_iff.mpr ne, size ▸ most⟩
  have run : (g.words.read (n + 6) (σ := σ)).Reads (pieces.flatMap Prod.fst) [] _ :=
    Pattern.reads_repeated_pieces { fold := .list } .some false begins here nofun stop folded most
      (by omega)
  have words : pieces.map Prod.snd = (entries.map Entry.word).map fun w => .text w.text := by
    rw [List.map_map, List.map_map]
    rfl
  rw [if_pos allowed, tokens, Tally.finish, List.append_nil, List.reverse_reverse, words] at run
  exact run

end Entries

/-! ### Writing -/

section Writing

variable {g} {n : Nat}

/-- A word without white space around it. -/
def Word.bare (w : g.Word) : g.Item :=
  ⟨.empty, w, .empty⟩

theorem spell_bare (ws : List g.Word) :
    g.spell .empty (ws.map Word.bare) = [g.sep].intercalate (ws.map fun w => w.text.toList) := by
  have same : Item.spell ∘ Word.bare (g := g) = fun w => w.text.toList :=
    funext fun w => List.append_nil w.text.toList
  rw [spell, List.map_map, same]
  rfl

theorem gives_word (w : g.Word) (short : w.text.toList.length ≤ Bounds.unlimited) :
    (g.word.write (n + 2) (.text w.text)).Gives (w.text.toList.map .char) :=
  Pattern.gives_text (w.allowed short) fun _ _ => Write.gives_pure _

/-- Words and separators are written by turns. -/
theorem gives_parts (w : g.Word) (ws : List g.Word)
    (short : (w.text.toList ++ g.joints (ws.map Word.bare)).length ≤ Bounds.unlimited) :
    (Pattern.writeParts (n + 5) (Pattern.joinParts g.mark g.word
      ((w :: ws).map fun w => .text w.text) (List.replicate ws.length (.char g.sep)))).Gives
      ((w.text.toList ++ g.joints (ws.map Word.bare)).map .char) := by
  rw [List.length_append] at short
  have first : (g.word.write (n + 5) (.text w.text)).Gives (w.text.toList.map .char) :=
    gives_word w (by omega)
  induction ws generalizing w with
  | nil =>
      rw [List.map_append]
      exact first.append (Write.gives_pure [])
  | cons v ws ih =>
      have mark : (g.mark.write (n + 5) (.char g.sep)).Gives [.char g.sep] := fun _ => rfl
      have split : g.joints ((v :: ws).map Word.bare) =
          g.sep :: (v.text.toList ++ g.joints (ws.map Word.bare)) := by
        simp [joints, Word.bare, Item.spell, Blank.empty]
      rw [split, List.length_cons, List.length_append] at short
      have others := ih v (by omega) (gives_word v (by omega))
      rw [split, List.map_append, List.map_cons]
      exact first.append (mark.append others)

/-- A list is written without white space. -/
theorem gives_list (ws : List g.Word)
    (short : (g.spell .empty (ws.map Word.bare)).length ≤ Bounds.unlimited) :
    (g.list.write (n + 9) (g.texts ws)).Gives ((g.spell .empty (ws.map Word.bare)).map .char) := by
  cases ws with
  | nil => exact fun _ => rfl
  | cons w ws =>
      have split : g.spell .empty ((w :: ws).map Word.bare) =
          w.text.toList ++ g.joints (ws.map Word.bare) := spell_cons g _ _ _
      rw [split] at short ⊢
      have writable : Pattern.JoinWritable g.mark g.word ((w :: ws).map fun w => .text w.text)
          (List.replicate ws.length (.char g.sep)) := by
        apply Pattern.joinWritable_of_length
        rw [List.length_map, List.length_replicate, List.length_cons]
      have writes := writable.itemsOnly none false (.char g.sep) (n + 5)
      rw [List.length_replicate] at writes
      have inner : (g.inner.write (n + 8) (g.texts (w :: ws))).Gives
          ((w.text.toList ++ g.joints (ws.map Word.bare)).map .char) := by
        have parts := gives_parts (n := n) w ws short
        rw [← writes.inTurn] at parts
        exact parts
      have noSpace : (Pattern.writeBracket (Pattern.write (n + 8)) Pattern.optionalSpace).Gives [] :=
        fun _ => rfl
      have whole := Pattern.gives_between noSpace inner noSpace
      rw [List.nil_append, List.append_nil] at whole
      exact whole

/-- Words are written with one blank behind each. -/
theorem gives_words (ws : List g.Word) (ne : ws ≠ []) (few : ws.length ≤ Bounds.unlimited)
    (short : ∀ w ∈ ws, w.text.toList.length ≤ Bounds.unlimited) :
    (g.words.write (n + 6) (g.texts ws)).Gives
      ((ws.flatMap fun w => w.text.toList ++ [' ']).map .char) := by
  let pieces : List (List Token × Value) :=
    ws.map fun w => ((w.text.toList ++ [' ']).map .char, .text w.text)
  have tokens : pieces.flatMap Prod.fst =
      (ws.flatMap fun w => w.text.toList ++ [' ']).map .char := by
    rw [List.flatMap_map, List.map_flatMap]
  have words : pieces.map Prod.snd = ws.map fun w => .text w.text := by
    rw [List.map_map]
    rfl
  have here : ∀ piece ∈ pieces,
      ((Pattern.spaced g.word).write (n + 5) piece.2).Gives piece.1 := by
    intro piece mem
    obtain ⟨w, among, rfl⟩ := List.mem_map.mp mem
    have noSpace : (Pattern.writeBracket (Pattern.write (n + 4)) Pattern.optionalSpace).Gives [] :=
      fun _ => rfl
    have blank : (Pattern.writeBracket (Pattern.write (n + 4)) Pattern.requiredSpace).Gives
        [.char ' '] := fun _ => rfl
    have whole := Pattern.gives_between noSpace (gives_word (n := n + 2) w (short w among)) blank
    rw [List.nil_append] at whole
    rw [List.map_append]
    exact whole
  have allowed : Bounds.some.allows (ws.map fun w => Value.text w.text).length = true := by
    rw [List.length_map, Bounds.allows_iff]
    exact ⟨List.length_pos_iff.mpr ne, few⟩
  have items : (Write.ofExcept ((Folding.mk .list none).items (g.texts ws)) : Write Memory _).Gives
      (ws.map fun w => .text w.text) := Write.gives_pure _
  have each := Write.gives_each here
  rw [tokens, words] at each
  apply items.bind
  rw [if_pos allowed]
  exact each

end Writing

end ListGrammar

/-! ### Whole texts -/

/-- A text is read as `v`: all of it is taken, and nothing is reported. -/
structure Pattern.ReadsText (p : Pattern) (fuel : Nat) (text : List Char) (v : Value) : Prop where
  taken : ∀ {σ : Type} [Feed σ] [LawfulFeed σ],
    (p.read fuel (σ := σ)).Reads (text.map .char) [] (some v)
  answer : ∀ memory file,
    (Grammar.readPartial ⟨p, memory, fuel⟩ (Input.ofText (String.ofList text) file)).result =
      .ok ([], some v)

/-- In a text, one error is reported between `text` and `behind`.  Where errors are kept, `text` is
    taken and `v` is given; otherwise the read ends with the error. -/
structure Pattern.ReportsText (p : Pattern) (fuel : Nat) (text behind : List Char) (message : String)
    (v : Value) : Prop where
  taken : ∀ {σ : Type} [Feed σ] [LawfulFeed σ] [StickyFeed σ],
    (p.read fuel (σ := Input σ)).Reports (text.map .char) (behind.map .char) message (some v)
  answer : ∀ memory file, ∃ error : ErrorRecord, error.message = message ∧
    (Grammar.readPartial ⟨p, memory, fuel⟩
      (Input.ofText (String.ofList (text ++ behind)) file)).result = .ok ([error], some v) ∧
    (Grammar.readInput ⟨p, memory, fuel⟩
      (Input.ofText (String.ofList (text ++ behind)) file)).result = .error (.fault error.raised)

section Texts

variable {p : Pattern} {fuel : Nat} {text behind : List Char} {v : Value}

theorem Input.ofText_chars (ne : text ≠ []) (file : String) :
    ∃ s, Input.ofText (String.ofList text) file = .ok s ∧ s.mode = .raise ∧
      remaining s = text.map .char := by
  have chars : (String.ofList text).toList ≠ [] := by rwa [String.toList_ofList]
  have made := Input.ofText_ok chars file
  rwa [Token.ofText, String.toList_ofList] at made

theorem Pattern.ReadsText.of_reads (ne : text ≠ [])
    (reads : ∀ {σ : Type} [Feed σ] [LawfulFeed σ],
      (p.read fuel (σ := σ)).Reads (text.map .char) [] (some v)) :
    p.ReadsText fuel text v where
  taken := reads
  answer := by
    intro memory file
    obtain ⟨s, made, _, left⟩ := Input.ofText_chars ne file
    rw [made]
    exact Grammar.readPartial_of_reads reads left

theorem Pattern.ReportsText.of_reports {message : String} (ne : text ≠ [])
    (reports : ∀ {σ : Type} [Feed σ] [LawfulFeed σ] [StickyFeed σ],
      (p.read fuel (σ := Input σ)).Reports (text.map .char) (behind.map .char) message (some v)) :
    p.ReportsText fuel text behind message v where
  taken := reports
  answer := by
    intro memory file
    obtain ⟨s, made, raising, left⟩ :=
      Input.ofText_chars (List.append_ne_nil_of_left_ne_nil ne behind) file
    rw [List.map_append] at left
    rw [made]
    exact ⟨_, rfl, Grammar.answers_of_reports reports left raising⟩

end Texts

namespace ListGrammar

variable {g : ListGrammar} {fuel : Nat}

theorem fits_of_short {k n : Nat} (short : k < UInt64.size) (enough : k ≤ n) :
    k ≤ min n Bounds.unlimited :=
  Nat.le_min.mpr ⟨enough, Nat.le_pred_of_lt short⟩

theorem readsText_list (lead : Blank) (items : List g.Item) (ne : g.spell lead items ≠ [])
    (short : (g.spell lead items).length < UInt64.size)
    (enough : (g.spell lead items).length + 9 ≤ fuel) :
    g.list.ReadsText fuel (g.spell lead items) (g.texts (items.map Item.word)) := by
  obtain ⟨n, rfl⟩ : ∃ n, fuel = n + 9 := ⟨fuel - 9, by omega⟩
  exact .of_reads ne (reads_list lead items (fits_of_short short (by omega)))

/-- The words are written with the separators alone, and read again. -/
theorem gives_readsText (ws : List g.Word)
    (short : (g.spell .empty (ws.map Word.bare)).length < UInt64.size)
    (enough : (g.spell .empty (ws.map Word.bare)).length + 9 ≤ fuel) :
    (g.list.write fuel (g.texts ws)).Gives ((g.spell .empty (ws.map Word.bare)).map .char) ∧
      (ws ≠ [] → g.list.ReadsText fuel (g.spell .empty (ws.map Word.bare)) (g.texts ws)) := by
  constructor
  · obtain ⟨n, rfl⟩ : ∃ n, fuel = n + 9 := ⟨fuel - 9, by omega⟩
    exact gives_list ws (Nat.le_pred_of_lt short)
  · intro ne
    obtain ⟨w, others, rfl⟩ := List.exists_cons_of_ne_nil ne
    have some : g.spell .empty ((w :: others).map Word.bare) ≠ [] := by
      obtain ⟨c, cs, chars, _⟩ := w.toList_eq
      rw [List.map_cons, spell_cons, Word.bare, chars]
      exact List.append_ne_nil_of_right_ne_nil _ (List.cons_ne_nil c _)
    have read := readsText_list .empty ((w :: others).map Word.bare) some short enough
    have same : ((w :: others).map Word.bare).map Item.word = w :: others := by
      rw [List.map_map]
      exact List.map_id _
    rwa [same] at read

/-- A further separator is reported, also where the text goes on behind it. -/
theorem reportsText_list (lead : Blank) (i : g.Item) (items : List g.Item) (behind : Blank)
    {after : List Char} (short : (g.spell lead (i :: items) ++ g.sep :: behind.chars).length <
      UInt64.size) (enough : (g.spell lead (i :: items) ++ g.sep :: behind.chars).length + 9 ≤ fuel)
    (stops : ∀ c ∈ after.head?, g.letters.holds (.char c) = false ∧ c ∉ whites) :
    g.list.ReportsText fuel (g.spell lead (i :: items) ++ g.sep :: behind.chars) after g.complaint
      (g.texts []) := by
  obtain ⟨n, rfl⟩ : ∃ n, fuel = n + 9 := ⟨fuel - 9, by omega⟩
  have noLetter : Ahead (fun t => g.letters.holds t = false) (after.map .char) :=
    Pattern.ahead_chars fun c first => (stops c first).1
  have noWhite : Ahead (fun t => isWhite.holds t = false) (after.map .char) :=
    Pattern.ahead_chars fun c first => Bool.eq_false_iff.mpr fun white =>
      (stops c first).2 (Pattern.holds_isWhite.mp white)
  have some : g.spell lead (i :: items) ++ g.sep :: behind.chars ≠ [] :=
    List.append_ne_nil_of_right_ne_nil _ (List.cons_ne_nil _ _)
  exact .of_reports some (reports_list lead i items behind (fits_of_short short (by omega))
    noLetter noWhite)

/-- Words with white space behind each are read whatever its length, and written with one blank. -/
theorem readsText_gives_words (entries : List g.Entry) (ne : entries ≠ [])
    (short : (entries.flatMap Entry.spell).length < UInt64.size)
    (enough : (entries.flatMap Entry.spell).length + 6 ≤ fuel) :
    g.words.ReadsText fuel (entries.flatMap Entry.spell) (g.texts (entries.map Entry.word)) ∧
      (g.words.write fuel (g.texts (entries.map Entry.word))).Gives
        (((entries.map Entry.word).flatMap fun w => w.text.toList ++ [' ']).map .char) := by
  obtain ⟨n, rfl⟩ : ∃ n, fuel = n + 6 := ⟨fuel - 6, by omega⟩
  have fits := fits_of_short (n := n) short (by omega)
  have most := Nat.le_trans fits (Nat.min_le_right _ _)
  have few := length_le_entries entries
  have some : entries.flatMap Entry.spell ≠ [] := by
    have pos := List.length_pos_iff.mpr ne
    exact List.length_pos_iff.mp (Nat.lt_of_lt_of_le pos few)
  refine ⟨.of_reads some (reads_words entries ne fits), gives_words _ ?_ ?_ ?_⟩
  · simpa using ne
  · rw [List.length_map]
    exact Nat.le_trans few most
  · intro w mem
    obtain ⟨e, among, rfl⟩ := List.mem_map.mp mem
    have part := Entry.length_le among
    rw [Entry.spell, List.length_append] at part
    omega

/-- White space does not change lists.  Any text of words with separators between them and white space
    around each is read as the list of the words, to its end and without a report; so is white space
    alone, as the empty list.  The words are written with the separators alone, and what is written is
    read again.  A further separator behind the last word is reported.  Words with white space behind
    each, of any length, are read as the list of them, and written with one blank behind each.  Texts
    longer than a machine word can count do not exist, and repetitions do not count further. -/
theorem spacing_free (g : ListGrammar) :
    (∀ (lead : Blank) (items : List g.Item) (fuel : Nat),
      let text := g.spell lead items
      text ≠ [] → text.length < UInt64.size → text.length + 9 ≤ fuel →
      g.list.ReadsText fuel text (g.texts (items.map Item.word))) ∧
    (∀ (ws : List g.Word) (fuel : Nat),
      let text := [g.sep].intercalate (ws.map fun w => w.text.toList)
      text.length < UInt64.size → text.length + 9 ≤ fuel →
      (g.list.write fuel (g.texts ws)).Gives (text.map .char) ∧
        (ws ≠ [] → g.list.ReadsText fuel text (g.texts ws))) ∧
    (∀ (lead : Blank) (i : g.Item) (items : List g.Item) (behind : Blank) (after : List Char)
      (fuel : Nat),
      let text := g.spell lead (i :: items) ++ g.sep :: behind.chars
      text.length < UInt64.size → text.length + 9 ≤ fuel →
      (∀ c ∈ after.head?, g.letters.holds (.char c) = false ∧ c ∉ whites) →
      g.list.ReportsText fuel text after g.complaint (g.texts [])) ∧
    ∀ (entries : List g.Entry) (fuel : Nat),
      let text := entries.flatMap Entry.spell
      let ws := entries.map Entry.word
      entries ≠ [] → text.length < UInt64.size → text.length + 6 ≤ fuel →
      g.words.ReadsText fuel text (g.texts ws) ∧
        (g.words.write fuel (g.texts ws)).Gives
          ((ws.flatMap fun w => w.text.toList ++ [' ']).map .char) := by
  refine ⟨?_, ?_, ?_, ?_⟩
  · intro lead items fuel text ne short enough
    exact readsText_list lead items ne short enough
  · intro ws fuel text short enough
    have spelled : g.spell .empty (ws.map Word.bare) = text := spell_bare ws
    rw [← spelled] at short enough ⊢
    exact gives_readsText ws short enough
  · intro lead i items behind after fuel text short enough stops
    exact reportsText_list lead i items behind short enough stops
  · intro entries fuel text ws ne short enough
    exact readsText_gives_words entries ne short enough

/-- Small letters with commas between them. -/
def commas : ListGrammar where
  letters := .range (.char 'a') (.char 'z')
  sep := ','
  white_not_letter := by
    intro c mem
    simp only [whites, List.mem_cons, List.not_mem_nil, or_false] at mem
    rcases mem with rfl | rfl | rfl | rfl <;> rfl
  sep_not_letter := rfl
  sep_not_white := by decide

/-- The list of `a` and `bc` is read from ` a ,<tab>bc<newline>` and from `a,bc`, as which it is
    written, and the empty list from white space; in `a,bc , ` the last comma is reported.  Without
    commas it is read from `a<tab>bc  `, and written as `a bc `. -/
theorem spacing_free_commas :
    let ab : Value := .list [.text "a", .text "bc"]
    commas.list.ReadsText 20 " a ,\tbc\n".toList ab ∧
      commas.list.ReadsText 20 "\n ".toList (.list []) ∧
      (commas.list.write 20 ab).Gives ("a,bc".toList.map .char) ∧
      commas.list.ReadsText 20 "a,bc".toList ab ∧
      commas.list.ReportsText 20 "a,bc , ".toList [','] commas.complaint (.list []) ∧
      commas.words.ReadsText 20 "a\tbc  ".toList ab ∧
      (commas.words.write 20 ab).Gives ("a bc ".toList.map .char) := by
  let a : commas.Word := ⟨"a", by decide, List.all_eq_true.mp rfl⟩
  let bc : commas.Word := ⟨"bc", by decide, List.all_eq_true.mp rfl⟩
  let blank : Blank := ⟨[' '], by simp [whites]⟩
  let tab : Blank := ⟨['\t'], by simp [whites]⟩
  let line : Blank := ⟨['\n'], by simp [whites]⟩
  have spaced : " a ,\tbc\n".toList =
      commas.spell .empty [⟨blank, a, blank⟩, ⟨tab, bc, line⟩] := by decide
  have white : "\n ".toList = commas.spell (line ++ blank) [] := by decide
  have joined : "a,bc".toList = [','].intercalate ([a, bc].map fun w => w.text.toList) := by decide
  have further : "a,bc , ".toList =
      commas.spell .empty [a.bare, ⟨.empty, bc, blank⟩] ++ ',' :: blank.chars := by decide
  have entries : "a\tbc  ".toList = List.flatMap Entry.spell
      [⟨a, tab, by decide⟩, ⟨bc, blank ++ blank, by decide⟩] := by decide
  have blanks : "a bc ".toList = [a, bc].flatMap fun w => w.text.toList ++ [' '] := by decide
  obtain ⟨reads, writes, reports, words⟩ := spacing_free commas
  obtain ⟨written, again⟩ := writes [a, bc] 20 (by decide) (by decide)
  obtain ⟨gathered, spread⟩ := words [⟨a, tab, by decide⟩, ⟨bc, blank ++ blank, by decide⟩] 20
    (by decide) (by decide) (by decide)
  rw [spaced, white, joined, further, entries, blanks]
  refine ⟨?_, ?_, written, again (by decide), ?_, gathered, spread⟩
  · exact reads _ _ 20 (by decide) (by decide) (by decide)
  · exact reads _ [] 20 (by decide) (by decide) (by decide)
  · refine reports _ _ _ _ [','] 20 (by decide) (by decide) ?_
    rintro _ ⟨rfl⟩
    exact ⟨rfl, by decide⟩

end ListGrammar

end Duplex
