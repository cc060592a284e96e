/-
Module: Duplex.Proofs.Outline.Lines
Purpose: Outlines of words, one on each line.  `LineGrammar` is the grammar of such texts: words of
  some letters, a mark behind those that open a block, and line breaks with the indentation of the
  next line.  Here is how its pieces are written and read: a word, a mark, a line break, and the
  lines of an outline one after the other.
Main exports: LineGrammar, LineGrammar.Node, LineGrammar.spell, LineGrammar.gives_lines
-/
import Duplex.Proofs.Repeating

namespace Duplex

/-- What a write gives is one thing only. -/
theorem Write.Gives.unique {α : Type} {w : Write Memory α} {a b : α} (first : w.Gives a)
    (second : w.Gives b) : a = b := by
  have same := (first { memory := .empty }).symm.trans (second { memory := .empty })
  injection same with results
  injection results

/-- The grammar of outlines whose items are words.  Line breaks, blanks and the mark of a block are
    no letters. -/
structure LineGrammar where
  letters : Condition
  mark : Char
  /-- Indentation of the top level. -/
  base : Nat
  /-- How much deeper a block is written than the line that opens it. -/
  step : Nat
  break_not_letter : letters.holds (.char '\n') = false
  blank_not_letter : letters.holds (.char ' ') = false
  mark_not_letter : letters.holds (.char mark) = false
  mark_ne_break : mark ≠ '\n'
  step_pos : 0 < step

namespace LineGrammar

variable (g : LineGrammar)

/-- One or more letters. -/
def word : Pattern :=
  .repeated Pattern.asText (.satisfy g.letters) .some false

/-- The pattern of the outlines. -/
def pattern : Pattern :=
  .outline g.word (Pattern.char g.mark) Pattern.indentation g.base g.step none none

/-- Texts that are read as one word. -/
structure IsWord (s : String) : Prop where
  size : Bounds.some.allows s.length = true
  letters : ∀ c ∈ s.toList, g.letters.holds (.char c) = true

/-- Nodes of an outline that can be written and read: items are words, a mark opens a block, and no
    block is empty. -/
inductive Node : Outline Value Value → Prop
  | term {s} : g.IsWord s → Node (.term (.text s))
  | nest {s children} :
      g.IsWord s → children ≠ [] → (∀ n ∈ children, Node n) →
      Node (.nest (.text s) (.char g.mark) children)

/-- The tokens that a value is read from are those that are written for it. -/
theorem eq_of_gives {follow : Token → Prop} {p : Pattern} {v : Value} {out written : List Token}
    (round : Granted fun fuel => Pattern.RoundWith fuel follow p v out)
    (gives : Granted fun fuel => (p.write fuel v).Gives written) : out = written := by
  obtain ⟨fuel, both⟩ := round.and gives
  obtain ⟨round, gives⟩ := both fuel (Nat.le_refl fuel)
  exact round.writes.unique gives

/-! ### Words and marks -/

/-- Characters as tokens. -/
abbrev tokens (cs : List Char) : List Token :=
  cs.map .char

theorem gives_char (c : Condition) (fuel : Nat) (ch : Char) :
    ((Pattern.satisfy c).write (fuel + 1) (.char ch)).Gives [.char ch] :=
  Write.gives_pure _

/-- A word is written letter by letter. -/
theorem gives_word {s : String} (isWord : g.IsWord s) :
    Granted fun fuel => (g.word.write fuel (.text s)).Gives (tokens s.toList) := by
  refine (Granted.atLeast 1).succ fun fuel enough => ?_
  obtain ⟨fuel, rfl⟩ : ∃ k, fuel = k + 1 := ⟨fuel - 1, by omega⟩
  exact Pattern.gives_text isWord.size fun ch _ => gives_char g.letters fuel ch

/-- A word is read up to what is no letter. -/
theorem round_word {s : String} (isWord : g.IsWord s) :
    Granted fun fuel =>
      Pattern.RoundWith fuel (fun t => g.letters.holds t = false) g.word (.text s)
        (tokens s.toList) := by
  have predictive : Pattern.Predictive (fun t => g.letters.holds t = false) g.word := by
    apply Pattern.Predictive.text rfl
    intro t first ends
    rw [Pattern.first_satisfy_iff, ends] at first
    cases first
  obtain ⟨out, _, round⟩ := predictive.round (Pattern.Fits.text isWord.size isWord.letters)
  rw [← eq_of_gives round (g.gives_word isWord)]
  exact round

theorem round_mark (follow : Token → Prop) :
    Granted fun fuel =>
      Pattern.RoundWith fuel follow (Pattern.char g.mark) (.char g.mark) [.char g.mark] := by
  have holds : (Condition.equal (.char g.mark)).holds (.char g.mark) = true := beq_self_eq_true _
  exact (Granted.of_forall fun _ => trivial).succ fun fuel _ =>
    Pattern.roundWith_satisfy fuel follow holds

/-- Where another token is ahead, there is no mark. -/
theorem reads_mark_none {σ : Type} [Feed σ] [LawfulFeed σ] {rest : List Token}
    (ahead : Pattern.Ahead (· ≠ .char g.mark) rest) (fuel : Nat) :
    ((Pattern.char g.mark).read (fuel + 1) (σ := σ)).Reads [] rest none := by
  have fails : ∀ t ∈ rest.head?, (Condition.equal (.char g.mark)).holds t = false := by
    intro t mem
    exact beq_false_of_ne (ahead t mem)
  exact (Read.reads_consumeIf_none fails).map (Option.map Token.toValue)

/-! ### Line breaks -/

/-- A line break, and the blanks that the next line is indented by. -/
def gap (n : Nat) : List Char :=
  '\n' :: List.replicate n ' '

/-- How the blanks behind a line break are gathered. -/
def blanks : Folding :=
  .withUnfold .count (.copies (.char ' '))

theorem foldlM_accept_count (vs : List Value) (n : Nat) :
    vs.foldlM Tally.accept (.count n) = .ok (.count (n + vs.length)) := by
  induction vs generalizing n with
  | nil => rfl
  | cons v vs ih =>
      rw [List.foldlM_cons]
      show vs.foldlM Tally.accept (.count (n + 1)) = _
      rw [ih, List.length_cons, Nat.add_right_comm, Nat.add_assoc]

theorem items_blanks {n : Nat} (room : n < roomLimit) :
    blanks.items (.ofCount n) = .ok (List.replicate n (.char ' ')) := by
  have small : n < UInt64.size := Nat.lt_trans room (by decide)
  show (copiesOf (Value.ofCount n).toCount _).mapError _ = _
  rw [Value.toCount_ofCount small, copiesOf, if_pos room]
  rfl

theorem allows_many {n : Nat} (room : n < roomLimit) :
    Bounds.many.allows (List.replicate n (Value.char ' ')).length = true := by
  have small : n ≤ Bounds.unlimited := Nat.le_of_lt (Nat.lt_trans room (by decide))
  rw [List.length_replicate]
  exact Bounds.allows_iff.mpr ⟨Nat.zero_le n, small⟩

theorem gives_blanks {n : Nat} (room : n < roomLimit) :
    Granted fun fuel =>
      ((Pattern.repeated blanks (Pattern.char ' ') .many true).write fuel (.ofCount n)).Gives
        (tokens (List.replicate n ' ')) := by
  refine (Granted.atLeast 1).succ fun fuel enough => ?_
  obtain ⟨fuel, rfl⟩ : ∃ k, fuel = k + 1 := ⟨fuel - 1, by omega⟩
  have items : (Write.ofExcept (blanks.items (.ofCount n)) : Write Memory _).Gives
      (List.replicate n (.char ' ')) := by
    rw [items_blanks room]
    exact Write.gives_pure _
  let pieces : List (List Token × Value) := List.replicate n ([.char ' '], .char ' ')
  have blank : ∀ piece ∈ pieces, ((Pattern.char ' ').write (fuel + 1) piece.2).Gives piece.1 := by
    intro piece mem
    rw [List.eq_of_mem_replicate mem]
    exact gives_char _ fuel ' '
  have whole := Write.gives_each blank
  rw [List.map_replicate, List.flatMap_replicate] at whole
  apply items.bind
  rw [if_pos (allows_many room), tokens, List.map_replicate]
  simpa using whole

/-- Blanks are written as many as counted, and read up to another token. -/
theorem round_blanks {n : Nat} (room : n < roomLimit) :
    Granted fun fuel =>
      Pattern.RoundWith fuel (· ≠ .char ' ') (.repeated blanks (Pattern.char ' ') .many true)
        (.ofCount n) (tokens (List.replicate n ' ')) := by
  have fits : ∀ v ∈ List.replicate n (Value.char ' '), Pattern.Fits (Pattern.char ' ') v := by
    intro v mem
    cases List.eq_of_mem_replicate mem
    exact .satisfy (t := .char ' ') rfl
  have apart : ∀ t, Pattern.First (Pattern.char ' ') t → ¬ t ≠ .char ' ' := by
    intro t first ne
    exact ne (Pattern.first_bracket_iff.mp first)
  have folded := foldlM_accept_count (List.replicate n (.char ' ')) 0
  rw [Nat.zero_add, List.length_replicate] at folded
  obtain ⟨out, _, round⟩ := Pattern.round_repeated true rfl (Pattern.round_satisfy _ _)
    (Pattern.idle_satisfy _) nofun apart fits (allows_many room) (items_blanks room) folded rfl
  rw [← eq_of_gives round (gives_blanks room)]
  exact round

/-- The line break and the blanks, still apart. -/
theorem round_breakParts {n : Nat} (room : n < roomLimit) :
    Granted fun fuel =>
      Pattern.RoundWith fuel (· ≠ .char ' ')
        (.tuple [Pattern.char '\n', .repeated blanks (Pattern.char ' ') .many true])
        (.pair (.char '\n') (.ofCount n)) (tokens (gap n)) := by
  refine ((Granted.atLeast 1).and (round_blanks room)).succ fun fuel ⟨enough, inner⟩ => ?_
  obtain ⟨fuel, rfl⟩ : ∃ k, fuel = k + 1 := ⟨fuel - 1, by omega⟩
  have lineBreak := Pattern.roundWith_satisfy fuel (fun _ => True) (c := .equal (.char '\n'))
    (t := .char '\n') rfl
  constructor
  · have last := inner.writes.append (Write.gives_pure [])
    rw [List.append_nil] at last
    exact lineBreak.writes.append last
  · intro σ _ _ rest ahead
    have last : (Read.sequence
        [(Pattern.repeated blanks (Pattern.char ' ') .many true).read (fuel + 1)
          (σ := σ)]).Reads (tokens (List.replicate n ' ') ++ []) rest (some [.ofCount n]) := by
      apply Read.reads_sequence_cons _ (Read.reads_sequence_nil rest)
      exact inner.reads ahead
    rw [List.append_nil] at last
    have parts := Read.reads_sequence_cons (lineBreak.reads (σ := σ) fun _ _ => trivial) last
    exact parts.map (Option.map Value.tuple)

/-- A line break is written with the blanks of the next line, and read up to the first letter of
    that. -/
theorem round_gap {n : Nat} (room : n < roomLimit) :
    Granted fun fuel =>
      Pattern.RoundWith fuel (· ≠ .char ' ') Pattern.indentation (.ofCount n) (tokens (gap n)) := by
  refine (round_breakParts room).succ fun fuel parts => ?_
  constructor
  · exact parts.writes
  · intro σ _ _ rest ahead
    exact (parts.reads ahead).then_nil (Read.reads_pure _ rest)

/-! ### Lines -/

/-- The characters of a word or a mark. -/
def plainText : Value → List Char
  | .text s => s.toList
  | .char c => [c]
  | _ => []

/-- The text of a line, without its break. -/
def lineText : Outline.Line Value Value → List Char
  | .opening item mark => plainText item ++ plainText mark
  | .plain item => plainText item
  | .misplaced => []

/-- The indentation of the first line, or `closing` where there is none. -/
def nextLevel (closing : Nat) (lines : List (Nat × Outline.Line Value Value)) : Nat :=
  (lines.head?.map Prod.fst).getD closing

/-- The text of lines, each with the break to the next one, and the last with the break to
    `closing`. -/
def spell (closing : Nat) : List (Nat × Outline.Line Value Value) → List Char
  | [] => []
  | (_, line) :: rest => lineText line ++ (gap (nextLevel closing rest) ++ spell closing rest)

theorem spell_append (closing : Nat) (first second : List (Nat × Outline.Line Value Value)) :
    spell closing (first ++ second) = spell (nextLevel closing second) first ++ spell closing second := by
  induction first with
  | nil => rfl
  | cons l first ih =>
      obtain ⟨level, line⟩ := l
      have next : nextLevel closing (first ++ second) = nextLevel (nextLevel closing second) first := by
        cases first <;> rfl
      rw [List.cons_append, spell, spell, ih, next]
      simp only [List.append_assoc]

/-- Lines that can be written and read. -/
inductive IsLine : Outline.Line Value Value → Prop
  | plain {s} : g.IsWord s → IsLine (.plain (.text s))
  | opening {s} : g.IsWord s → IsLine (.opening (.text s) (.char g.mark))

theorem gives_line {line : Outline.Line Value Value} (isLine : g.IsLine line) :
    Granted fun fuel =>
      (Write.outlineLine (g.word.write fuel) ((Pattern.char g.mark).write fuel) line).Gives
        (tokens (lineText line)) := by
  cases isLine with
  | plain isWord => exact g.gives_word isWord
  | opening isWord =>
      refine ((g.gives_word isWord).and (g.round_mark fun _ => True)).mono ?_
      intro fuel ⟨item, mark⟩
      have both := item.append mark.writes
      rw [lineText, tokens, List.map_append]
      exact both

/-- Lines are written one after the other. -/
theorem gives_lines {closing : Nat} {lines : List (Nat × Outline.Line Value Value)}
    (areLines : ∀ l ∈ lines, g.IsLine l.2) (room : ∀ l ∈ lines, l.1 < roomLimit)
    (closes : closing < roomLimit) :
    Granted fun fuel =>
      (Write.outlineLines (g.word.write fuel) ((Pattern.char g.mark).write fuel)
        (fun n => Pattern.indentation.write fuel (.ofCount n)) closing lines).Gives
        (tokens (spell closing lines)) := by
  induction lines with
  | nil => exact .of_forall fun _ => Write.gives_pure _
  | cons l lines ih =>
      obtain ⟨level, line⟩ := l
      have first := g.gives_line (areLines (level, line) List.mem_cons_self)
      have next : nextLevel closing lines < roomLimit := by
        cases lines with
        | nil => exact closes
        | cons m lines => exact room m (List.mem_cons_of_mem _ List.mem_cons_self)
      have others := ih (fun m mem => areLines m (List.mem_cons_of_mem _ mem))
        fun m mem => room m (List.mem_cons_of_mem _ mem)
      refine (first.and ((round_gap next).and others)).mono fun fuel ⟨first, gap, others⟩ => ?_
      rw [spell, tokens, List.map_append, List.map_append, ← List.append_assoc]
      apply first.bind
      apply gap.writes.bind
      exact others.bind (Write.gives_pure _)

end LineGrammar

end Duplex
