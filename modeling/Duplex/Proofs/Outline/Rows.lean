/-
Module: Duplex.Proofs.Outline.Rows
Purpose: Texts of one word on each row, indented in any way.  The pieces of a row are read from any
  feed that holds its characters: the word up to what is no letter, the mark behind it if there is
  one, and the break to the next row, or the end, which counts as a break to the left margin.
Main exports: Row, LineGrammar.page, LineGrammar.Readable, LineGrammar.reads_word,
  LineGrammar.Breaks, LineGrammar.breaks_gap, LineGrammar.breaks_end
-/
import Duplex.Proofs.Outline.Layers

namespace Duplex

/-- A row of a text: its indentation, its word, and whether a mark follows that. -/
structure Row where
  indent : Nat
  word : String
  marked : Bool
deriving DecidableEq, Repr, Inhabited

namespace LineGrammar

variable (g : LineGrammar) {σ : Type} [Feed σ] [LawfulFeed σ]

/-! ### Words -/

/-- A word is read up to what is no letter. -/
theorem reads_word {s : String} (isWord : g.IsWord s) {fuel : Nat} (enough : s.length ≤ fuel)
    {rest : List Token} (ends : Pattern.Ahead (fun t => g.letters.holds t = false) rest) :
    (g.word.read (fuel + 2) (σ := σ)).Reads (tokens s.toList) rest (some (.text s)) :=
  Pattern.reads_letters rfl isWord.size isWord.letters ends enough

/-- At the end no word is read, whatever is still shown. -/
theorem reads_word_none (fuel : Nat) : (g.word.read (fuel + 2) (σ := σ)).Reads [] [] none :=
  Pattern.reads_run Pattern.asText .some false rfl nofun nofun rfl (Nat.zero_le _) (Nat.zero_le _)

/-! ### Breaks -/

/-- Blanks are read up to another token. -/
theorem reads_blanks {n fuel : Nat} (small : n < UInt64.size) (enough : n ≤ fuel)
    {rest : List Token} (ends : Pattern.Ahead (· ≠ .char ' ') rest) :
    ((Pattern.repeated blanks (Pattern.char ' ') .many true).read (fuel + 2) (σ := σ)).Reads
      (tokens (List.replicate n ' ')) rest (some (.ofCount n)) := by
  have size : (tokens (List.replicate n ' ')).length = n := by simp
  have passes : ∀ t ∈ tokens (List.replicate n ' '),
      (Condition.equal (.char ' ')).holds t = true := by
    intro t mem
    obtain ⟨c, among, rfl⟩ := List.mem_map.mp mem
    rw [List.eq_of_mem_replicate among]
    rfl
  have stops : ∀ t ∈ rest.head?, (Condition.equal (.char ' ')).holds t = false := by
    intro t mem
    exact beq_false_of_ne (ends t mem)
  have folded := foldlM_accept_count ((tokens (List.replicate n ' ')).map Token.toValue) 0
  rw [Nat.zero_add, List.length_map, size] at folded
  have most : n ≤ Bounds.many.max := Nat.le_pred_of_lt small
  have allowed : Bounds.many.allows n = true := Bounds.allows_iff.mpr ⟨Nat.zero_le n, most⟩
  have few : (tokens (List.replicate n ' ')).length ≤ Bounds.many.max := by
    rw [size]
    exact most
  have within : (tokens (List.replicate n ' ')).length ≤ fuel := by
    rw [size]
    exact enough
  have run := Pattern.reads_run (σ := σ) blanks .many true rfl passes stops folded few within
  rw [size, if_pos allowed] at run
  exact run

/-- A line break is read with the blanks behind it. -/
theorem reads_indentation {n fuel : Nat} (small : n < UInt64.size) (enough : n ≤ fuel)
    {rest : List Token} (ends : Pattern.Ahead (· ≠ .char ' ') rest) :
    (Pattern.indentation.read (fuel + 4) (σ := σ)).Reads (tokens (gap n)) rest
      (some (.ofCount n)) := by
  have isBreak : (Condition.equal (.char '\n')).holds (.char '\n') = true := rfl
  have lineBreak : ((Pattern.char '\n').read (fuel + 2) (σ := σ)).Reads [.char '\n']
      (tokens (List.replicate n ' ') ++ rest) (some (.char '\n')) :=
    (Read.reads_consumeIf isBreak _).map (Option.map Token.toValue)
  have blanks : ((Pattern.repeated blanks (Pattern.char ' ') .many true).read (fuel + 2)
      (σ := σ)).Reads (tokens (List.replicate n ' ')) ([] ++ rest) (some (.ofCount n)) :=
    reads_blanks small enough ends
  have last := Read.reads_sequence_cons blanks (Read.reads_sequence_nil rest)
  rw [List.append_nil] at last
  have parts := (Read.reads_sequence_cons lineBreak last).map (Option.map Value.tuple)
  exact parts.then_nil (Read.reads_pure _ rest)

/-- Behind a row, the text `behind` is read as the break to a row with indentation `next`, up to
    `rest`. -/
structure Breaks (fuel : Nat) (behind rest : List Char) (next : Nat) : Prop where
  reads : ∀ {σ : Type} [Feed σ] [LawfulFeed σ],
    (g.parts fuel (σ := σ)).layout.Reads (tokens behind) (tokens rest) (some next)
  noLetter : Pattern.Ahead (fun t => g.letters.holds t = false) (tokens behind ++ tokens rest)
  noMark : Pattern.Ahead (· ≠ .char g.mark) (tokens behind ++ tokens rest)

theorem breaks_gap {n fuel : Nat} (small : n < UInt64.size) (enough : n ≤ fuel) {rest : List Char}
    (ends : Pattern.Ahead (· ≠ .char ' ') (tokens rest)) :
    g.Breaks (fuel + 4) (gap n) rest n where
  reads := by
    intro σ _ _
    have whole : (g.parts (fuel + 4) (σ := σ)).layout.Reads (tokens (gap n)) (tokens rest)
        (some (Value.ofCount n).toCount) :=
      (reads_indentation small enough ends).then_nil (Read.reads_pure _ _)
    rw [Value.toCount_ofCount small] at whole
    exact whole
  noLetter := (g.ahead_gap n (tokens rest)).1
  noMark := (g.ahead_gap n (tokens rest)).2

/-- The end of the text counts as a break to the top level, and so does a last line break. -/
theorem breaks_end (flush : g.base = 0) {ending : List Char} (ends : ending = [] ∨ ending = ['\n'])
    (fuel : Nat) : g.Breaks (fuel + 4) ending [] 0 := by
  rcases ends with rfl | rfl
  · refine ⟨?_, nofun, nofun⟩
    intro σ _ _
    have noBreak : ((Pattern.char '\n').read (fuel + 2) (σ := σ)).Reads [] [] none :=
      (Read.reads_consumeIf_none (by simp)).map (Option.map Token.toValue)
    have parts := (Read.reads_sequence_none
      [(Pattern.repeated blanks (Pattern.char ' ') .many true).read (fuel + 2)] noBreak).map
      (Option.map Value.tuple)
    have absent : (Pattern.indentation.read (fuel + 4) (σ := σ)).Reads [] [] none :=
      parts.then_nil (Read.reads_pure _ [])
    have ended : (Read.atEnd : Read Memory σ Bool).Reads [] [] true := by
      intro s left
      refine ⟨s, ?_, rfl, rfl⟩
      rw [Read.perform_atEnd, LawfulFeed.atEnd_eq, left]
      rfl
    have rescue : (Pattern.rescueLayout g.base none : Read Memory σ (Option Nat)).Reads [] []
        (some 0) := by
      rw [flush]
      exact ended.then_nil (Read.reads_pure _ [])
    exact absent.then_nil rescue
  · exact g.breaks_gap (by decide) (Nat.zero_le fuel) nofun

/-! ### Rows -/

/-- A row as a line of an outline. -/
def line (row : Row) : Outline.Line Value Value :=
  if row.marked then .opening (.text row.word) (.char g.mark) else .plain (.text row.word)

theorem lineText_line (row : Row) :
    lineText (g.line row) = row.word.toList ++ if row.marked then [g.mark] else [] := by
  cases marked : row.marked <;> simp [line, marked, lineText, plainText]

/-- The text of rows.  The first one stands at the left margin, each other one is indented behind
    its line break, and `ending` follows the last one. -/
def page (ending : List Char) : List Row → List Char
  | [] => ending
  | [row] => lineText (g.line row) ++ ending
  | row :: next :: rows => lineText (g.line row) ++ (gap next.indent ++ page ending (next :: rows))

/-- A row whose word and indentation are read with so much fuel. -/
structure Readable (fuel : Nat) (row : Row) : Prop where
  isWord : g.IsWord row.word
  wordFuel : row.word.length ≤ fuel
  small : row.indent < UInt64.size
  indentFuel : row.indent ≤ fuel

/-- A row begins by a letter, and not by a blank. -/
theorem ahead_page (ending : List Char) {row : Row} (isWord : g.IsWord row.word) (rows : List Row) :
    Pattern.Ahead (· ≠ .char ' ') (tokens (g.page ending (row :: rows))) := by
  obtain ⟨c, cs, chars, letter⟩ := isWord.toList_eq
  have begins : ∃ more, g.page ending (row :: rows) = c :: more := by
    cases rows <;> simp [page, g.lineText_line, chars]
  obtain ⟨more, begins⟩ := begins
  rw [begins]
  rintro t ⟨rfl⟩ same
  rw [same, g.blank_not_letter] at letter
  cases letter

/-! ### Texts of any size -/

theorem length_word_le (ending : List Char) {rows : List Row} {row : Row} (mem : row ∈ rows) :
    row.word.length ≤ (g.page ending rows).length := by
  fun_induction page g ending rows with
  | case1 => cases mem
  | case2 first =>
      cases List.mem_singleton.mp mem
      simp [g.lineText_line, ← String.length_toList]
  | case3 first next rows ih =>
      rcases List.mem_cons.mp mem with rfl | later
      · simp [g.lineText_line, ← String.length_toList]
      · have within := ih later
        simp only [List.length_append]
        omega

theorem indent_le (ending : List Char) {rows : List Row} {row : Row} (mem : row ∈ rows.tail) :
    row.indent ≤ (g.page ending rows).length := by
  fun_induction page g ending rows with
  | case1 => cases mem
  | case2 first => cases mem
  | case3 first next rows ih =>
      simp only [List.length_append, gap, List.length_cons, List.length_replicate]
      rcases List.mem_cons.mp mem with rfl | later
      · omega
      · have within := ih later
        omega

/-- One or more letters. -/
def IsLetters (s : String) : Prop :=
  s ≠ "" ∧ ∀ c ∈ s.toList, g.letters.holds (.char c) = true

/-- In a text that is no longer than the fuel, and than a text can be, every row is read. -/
theorem readable_of_page {ending : List Char} {row : Row} {rows : List Row} {fuel : Nat}
    (margin : row.indent = 0) (words : ∀ other ∈ row :: rows, g.IsLetters other.word)
    (short : (g.page ending (row :: rows)).length < UInt64.size)
    (enough : (g.page ending (row :: rows)).length ≤ fuel) :
    ∀ other ∈ row :: rows, g.Readable fuel other := by
  intro other mem
  have word := g.length_word_le ending mem
  have indent : other.indent ≤ (g.page ending (row :: rows)).length := by
    rcases List.mem_cons.mp mem with rfl | later
    · rw [margin]
      exact Nat.zero_le _
    · exact g.indent_le ending later
  obtain ⟨ne, letters⟩ := words other mem
  have pos : 1 ≤ other.word.length := by
    rw [← String.length_toList]
    exact List.length_pos_iff.mpr fun empty => ne (by simpa using empty)
  have most : other.word.length ≤ Bounds.unlimited :=
    Nat.le_pred_of_lt (Nat.lt_of_le_of_lt word short)
  exact ⟨⟨Bounds.allows_iff.mpr ⟨pos, most⟩, letters⟩, by omega, by omega, by omega⟩

end LineGrammar

end Duplex
