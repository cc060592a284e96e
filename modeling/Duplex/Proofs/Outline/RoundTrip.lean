/-
Module: Duplex.Proofs.Outline.RoundTrip
Purpose: Outlines of words, there and back.  An outline without empty blocks is written and read back
  from its text, as long as there is room for its indentation; and every outline that a raising input
  gives is one of these, however its text was indented, so that writing it again and again gives one
  text.
Main exports: LineGrammar.gives_outline, LineGrammar.Restored, LineGrammar.outline_roundTrip
-/
import Mathlib
import Duplex.Proofs.Outline.Shape
import Duplex.Proofs.Running

namespace Duplex

/-! ### Writing -/

namespace LineGrammar

variable (g : LineGrammar)

/-- All indentation of an outline is below a limit. -/
def Within (limit : Nat) (ns : List (Outline Value Value)) : Prop :=
  ∀ l ∈ Outline.linesOf g.step g.base ns, l.1 < limit

theorem forall_mem_linesOf {P : Nat × Outline.Line Value Value → Prop} {level : Nat}
    {ns : List (Outline Value Value)} :
    (∀ l ∈ Outline.linesOf g.step level ns, P l) ↔ ∀ n ∈ ns, ∀ l ∈ n.lines g.step level, P l := by
  induction ns with
  | nil => simp [Outline.linesOf]
  | cons n ns ih => rw [Outline.linesOf, List.forall_mem_append, List.forall_mem_cons, ih]

/-- The lines of a node are lines of words and marks. -/
theorem Node.isLine {g : LineGrammar} {n : Outline Value Value} (node : g.Node n) (level : Nat) :
    ∀ l ∈ n.lines g.step level, g.IsLine l.2 := by
  induction node generalizing level with
  | term isWord =>
      intro l mem
      cases List.mem_singleton.mp mem
      exact .plain isWord
  | nest isWord _ _ ih =>
      rw [Outline.lines, List.forall_mem_cons]
      exact ⟨.opening isWord, g.forall_mem_linesOf.mpr fun n mem => ih n mem _⟩

/-- Where there is room for all lines, the indentation of every block is a machine word. -/
theorem Node.fits {g : LineGrammar} {n : Outline Value Value} (node : g.Node n) {level : Nat}
    (room : ∀ l ∈ n.lines g.step level, l.1 < roomLimit) :
    ∀ l ∈ n.lines g.step level, (!l.2.isOpening || decide (l.1 + g.step < UInt64.size)) = true := by
  induction node generalizing level with
  | term isWord =>
      intro l mem
      cases List.mem_singleton.mp mem
      rfl
  | @nest s children isWord ne _ ih =>
      rw [Outline.lines, List.forall_mem_cons] at room ⊢
      constructor
      · obtain ⟨l, mem, eq⟩ := Outline.exists_mem_linesOf g.step (level + g.step) ne
        have deep : level + g.step < roomLimit := by
          rw [← eq]
          exact room.2 l mem
        have small : level + g.step < UInt64.size := Nat.lt_trans deep (by decide)
        simp [small]
      · rw [forall_mem_linesOf] at room ⊢
        exact fun n mem => ih n mem (room.2 n mem)

/-- An outline is written line by line. -/
theorem gives_outline {ns : List (Outline Value Value)} (nodes : ∀ n ∈ ns, g.Node n)
    (ne : ns ≠ []) (room : g.Within roomLimit ns) :
    Granted fun fuel =>
      (g.pattern.write fuel (Outline.root ns).toValue).Gives
        (tokens (spell g.base (Outline.linesOf g.step g.base ns))) := by
  have base : g.base < roomLimit := by
    obtain ⟨l, mem, eq⟩ := Outline.exists_mem_linesOf g.step g.base ne
    rw [← eq]
    exact room l mem
  have lines := g.gives_lines (g.forall_mem_linesOf.mpr fun n mem => (nodes n mem).isLine _) room
    base
  refine lines.succ fun fuel lines => ?_
  have fits : Outline.fits g.step (Outline.linesOf g.step g.base ns) = true := by
    rw [Outline.fits, List.all_eq_true]
    rw [Within, forall_mem_linesOf] at room
    exact g.forall_mem_linesOf.mpr fun n mem => (nodes n mem).fits (room n mem)
  show (Write.outline _ _ _ g.base g.step (Outline.ofValue _)).Gives _
  rw [Outline.ofValue_toValue, Write.outline, Outline.top, if_pos fits]
  exact lines

/-! ### There and back -/

/-- The pattern as a grammar. -/
def grammar (memory : Memory) (fuel : Nat) : Grammar :=
  { pattern := g.pattern, memory := memory, fuel := fuel }

theorem spell_ne_nil {ns : List (Outline Value Value)} (ne : ns ≠ []) :
    spell g.base (Outline.linesOf g.step g.base ns) ≠ [] := by
  obtain ⟨l, mem, _⟩ := Outline.exists_mem_linesOf g.step g.base ne
  cases lines : Outline.linesOf g.step g.base ns with
  | nil =>
      rw [lines] at mem
      cases mem
  | cons l lines =>
      obtain ⟨level, line⟩ := l
      simp [spell, gap]

/-- A value and a text that stand for each other: the text is written for the value, the value is
    read from the text without any error, and rebuilding the text changes nothing. -/
structure Restored (memory : Memory) (fuel : Nat) (v : Value) (text : String) : Prop where
  written : ((g.grammar memory fuel).write v).result = .ok (Token.ofText text)
  read : ((g.grammar memory fuel).readText text).result = .ok (some v)
  flawless : ((g.grammar memory fuel).readPartial (Input.ofText text stringFile)).result =
    .ok ([], some v)
  rebuilt : ((g.grammar memory fuel).rebuild (Input.ofText text stringFile)).result =
    .ok (some (Token.ofText text))

/-- An outline that can be written is restored from its text. -/
theorem restores {ns : List (Outline Value Value)} (nodes : ∀ n ∈ ns, g.Node n) (ne : ns ≠ [])
    (room : g.Within roomLimit ns) :
    ∃ text enough, ∀ fuel, enough ≤ fuel → ∀ memory,
      g.Restored memory fuel (Outline.root ns).toValue text := by
  obtain ⟨enough, both⟩ := (g.gives_outline nodes ne room).and (g.reads_outline nodes ne room)
  generalize chars : spell g.base (Outline.linesOf g.step g.base ns) = cs at both
  have text : Token.ofText (String.ofList cs) = tokens cs := by
    rw [Token.ofText, String.toList_ofList]
  have nonempty : (String.ofList cs).toList ≠ [] := by
    rw [String.toList_ofList, ← chars]
    exact g.spell_ne_nil ne
  obtain ⟨input, made, _, left⟩ := Input.ofText_ok nonempty stringFile
  refine ⟨String.ofList cs, enough, fun fuel granted memory => ?_⟩
  obtain ⟨gives, reads⟩ := both fuel granted
  rw [← text] at gives reads
  have read : ((g.grammar memory fuel).readFrom input).result =
      .ok (some (Outline.root ns).toValue) :=
    (Grammar.readFrom_of_reads (g := g.grammar memory fuel) reads left).1
  have written : ∀ memory, ((g.grammar memory fuel).write (Outline.root ns).toValue).result =
      .ok (Token.ofText (String.ofList cs)) :=
    fun memory => Grammar.write_of_gives (g := g.grammar memory fuel) gives
  refine ⟨written memory, ?_, ?_, ?_⟩
  · rw [Grammar.readText, made]
    exact read
  · rw [made]
    exact Grammar.readPartial_of_reads (g := g.grammar memory fuel) reads left
  · rw [made]
    exact Grammar.rebuild_of_write (g := g.grammar memory fuel) read written

/-- Outlines of words go there and back.  One with at least one node, without empty blocks and with
    room for its indentation stands for the text that is written for it.  Whatever an input of
    characters that raises errors gives is such an outline, however the blocks of its text were
    indented, and rebuilding it gives a text that rebuilding does not change. -/
theorem outline_roundTrip :
    (∀ ns : List (Outline Value Value), ns ≠ [] → (∀ n ∈ ns, g.Node n) → g.Within roomLimit ns →
      ∃ text enough, ∀ fuel, enough ≤ fuel → ∀ memory,
        g.Restored memory fuel (Outline.root ns).toValue text) ∧
    ∀ {σ : Type} [Feed σ] [LawfulFeed σ] [StickyFeed σ] (input : Input σ), input.Strict →
      ∀ fuel memory v, ((g.grammar memory fuel).readFrom input).result = .ok (some v) →
        ∃ ns, v = (Outline.root ns).toValue ∧ (∀ n ∈ ns, g.Node n) ∧
          (ns ≠ [] → g.Within roomLimit ns →
            ∃ text enough,
              (enough ≤ fuel → ((g.grammar memory fuel).rebuild (.ok input)).result =
                .ok (some (Token.ofText text))) ∧
              ∀ fuel, enough ≤ fuel → ∀ memory, g.Restored memory fuel v text) := by
  constructor
  · intro ns ne nodes room
    exact g.restores nodes ne room
  · intro σ _ _ _ input strict fuel memory v read
    obtain ⟨_, shape⟩ := g.ensures_pattern fuel { feed := input, memory := memory } (some v) _ strict
      (Prod.ext read rfl)
    obtain ⟨ns, rfl, nodes⟩ := shape v rfl
    refine ⟨ns, rfl, nodes, fun ne room => ?_⟩
    obtain ⟨text, enough, restored⟩ := g.restores nodes ne room
    refine ⟨text, enough, fun granted => ?_, restored⟩
    exact Grammar.rebuild_of_write read fun memory => (restored fuel granted memory).written

/-- Words of small letters, with a colon before a block that is indented by two blanks. -/
def colons : LineGrammar where
  letters := .range (.char 'a') (.char 'z')
  mark := ':'
  base := 0
  step := 2
  break_not_letter := by decide
  blank_not_letter := by decide
  mark_not_letter := by decide
  mark_ne_break := by decide
  step_pos := by decide

/-- Two blocks that close at once, and a line after them. -/
def twoBlocks : List (Outline Value Value) :=
  [.nest (.text "a") (.char ':') [.nest (.text "b") (.char ':') [.term (.text "c")]],
    .term (.text "d")]

theorem node_twoBlocks : ∀ n ∈ twoBlocks, colons.Node n := by
  have word : ∀ s ∈ ["a", "b", "c", "d"], colons.IsWord s := by
    intro s mem
    simp only [List.mem_cons, List.not_mem_nil, or_false] at mem
    rcases mem with rfl | rfl | rfl | rfl <;> exact ⟨rfl, List.all_eq_true.mp rfl⟩
  intro n mem
  rcases List.mem_cons.mp mem with rfl | mem
  · refine .nest (word _ (by decide)) nofun fun n mem => ?_
    cases List.mem_singleton.mp mem
    refine .nest (word _ (by decide)) nofun fun n mem => ?_
    cases List.mem_singleton.mp mem
    exact .term (word _ (by decide))
  · cases List.mem_singleton.mp mem
    exact .term (word _ (by decide))

theorem within_twoBlocks : colons.Within roomLimit twoBlocks := by
  unfold Within
  decide

/-- The blocks are restored from what is written for them.  They are also read from a text that is
    indented in another way and has no break at its end. -/
theorem outline_roundTrip_twoBlocks :
    (∃ text enough, ∀ fuel, enough ≤ fuel → ∀ memory,
      colons.Restored memory fuel (Outline.root twoBlocks).toValue text) ∧
    ∃ input, Input.ofText "a:\n b:\n   c\nd" stringFile = .ok input ∧
      ((colons.grammar .empty 20).readFrom input).result =
        .ok (some (Outline.root twoBlocks).toValue) ∧
      ∃ text enough,
        (enough ≤ 20 → ((colons.grammar .empty 20).rebuild (.ok input)).result =
          .ok (some (Token.ofText text))) ∧
        ∀ fuel, enough ≤ fuel → ∀ memory,
          colons.Restored memory fuel (Outline.root twoBlocks).toValue text := by
  obtain ⟨forth, back⟩ := colons.outline_roundTrip
  refine ⟨forth twoBlocks nofun node_twoBlocks within_twoBlocks, ?_⟩
  have answer : ((colons.grammar .empty 20).readText "a:\n b:\n   c\nd").result =
      .ok (some (Outline.root twoBlocks).toValue) := by
    cbv
  have ne : "a:\n b:\n   c\nd".toList ≠ [] := by decide
  obtain ⟨input, made, mode, left⟩ := Input.ofText_ok ne stringFile
  rw [Grammar.readText, made] at answer
  refine ⟨input, made, answer, ?_⟩
  have strict : input.Strict := by
    refine ⟨mode, fun t mem => ?_⟩
    rw [left] at mem
    obtain ⟨c, _, eq⟩ := List.mem_map.mp mem
    exact ⟨c, eq.symm⟩
  obtain ⟨ns, same, _, restored⟩ := back input strict 20 .empty _ answer
  have eq : Outline.root twoBlocks = .root ns := by
    rw [← Outline.ofValue_toValue (.root twoBlocks), same, Outline.ofValue_toValue]
  cases eq
  exact restored nofun within_twoBlocks

/-- The same with a top level that starts where no room is left for blanks. -/
def wide : LineGrammar :=
  { colons with base := roomLimit }

/-- An indentation can be a machine word and still have no room: then nothing is written. -/
theorem wide_noRoom :
    (∀ n ∈ [Outline.term (.text "a")], wide.Node n) ∧
    wide.Within UInt64.size [.term (.text "a")] ∧
    ∀ fuel memory, ((wide.grammar memory (fuel + 5)).write
      (Outline.root [.term (.text "a")]).toValue).result = .error (.halt (.abort .noRoom)) := by
  refine ⟨?_, ?_, ?_⟩
  · intro n mem
    cases List.mem_singleton.mp mem
    exact .term ⟨rfl, List.all_eq_true.mp rfl⟩
  · unfold Within
    decide
  · intro fuel memory
    rfl

end LineGrammar

end Duplex
