/-
Module: Duplex.Proofs.Outline.Offside
Purpose: The off-side rule.  Outlines are read by one call for each open block, and none of these calls
  sees the indentation of the blocks around it; each gives back the indentation that closed it, and
  the call around it decides what that means.  Together they do what one stack of indentations does
  row by row: the calls that wait at a row are the stack there.
Main exports: Offside.next?, Offside.heights, LineGrammar.Follows, LineGrammar.follows_rows,
  LineGrammar.offside_iff
-/
import Duplex.Proofs.Outline.Frames
import Duplex.Proofs.Outline.RoundTrip
import Duplex.Proofs.Outline.Rows

namespace Duplex

/-! ### The stack of open blocks -/

namespace Offside

/-- The indentations of the open blocks at the next row, innermost first.  Behind a mark the next
    row is deeper than the innermost block and opens another; else it closes the blocks that are
    deeper, and goes on with the one that is left innermost. -/
def next? (stack : List Nat) (marked : Bool) (indent : Nat) : Option (List Nat) :=
  if marked then
    if stack.head?.any (· < indent) then some (indent :: stack) else none
  else
    let left := stack.dropWhile (indent < ·)
    if left.head? = some indent then some left else none

theorem next?_marked (top : Nat) (below : List Nat) (indent : Nat) :
    next? (top :: below) true indent =
      if top < indent then some (indent :: top :: below) else none := by
  simp [next?]

theorem next?_unmarked (stack : List Nat) (indent : Nat) :
    next? stack false indent =
      if (stack.dropWhile (indent < ·)).head? = some indent then
        some (stack.dropWhile (indent < ·))
      else none := by
  simp [next?]

/-- The top level is below every block that a row closes. -/
theorem zero_mem_below {top indent : Nat} {below : List Nat} (mem : 0 ∈ top :: below)
    (deeper : indent < top) : 0 ∈ below := by
  rcases List.mem_cons.mp mem with zero | lower
  · omega
  · exact lower

theorem zero_mem_dropWhile {stack : List Nat} (mem : 0 ∈ stack) (indent : Nat) :
    0 ∈ stack.dropWhile (indent < ·) := by
  induction stack with
  | nil => cases mem
  | cons top below ih =>
      by_cases deeper : indent < top
      · simpa [deeper] using ih (zero_mem_below mem deeper)
      · simpa [deeper] using mem

/-- The number of open blocks at each row, with the stack at the first one given; none if a row is
    not where it may be, or if the last one has a mark. -/
def heights : List Nat → List Row → Option (List Nat)
  | _, [] => some []
  | stack, [row] => if row.marked then none else some [stack.length]
  | stack, row :: next :: rows =>
      (next? stack row.marked next.indent).bind fun left =>
        (heights left (next :: rows)).map (stack.length :: ·)

theorem length_heights {stack : List Nat} {rows : List Row} {hs : List Nat}
    (accepted : heights stack rows = some hs) : hs.length = rows.length := by
  fun_induction heights stack rows generalizing hs with
  | case1 =>
      cases accepted
      rfl
  | case2 => cases accepted
  | case3 =>
      cases accepted
      rfl
  | case4 stack row next rows ih =>
      obtain ⟨left, _, mapped⟩ := Option.bind_eq_some_iff.mp accepted
      obtain ⟨others, later, rfl⟩ := Option.map_eq_some_iff.mp mapped
      simp [ih left later]

end Offside

/-! ### Strict sessions -/

section Strict

variable {σ α : Type} [Feed σ] [LawfulFeed σ] [StickyFeed σ] {s : Session Memory (Input σ)}

/-- A session whose input raises errors and has just the characters `cs` left. -/
structure Before (cs : List Char) (s : Session Memory (Input σ)) : Prop where
  raises : s.feed.mode = .raise
  left : remaining s.feed = LineGrammar.tokens cs

/-- What reads the characters in front leaves those behind them. -/
theorem Read.Reads.leaves {r : Read Memory (Input σ) α} {cs ds : List Char} {a : α}
    (reads : r.Reads (LineGrammar.tokens cs) (LineGrammar.tokens ds) a)
    (start : Before (cs ++ ds) s) : ∃ t, r.perform s = (.ok a, t) ∧ Before ds t := by
  have left : remaining s.feed = LineGrammar.tokens cs ++ LineGrammar.tokens ds := by
    rw [start.left, LineGrammar.tokens, List.map_append]
  obtain ⟨t, run, feed, _⟩ := reads s left
  refine ⟨t, run, ?_, ?_⟩
  · rw [feed, Input.mode_advance, start.raises]
  · rw [feed]
    exact LawfulFeed.remaining_advance left

/-- A report ends the read. -/
theorem Before.faults_report {cs : List Char} (start : Before cs s) (message : String)
    (f : Unit → Read Memory (Input σ) α) : (Read.report message >>= f).Faults s := by
  have raised : ∃ cause, (Feed.report s.feed message).fault = some cause := by
    rw [Input.fault_report, start.raises]
    exact ⟨_, rfl⟩
  obtain ⟨cause, told⟩ := raised
  have reported : (Read.report message : Read Memory (Input σ) Unit).Faults s := by
    rw [Read.Faults, Read.perform_report, told]
    exact ⟨cause, _, rfl⟩
  exact reported.bind f

end Strict

/-! ### One row -/

namespace LineGrammar

open Read

variable (g : LineGrammar) {σ : Type} [Feed σ] [LawfulFeed σ] [StickyFeed σ]
  {s : Session Memory (Input σ)} {fuel turns here next : Nat} {row : Row}
  {behind rest : List Char}

/-- The read of a block, with so much fuel for its words. -/
abbrev block (fuel turns here : Nat) (nodes : List (Outline Value Value)) :
    Read Memory (Input σ) (Option (Nat × List (Outline Value Value))) :=
  layer (g.parts (fuel + 4)) turns (g.word.read (fuel + 4)) here nodes

/-- A row with a mark opens a block, which has to be deeper. -/
theorem block_marked (turns here : Nat) (nodes : List (Outline Value Value))
    (readable : g.Readable fuel row) (marked : row.marked = true)
    (breaks : g.Breaks (fuel + 4) behind rest next)
    (start : Before (lineText (g.line row) ++ (behind ++ rest)) s) :
    (next ≤ here → (g.block fuel (turns + 1) here nodes).Faults s) ∧
    (here < next → ∃ t, Before rest t ∧
      (g.block fuel (turns + 1) here nodes).perform s =
        (g.block fuel turns next [] >>= resume (g.parts (fuel + 4)) (g.word.read (fuel + 4))
          ⟨here, turns, .text row.word, .char g.mark, nodes⟩).perform t) := by
  rw [g.lineText_line, if_pos marked, List.append_assoc] at start
  have noLetter : Pattern.Ahead (fun t => g.letters.holds t = false)
      (tokens ([g.mark] ++ (behind ++ rest))) := by
    rintro t ⟨rfl⟩
    exact g.mark_not_letter
  have enough : row.word.length ≤ fuel + 2 := Nat.le_add_right_of_le readable.wordFuel
  obtain ⟨t₁, word, start⟩ := (g.reads_word readable.isWord enough noLetter).leaves start
  have isMark : (Condition.equal (.char g.mark)).holds (.char g.mark) = true := beq_self_eq_true _
  have mark : (g.parts (fuel + 4) (σ := Input σ)).tail.Reads (tokens [g.mark])
      (tokens (behind ++ rest)) (some (.char g.mark)) :=
    (reads_consumeIf isMark _).map (Option.map Token.toValue)
  obtain ⟨t₂, mark, start⟩ := mark.leaves start
  obtain ⟨t₃, gap, start⟩ := breaks.reads.leaves start
  have turn := perform_layer_marked turns here nodes word mark gap
  constructor
  · intro level
    rw [if_pos level] at turn
    obtain ⟨cause, t, run⟩ := start.faults_report _ _
    exact ⟨cause, t, turn.trans run⟩
  · intro deeper
    rw [if_neg (Nat.not_le_of_lt deeper)] at turn
    exact ⟨t₃, start, turn⟩

/-- A row without a mark goes on with its block, or with one around it. -/
theorem block_unmarked (turns here : Nat) (nodes : List (Outline Value Value))
    (readable : g.Readable fuel row) (unmarked : row.marked = false)
    (breaks : g.Breaks (fuel + 4) behind rest next)
    (start : Before (lineText (g.line row) ++ (behind ++ rest)) s) :
    (here < next → (g.block fuel (turns + 1) here nodes).Faults s) ∧
    (next ≤ here → ∃ t, Before rest t ∧
      (g.block fuel (turns + 1) here nodes).perform s =
        (layerOn (g.parts (fuel + 4)) (g.word.read (fuel + 4)) turns here next
          (.term (.text row.word) :: nodes)).perform t) := by
  rw [g.lineText_line, unmarked, if_neg Bool.false_ne_true, List.append_nil] at start
  have enough : row.word.length ≤ fuel + 2 := Nat.le_add_right_of_le readable.wordFuel
  have noLetter : Pattern.Ahead (fun t => g.letters.holds t = false) (tokens (behind ++ rest)) := by
    rw [tokens, List.map_append]
    exact breaks.noLetter
  have noMark : Pattern.Ahead (· ≠ .char g.mark) (tokens (behind ++ rest)) := by
    rw [tokens, List.map_append]
    exact breaks.noMark
  obtain ⟨t₁, word, start⟩ := (g.reads_word readable.isWord enough noLetter).leaves start
  have none : (g.parts (fuel + 4) (σ := Input σ)).tail.Reads (tokens []) (tokens (behind ++ rest))
      none := g.reads_mark_none noMark (fuel + 3)
  obtain ⟨t₂, none, start⟩ := none.leaves start
  obtain ⟨t₃, gap, start⟩ := breaks.reads.leaves start
  have turn := perform_layer_unmarked turns here nodes word none gap
  constructor
  · intro deeper
    rw [if_pos deeper] at turn
    obtain ⟨cause, t, run⟩ := start.faults_report _ _
    exact ⟨cause, t, turn.trans run⟩
  · intro level
    rw [if_neg (Nat.not_lt_of_le level)] at turn
    exact ⟨t₃, start, turn⟩

/-! ### Closing blocks -/

/-- The innermost block and those around it, with so much fuel for words. -/
abbrev unwound (fuel : Nat) (frames : List (Frame Value Value))
    (r : Read Memory (Input σ) (Option (Nat × List (Outline Value Value)))) :
    Read Memory (Input σ) (Option (Nat × List (Outline Value Value))) :=
  unwind (g.parts (fuel + 4)) (g.word.read (fuel + 4)) frames r

/-- A read that goes on with an open block at the indentation `next`, the innermost of `left`; the
    nodes read before are kept, and every block has at least so many turns left. -/
def GoesOn (fuel least next : Nat) (left : List Nat) (plugged : List (Outline Value Value))
    (s : Session Memory (Input σ))
    (r : Read Memory (Input σ) (Option (Nat × List (Outline Value Value)))) : Prop :=
  ∃ frames turns nodes, left = next :: frames.map Frame.here ∧ least ≤ turns ∧
    (∀ frame ∈ frames, least ≤ frame.turns) ∧ plug frames nodes = plugged ∧
    r.perform s = (g.unwound fuel frames (g.block fuel turns next nodes)).perform s

/-- A read that closes the open blocks deeper than `next`, and goes on with the innermost of the
    others if `next` is its indentation. -/
def Closes (fuel least next : Nat) (stack : List Nat) (plugged : List (Outline Value Value))
    (s : Session Memory (Input σ))
    (r : Read Memory (Input σ) (Option (Nat × List (Outline Value Value)))) : Prop :=
  if (stack.dropWhile (next < ·)).head? = some next then
    g.GoesOn fuel least next (stack.dropWhile (next < ·)) plugged s r
  else r.Faults s

section Closing

variable {g} {least : Nat} {stack : List Nat} {plugged : List (Outline Value Value)}
  {r q : Read Memory (Input σ) (Option (Nat × List (Outline Value Value)))}

omit [LawfulFeed σ] [StickyFeed σ]

theorem Closes.congr (closes : g.Closes fuel least next stack plugged s r)
    (same : q.perform s = r.perform s) : g.Closes fuel least next stack plugged s q := by
  unfold Closes GoesOn Faults
  rw [same]
  exact closes

/-- A deeper block is closed with those inside it. -/
theorem Closes.cons (closes : g.Closes fuel least next stack plugged s r) (deeper : next < here) :
    g.Closes fuel least next (here :: stack) plugged s r := by
  have dropped : (here :: stack).dropWhile (next < ·) = stack.dropWhile (next < ·) := by
    simp [deeper]
  rw [Closes, dropped]
  exact closes

/-- A block at the indentation of the next row goes on. -/
theorem closes_here {frames : List (Frame Value Value)} {nodes : List (Outline Value Value)}
    (enough : least ≤ turns) (waiting : ∀ frame ∈ frames, least ≤ frame.turns)
    (run : r.perform s = (g.unwound fuel frames (g.block fuel turns next nodes)).perform s) :
    g.Closes fuel least next (next :: frames.map Frame.here) (plug frames nodes) s r := by
  have kept : (next :: frames.map Frame.here).dropWhile (next < ·) =
      next :: frames.map Frame.here := by simp
  rw [Closes, kept, List.head?_cons, if_pos rfl]
  exact ⟨frames, turns, nodes, rfl, enough, waiting, rfl, run⟩

/-- No block goes on at a row that is deeper than the innermost one left. -/
theorem closes_faults (above : here < next) (faults : r.Faults s) :
    g.Closes fuel least next (here :: stack) plugged s r := by
  have kept : (here :: stack).dropWhile (next < ·) = here :: stack := by
    simp [Nat.le_of_lt above]
  have apart : some here ≠ some next := by
    simp only [ne_eq, Option.some.injEq]
    omega
  rw [Closes, kept, List.head?_cons, if_neg apart]
  exact faults

end Closing

/-- A break to `next` that has closed the innermost block closes those around it that are deeper. -/
theorem unwound_closed {cs : List Char} (start : Before cs s) (fuel : Nat) {least : Nat}
    {frames : List (Frame Value Value)} (grounded : 0 ∈ frames.map Frame.here)
    (waiting : ∀ frame ∈ frames, least ≤ frame.turns) (nodes : List (Outline Value Value)) :
    g.Closes fuel least next (frames.map Frame.here) (plug frames nodes) s
      (g.unwound fuel frames (pure (some (next, nodes.reverse)))) := by
  induction frames generalizing nodes with
  | nil => cases grounded
  | cons frame frames ih =>
      have waits := waiting frame List.mem_cons_self
      have others : ∀ other ∈ frames, least ≤ other.turns :=
        fun other mem => waiting other (List.mem_cons_of_mem _ mem)
      have resumed :
          (g.unwound fuel (frame :: frames) (pure (some (next, nodes.reverse)))).perform s =
          (g.unwound fuel frames (resume (g.parts (fuel + 4)) (g.word.read (fuel + 4)) frame
            (some (next, nodes.reverse)))).perform s := unwind_congr rfl
      rcases Nat.lt_trichotomy next frame.here with deeper | rfl | above
      · have below : 0 ∈ frames.map Frame.here := Offside.zero_mem_below grounded deeper
        rw [resume_eq (Nat.le_of_lt deeper), layerOn, if_pos deeper] at resumed
        exact ((ih below others (frame.closing nodes.reverse)).congr resumed).cons deeper
      · rw [resume_eq (Nat.le_refl _), layerOn, if_neg (Nat.lt_irrefl _)] at resumed
        exact closes_here waits others resumed
      · have unaligned : (resume (g.parts (fuel + 4)) (g.word.read (fuel + 4)) frame
            (some (next, nodes.reverse))).Faults s := by
          unfold resume
          dsimp only
          rw [if_neg (Nat.not_lt_of_lt above), if_pos above]
          exact start.faults_report _ _
        exact closes_faults above ((unaligned.unwind frames).congr resumed)

/-- A break that is not deeper than the innermost block closes it, or that block goes on. -/
theorem unwound_layerOn {cs : List Char} (start : Before cs s) (fuel : Nat) {least : Nat}
    {frames : List (Frame Value Value)} (grounded : 0 ∈ here :: frames.map Frame.here)
    (level : next ≤ here) (enough : least ≤ turns)
    (waiting : ∀ frame ∈ frames, least ≤ frame.turns) (nodes : List (Outline Value Value)) :
    g.Closes fuel least next (here :: frames.map Frame.here) (plug frames nodes) s
      (g.unwound fuel frames
        (layerOn (g.parts (fuel + 4)) (g.word.read (fuel + 4)) turns here next nodes)) := by
  unfold layerOn
  rcases Nat.lt_or_eq_of_le level with deeper | rfl
  · have below : 0 ∈ frames.map Frame.here := Offside.zero_mem_below grounded deeper
    rw [if_pos deeper]
    exact (g.unwound_closed start fuel below waiting nodes).cons deeper
  · rw [if_neg (Nat.lt_irrefl next)]
    exact closes_here enough waiting rfl

/-! ### One row after the other -/

/-- The read comes to what the heights of the rows say: without any, to a fault; else to nodes with
    the lines `laid` before and those of the rows, each as deep as it is high. -/
def Settles (laid : List (Nat × Outline.Line Value Value)) (rows : List Row)
    (s : Session Memory (Input σ))
    (r : Read Memory (Input σ) (Option (Nat × List (Outline Value Value)))) :
    Option (List Nat) → Prop
  | none => r.Faults s
  | some heights => ∃ ns t, r.perform s = (.ok (some (0, ns)), t) ∧
      Outline.linesOf 1 1 ns = laid ++ heights.zip (rows.map g.line)

omit [Feed σ] [LawfulFeed σ] [StickyFeed σ] in
/-- What settles the rows behind a row whose line is laid already settles them together with it. -/
theorem Settles.cons {g : LineGrammar} {laid more : List (Nat × Outline.Line Value Value)}
    {rows : List Row} {height : Nat} {heights : Option (List Nat)} {t : Session Memory (Input σ)}
    {r q : Read Memory (Input σ) (Option (Nat × List (Outline Value Value)))}
    (settles : g.Settles more rows t r heights) (lines : more = laid ++ [(height, g.line row)])
    (same : q.perform s = r.perform t) :
    g.Settles laid (row :: rows) s q (heights.map (height :: ·)) := by
  subst lines
  cases heights with
  | none => exact Faults.congr settles same
  | some heights =>
      obtain ⟨ns, u, run, lines⟩ := settles
      exact ⟨ns, u, same.trans run, by simpa using lines⟩

/-- The calls of all blocks that are open at a row follow the stack of their indentations, from that
    row on. -/
def Follows (fuel : Nat) (ending : List Char) (row : Row) (rows : List Row) : Prop :=
  ∀ ⦃σ : Type⦄ [Feed σ] [LawfulFeed σ] [StickyFeed σ] {s : Session Memory (Input σ)}
    {here turns : Nat} {frames : List (Frame Value Value)} {nodes : List (Outline Value Value)},
    Before (g.page ending (row :: rows)) s → 0 ∈ here :: frames.map Frame.here →
    rows.length + 2 ≤ turns → (∀ frame ∈ frames, rows.length + 2 ≤ frame.turns) →
    g.Settles (Outline.linesOf 1 1 (plug frames nodes)) (row :: rows) s
      (g.unwound fuel frames (g.block fuel turns here nodes))
      (Offside.heights (here :: frames.map Frame.here) (row :: rows))

/-- Behind the last row all blocks are closed. -/
theorem layerOn_end (fuel here : Nat) (start : Before [] s) (enough : 1 ≤ turns)
    (nodes : List (Outline Value Value)) :
    ∃ t, Before [] t ∧
      (layerOn (g.parts (fuel + 4)) (g.word.read (fuel + 4)) turns here 0 nodes).perform s =
        (.ok (some (0, nodes.reverse)), t) := by
  unfold layerOn
  by_cases deeper : 0 < here
  · rw [if_pos deeper]
    exact ⟨s, start, rfl⟩
  · obtain rfl : here = 0 := by omega
    obtain ⟨turns, rfl⟩ : ∃ k, turns = k + 1 := ⟨turns - 1, by omega⟩
    have last : (g.block fuel (turns + 1) 0 nodes (σ := σ)).Reads (tokens []) (tokens [])
        (some (0, nodes.reverse)) := reads_layer_end (g.reads_word_none (fuel + 2))
    obtain ⟨t, run, ended⟩ := last.leaves start
    exact ⟨t, ended, run⟩

theorem unwound_end {frames : List (Frame Value Value)} {nodes : List (Outline Value Value)}
    {t : Session Memory (Input σ)}
    {r : Read Memory (Input σ) (Option (Nat × List (Outline Value Value)))}
    (waiting : ∀ frame ∈ frames, 1 ≤ frame.turns) (ended : Before [] t)
    (run : r.perform s = (.ok (some (0, nodes.reverse)), t)) :
    ∃ u, (g.unwound fuel frames r).perform s = (.ok (some (0, plug frames nodes)), u) := by
  induction frames generalizing r t nodes with
  | nil => exact ⟨t, run⟩
  | cons frame frames ih =>
      obtain ⟨u, ended, closed⟩ := g.layerOn_end fuel frame.here ended
        (waiting frame List.mem_cons_self) (frame.closing nodes.reverse)
      refine ih (fun other mem => waiting other (List.mem_cons_of_mem _ mem)) ended ?_
      rw [perform_bind_ok run, resume_eq (Nat.zero_le _)]
      exact closed

theorem follows_last {ending : List Char} (flush : g.base = 0)
    (ends : ending = [] ∨ ending = ['\n']) (readable : g.Readable fuel row) :
    g.Follows fuel ending row [] := by
  intro σ _ _ _ s here turns frames nodes start _ enough waiting
  obtain ⟨turns, rfl⟩ : ∃ k, turns = k + 1 := ⟨turns - 1, by omega⟩
  have breaks := g.breaks_end flush ends fuel
  have last : Before (lineText (g.line row) ++ (ending ++ [])) s := by
    rw [List.append_nil]
    exact start
  cases marked : row.marked with
  | true =>
      have faults := (g.block_marked turns here nodes readable marked breaks last).1
        (Nat.zero_le here)
      simpa [Offside.heights, marked, Settles] using faults.unwind frames
  | false =>
      obtain ⟨t, ended, run⟩ := (g.block_unmarked turns here nodes readable marked breaks last).2
        (Nat.zero_le here)
      obtain ⟨u, ended, closed⟩ := g.layerOn_end fuel here ended (Nat.le_of_succ_le_succ enough)
        (.term (.text row.word) :: nodes)
      obtain ⟨v, run⟩ := g.unwound_end (fun frame mem => Nat.le_of_succ_le (waiting frame mem))
        ended (run.trans closed)
      simp only [Offside.heights, marked, Bool.false_eq_true, if_false, Settles]
      refine ⟨_, v, run, ?_⟩
      simp [linesOf_plug_cons, Outline.lines, line, marked]

section Step

variable {ending : List Char} {following : Row} {rows : List Row}
  (readable : g.Readable fuel row) (nextReadable : g.Readable fuel following)
  (later : g.Follows fuel ending following rows)
include readable nextReadable later

/-- Behind a mark one more block is open. -/
theorem follows_marked (marked : row.marked = true) :
    g.Follows fuel ending row (following :: rows) := by
  intro σ _ _ _ s here turns frames nodes start grounded enough waiting
  rw [List.length_cons] at enough waiting
  obtain ⟨turns, rfl⟩ : ∃ k, turns = k + 1 := ⟨turns - 1, by omega⟩
  have enough : rows.length + 2 ≤ turns := Nat.le_of_succ_le_succ enough
  have breaks := g.breaks_gap nextReadable.small nextReadable.indentFuel
    (g.ahead_page ending nextReadable.isWord rows)
  obtain ⟨shallow, deep⟩ := g.block_marked turns here nodes readable marked breaks start
  rw [Offside.heights, marked, Offside.next?_marked]
  by_cases deeper : here < following.indent
  · obtain ⟨t, start, run⟩ := deep deeper
    let frame : Frame Value Value := ⟨here, turns, .text row.word, .char g.mark, nodes⟩
    have waiting : ∀ other ∈ frame :: frames, rows.length + 2 ≤ other.turns := by
      intro other mem
      rcases List.mem_cons.mp mem with rfl | among
      · exact enough
      · exact Nat.le_of_succ_le (waiting other among)
    have laid : Outline.linesOf 1 1 (plug (frame :: frames) []) =
        Outline.linesOf 1 1 (plug frames nodes) ++
          [((here :: frames.map Frame.here).length, g.line row)] := by
      simp [plug, Frame.closing, frame, linesOf_plug_cons, Outline.lines, Outline.linesOf, line,
        marked]
    have grounded : 0 ∈ following.indent :: (frame :: frames).map Frame.here :=
      List.mem_cons_of_mem _ grounded
    rw [if_pos deeper, Option.bind_some]
    exact (later start grounded enough waiting).cons laid (unwind_congr run)
  · rw [if_neg deeper]
    exact (shallow (Nat.le_of_not_lt deeper)).unwind frames

/-- Without a mark the block goes on, or one around it. -/
theorem follows_unmarked (unmarked : row.marked = false) :
    g.Follows fuel ending row (following :: rows) := by
  intro σ _ _ _ s here turns frames nodes start grounded enough waiting
  rw [List.length_cons] at enough waiting
  obtain ⟨turns, rfl⟩ : ∃ k, turns = k + 1 := ⟨turns - 1, by omega⟩
  have breaks := g.breaks_gap nextReadable.small nextReadable.indentFuel
    (g.ahead_page ending nextReadable.isWord rows)
  obtain ⟨deep, shallow⟩ := g.block_unmarked turns here nodes readable unmarked breaks start
  rw [Offside.heights, unmarked, Offside.next?_unmarked]
  by_cases level : following.indent ≤ here
  · obtain ⟨t, start, run⟩ := shallow level
    have closes := g.unwound_layerOn start fuel grounded level (Nat.le_of_succ_le_succ enough)
      (fun frame mem => Nat.le_of_succ_le (waiting frame mem)) (.term (.text row.word) :: nodes)
    by_cases aligned : ((here :: frames.map Frame.here).dropWhile (following.indent < ·)).head? =
        some following.indent
    · rw [Closes, if_pos aligned] at closes
      obtain ⟨left, turns', nodes', stack, enough, waiting, plugs, on⟩ := closes
      have grounded : 0 ∈ following.indent :: left.map Frame.here := by
        rw [← stack]
        exact Offside.zero_mem_dropWhile grounded following.indent
      have laid : Outline.linesOf 1 1 (plug left nodes') =
          Outline.linesOf 1 1 (plug frames nodes) ++
            [((here :: frames.map Frame.here).length, g.line row)] := by
        simp [plugs, linesOf_plug_cons, Outline.lines, line, unmarked]
      rw [if_pos aligned, Option.bind_some, stack]
      exact (later start grounded enough waiting).cons laid ((unwind_congr run).trans on)
    · rw [Closes, if_neg aligned] at closes
      rw [if_neg aligned]
      exact closes.congr (unwind_congr run)
  · have kept : (here :: frames.map Frame.here).dropWhile (following.indent < ·) =
        here :: frames.map Frame.here := by simp [Nat.le_of_not_le level]
    rw [kept, List.head?_cons, if_neg (by simp; omega)]
    exact (deep (Nat.lt_of_not_le level)).unwind frames

end Step

/-- The calls of all open blocks follow the stack, row by row. -/
theorem follows_rows {ending : List Char} (flush : g.base = 0)
    (ends : ending = [] ∨ ending = ['\n']) {rows : List Row}
    (readable : ∀ other ∈ row :: rows, g.Readable fuel other) : g.Follows fuel ending row rows := by
  have own := readable row List.mem_cons_self
  induction rows generalizing row with
  | nil => exact g.follows_last flush ends own
  | cons following rows ih =>
      have others : ∀ other ∈ following :: rows, g.Readable fuel other :=
        fun other mem => readable other (List.mem_cons_of_mem _ mem)
      have nextReadable := others following List.mem_cons_self
      have later := ih others nextReadable
      cases marked : row.marked with
      | true => exact g.follows_marked own nextReadable later marked
      | false => exact g.follows_unmarked own nextReadable later marked

/-! ### Whole texts -/

/-- A text of rows is read as the stack of indentations has it. -/
theorem outline_follows {ending : List Char} (flush : g.base = 0)
    (ends : ending = [] ∨ ending = ['\n']) {rows : List Row}
    (readable : ∀ other ∈ row :: rows, g.Readable fuel other)
    (start : Before (g.page ending (row :: rows)) s) (enough : rows.length ≤ fuel) :
    match Offside.heights [0] (row :: rows) with
    | none => (g.pattern.read (fuel + 5)).Faults s
    | some hs => ∃ ns t,
        (g.pattern.read (fuel + 5)).perform s = (.ok (some (Outline.root ns).toValue), t) ∧
        Outline.linesOf 1 1 ns = hs.zip ((row :: rows).map g.line) := by
  have follows := g.follows_rows flush ends readable
  have settles : g.Settles [] (row :: rows) s (g.block fuel (fuel + 4) 0 [])
      (Offside.heights [0] (row :: rows)) :=
    @follows σ _ _ _ s 0 (fuel + 4) [] [] start List.mem_cons_self (by omega) nofun
  rw [g.read_pattern]
  cases accepted : Offside.heights [0] (row :: rows) with
  | none =>
      rw [accepted] at settles
      unfold outline
      rw [flush]
      exact (Faults.bind settles _).bind _
  | some hs =>
      rw [accepted] at settles
      obtain ⟨ns, t, run, lines⟩ := settles
      have whole :
          (outline (fuel + 4) (g.parts (fuel + 4)) (g.word.read (fuel + 4)) g.base).perform s =
            (.ok (some (.root ns)), t) := by
        unfold outline
        rw [flush, perform_bind_ok run]
        rfl
      refine ⟨ns, t, ?_, lines⟩
      rw [perform_bind_ok whole]
      rfl

theorem page_ne_nil (ending : List Char) (rows : List Row) (word : row.word ≠ "") :
    g.page ending (row :: rows) ≠ [] := by
  intro empty
  have size := g.length_word_le ending (List.mem_cons_self (a := row) (l := rows))
  simp only [empty, List.length_nil, Nat.le_zero] at size
  exact word (by simpa using size)

/-- There is one outline with the rows as its lines. -/
theorem eq_iff_lines {ns : List (Outline Value Value)} {hs : List Nat} {rows : List Row}
    (size : hs.length = rows.length) (lines : Outline.linesOf 1 1 ns = hs.zip (rows.map g.line))
    (ms : List (Outline Value Value)) :
    ms = ns ↔ (Outline.linesOf 1 1 ms).map Prod.fst = hs ∧
      (Outline.linesOf 1 1 ms).map Prod.snd = rows.map g.line := by
  constructor
  · rintro rfl
    rw [lines, List.map_fst_zip (by simp [size]), List.map_snd_zip (by simp [size])]
    exact ⟨rfl, rfl⟩
  · rintro ⟨levels, contents⟩
    have same : Outline.linesOf 1 1 ms = hs.zip (rows.map g.line) :=
      List.zip_of_prod levels contents
    have placed : ∀ l ∈ Outline.linesOf 1 1 ms, l.2 ≠ .misplaced := by
      intro l mem
      have among := List.mem_map_of_mem (f := Prod.snd) mem
      rw [contents] at among
      obtain ⟨row, _, eq⟩ := List.mem_map.mp among
      rw [← eq, line]
      split <;> simp
    exact Outline.linesOf_injective Nat.one_pos (same.trans lines.symm) placed

/-- The off-side rule.  A text of rows, at least one, with the first one at the margin and with or
    without a line break at the end, is read exactly where the stack of indentations accepts it, and
    is a fault elsewhere.  What is read is the one outline whose lines are the rows in their order,
    each as deep as the stack is high there, and with a block below those with a mark.  Texts longer
    than a machine word can count do not exist, and repetitions do not count further. -/
theorem offside_iff (flush : g.base = 0) {rows : List Row} (margin : row.indent = 0)
    (words : ∀ other ∈ row :: rows, g.IsLetters other.word) {ending : List Char}
    (ends : ending = [] ∨ ending = ['\n'])
    (short : (g.page ending (row :: rows)).length < UInt64.size) :
    ∃ enough, ∀ fuel, enough ≤ fuel → ∀ memory,
      let answer := ((g.grammar memory fuel).readText
        (String.ofList (g.page ending (row :: rows)))).result
      ((∃ ns, answer = .ok (some (Outline.root ns).toValue)) ↔
        (Offside.heights [0] (row :: rows)).isSome) ∧
      (Offside.heights [0] (row :: rows) = none → ∃ cause, answer = .error (.fault cause)) ∧
      ∀ hs, Offside.heights [0] (row :: rows) = some hs →
        ∃ ns, answer = .ok (some (Outline.root ns).toValue) ∧
          ∀ ms, ms = ns ↔ (Outline.linesOf 1 1 ms).map Prod.fst = hs ∧
            (Outline.linesOf 1 1 ms).map Prod.snd = (row :: rows).map g.line := by
  have ne : (String.ofList (g.page ending (row :: rows))).toList ≠ [] := by
    rw [String.toList_ofList]
    exact g.page_ne_nil ending rows (words row List.mem_cons_self).1
  obtain ⟨input, made, raises, left⟩ := Input.ofText_ok ne stringFile
  rw [Token.ofText, String.toList_ofList] at left
  refine ⟨(g.page ending (row :: rows)).length + rows.length + 5, ?_⟩
  intro fuel enough memory answer
  obtain ⟨fuel, rfl⟩ : ∃ k, fuel = k + 5 := ⟨fuel - 5, by omega⟩
  have fits : (g.page ending (row :: rows)).length ≤ fuel := by omega
  have follows := g.outline_follows flush ends (g.readable_of_page margin words short fits)
    (s := { feed := input, memory := memory }) ⟨raises, left⟩ (by omega)
  have answered : answer =
      ((g.pattern.read (fuel + 5)).perform { feed := input, memory := memory }).1 := by
    simp only [answer, Grammar.readText, made]
    rfl
  cases accepted : Offside.heights [0] (row :: rows) with
  | none =>
      rw [accepted] at follows
      obtain ⟨cause, t, run⟩ := follows
      rw [run] at answered
      simp [answered]
  | some hs =>
      rw [accepted] at follows
      obtain ⟨ns, t, run, lines⟩ := follows
      rw [run] at answered
      refine ⟨⟨fun _ => rfl, fun _ => ⟨ns, answered⟩⟩, by simp, ?_⟩
      rintro _ ⟨rfl⟩
      exact ⟨ns, answered, g.eq_iff_lines (Offside.length_heights accepted) lines⟩

/-- One row closes two blocks of different widths at once, and is read as their neighbour; where it
    is between the two, it is refused. -/
theorem offside_iff_twoClosed :
    (∃ enough, ∀ fuel, enough ≤ fuel → ∀ memory,
      ((colons.grammar memory fuel).readText "a:\n   b:\n     c\nd\n").result =
        .ok (some (Outline.root twoBlocks).toValue)) ∧
    ∃ enough, ∀ fuel, enough ≤ fuel → ∀ memory, ∃ cause,
      ((colons.grammar memory fuel).readText "a:\n   b:\n     c\n d").result =
        .error (.fault cause) := by
  have letters : ∀ s ∈ ["a", "b", "c", "d"], colons.IsLetters s := by
    intro s mem
    simp only [List.mem_cons, List.not_mem_nil, or_false] at mem
    rcases mem with rfl | rfl | rfl | rfl <;> exact ⟨by decide, List.all_eq_true.mp rfl⟩
  have words : ∀ indent, ∀ row ∈ [Row.mk 0 "a" true, ⟨3, "b", true⟩, ⟨5, "c", false⟩,
      ⟨indent, "d", false⟩], colons.IsLetters row.word := by
    intro indent row mem
    simp only [List.mem_cons, List.not_mem_nil, or_false] at mem
    rcases mem with rfl | rfl | rfl | rfl <;> exact letters _ (by simp)
  constructor
  · obtain ⟨enough, answers⟩ := colons.offside_iff rfl rfl (words 0) (.inr rfl) (by decide)
    refine ⟨enough, fun fuel granted memory => ?_⟩
    obtain ⟨_, _, read⟩ := answers fuel granted memory
    obtain ⟨ns, answer, unique⟩ := read [1, 2, 3, 1] (by decide)
    rw [(unique twoBlocks).mpr ⟨by decide, rfl⟩]
    exact answer
  · obtain ⟨enough, answers⟩ := colons.offside_iff rfl rfl (words 1) (.inl rfl) (by decide)
    refine ⟨enough, fun fuel granted memory => ?_⟩
    exact (answers fuel granted memory).2.1 (by decide)

end LineGrammar

end Duplex
