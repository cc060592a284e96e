/-
Module: Duplex.Proofs.Outline.Layers
Purpose: Reading the lines of an outline back, block by block.  Each node takes its own lines and the
  break behind them; whether its block goes on is decided by the indentation that the break gives.
  The invariant is that this indentation is never deeper than the block: it is that of the block
  itself, or of one around it, and then all blocks in between are closed by the same break.
Main exports: Read.layerOn, LineGrammar.Node.reads, LineGrammar.reads_forest,
  LineGrammar.reads_outline
-/
import Duplex.Proofs.Outline.Lines

namespace Duplex

/-! ### One turn of a block -/

namespace Read

variable {μ σ α β : Type} [Feed σ]

/-- A block goes on after a node, unless the indentation behind that is less than its own. -/
def layerOn (parts : OutlineParts μ σ α β) (item : Read μ σ (Option α)) (turns here next : Nat)
    (nodes : List (Outline α β)) : Read μ σ (Option (Nat × List (Outline α β))) :=
  if next < here then return some (next, nodes.reverse) else layer parts turns item here nodes

variable [LawfulFeed σ] {parts : OutlineParts μ σ α β} {item : Read μ σ (Option α)}
  {turns here : Nat} {nodes : List (Outline α β)} {a : α}
  {ts gs us rest : List Token} {result : Option (Nat × List (Outline α β))}

/-- A block ends where no item is. -/
theorem reads_layer_end (stop : item.Reads [] rest none) :
    (layer parts (turns + 1) item here nodes).Reads [] rest (some (here, nodes.reverse)) := by
  unfold layer
  exact stop.bind_nil (reads_pure _ rest)

/-- An item without a mark. -/
theorem reads_layer_term {next : Nat} (word : item.Reads ts (gs ++ (us ++ rest)) (some a))
    (unmarked : parts.tail.Reads [] (gs ++ (us ++ rest)) none)
    (gap : parts.layout.Reads gs (us ++ rest) (some next)) (level : next ≤ here)
    (on : (layerOn parts item turns here next (.term a :: nodes)).Reads us rest result) :
    (layer parts (turns + 1) item here nodes).Reads (ts ++ (gs ++ us)) rest result := by
  unfold layer
  rw [← List.append_assoc] at word unmarked
  apply word.bind
  apply unmarked.bind_nil
  apply gap.bind
  dsimp only
  rw [if_neg (Nat.not_lt_of_le level)]
  exact on

/-- An item with a mark and the block below it. -/
theorem reads_layer_nest {b : β} {below closed : Nat} {children : List (Outline α β)}
    {ms cs : List Token}
    (word : item.Reads ts (ms ++ (gs ++ (cs ++ (us ++ rest)))) (some a))
    (mark : parts.tail.Reads ms (gs ++ (cs ++ (us ++ rest))) (some b))
    (gap : parts.layout.Reads gs (cs ++ (us ++ rest)) (some below)) (deeper : here < below)
    (block : (parts.block a b fun inner => layer parts turns inner below []).Reads cs (us ++ rest)
      (some (closed, children)))
    (level : closed ≤ here)
    (on : (layerOn parts item turns here closed (.nest a b children :: nodes)).Reads us rest
      result) :
    (layer parts (turns + 1) item here nodes).Reads (ts ++ (ms ++ (gs ++ (cs ++ us)))) rest
      result := by
  unfold layer
  rw [← List.append_assoc cs] at word mark gap
  rw [← List.append_assoc gs] at word mark
  rw [← List.append_assoc ms] at word
  apply word.bind
  apply mark.bind
  apply gap.bind
  dsimp only
  rw [if_neg (Nat.not_le_of_lt deeper)]
  apply block.bind
  dsimp only
  rw [if_neg (Nat.not_lt_of_le level)]
  exact on

end Read

/-! ### Counting lines -/

namespace Outline

variable {α β : Type} (step level : Nat)

theorem lines_ne_nil (n : Outline α β) : 0 < (n.lines step level).length := by
  cases n <;> simp [lines]

theorem length_le_linesOf (ns : List (Outline α β)) :
    ns.length ≤ (linesOf step level ns).length := by
  induction ns with
  | nil => exact Nat.le_refl 0
  | cons n ns ih =>
      have := lines_ne_nil step level n
      rw [linesOf, List.length_append, List.length_cons]
      omega

/-- A block has a line at its own indentation. -/
theorem exists_mem_linesOf {ns : List (Outline α β)} (ne : ns ≠ []) :
    ∃ l ∈ linesOf step level ns, l.1 = level := by
  cases ns with
  | nil => exact absurd rfl ne
  | cons n ns => cases n <;> exact ⟨_, List.mem_cons_self, rfl⟩

end Outline

/-! ### Reading an outline of words -/

namespace LineGrammar

variable (g : LineGrammar)

/-- What the outlines are read with. -/
def parts {σ : Type} [Feed σ] (fuel : Nat) : Read.OutlineParts Memory σ Value Value :=
  { tail := (Pattern.char g.mark).read fuel
    layout := do
      match ← Pattern.indentation.read fuel with
      | some n => return some n.toCount
      | none => Pattern.rescueLayout g.base none
    block := fun _ _ body => body (g.word.read fuel)
    quoted := Value.quoted }

theorem read_pattern {σ : Type} [Feed σ] (fuel : Nat) :
    g.pattern.read (fuel + 1) (σ := σ) =
      (do return (← Read.outline fuel (g.parts fuel) (g.word.read fuel) g.base).map Outline.toValue) :=
  rfl

theorem nextLevel_linesOf (closing level : Nat) {ns : List (Outline Value Value)} (h : ns ≠ []) :
    nextLevel closing (Outline.linesOf g.step level ns) = level := by
  cases ns with
  | nil => exact absurd rfl h
  | cons n ns => cases n <;> rfl

/-- Behind a line comes its break, which is neither a letter nor a mark. -/
theorem ahead_gap (n : Nat) (rest : List Token) :
    Pattern.Ahead (fun t => g.letters.holds t = false) (tokens (gap n) ++ rest) ∧
      Pattern.Ahead (· ≠ .char g.mark) (tokens (gap n) ++ rest) := by
  constructor
  · intro t mem
    cases mem
    exact g.break_not_letter
  · intro t mem
    cases mem
    intro same
    injection same with same
    exact g.mark_ne_break same.symm

/-- A word begins by a letter. -/
theorem IsWord.toList_eq {g : LineGrammar} {s : String} (isWord : g.IsWord s) :
    ∃ c cs, s.toList = c :: cs ∧ g.letters.holds (.char c) = true := by
  have size : 1 ≤ s.length := (Bounds.allows_iff.mp isWord.size).1
  cases chars : s.toList with
  | nil =>
      rw [← String.length_toList, chars] at size
      cases size
  | cons c cs => exact ⟨c, cs, rfl, isWord.letters c (by rw [chars]; exact List.mem_cons_self)⟩

/-- The first line of a block begins by a letter. -/
theorem ahead_spell {n : Outline Value Value} (node : g.Node n) (ns : List (Outline Value Value))
    (closing level : Nat) (rest : List Token) :
    Pattern.Ahead (· ≠ .char ' ')
      (tokens (spell closing (Outline.linesOf g.step level (n :: ns))) ++ rest) := by
  have begins : ∀ {s : String} (more : List Token), g.IsWord s →
      Pattern.Ahead (· ≠ .char ' ') (tokens s.toList ++ more) := by
    intro s more isWord t mem
    obtain ⟨c, cs, chars, letter⟩ := isWord.toList_eq
    rw [chars] at mem
    cases mem
    intro same
    rw [same, g.blank_not_letter] at letter
    cases letter
  cases node with
  | term isWord =>
      simp only [Outline.linesOf, Outline.lines, List.cons_append, spell, lineText, plainText,
        tokens, List.map_append, List.append_assoc]
      exact begins _ isWord
  | nest isWord _ _ =>
      simp only [Outline.linesOf, Outline.lines, List.cons_append, spell, lineText, plainText,
        tokens, List.map_append, List.append_assoc]
      exact begins _ isWord

/-- Breaks up to some indentation are read as that. -/
theorem reads_gap {m : Nat} (room : m < roomLimit) :
    Granted fun fuel => ∀ n, n ≤ m → ∀ {σ : Type} [Feed σ] [LawfulFeed σ] {rest : List Token},
      Pattern.Ahead (· ≠ .char ' ') rest →
      (g.parts fuel (σ := σ)).layout.Reads (tokens (gap n)) rest (some n) := by
  apply Granted.forall_le
  intro n le
  have small : n < roomLimit := Nat.lt_of_le_of_lt le room
  refine (round_gap small).mono fun fuel round σ _ _ rest ahead => ?_
  have counted : (Value.ofCount n).toCount = n :=
    Value.toCount_ofCount (Nat.lt_trans small (by decide))
  have whole := (round.reads (σ := σ) ahead).then_nil
    (f := fun | some n => pure (some n.toCount) | none => Pattern.rescueLayout g.base none)
    (Read.reads_pure (some (Value.ofCount n).toCount) rest)
  rw [counted] at whole
  exact whole

/-- A node of an outline takes its lines, and its block goes on by the indentation behind them. -/
def ReadsNode (n : Outline Value Value) : Prop :=
  ∀ {here : Nat}, (∀ l ∈ n.lines g.step here, l.1 < roomLimit) →
    Granted fun fuel => ∀ {σ : Type} [Feed σ] [LawfulFeed σ] {turns next : Nat}
      {nodes : List (Outline Value Value)} {us rest : List Token}
      {result : Option (Nat × List (Outline Value Value))},
      (n.lines g.step here).length ≤ turns + 1 → next ≤ here →
      Pattern.Ahead (· ≠ .char ' ') (us ++ rest) →
      (Read.layerOn (g.parts fuel) (g.word.read fuel (σ := σ)) turns here next (n :: nodes)).Reads
        us rest result →
      (Read.layer (g.parts fuel) (turns + 1) (g.word.read fuel (σ := σ)) here nodes).Reads
        (tokens (spell next (n.lines g.step here)) ++ us) rest result

theorem readsNode_term {s : String} (isWord : g.IsWord s) : g.ReadsNode (.term (.text s)) := by
  intro here room
  have level : here < roomLimit := room (here, .plain (.text s)) List.mem_cons_self
  refine ((g.round_word isWord).and ((g.reads_gap level).and (.atLeast 1))).mono ?_
  intro fuel ⟨word, gap, enough⟩ σ _ _ turns next nodes us rest result _ le ahead on
  obtain ⟨fuel, rfl⟩ : ∃ k, fuel = k + 1 := ⟨fuel - 1, by omega⟩
  obtain ⟨noLetter, noMark⟩ := g.ahead_gap next (us ++ rest)
  simp only [Outline.lines, spell, lineText, plainText, nextLevel, List.head?_nil, Option.map_none,
    Option.getD_none, List.append_nil, tokens, List.map_append, List.append_assoc]
  exact Read.reads_layer_term (word.reads noLetter) (g.reads_mark_none noMark fuel)
    (gap next le ahead) le on

/-- Nodes of one block, one after the other. -/
theorem reads_forest {ns : List (Outline Value Value)} (nodes : ∀ n ∈ ns, g.Node n)
    (each : ∀ n ∈ ns, g.ReadsNode n) (ne : ns ≠ []) {here : Nat}
    (room : ∀ l ∈ Outline.linesOf g.step here ns, l.1 < roomLimit) :
    Granted fun fuel => ∀ {σ : Type} [Feed σ] [LawfulFeed σ] (turns : Nat)
      (before : List (Outline Value Value)) {closed : Nat} {us rest : List Token}
      {result : Option (Nat × List (Outline Value Value))},
      (Outline.linesOf g.step here ns).length ≤ turns + ns.length → closed ≤ here →
      Pattern.Ahead (· ≠ .char ' ') (us ++ rest) →
      (Read.layerOn (g.parts fuel) (g.word.read fuel (σ := σ)) turns here closed
        (ns.reverse ++ before)).Reads us rest result →
      (Read.layer (g.parts fuel) (turns + ns.length) (g.word.read fuel (σ := σ)) here
        before).Reads (tokens (spell closed (Outline.linesOf g.step here ns)) ++ us) rest
        result := by
  induction ns with
  | nil => exact absurd rfl ne
  | cons n ns ih =>
      have first := each n List.mem_cons_self fun l mem =>
        room l (by rw [Outline.linesOf]; exact List.mem_append_left _ mem)
      cases ns with
      | nil =>
          refine first.mono ?_
          intro fuel first σ _ _ turns before closed us rest result enough le ahead on
          rw [Outline.linesOf, Outline.linesOf, List.append_nil] at enough ⊢
          exact first enough le ahead on
      | cons m ns =>
          have others := ih (fun k mem => nodes k (List.mem_cons_of_mem _ mem))
            (fun k mem => each k (List.mem_cons_of_mem _ mem)) (List.cons_ne_nil m ns) fun l mem =>
            room l (by rw [Outline.linesOf]; exact List.mem_append_right _ mem)
          refine (first.and others).mono ?_
          intro fuel ⟨first, others⟩ σ _ _ turns before closed us rest result enough le ahead on
          rw [Outline.linesOf, List.length_append, List.length_cons] at enough
          have lines := Outline.lines_ne_nil g.step here n
          have go := others turns (n :: before) (by omega) le ahead (by simpa using on)
          rw [Outline.linesOf, spell_append, g.nextLevel_linesOf closed here (List.cons_ne_nil m ns),
            tokens, List.map_append, List.append_assoc]
          have enough : (n.lines g.step here).length ≤ turns + (m :: ns).length + 1 := by omega
          apply first enough (Nat.le_refl here)
          · rw [List.append_assoc]
            exact g.ahead_spell (nodes m (by simp)) ns closed here _
          · -- the break gives the indentation of the block, which goes on
            rw [Read.layerOn, if_neg (Nat.lt_irrefl here)]
            exact go

theorem readsNode_nest {s : String} {children : List (Outline Value Value)}
    (isWord : g.IsWord s) (ne : children ≠ []) (nodes : ∀ n ∈ children, g.Node n)
    (each : ∀ n ∈ children, g.ReadsNode n) :
    g.ReadsNode (.nest (.text s) (.char g.mark) children) := by
  intro here room
  have roomBelow : ∀ l ∈ Outline.linesOf g.step (here + g.step) children, l.1 < roomLimit :=
    fun l mem => room l (by rw [Outline.lines]; exact List.mem_cons_of_mem _ mem)
  have below : here + g.step < roomLimit := by
    obtain ⟨l, mem, level⟩ := Outline.exists_mem_linesOf g.step (here + g.step) ne
    rw [← level]
    exact roomBelow l mem
  refine ((g.round_word isWord).and ((g.round_mark fun _ => True).and ((g.reads_gap below).and
    (g.reads_forest nodes each ne roomBelow)))).mono ?_
  intro fuel ⟨word, mark, gap, block⟩ σ _ _ turns next before us rest result enough le ahead on
  have deeper : here < here + g.step := Nat.lt_add_of_pos_right g.step_pos
  have noLetter : Pattern.Ahead (fun t => g.letters.holds t = false)
      ([Token.char g.mark] ++ (tokens (LineGrammar.gap (here + g.step)) ++
        (tokens (spell next (Outline.linesOf g.step (here + g.step) children)) ++ (us ++ rest)))) := by
    intro t mem
    cases mem
    exact g.mark_not_letter
  have noBlank : Pattern.Ahead (· ≠ .char ' ')
      (tokens (spell next (Outline.linesOf g.step (here + g.step) children)) ++ (us ++ rest)) := by
    cases children with
    | nil => exact absurd rfl ne
    | cons n children => exact g.ahead_spell (nodes n List.mem_cons_self) children _ _ _
  -- the break behind the last line of the block closes it
  have closes : (Read.layer (g.parts fuel) turns (g.word.read fuel (σ := σ)) (here + g.step)
      []).Reads (tokens (spell next (Outline.linesOf g.step (here + g.step) children)))
      (us ++ rest) (some (next, children)) := by
    rw [Outline.lines, List.length_cons] at enough
    have fewer := Outline.length_le_linesOf g.step (here + g.step) children
    have on : (Read.layerOn (g.parts fuel) (g.word.read fuel (σ := σ)) (turns - children.length)
        (here + g.step) next (children.reverse ++ [])).Reads [] (us ++ rest)
        (some (next, children)) := by
      rw [Read.layerOn, if_pos (by omega), List.append_nil, List.reverse_reverse]
      exact Read.reads_pure _ _
    have shallow : next ≤ here + g.step := by omega
    have aheadBlock : Pattern.Ahead (· ≠ .char ' ') ([] ++ (us ++ rest)) := ahead
    have whole := block (turns - children.length) [] (by omega) shallow aheadBlock on
    rw [Nat.sub_add_cancel (by omega), List.append_nil] at whole
    exact whole
  simp only [Outline.lines, spell, lineText, plainText, g.nextLevel_linesOf next _ ne, tokens,
    List.map_append, List.append_assoc, List.map_cons, List.map_nil]
  exact Read.reads_layer_nest (word.reads noLetter) (mark.reads fun _ _ => trivial)
    (gap _ (Nat.le_refl _) noBlank) deeper closes le on

/-- Every node that can be written is read from its lines. -/
theorem Node.reads {g : LineGrammar} {n : Outline Value Value} (node : g.Node n) :
    g.ReadsNode n := by
  induction node with
  | term isWord => exact g.readsNode_term isWord
  | nest isWord ne nodes ih => exact g.readsNode_nest isWord ne nodes ih

/-- At the end no word is read, whatever is still shown. -/
theorem reads_word_end :
    Granted fun fuel => ∀ {σ : Type} [Feed σ] [LawfulFeed σ],
      (g.word.read fuel (σ := σ)).Reads [] [] none := by
  have takes : ¬ Pattern.Nullable g.word := by
    intro nullable
    cases nullable with
    | repeated least => cases least
    | repeatedItem nullable => cases nullable
  have idle : Pattern.Idle g.word :=
    Pattern.idle_repeated _ _ _ (Pattern.idle_satisfy g.letters) nofun
  refine (idle.none takes).mono fun fuel idle σ _ _ => idle [] ?_
  intro t mem
  cases mem

/-- An outline is read from its lines. -/
theorem reads_outline {ns : List (Outline Value Value)} (nodes : ∀ n ∈ ns, g.Node n)
    (ne : ns ≠ []) (room : ∀ l ∈ Outline.linesOf g.step g.base ns, l.1 < roomLimit) :
    Granted fun fuel => ∀ {σ : Type} [Feed σ] [LawfulFeed σ],
      (g.pattern.read fuel (σ := σ)).Reads
        (tokens (spell g.base (Outline.linesOf g.step g.base ns))) []
        (some (Outline.root ns).toValue) := by
  have forest := g.reads_forest nodes (fun n mem => (nodes n mem).reads) ne room
  refine (forest.and (g.reads_word_end.and
    (.atLeast ((Outline.linesOf g.step g.base ns).length + 1)))).succ ?_
  intro fuel ⟨forest, stop, enough⟩ σ _ _
  have fewer := Outline.length_le_linesOf g.step g.base ns
  obtain ⟨turns, rfl⟩ : ∃ k, fuel = k + 1 + ns.length := ⟨fuel - 1 - ns.length, by omega⟩
  have closing : (Read.layerOn (g.parts (turns + 1 + ns.length))
      (g.word.read (turns + 1 + ns.length) (σ := σ)) (turns + 1) g.base g.base
      (ns.reverse ++ [])).Reads [] [] (some (g.base, (ns.reverse ++ []).reverse)) := by
    rw [Read.layerOn, if_neg (Nat.lt_irrefl g.base)]
    exact Read.reads_layer_end stop
  have atEnd : Pattern.Ahead (· ≠ .char ' ') ([] ++ []) := by
    intro t mem
    cases mem
  have layer := forest (turns + 1) [] (by omega) (Nat.le_refl g.base) atEnd closing
  rw [List.append_nil, List.append_nil, List.reverse_reverse] at layer
  have outline : (Read.outline (turns + 1 + ns.length) (g.parts (turns + 1 + ns.length))
      (g.word.read (turns + 1 + ns.length) (σ := σ)) g.base).Reads
      (tokens (spell g.base (Outline.linesOf g.step g.base ns))) [] (some (.root ns)) := by
    apply layer.then_nil
    dsimp only
    rw [if_neg (fun differs => differs rfl)]
    exact Read.reads_pure _ []
  exact outline.map (Option.map Outline.toValue)

end LineGrammar

end Duplex
