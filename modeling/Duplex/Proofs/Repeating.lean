/-
Module: Duplex.Proofs.Repeating
Purpose: Items read one after the other.  `Read.Repeats` says what reading an item again and again
  gives; a repetition goes through such a run as long as its fold accepts what is read, and a
  refusal ends it with a report.  Where the items are known by their tokens, so is the repetition.
Main exports: Read.Repeats, Read.Repeats.perform_repeatLoop, Read.Repeats.perform_refused,
  Read.reads_pieces, Pattern.reads_repeated_pieces, Pattern.reads_repeated_each, Write.gives_each,
  Pattern.reads_run, Pattern.reads_text, Pattern.reads_letters, Pattern.gives_text
-/
import Duplex.Grammar.Lexical
import Duplex.Proofs.RoundTrip

namespace Duplex

namespace Read

variable {μ σ α τ : Type}

/-! ### Runs of items -/

/-- Reading the item again and again gives these values in their order. -/
inductive Repeats (item : Read μ σ (Option α)) : Session μ σ → List α → Session μ σ → Prop
  | nothing (s : Session μ σ) : Repeats item s [] s
  | more {s t u : Session μ σ} {a : α} {as : List α} :
      item.perform s = (.ok (some a), t) → Repeats item t as u → Repeats item s (a :: as) u

theorem Repeats.concat_cases {item : Read μ σ (Option α)} {s u : Session μ σ} {as : List α} {a : α}
    (repeats : Repeats item s (as ++ [a]) u) :
    ∃ t, Repeats item s as t ∧ item.perform t = (.ok (some a), u) := by
  induction as generalizing s with
  | nil =>
      cases repeats with
      | more last rest =>
          cases rest
          exact ⟨s, .nothing s, last⟩
  | cons b as ih =>
      cases repeats with
      | more first rest =>
          obtain ⟨t, front, last⟩ := ih rest
          exact ⟨t, .more first front, last⟩

/-- What goes on after a value does not go on after a step that gives none. -/
theorem none_bind {β : Type} (r : Read μ σ Unit) {f : Option α → Read μ σ (Option β)}
    (nothing : f none = pure none) :
    ((r >>= fun _ => pure none) >>= f) = (r >>= fun _ => pure none) := by
  rw [bind_assoc]
  simp only [pure_bind, nothing]

section Folding

variable [Feed σ] {accept : τ → α → Except FoldStop τ} {item : Read μ σ (Option α)}
  {s t u : Session μ σ} {as : List α} {a : α} {sofar gathered : τ} {limit count : Nat}

/-- A repetition goes on behind the items that its fold accepts. -/
theorem Repeats.perform_repeatLoop (repeats : Repeats item s as t)
    (folded : as.foldlM accept sofar = .ok gathered) (room : count + as.length ≤ limit)
    (turns : Nat) :
    (repeatLoop accept item limit (turns + as.length) count sofar).perform s =
      (repeatLoop accept item limit turns (count + as.length) gathered).perform t := by
  induction repeats generalizing count sofar with
  | nothing s =>
      cases folded
      rfl
  | @more s t u a as first _ ih =>
      rw [List.length_cons] at room
      rw [List.foldlM_cons] at folded
      cases accepts : accept sofar a with
      | error refusal =>
          rw [accepts] at folded
          cases folded
      | ok next =>
          rw [accepts] at folded
          have gathers : (gather accept sofar a : Read μ σ (Option τ)).perform t =
              (.ok (some next), t) := by
            rw [gather, accepts]
            rfl
          rw [List.length_cons, ← Nat.add_assoc, repeatLoop, if_pos (by omega),
            perform_bind_ok first]
          dsimp only
          rw [perform_bind_ok gathers]
          dsimp only
          rw [ih folded (by omega), Nat.add_right_comm count, Nat.add_assoc count]

/-- A refused item ends a repetition: all that happens behind it is the report. -/
theorem Repeats.perform_refused {bounds : Bounds} {fuel : Nat} {refusal : FoldFault}
    (repeats : Repeats item s (as ++ [a]) u) (folded : as.foldlM accept sofar = .ok gathered)
    (refuses : accept gathered a = .error (.refused refusal)) (room : as.length < bounds.limit)
    (enough : as.length < fuel) :
    (repeated fuel accept sofar bounds item).perform s =
      (report refusal.message >>= fun _ => pure none).perform u := by
  obtain ⟨t, front, last⟩ := repeats.concat_cases
  obtain ⟨turns, rfl⟩ : ∃ k, fuel = k + 1 + as.length := ⟨fuel - as.length - 1, by omega⟩
  have within : 0 + as.length < bounds.limit := by omega
  have reports : (gather accept gathered a : Read μ σ (Option τ)) =
      (report refusal.message >>= fun _ => pure none) := by
    rw [gather, refuses]
  have ends : (repeatLoop accept item bounds.limit (turns + 1 + as.length) 0 sofar).perform s =
      (report refusal.message >>= fun _ => pure none).perform u := by
    rw [front.perform_repeatLoop folded (Nat.le_of_lt within), repeatLoop, if_pos within,
      perform_bind_ok last]
    dsimp only
    rw [reports, none_bind _ (by rfl)]
  rw [repeated, perform_bind, ends, ← perform_bind, none_bind _ (by rfl)]

end Folding

/-! ### Items known by their tokens -/

section Pieces

variable [Feed σ] [LawfulFeed σ] {accept : τ → α → Except FoldStop τ} {item : Read μ σ (Option α)}
  {pieces : List (List Token × α)} {follow : Token → Prop} {rest : List Token} {gathered : τ}

/-- Items one after the other, each from its own tokens, up to where none is read. -/
theorem reads_pieces {limit turns count : Nat} {sofar : τ}
    (begins : ∀ piece ∈ pieces, ∃ t ts, piece.1 = t :: ts ∧ follow t)
    (here : ∀ piece ∈ pieces, ∀ {rest}, Pattern.Ahead follow rest →
      item.Reads piece.1 rest (some piece.2))
    (ahead : Pattern.Ahead follow rest) (stop : item.Reads [] rest none)
    (folded : (pieces.map Prod.snd).foldlM accept sofar = .ok gathered)
    (room : count + pieces.length ≤ limit) (enough : pieces.length < turns) :
    (repeatLoop accept item limit turns count sofar).Reads (pieces.flatMap Prod.fst) rest
      (some (count + pieces.length, gathered)) := by
  induction pieces generalizing turns count sofar with
  | nil =>
      cases folded
      obtain ⟨turns, rfl⟩ : ∃ k, turns = k + 1 := ⟨turns - 1, by omega⟩
      exact reads_repeatLoop_stop stop
  | cons piece pieces ih =>
      obtain ⟨turns, rfl⟩ : ∃ k, turns = k + 1 := ⟨turns - 1, by omega⟩
      rw [List.length_cons] at room enough
      rw [List.map_cons, List.foldlM_cons] at folded
      have between : Pattern.Ahead follow (pieces.flatMap Prod.fst ++ rest) := by
        cases pieces with
        | nil => exact ahead
        | cons next pieces =>
            obtain ⟨t, ts, split, follows⟩ := begins next (by simp)
            rw [List.flatMap_cons, split]
            rintro _ ⟨rfl⟩
            exact follows
      cases accepts : accept sofar piece.2 with
      | error refusal =>
          rw [accepts] at folded
          cases folded
      | ok next =>
          rw [accepts] at folded
          have room : count + 1 + pieces.length ≤ limit := by omega
          have others := ih (fun other mem => begins other (List.mem_cons_of_mem piece mem))
            (fun other mem => here other (List.mem_cons_of_mem piece mem)) folded room
            (Nat.lt_of_succ_lt_succ enough)
          rw [Nat.add_right_comm] at others
          exact reads_repeatLoop_step (by omega) (here piece List.mem_cons_self between) accepts
            others

/-- A repetition of such items; it is read if their number is allowed. -/
theorem reads_pieces_repeated {bounds : Bounds} {fuel : Nat} {start : τ}
    (begins : ∀ piece ∈ pieces, ∃ t ts, piece.1 = t :: ts ∧ follow t)
    (here : ∀ piece ∈ pieces, ∀ {rest}, Pattern.Ahead follow rest →
      item.Reads piece.1 rest (some piece.2))
    (ahead : Pattern.Ahead follow rest) (stop : item.Reads [] rest none)
    (folded : (pieces.map Prod.snd).foldlM accept start = .ok gathered)
    (room : pieces.length ≤ bounds.limit) (enough : pieces.length < fuel) :
    (repeated fuel accept start bounds item).Reads (pieces.flatMap Prod.fst) rest
      (if bounds.allows pieces.length then some gathered else none) := by
  have within : 0 + pieces.length ≤ bounds.limit := by omega
  have loop := reads_pieces begins here ahead stop folded within enough
  rw [Nat.zero_add] at loop
  exact reads_repeated loop

end Pieces

end Read

theorem foldAll_ok {f : Fold} {items : List Value} {gathered : Tally}
    (folded : items.foldlM Tally.accept f.start = .ok gathered) :
    foldAll f items = .ok gathered.finish := by
  rw [foldAll, folded]
  rfl

theorem foldAll_error {f : Fold} {items : List Value} {stop : FoldStop}
    (folded : items.foldlM Tally.accept f.start = .error stop) :
    foldAll f items = .error stop := by
  rw [foldAll, folded]
  rfl

namespace Pattern

section Pieces

variable {σ : Type} [Feed σ] [LawfulFeed σ] {item : Pattern} {fuel : Nat} {rest : List Token}
  {gathered : Tally}

/-- A repetition of items that are known by their tokens. -/
theorem reads_repeated_pieces (folding : Folding) (bounds : Bounds) (skippable : Bool)
    {pieces : List (List Token × Value)} {follow : Token → Prop}
    (begins : ∀ piece ∈ pieces, ∃ t ts, piece.1 = t :: ts ∧ follow t)
    (here : ∀ piece ∈ pieces, ∀ {rest}, Ahead follow rest →
      (item.read fuel (σ := σ)).Reads piece.1 rest (some piece.2))
    (ahead : Ahead follow rest) (stop : (item.read fuel (σ := σ)).Reads [] rest none)
    (folded : (pieces.map Prod.snd).foldlM Tally.accept folding.fold.start = .ok gathered)
    (room : pieces.length ≤ bounds.limit) (enough : pieces.length < fuel) :
    ((Pattern.repeated folding item bounds skippable).read (fuel + 1) (σ := σ)).Reads
      (pieces.flatMap Prod.fst) rest
      (if bounds.allows pieces.length then some gathered.finish else none) := by
  have run := (Read.reads_pieces_repeated begins here ahead stop folded room enough).map
    (Option.map Tally.finish)
  by_cases allowed : bounds.allows pieces.length
  · rw [if_pos allowed] at run ⊢
    exact run
  · rw [if_neg allowed] at run ⊢
    exact run

/-- Items of one token each, up to where none is read. -/
theorem reads_repeated_each (folding : Folding) (bounds : Bounds) (skippable : Bool)
    {values : List (Token × Value)}
    (here : ∀ v ∈ values, ∀ rest, (item.read fuel (σ := σ)).Reads [v.1] rest (some v.2))
    (stop : (item.read fuel (σ := σ)).Reads [] rest none)
    (folded : (values.map Prod.snd).foldlM Tally.accept folding.fold.start = .ok gathered)
    (room : values.length ≤ bounds.limit) (enough : values.length < fuel) :
    ((Pattern.repeated folding item bounds skippable).read (fuel + 1) (σ := σ)).Reads
      (values.map Prod.fst) rest
      (if bounds.allows values.length then some gathered.finish else none) := by
  let pieces : List (List Token × Value) := values.map fun v => ([v.1], v.2)
  have size : pieces.length = values.length := List.length_map _
  have tokens : pieces.flatMap Prod.fst = values.map Prod.fst := by
    rw [List.flatMap_map]
    exact List.map_eq_flatMap.symm
  have items : pieces.map Prod.snd = values.map Prod.snd := by
    rw [List.map_map]
    rfl
  have begins : ∀ piece ∈ pieces, ∃ t ts, piece.1 = t :: ts ∧ True := by
    intro piece mem
    obtain ⟨v, _, rfl⟩ := List.mem_map.mp mem
    exact ⟨v.1, [], rfl, trivial⟩
  have each : ∀ piece ∈ pieces, ∀ {rest}, Ahead (fun _ => True) rest →
      (item.read fuel (σ := σ)).Reads piece.1 rest (some piece.2) := by
    intro piece mem rest _
    obtain ⟨v, among, rfl⟩ := List.mem_map.mp mem
    exact here v among rest
  have run := reads_repeated_pieces folding bounds skippable begins each (fun _ _ => trivial) stop
    (items ▸ folded) (size ▸ room) (size ▸ enough)
  rwa [tokens, size] at run

end Pieces

end Pattern

/-- Values are written one after the other. -/
theorem Write.gives_each {μ α : Type} {w : Writer μ α} {pieces : List (List Token × α)}
    (here : ∀ piece ∈ pieces, (w piece.2).Gives piece.1) :
    (each w (pieces.map Prod.snd)).Gives (pieces.flatMap Prod.fst) := by
  induction pieces with
  | nil => exact gives_pure []
  | cons piece pieces ih =>
      have first := here piece List.mem_cons_self
      exact first.append (ih fun other mem => here other (List.mem_cons_of_mem piece mem))

/-! ### Runs of tokens, and texts -/

namespace Pattern

section Runs

variable {σ : Type} [Feed σ] [LawfulFeed σ] {c : Condition} {ts rest : List Token}
  {gathered : Tally}

/-- A greedy repetition takes all tokens that pass, and is read if their number is allowed. -/
theorem reads_run (folding : Folding) (bounds : Bounds) (skippable : Bool) {fuel : Nat}
    (greedy : bounds.greedy = true) (passes : ∀ t ∈ ts, c.holds t = true)
    (ends : ∀ t ∈ rest.head?, c.holds t = false)
    (folded : (ts.map Token.toValue).foldlM Tally.accept folding.fold.start = .ok gathered)
    (few : ts.length ≤ bounds.max) (enough : ts.length ≤ fuel) :
    ((Pattern.repeated folding (.satisfy c) bounds skippable).read (fuel + 2) (σ := σ)).Reads ts rest
      (if bounds.allows ts.length then some gathered.finish else none) := by
  let values : List (Token × Value) := ts.map fun t => (t, t.toValue)
  have size : values.length = ts.length := List.length_map _
  have tokens : values.map Prod.fst = ts := by
    rw [List.map_map]
    exact List.map_id _
  have items : values.map Prod.snd = ts.map Token.toValue := by
    rw [List.map_map]
    rfl
  have here : ∀ v ∈ values, ∀ rest,
      ((Pattern.satisfy c).read (fuel + 1) (σ := σ)).Reads [v.1] rest (some v.2) := by
    intro v mem rest
    obtain ⟨t, among, rfl⟩ := List.mem_map.mp mem
    exact (Read.reads_consumeIf (passes t among) rest).map (Option.map Token.toValue)
  have stop : ((Pattern.satisfy c).read (fuel + 1) (σ := σ)).Reads [] rest none :=
    (Read.reads_consumeIf_none ends).map (Option.map Token.toValue)
  have room : values.length ≤ bounds.limit := by
    rw [Bounds.limit, if_pos greedy, size]
    exact few
  have run := reads_repeated_each folding bounds skippable here stop (items ▸ folded) room (by omega)
  rwa [tokens, size] at run

/-- Characters are read into the text of them, up to where none is read. -/
theorem reads_text {item : Pattern} {bounds : Bounds} {skippable : Bool} {fuel : Nat} {s : String}
    (greedy : bounds.greedy = true) (allowed : bounds.allows s.length = true)
    (here : ∀ ch ∈ s.toList, ∀ rest,
      (item.read fuel (σ := σ)).Reads [.char ch] rest (some (.char ch)))
    (stop : (item.read fuel (σ := σ)).Reads [] rest none) (enough : s.length < fuel) :
    ((Pattern.repeated asText item bounds skippable).read (fuel + 1) (σ := σ)).Reads
      (s.toList.map .char) rest (some (.text s)) := by
  let values : List (Token × Value) := s.toList.map fun ch => (.char ch, .char ch)
  have size : values.length = s.length := by
    rw [List.length_map, String.length_toList]
  have tokens : values.map Prod.fst = s.toList.map .char := by
    rw [List.map_map]
    rfl
  have folded : (values.map Prod.snd).foldlM Tally.accept asText.fold.start = .ok (.text s) := by
    have gathered := foldlM_accept_text s.toList ""
    rw [String.empty_append, String.ofList_toList] at gathered
    rw [List.map_map]
    exact gathered
  have each : ∀ v ∈ values, ∀ rest, (item.read fuel (σ := σ)).Reads [v.1] rest (some v.2) := by
    intro v mem rest
    obtain ⟨ch, among, rfl⟩ := List.mem_map.mp mem
    exact here ch among rest
  have room : values.length ≤ bounds.limit := by
    rw [Bounds.limit, if_pos greedy, size]
    exact (Bounds.allows_iff.mp allowed).2
  have run := reads_repeated_each asText bounds skippable each stop folded room (size ▸ enough)
  rwa [tokens, size, if_pos allowed] at run

/-- Letters are read into the text of them, up to what is no letter. -/
theorem reads_letters {bounds : Bounds} {skippable : Bool} {fuel : Nat} {s : String}
    (greedy : bounds.greedy = true) (allowed : bounds.allows s.length = true)
    (letters : ∀ ch ∈ s.toList, c.holds (.char ch) = true)
    (ends : Ahead (fun t => c.holds t = false) rest) (enough : s.length ≤ fuel) :
    ((Pattern.repeated asText (.satisfy c) bounds skippable).read (fuel + 2) (σ := σ)).Reads
      (s.toList.map .char) rest (some (.text s)) := by
  have here : ∀ ch ∈ s.toList, ∀ rest,
      ((Pattern.satisfy c).read (fuel + 1) (σ := σ)).Reads [.char ch] rest (some (.char ch)) := by
    intro ch mem rest
    exact (Read.reads_consumeIf (letters ch mem) rest).map (Option.map Token.toValue)
  have stop : ((Pattern.satisfy c).read (fuel + 1) (σ := σ)).Reads [] rest none :=
    (Read.reads_consumeIf_none ends).map (Option.map Token.toValue)
  exact reads_text greedy allowed here stop (by omega)

end Runs

/-- Characters are written one after the other. -/
theorem gives_chars {item : Pattern} {fuel : Nat} {cs : List Char}
    (here : ∀ ch ∈ cs, (item.write fuel (.char ch)).Gives [.char ch]) :
    (Write.each (item.write fuel) (cs.map .char)).Gives (cs.map .char) := by
  let pieces : List (List Token × Value) := cs.map fun ch => ([.char ch], .char ch)
  have tokens : pieces.flatMap Prod.fst = cs.map .char := by
    rw [List.flatMap_map]
    exact List.map_eq_flatMap.symm
  have chars : pieces.map Prod.snd = cs.map .char := by
    rw [List.map_map]
    rfl
  have each : ∀ piece ∈ pieces, (item.write fuel piece.2).Gives piece.1 := by
    intro piece mem
    obtain ⟨ch, among, rfl⟩ := List.mem_map.mp mem
    exact here ch among
  rw [← chars, ← tokens]
  exact Write.gives_each each

/-- A text is written character by character. -/
theorem gives_text {item : Pattern} {bounds : Bounds} {skippable : Bool} {fuel : Nat} {s : String}
    (allowed : bounds.allows s.length = true)
    (here : ∀ ch ∈ s.toList, (item.write fuel (.char ch)).Gives [.char ch]) :
    ((Pattern.repeated asText item bounds skippable).write (fuel + 1) (.text s)).Gives
      (s.toList.map .char) := by
  have items : (Write.ofExcept (asText.items (.text s)) : Write Memory _).Gives
      (s.toList.map .char) := Write.gives_pure _
  apply items.bind
  rw [if_pos (by rw [List.length_map, String.length_toList]; exact allowed)]
  exact gives_chars here

end Pattern

end Duplex
