/-
Module: Duplex.Proofs.Running
Purpose: Grammars on whole inputs.  An input made of a text or of tokens hands out just these, and what
  is known of the read or the write of a pattern gives the answer of the grammar.
Main exports: Input.ofText_ok, Input.ofTokens_ok, Grammar.readFrom_of_reads,
  Grammar.readPartial_of_reads, Grammar.rebuild_of_write
-/
import Duplex.Proofs.ErrorModes
import Duplex.Proofs.RoundTrip

namespace Duplex

/-! ### Whole inputs -/

theorem Input.unswallowed_of_never {swallows : Token → Token → Bool}
    (never : ∀ t u, swallows t u = false) (ts : List Token) : unswallowed swallows ts = ts := by
  induction ts with
  | nil => rfl
  | cons t ts ih =>
      cases ts with
      | nil => rfl
      | cons u ts => rw [unswallowed, never, if_neg Bool.false_ne_true, ih]

/-- A text that is not empty makes an input that raises errors and hands out its characters. -/
theorem Input.ofText_ok {text : String} (ne : text.toList ≠ []) (file : String) :
    ∃ s, Input.ofText text file = .ok s ∧ s.mode = .raise ∧ remaining s = Token.ofText text := by
  have size : 0 < (Token.ofText text).toArray.size := by
    rw [List.size_toArray, Token.ofText, List.length_map]
    exact List.length_pos_iff.mpr ne
  refine ⟨.ofFeed ⟨(Token.ofText text).toArray, 0, size⟩ (some (.start file {})), ?_, rfl, ?_⟩
  · rw [Input.ofText, Slice.ofList, dif_pos size]
    rfl
  · exact unswallowed_of_never (fun _ _ => rfl) _

/-- Tokens make an input that raises errors and hands them out. -/
theorem Input.ofTokens_ok {tokens : List Token} (ne : tokens ≠ []) :
    ∃ s, Input.ofTokens tokens = .ok s ∧ s.mode = .raise ∧ remaining s = tokens := by
  have size : 0 < tokens.toArray.size := by
    rw [List.size_toArray]
    exact List.length_pos_iff.mpr ne
  refine ⟨.ofFeed ⟨tokens.toArray, 0, size⟩ none, ?_, rfl, ?_⟩
  · rw [Input.ofTokens, Slice.ofList, dif_pos size]
    rfl
  · exact unswallowed_of_never (fun _ _ => rfl) _

/-! ### Runs of a grammar -/

/-- Taking tokens does not change what reports do. -/
theorem Input.mode_advance {σ : Type} [Feed σ] (n : Nat) (s : Input σ) :
    (Feed.advance n s).mode = s.mode :=
  Feed.advance_keeps mode_consume n s

/-- The mode does not change what is taken. -/
theorem Input.advance_inMode {σ : Type} [Feed σ] (n : Nat) (s : Input σ) (m : ErrorMode) :
    Feed.advance n (s.inMode m) = (Feed.advance n s).inMode m := by
  induction n generalizing s with
  | zero => rfl
  | succ n ih =>
      rw [Feed.advance, Feed.advance, consume_inMode]
      exact ih _

namespace Grammar

variable {g : Grammar} {v : Value} {out : List Token}

theorem write_of_gives (gives : (g.pattern.write g.fuel v).Gives out) :
    (g.write v).result = .ok out := by
  show ((g.pattern.write g.fuel v).perform { memory := g.memory }).1 = .ok out
  rw [gives]

/-- A read of a whole feed takes all its tokens. -/
theorem readFrom_of_reads {σ : Type} [Feed σ] [LawfulFeed σ] {feed : σ}
    (reads : (g.pattern.read g.fuel (σ := σ)).Reads out [] (some v))
    (left : remaining feed = out) :
    (g.readFrom feed).result = .ok (some v) ∧
      (g.readFrom feed).feed = Feed.advance out.length feed := by
  obtain ⟨t, run, after, _⟩ := reads { feed := feed, memory := g.memory }
    (by rw [List.append_nil]; exact left)
  constructor
  · show ((g.pattern.read g.fuel).perform { feed := feed, memory := g.memory }).1 = .ok (some v)
    rw [run]
  · show ((g.pattern.read g.fuel).perform { feed := feed, memory := g.memory }).2.feed = _
    rw [run]
    exact after

/-- Where the errors are kept, none is. -/
theorem readPartial_of_reads {σ : Type} [Feed σ] [LawfulFeed σ] [StickyFeed σ] {s : Input σ}
    (reads : (g.pattern.read g.fuel (σ := Input σ)).Reads out [] (some v))
    (left : remaining s.collecting = out) :
    (g.readPartial (.ok s)).result = .ok ([], some v) := by
  obtain ⟨result, after⟩ := readFrom_of_reads reads left
  have mode : (Feed.advance out.length s.collecting).mode = .collect [] := Input.mode_advance _ _
  show (g.readFrom s.collecting).result.map
    (fun v => ((g.readFrom s.collecting).feed.takeErrors.1, v)) = _
  rw [result, after, Input.takeErrors, mode]
  rfl

/-- What has been read is written, with what the grammar then remembers. -/
theorem rebuild_of_write {σ : Type} [Feed σ] {feed : σ}
    (read : (g.readFrom feed).result = .ok (some v))
    (written : ∀ memory, ({ g with memory := memory }.write v).result = .ok out) :
    (g.rebuild (.ok feed)).result = .ok (some out) := by
  have last : (({ g with memory := (g.readFrom feed).memory }.write v).result.mapError
      (Stop.mapFault RoundTripFault.writing)).map some = .ok (some out) := by
    rw [written]
    rfl
  have found : (g.readInput (.ok feed)).result = .ok (some v) := read
  unfold rebuild
  dsimp only
  rw [found]
  exact last

end Grammar

end Duplex
