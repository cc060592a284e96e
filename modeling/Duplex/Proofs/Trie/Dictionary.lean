/-
Module: Duplex.Proofs.Trie.Dictionary
Purpose: The two directions of a dictionary.  Each of them holds what was entered last, the one for a
  word and the other for a meaning, and neither drops what the other one replaced.  So a meaning that is
  translated back to its word, and that forward again, comes out as it was unless the word was entered
  with another meaning since then.
Main exports: Dictionary.enterAll, Dictionary.Records, Dictionary.Records.enterAll,
  Dictionary.Translates, Dictionary.Records.translates, Dictionary.back_forward
-/
import Duplex.Proofs.Lookup
import Duplex.Proofs.Trie.History
import Duplex.Proofs.Trie.Walk

namespace Duplex

/-- A text is known by its characters. -/
theorem Token.ofText_injective : Function.Injective Token.ofText := by
  intro a b same
  apply String.toList_injective
  exact List.map_injective_iff.mpr (fun _ _ => Token.char.inj) same

/-- A registry of entries made in order holds the last one for a path. -/
theorem Registry.get?_insertAll_empty (entries : List (List Token × Value)) (path : List Token) :
    (Registry.empty.insertAll entries).get? path = entries.reverse.lookup path := by
  show (Registry.empty.insertAll entries).trie.get? path = _
  rw [Registry.trie_insertAll, Trie.get?_insertAll]
  exact (congrArg _ (Trie.get?_empty path)).trans (Option.or_none)

/-- An exact trie reads the whole of a key. -/
theorem Pattern.readTrie_key {σ : Type} [Feed σ] {last : Token} {P : List Token → σ → Prop}
    (follows : Follows last P) (unhalted : ∀ {ahead s}, P ahead s → (Feed.consume s).halt = none)
    {cell : Nat} {initial : Registry Token Value} {s : Session Memory σ} {key : List Token} {v : Value}
    (held : (s.memory.trieAt cell initial).get? key = some v) (holds : P key s.feed) (fuel : Nat) :
    (Pattern.readTrie fuel cell initial .exact).ComesTo P s (some v) [] := by
  obtain ⟨path, rest, whole, longest, read⟩ :=
    Pattern.readTrie_exact follows unhalted fuel cell initial holds
  obtain rfl := longest.eq_of_get? held
  obtain rfl : rest = [] := by simpa using whole
  rwa [show (s.memory.trieAt cell initial).trie.get? path = some v from held] at read

namespace Dictionary

variable {d : Dictionary} {entries more : List (String × String)} {m : Memory}

/-! ### What is entered -/

/-- Enters words and their meanings in order. -/
def enterAll (d : Dictionary) (entries : List (String × String)) (m : Memory) : Memory :=
  entries.foldl (fun m entry => d.insert entry.1 entry.2 m) m

theorem initially_concat (entries : List (String × String)) (key value : String) :
    initially (entries ++ [(key, value)]) =
      ((initially entries).1.insert (Token.ofText key) (.text value),
        (initially entries).2.insert (Token.ofText value) (.text key)) := by
  simp [initially, List.foldl_append]

/-- The two directions are apart from each other and hold what these entries have put there. -/
structure Records (d : Dictionary) (entries : List (String × String)) (m : Memory) : Prop where
  apart : d.forward.cell ≠ d.back.cell
  forward : d.forward.contents m = (initially entries).1
  back : d.back.contents m = (initially entries).2

/-- One more entry is put into both. -/
theorem Records.insert (records : d.Records entries m) (key value : String) :
    d.Records (entries ++ [(key, value)]) (d.insert key value m) where
  apart := records.apart
  forward := by
    rw [Dictionary.insert, Keywords.contents_insert_of_ne d.forward records.apart,
      Keywords.contents_insert, records.forward, initially_concat]
  back := by
    rw [Dictionary.insert, Keywords.contents_insert,
      Keywords.contents_insert_of_ne d.back records.apart.symm, records.back, initially_concat]

theorem Records.enterAll (records : d.Records entries m) (more : List (String × String)) :
    d.Records (entries ++ more) (d.enterAll more m) := by
  induction more generalizing entries m with
  | nil => rwa [List.append_nil]
  | cons entry more ih =>
      have later := ih (records.insert entry.1 entry.2)
      rwa [List.append_assoc] at later

/-! ### What is held -/

theorem initially_eq (entries : List (String × String)) :
    initially entries =
      (Registry.empty.insertAll (entries.map fun e => (Token.ofText e.1, .text e.2)),
        Registry.empty.insertAll (entries.map fun e => (Token.ofText e.2, .text e.1))) := by
  induction entries using List.reverseRecOn with
  | nil => rfl
  | append_singleton entries entry ih =>
      rw [initially_concat, ih]
      simp [Registry.insertAll, List.foldl_append]

/-- Words are looked up as their characters are. -/
theorem lookup_spelled (entries : List (String × String)) (word : String) :
    (entries.map fun e => (Token.ofText e.1, Value.text e.2)).lookup (Token.ofText word) =
      (entries.lookup word).map .text := by
  induction entries with
  | nil => rfl
  | cons entry entries ih =>
      rw [List.map_cons, List.lookup_cons, List.lookup_cons, ih]
      by_cases here : word = entry.1
      · simp [here]
      · have spelled : Token.ofText word ≠ Token.ofText entry.1 := Token.ofText_injective.ne here
        rw [beq_eq_false_iff_ne.mpr here, beq_eq_false_iff_ne.mpr spelled]

/-- Forward a word has the meaning it was entered with last. -/
theorem Records.get?_forward (records : d.Records entries m) (word : String) :
    d.forward.get? m (Token.ofText word) = (entries.reverse.lookup word).map .text := by
  rw [Keywords.get?, records.forward, initially_eq, Registry.get?_insertAll_empty,
    ← List.map_reverse, lookup_spelled]

/-- Back a meaning has the word it was entered with last, and nothing else is held. -/
theorem Records.get?_back (records : d.Records entries m) {path : List Token} {v : Value} :
    d.back.get? m path = some v ↔ ∃ before k w behind, entries = before ++ (k, w) :: behind ∧
      (∀ e ∈ behind, e.2 ≠ w) ∧ path = Token.ofText w ∧ v = .text k := by
  rw [Keywords.get?, records.back, initially_eq, Registry.get?_insertAll_empty,
    lookup_reverse_eq_some_iff]
  constructor
  · rintro ⟨before, behind, split, others⟩
    obtain ⟨front, back, rfl, rfl, tail⟩ := List.map_eq_append_iff.mp split
    obtain ⟨⟨k, w⟩, rest, rfl, here, rfl⟩ := List.map_eq_cons_iff.mp tail
    obtain ⟨rfl, rfl⟩ := Prod.mk.inj here
    refine ⟨front, k, w, rest, rfl, ?_, rfl, rfl⟩
    intro e mem same
    exact others _ (List.mem_map_of_mem mem) (congrArg Token.ofText same)
  · rintro ⟨before, k, w, behind, rfl, others, rfl, rfl⟩
    refine ⟨_, _, by rw [List.map_append, List.map_cons], ?_⟩
    intro e mem
    obtain ⟨entry, among, rfl⟩ := List.mem_map.mp mem
    exact Token.ofText_injective.ne (others entry among)

/-! ### There and back -/

/-- The latest entry with the meaning `w` is one of the word `k`, with `behind` behind it; and `again` is
    the meaning that the word was entered with last.  This is `w` as long as the word was not entered
    once more behind. -/
structure Translates (entries : List (String × String)) (w k again : String)
    (behind : List (String × String)) : Prop where
  entered : ∃ before, entries = before ++ (k, w) :: behind
  latest : ∀ e ∈ behind, e.2 ≠ w
  same : again = w ↔ ∀ e ∈ behind, e.1 ≠ k

/-- Where no word is entered with two meanings, the meaning comes back. -/
theorem Translates.eq_of_unambiguous {w k again : String} {behind : List (String × String)}
    (translates : Translates entries w k again behind)
    (unambiguous : ∀ e ∈ entries, ∀ f ∈ entries, e.1 = f.1 → e.2 = f.2) : again = w := by
  obtain ⟨⟨before, rfl⟩, latest, same⟩ := translates
  refine same.mpr fun e mem here => latest e mem ?_
  exact unambiguous e (by simp [mem]) (k, w) (by simp) here

/-- Where a meaning is held with a word, the word is held with the meaning it was entered with last. -/
theorem Records.translates (records : d.Records entries m) {path : List Token} {v : Value}
    (held : d.back.get? m path = some v) :
    ∃ w k again behind, path = Token.ofText w ∧ v = .text k ∧ Translates entries w k again behind ∧
      d.forward.get? m (Token.ofText k) = some (.text again) := by
  obtain ⟨before, k, w, behind, rfl, latest, rfl, rfl⟩ := records.get?_back.mp held
  have forward : d.forward.get? m (Token.ofText k) =
      some (.text ((behind.reverse.lookup k).getD w)) := by
    rw [records.get?_forward, List.reverse_append, List.reverse_cons, List.append_assoc,
      List.lookup_append, List.singleton_append, List.lookup_cons_self]
    cases behind.reverse.lookup k <;> rfl
  refine ⟨w, k, _, behind, rfl, rfl, ⟨⟨before, rfl⟩, latest, ?_⟩, forward⟩
  cases later : behind.reverse.lookup k with
  | none =>
      have never : ∀ e ∈ behind, e.1 ≠ k := by
        intro e mem
        exact Ne.symm (bne_iff_ne.mp (List.lookup_eq_none_iff.mp later e (List.mem_reverse.mpr mem)))
      simpa using never
  | some u =>
      obtain ⟨front, back, rfl, _⟩ := lookup_reverse_eq_some_iff.mp later
      have mem : (k, u) ∈ front ++ (k, u) :: back := by simp
      have other : u ≠ w := latest (k, u) mem
      exact iff_of_false other fun never => never (k, u) mem rfl

/-- The two directions of a dictionary agree on what was entered last.  Whatever words were entered in
    whatever order, if the back direction holds a word for a meaning, then the forward direction holds a
    meaning at this word, and it is the same one unless the word was entered with another meaning
    behind.  So it is with reading: what is read back from some tokens is the word of a meaning that they
    begin with, and read forward again this word gives that meaning, unless it was entered with another
    one behind. -/
theorem back_forward (records : d.Records entries m) (more : List (String × String)) :
    let all := entries ++ more
    let now := d.enterAll more m
    (∀ (w : String) (v : Value), d.back.get? now (Token.ofText w) = some v →
      ∃ k again behind, v = .text k ∧ Translates all w k again behind ∧
        d.forward.get? now (Token.ofText k) = some (.text again)) ∧
    ∀ {σ : Type} [Feed σ] {last : Token} {P : List Token → σ → Prop}, Follows last P →
      (∀ {ahead s}, P ahead s → (Feed.consume s).halt = none) →
      ∀ (ts : List Token) (s t : Session Memory σ) (v : Value) (fuel : Nat), P ts s.feed →
        s.memory = now →
        ((Pattern.trie d.back.cell d.back.initial .exact).read (fuel + 1)).perform s =
          (.ok (some v), t) →
        ∃ w k again behind rest, v = .text k ∧ ts = Token.ofText w ++ rest ∧ P rest t.feed ∧
          Translates all w k again behind ∧
          ∀ {ρ : Type} [Feed ρ] {last : Token} {Q : List Token → ρ → Prop}, Follows last Q →
            (∀ {ahead s}, Q ahead s → (Feed.consume s).halt = none) →
            ∀ (u : Session Memory ρ) (fuel : Nat), Q (Token.ofText k) u.feed →
              u.memory = t.memory →
              ((Pattern.dictionary d.forward.cell d.forward.initial).read (fuel + 1)).ComesTo Q u
                (some (.text again)) [] := by
  intro all now
  have later : d.Records all now := records.enterAll more
  constructor
  · intro w v held
    obtain ⟨w', k, again, behind, spelled, rfl, translates, forward⟩ := later.translates held
    obtain rfl := Token.ofText_injective spelled
    exact ⟨k, again, behind, rfl, translates, forward⟩
  · intro σ _ last P follows unhalted ts s t v fuel holds memory read
    obtain ⟨path, rest, rfl, _, after, run, left, kept⟩ := Pattern.readTrie_exact follows unhalted fuel
      d.back.cell d.back.initial holds
    obtain ⟨found, rfl⟩ : (s.memory.trieAt d.back.cell d.back.initial).trie.get? path = some v ∧
        after = t := by
      simpa using run.symm.trans read
    have held : d.back.get? now path = some v := by rw [← memory]; exact found
    obtain ⟨w, k, again, behind, rfl, rfl, translates, forward⟩ := later.translates held
    refine ⟨w, k, again, behind, rest, rfl, rfl, left, translates, ?_⟩
    intro ρ _ last Q follows unhalted u fuel ahead same
    have here : u.memory = now := same.trans (kept.trans memory)
    exact Pattern.readTrie_key follows unhalted (by rw [here]; exact forward) ahead fuel

/-- A cat is translated back and comes forward as a cat again. -/
theorem back_forward_cat :
    let d : Dictionary :=
      ⟨⟨0, (initially [("hund", "dog")]).1⟩, ⟨1, (initially [("hund", "dog")]).2⟩⟩
    let now := d.enterAll [("katze", "cat")] .empty
    let cat : Session Memory Pulled :=
      { feed := ⟨Token.ofText "at", .char 'c', false⟩, memory := now }
    let katze : Session Memory Pulled := { cat with feed := ⟨Token.ofText "atze", .char 'k', false⟩ }
    d.back.get? now (Token.ofText "cat") = some (.text "katze") ∧
      d.forward.get? now (Token.ofText "katze") = some (.text "cat") ∧
      ((Pattern.trie d.back.cell d.back.initial .exact).read 1).ComesTo (Stands (.char 't')) cat
        (some (.text "katze")) [] ∧
      ((Pattern.dictionary d.forward.cell d.forward.initial).read 1).ComesTo (Stands (.char 'e')) katze
        (some (.text "cat")) [] := by
  intro d now cat katze
  have records : d.Records [("hund", "dog")] .empty := ⟨by decide, rfl, rfl⟩
  have unambiguous : ∀ e ∈ [("hund", "dog"), ("katze", "cat")],
      ∀ f ∈ [("hund", "dog"), ("katze", "cat")], e.1 = f.1 → e.2 = f.2 := by decide
  obtain ⟨holds, reads⟩ := back_forward records [("katze", "cat")]
  have held : d.back.get? now (Token.ofText "cat") = some (.text "katze") := rfl
  have stands : Stands (.char 't') (Token.ofText "cat") cat.feed := ⟨rfl, by decide, by decide⟩
  have back : ((Pattern.trie d.back.cell d.back.initial .exact).read 1).ComesTo (Stands (.char 't')) cat
      (some (.text "katze")) [] :=
    Pattern.readTrie_key Stands.follows Stands.unhalted (s := cat) held stands 0
  refine ⟨held, ?_, back, ?_⟩
  · obtain ⟨k, again, behind, word, translates, forward⟩ := holds "cat" _ held
    obtain rfl : "katze" = k := Value.text.inj word
    rwa [translates.eq_of_unambiguous unambiguous] at forward
  · obtain ⟨t, read, _, kept⟩ := back
    obtain ⟨w, k, again, behind, rest, word, _, _, translates, forward⟩ :=
      reads Stands.follows Stands.unhalted _ cat t _ 0 stands rfl read
    obtain rfl : "katze" = k := Value.text.inj word
    obtain ⟨before, split⟩ := translates.entered
    have entered : ("katze", w) ∈ [("hund", "dog"), ("katze", "cat")] := by
      rw [show [("hund", "dog"), ("katze", "cat")] = _ from split]
      simp
    obtain rfl : "cat" = w := unambiguous ("katze", "cat") (by decide) ("katze", w) entered rfl
    rw [translates.eq_of_unambiguous unambiguous] at forward
    exact forward Stands.follows Stands.unhalted katze 0 ⟨rfl, by decide, by decide⟩ kept.symm

/-- A word that is entered once more keeps its first meaning in the back direction: there `x` is still
    held with the word `a`, which means `y` by now. -/
theorem back_forward_stale :
    let d : Dictionary := ⟨⟨0, (initially [("a", "x"), ("a", "y")]).1⟩,
      ⟨1, (initially [("a", "x"), ("a", "y")]).2⟩⟩
    d.back.get? .empty (Token.ofText "x") = some (.text "a") ∧
      d.forward.get? .empty (Token.ofText "a") = some (.text "y") := by
  exact ⟨rfl, rfl⟩

end Dictionary

end Duplex
