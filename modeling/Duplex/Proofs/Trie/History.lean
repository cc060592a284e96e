/-
Module: Duplex.Proofs.Trie.History
Purpose: Tries of keywords over their whole life.  A history is the list of registrations, latest
  first, whether they were made from outside or by a read that learned a word.  The trie holds at
  each path what was registered there last, and a value is written as that path of its own which was
  registered last.  Where values are also registered under all spellings of a key, the index does not
  tell of all paths any more, but still of none that holds another value.
Main exports: Registry.Tracks, Keywords.Reaches, Keywords.pathOf?_eq_latest, Keywords.Reachable,
  Keywords.index_sound
-/
import Duplex.Grammar.Keywords
import Duplex.Proofs.Equality
import Duplex.Proofs.Trie.Descent
import Duplex.Proofs.Trie.FiniteMap
import Duplex.Proofs.Trie.Index

namespace Duplex

/-! ### Registries and their history -/

namespace Registry

variable {κ ν : Type} [DecidableEq κ] [BEq ν]

/-- The number of registrations since the last one of a path. -/
def age (history : List (List κ × ν)) (path : List κ) : Nat :=
  (history.map Prod.fst).idxOf path

omit [BEq ν] in
theorem age_cons (path other : List κ) (v : ν) (history : List (List κ × ν)) :
    age ((path, v) :: history) other = if other = path then 0 else age history other + 1 := by
  by_cases same : path = other
  · simp [age, same]
  · simp [age, same, Ne.symm same]

/-- The registry is what a history of registrations, latest first, has made of an empty one. -/
structure Tracks (r : Registry κ ν) (history : List (List κ × ν)) : Prop where
  sound : r.Sound
  held : ∀ path, r.get? path = history.lookup path
  complete : ∀ {v path}, r.Holds path v → path ∈ r.back.pathsOf v
  /-- The paths of a value are in the order of their last registrations. -/
  ordered : ∀ v, (r.back.pathsOf v).Pairwise fun earlier later =>
    age history later < age history earlier
  registered : ∀ v ∈ r.back.entries.map Prod.fst, ∃ path, (path, v) ∈ history
  /-- Only the beginnings of registered paths lead to a node. -/
  begun : ∀ {path reached}, r.trie.node? path = some reached → path ≠ [] →
    ∃ entry ∈ history, path <+: entry.1

theorem tracks_empty : (empty : Registry κ ν).Tracks [] where
  sound := sound_empty
  held path := by simp [empty, get?]
  complete := by
    rintro v path ⟨w, held, _⟩
    simp [empty, get?] at held
  ordered v := by simp [empty]
  registered := by simp [empty, PathIndex.empty]
  begun := by
    intro path reached found ne
    cases path with
    | nil => exact absurd rfl ne
    | cons k path => simp [empty] at found

/-! ### What the index tells -/

section Told

variable {r : Registry κ ν} {history : List (List κ × ν)}

/-- What a path holds was registered there. -/
theorem Tracks.mem_history (tracks : r.Tracks history) {path : List κ} {v : ν}
    (held : r.get? path = some v) : (path, v) ∈ history := by
  rw [tracks.held, List.lookup_eq_some_iff] at held
  obtain ⟨later, earlier, split, _⟩ := held
  simp [split]

theorem Tracks.mem_pathsOf_iff (tracks : r.Tracks history) {v : ν} {path : List κ} :
    path ∈ r.back.pathsOf v ↔ r.Holds path v :=
  ⟨tracks.sound.holds, tracks.complete⟩

/-- A value has no path to be written as where no path holds it. -/
theorem Tracks.pathOf?_eq_none_iff (tracks : r.Tracks history) {v : ν} :
    r.pathOf? v = none ↔ ∀ path, ¬ r.Holds path v := by
  rw [pathOf?, PathIndex.pathOf?_eq_getLast?, List.getLast?_eq_none_iff,
    List.eq_nil_iff_forall_not_mem]
  simp only [tracks.mem_pathsOf_iff]

/-- A value is written as the path, among those that hold it, that was registered last. -/
theorem Tracks.pathOf?_eq_some_iff (tracks : r.Tracks history) {v : ν} {path : List κ} :
    r.pathOf? v = some path ↔
      r.Holds path v ∧
        ∀ other, r.Holds other v → other ≠ path → age history path < age history other := by
  rw [pathOf?, PathIndex.pathOf?_eq_some_iff_youngest (tracks.ordered v)]
  simp only [tracks.mem_pathsOf_iff]

end Told

/-! ### Further registrations -/

variable [PartialEquivBEq ν]

theorem Tracks.insert {r : Registry κ ν} {history : List (List κ × ν)} (tracks : r.Tracks history)
    (path : List κ) (v : ν) : (r.insert path v).Tracks ((path, v) :: history) where
  sound := tracks.sound.insert path v
  held other := by
    by_cases same : other = path
    · simp [get?_insert, same]
    · simp [get?_insert, List.lookup_cons, same, beq_false_of_ne same, tracks.held]
  complete := by
    intro u other holds
    rw [holds_insert] at holds
    rw [pathsOf_insert tracks.sound]
    by_cases same : other = path
    · simp_all
    · have before := tracks.complete (by simpa [same] using holds)
      simp [before, same]
  ordered u := by
    rw [pathsOf_insert tracks.sound, List.pairwise_append]
    refine ⟨?_, ?_, ?_⟩
    · -- the other paths have all grown older by one
      refine ((tracks.ordered u).filter _).imp_of_mem ?_
      intro earlier later memEarlier memLater older
      have first : earlier ≠ path := by simpa using (List.mem_filter.mp memEarlier).2
      have second : later ≠ path := by simpa using (List.mem_filter.mp memLater).2
      simpa [age_cons, first, second] using older
    · by_cases same : v == u <;> simp [same]
    · intro earlier mem later last
      have older : earlier ≠ path := by simpa using (List.mem_filter.mp mem).2
      by_cases same : v == u
      · simp only [same, if_true, List.mem_singleton] at last
        simp [age_cons, last, older]
      · simp [same] at last
  registered := by
    intro u mem
    have before : u ∈ r.back.entries.map Prod.fst ∨ u = v := by
      unfold Registry.insert at mem
      cases held : r.trie.get? path with
      | none =>
          rw [held] at mem
          exact PathIndex.mem_values_register mem
      | some old =>
          rw [held] at mem
          exact (PathIndex.mem_values_register mem).imp_left
            fun kept => (PathIndex.sublist_values_unregister r.back old path).subset kept
    rcases before with known | rfl
    · obtain ⟨earlier, mem⟩ := tracks.registered u known
      exact ⟨earlier, List.mem_cons_of_mem _ mem⟩
    · exact ⟨path, List.mem_cons_self⟩
  begun := by
    intro other reached found ne
    rcases Trie.node?_insert found with ⟨before, was⟩ | begins
    · obtain ⟨entry, mem, begins⟩ := tracks.begun was ne
      exact ⟨entry, List.mem_cons_of_mem _ mem, begins⟩
    · exact ⟨(path, v), List.mem_cons_self, begins⟩

theorem Tracks.insertAll {r : Registry κ ν} {history : List (List κ × ν)}
    (tracks : r.Tracks history) (entries : List (List κ × ν)) :
    (r.insertAll entries).Tracks (entries.reverse ++ history) := by
  induction entries generalizing r history with
  | nil => exact tracks
  | cons entry entries ih =>
      have rest := ih (tracks.insert entry.1 entry.2)
      rw [List.reverse_cons, List.append_assoc]
      exact rest

section Later

variable {r : Registry κ ν} {history : List (List κ × ν)}

/-- When the path that a value is written as is given to another value, the value is written as the
    path registered last before that. -/
theorem Tracks.pathOf?_reassigned (tracks : r.Tracks history) {v w : ν} {path other : List κ}
    (differs : (w == v) = false) :
    (r.insert path w).pathOf? v = some other ↔
      (other ≠ path ∧ r.Holds other v) ∧
        ∀ third, r.Holds third v → third ≠ path → third ≠ other →
          age history other < age history third := by
  rw [(tracks.insert path w).pathOf?_eq_some_iff]
  simp only [holds_insert, differs, Bool.false_eq_true, age_cons]
  constructor
  · rintro ⟨holds, latest⟩
    by_cases same : other = path
    · simp [same] at holds
    · refine ⟨⟨same, by simpa [same] using holds⟩, ?_⟩
      intro third holdsThird apart differs
      have younger := latest third (by simpa [apart] using holdsThird) differs
      simpa [same, apart] using younger
  · rintro ⟨⟨apart, holds⟩, latest⟩
    refine ⟨by simpa [apart] using holds, ?_⟩
    intro third holdsThird differs
    by_cases same : third = path
    · simp [same] at holdsThird
    · have younger := latest third (by simpa [same] using holdsThird) same differs
      simpa [apart, same] using younger

/-- As many values are counted as different ones are stored, where each value equals itself. -/
theorem Tracks.size_eq (tracks : r.Tracks history) (self : ∀ entry ∈ history, entry.2 == entry.2) :
    ∃ values : List ν, r.size = values.length ∧
      (values.Pairwise fun v w => (v == w) = false) ∧
      (∀ v ∈ values, ∃ path, r.Holds path v) ∧
      ∀ path v, r.get? path = some v → ∃ w ∈ values, w == v := by
  refine ⟨r.back.entries.map Prod.fst, by simp [size, PathIndex.size], tracks.sound.formed.apart,
    ?_, ?_⟩
  · intro v mem
    obtain ⟨earlier, registered⟩ := tracks.registered v mem
    obtain ⟨entry, among, rfl⟩ := List.mem_map.mp mem
    obtain ⟨path, listed⟩ := List.exists_mem_of_ne_nil _ (tracks.sound.formed.listed entry among)
    exact ⟨path, tracks.sound.holds ((PathIndex.mem_pathsOf tracks.sound.formed).mpr
      ⟨entry, among, self _ registered, listed⟩)⟩
  · intro path v held
    have listed := tracks.complete ⟨v, held, self _ (tracks.mem_history held)⟩
    obtain ⟨entry, among, equal, _⟩ := (PathIndex.mem_pathsOf tracks.sound.formed).mp listed
    exact ⟨entry.1, List.mem_map_of_mem among, equal⟩

end Later

end Registry

/-! ### Keywords in use -/

@[simp] theorem Memory.trieAt_setTrie (m : Memory) (cell : Nat) (r initial : Registry Token Value) :
    (m.setTrie cell r).trieAt cell initial = r := by
  simp [Memory.trieAt, Memory.setTrie]

/-- Other cells stay as they are. -/
theorem Memory.trieAt_setTrie_of_ne {cell other : Nat} (ne : other ≠ cell) (m : Memory)
    (r initial : Registry Token Value) :
    (m.setTrie cell r).trieAt other initial = m.trieAt other initial := by
  have kept : (m.tries.filter fun entry => entry.1 != cell).lookup other = m.tries.lookup other := by
    rw [lookup_filter (· != cell), if_pos (bne_iff_ne.mpr ne)]
  show (List.lookup other ((cell, r) :: m.tries.filter fun entry => entry.1 != cell)).getD _ = _
  rw [List.lookup_cons, beq_eq_false_iff_ne.mpr ne]
  exact congrArg (Option.getD · initial) kept

/-- What is written for a value without a path: a word that may be read whole is written whole. -/
def Policy.wholeWord? : Policy → Value → Option (List Token)
  | .greedy _, .text s => some (Token.ofText s)
  | _, _ => none

/-- A token spells itself. -/
theorem Token.mem_spellings_self (t : Token) : t ∈ t.spellings := by
  cases t with
  | char c => simp [Token.spellings, Text.mem_spellings]
  | int n => simp [Token.spellings]
  | word s => simp [Token.spellings]

namespace Keywords

variable (k : Keywords) (policy : Policy)

/-- The keywords as a grammar. -/
def grammar (memory : Memory) (fuel : Nat) : Grammar :=
  { pattern := .trie k.cell k.initial policy, memory := memory, fuel := fuel }

/-- The value at a path is now equal to `v`. -/
def Holds (m : Memory) (path : List Token) (v : Value) : Prop :=
  (k.contents m).Holds path v

@[simp] theorem contents_insert (path : List Token) (v : Value) (m : Memory) :
    k.contents (k.insert path v m) = (k.contents m).insert path v := by
  simp [contents, insert, update]

/-- What is inserted elsewhere does not matter. -/
theorem contents_insert_of_ne {other : Keywords} (apart : k.cell ≠ other.cell) (path : List Token)
    (v : Value) (m : Memory) : k.contents (other.insert path v m) = k.contents m :=
  Memory.trieAt_setTrie_of_ne apart m _ _

@[simp] theorem contents_insertAll (entries : List (List Token × Value)) (m : Memory) :
    k.contents (k.insertAll entries m) = (k.contents m).insertAll entries := by
  simp [contents, insertAll, update]

@[simp] theorem contents_insertNocase (path : List Token) (v : Value) (m : Memory) :
    k.contents (k.insertNocase path v m) =
      (k.contents m).insertSpelled Token.spellings path v := by
  simp [contents, insertNocase, update]

section Reading

variable {σ : Type} [Feed σ]

/-- What a read registers: the word it has taken, if the policy has learned a value for it. -/
def learned (m : Memory) (feed : σ) : Nat → List (List Token × Value)
  | 0 => []
  | fuel + 1 =>
      match ((Read.judge fuel policy (k.contents m).trie).perform
        { feed := feed, memory := m }).1 with
      | .ok (w, .learn v) => [(w.path, v)]
      | _ => []

theorem contents_readFrom (m : Memory) (feed : σ) (fuel : Nat) :
    k.contents ((k.grammar policy m fuel).readFrom feed).memory =
      (k.contents m).insertAll (k.learned policy m feed fuel) := by
  cases fuel with
  | zero => rfl
  | succ fuel =>
      let s : Session Memory σ := { feed := feed, memory := m }
      have start : (Read.trieAt k.cell k.initial : Read Memory σ _).perform s =
          (.ok (k.contents m), s) := rfl
      have quiet := Read.quiet_judge (σ := σ) fuel policy (k.contents m).trie s
      change k.contents ((Pattern.readTrie fuel k.cell k.initial policy).perform s).2.memory = _
      unfold Pattern.readTrie learned
      rw [Read.perform_bind_ok start, Read.perform_bind]
      cases judged : (Read.judge fuel policy (k.contents m).trie).perform s with
      | mk result after =>
          rw [judged] at quiet
          change after.memory = m at quiet
          cases result with
          | error stop => simp [quiet, s, judged, Registry.insertAll]
          | ok answer =>
              obtain ⟨w, verdict⟩ := answer
              cases verdict with
              | notParsed => simp [quiet, s, judged, Registry.insertAll]
              | found v => simp [quiet, s, judged, Registry.insertAll]
              | fresh v => simp [quiet, s, judged, Registry.insertAll]
              | learn v =>
                  have kept : k.contents (after.memory.setTrie k.cell
                      ((k.contents m).insert w.path v)) = (k.contents m).insert w.path v := by
                    simp [contents]
                  change k.contents (after.memory.setTrie k.cell
                    ((k.contents m).insert w.path v)) = _
                  rw [kept]
                  simp [s, judged, Registry.insertAll]

end Reading

/-! ### Memories in use -/

/-- The memories that a history of registrations, latest first, leads to from one where nothing is
    registered.  Reads go on in between, and register what they learn. -/
inductive Reaches : List (List Token × Value) → Memory → Prop
  | start {m} : k.contents m = .empty → Reaches [] m
  | insert {history m} (path : List Token) (v : Value) :
      Reaches history m → Reaches ((path, v) :: history) (k.insert path v m)
  | insertAll {history m} (entries : List (List Token × Value)) :
      Reaches history m → Reaches (entries.reverse ++ history) (k.insertAll entries m)
  | read {history m} {σ : Type} [Feed σ] (feed : σ) (fuel : Nat) :
      Reaches history m →
      Reaches ((k.learned policy m feed fuel).reverse ++ history)
        ((k.grammar policy m fuel).readFrom feed).memory
  /-- Whatever leaves the trie as it is. -/
  | elsewhere {history m m'} :
      Reaches history m → k.contents m' = k.contents m → Reaches history m'

/-- The memories that registrations of any kind lead to from one where nothing is registered, with
    reads in between. -/
inductive Reachable : Memory → Prop
  | start {m} : k.contents m = .empty → Reachable m
  | insert {m} (path : List Token) (v : Value) : Reachable m → Reachable (k.insert path v m)
  | insertAll {m} (entries : List (List Token × Value)) :
      Reachable m → Reachable (k.insertAll entries m)
  | insertNocase {m} (path : List Token) (v : Value) :
      Reachable m → Reachable (k.insertNocase path v m)
  | read {m} {σ : Type} [Feed σ] (feed : σ) (fuel : Nat) :
      Reachable m → Reachable ((k.grammar policy m fuel).readFrom feed).memory
  /-- Whatever leaves the trie as it is. -/
  | elsewhere {m m'} : Reachable m → k.contents m' = k.contents m → Reachable m'

variable {k policy}

theorem Reaches.tracks {history : List (List Token × Value)} {m : Memory}
    (reached : k.Reaches policy history m) : (k.contents m).Tracks history := by
  induction reached with
  | start fresh =>
      rw [fresh]
      exact Registry.tracks_empty
  | insert path v _ ih =>
      rw [contents_insert]
      exact ih.insert path v
  | insertAll entries _ ih =>
      rw [contents_insertAll]
      exact ih.insertAll entries
  | read feed fuel _ ih =>
      rw [contents_readFrom]
      exact ih.insertAll _
  | elsewhere _ same ih =>
      rw [same]
      exact ih

/-! ### What is written -/

variable {m : Memory}

/-- A value is written as its path, and without one as the policy has it. -/
theorem write_eq (v : Value) (fuel : Nat) :
    ((k.grammar policy m (fuel + 1)).write v).result =
      ((k.pathOf? m v).or (policy.wholeWord? v)).elim (.error (.fault .notRegistered)) .ok := by
  change (((Write.registered (k.contents m) policy v).run _).run).1 = _
  unfold Write.registered pathOf?
  cases (k.contents m).pathOf? v with
  | some path => rfl
  | none =>
      cases policy with
      | exact => rfl
      | lazy classify => rfl
      | greedy continues => cases v <;> rfl

theorem write_of_pathOf? {v : Value} {path : List Token} (found : k.pathOf? m v = some path)
    (fuel : Nat) : ((k.grammar policy m (fuel + 1)).write v).result = .ok path := by
  simp [write_eq, found]

/-- Only a whole word is written without a path. -/
theorem pathOf?_of_write {v : Value} {fuel : Nat} {out : List Token}
    (written : ((k.grammar policy m fuel).write v).result = .ok out) :
    k.pathOf? m v = some out ∨ k.pathOf? m v = none ∧ policy.wholeWord? v = some out := by
  cases fuel with
  | zero => cases written
  | succ fuel =>
      rw [write_eq] at written
      cases found : k.pathOf? m v with
      | some path => simpa [found] using written
      | none => cases whole : policy.wholeWord? v <;> simp_all

/-! ### The latest of the paths that hold a value -/

/-- The trie follows the history of its registrations: a path holds what was registered there last,
    and a value is written as the path, among those that hold it now, that was registered last.  A
    path that was given to another value is left for the one before it, and the description counts
    the values that are different. -/
theorem pathOf?_eq_latest {history : List (List Token × Value)}
    (reached : k.Reaches policy history m) :
    (∀ path, k.get? m path = history.lookup path) ∧
    (∀ v, k.pathOf? m v = none ↔ ∀ path, ¬ k.Holds m path v) ∧
    (∀ v path, k.pathOf? m v = some path ↔
      k.Holds m path v ∧ ∀ other, k.Holds m other v → other ≠ path →
        Registry.age history path < Registry.age history other) ∧
    (∀ v path fuel, k.pathOf? m v = some path →
      ((k.grammar policy m (fuel + 1)).write v).result = .ok path) ∧
    (∀ v out fuel, ((k.grammar policy m fuel).write v).result = .ok out →
      k.Holds m out v ∨ (∀ path, ¬ k.Holds m path v) ∧ policy.wholeWord? v = some out) ∧
    (∀ v w path other, k.pathOf? m v = some path → (w == v) = false →
      (k.pathOf? (k.insert path w m) v = some other ↔
        (other ≠ path ∧ k.Holds m other v) ∧
          ∀ third, k.Holds m third v → third ≠ path → third ≠ other →
            Registry.age history other < Registry.age history third)) ∧
    ((∀ entry ∈ history, entry.2 == entry.2) →
      ∃ values : List Value,
        (values.Pairwise fun v w => (v == w) = false) ∧
        (∀ v ∈ values, ∃ path, k.Holds m path v) ∧
        (∀ path v, k.get? m path = some v → ∃ w ∈ values, w == v) ∧
        ∀ fuel, (k.grammar policy m (fuel + 1)).description.result =
          .ok (s!"(trie: {values.length} " ++ policy.name ++ " values)")) := by
  have tracks := reached.tracks
  refine ⟨tracks.held, fun v => tracks.pathOf?_eq_none_iff, fun v path => tracks.pathOf?_eq_some_iff,
    fun v path fuel found => write_of_pathOf? found fuel, ?_, ?_, ?_⟩
  · intro v out fuel written
    rcases pathOf?_of_write written with found | ⟨absent, whole⟩
    · exact .inl (tracks.sound.holds_pathOf? found)
    · exact .inr ⟨tracks.pathOf?_eq_none_iff.mp absent, whole⟩
  · intro v w path other _ differs
    rw [pathOf?, contents_insert]
    exact tracks.pathOf?_reassigned differs
  · intro self
    obtain ⟨values, size, apart, stored, counted⟩ := tracks.size_eq self
    refine ⟨values, apart, stored, counted, ?_⟩
    intro fuel
    change Except.ok (Pattern.describeTrie (k.contents m).size policy) = _
    rw [size]
    rfl

/-- A trie that starts with nothing. -/
def blank : Keywords :=
  ⟨0, .empty⟩

/-- A word is learned as another path of a value, and then given to another one: the value is
    written as its first path again. -/
theorem pathOf?_eq_latest_relearned :
    let policy : Policy := .lazy fun _ => some (.int 1)
    let before := blank.insert (Token.ofText "ab") (.int 1) .empty
    let between := ((blank.grammar policy before 3).readFrom (Single.of (.char 'a'))).memory
    let after := blank.insert (Token.ofText "a") (.int 2) between
    blank.pathOf? between (.int 1) = some (Token.ofText "a") ∧
    blank.Reaches policy
      [(Token.ofText "a", .int 2), (Token.ofText "a", .int 1), (Token.ofText "ab", .int 1)] after ∧
    blank.get? after (Token.ofText "a") = some (.int 2) ∧
    ((blank.grammar policy after 1).write (.int 1)).result = .ok (Token.ofText "ab") := by
  intro policy before between after
  have learned : blank.learned policy before (Single.of (.char 'a')) 3 =
      [(Token.ofText "a", .int 1)] := by
    with_unfolding_all rfl
  have first : blank.Reaches policy [(Token.ofText "ab", .int 1)] before :=
    .insert _ _ (.start rfl)
  have second := Reaches.read (Single.of (.char 'a')) 3 first
  rw [learned] at second
  have reached := Reaches.insert (Token.ofText "a") (.int 2) second
  obtain ⟨held, _, _, written, _⟩ := pathOf?_eq_latest reached
  refine ⟨by decide +kernel, reached, ?_, written _ _ 0 (by decide +kernel)⟩
  rw [held]
  rfl

/-- A word whose own path was given to another value is still written as that path, if it may be
    read whole. -/
theorem wholeWord_written_overwritten :
    let policy : Policy := .greedy Char.isAlpha
    let before := blank.insert (Token.ofText "ab") (.text "ab") .empty
    let after := blank.insert (Token.ofText "ab") (.text "cd") before
    blank.Reaches policy [(Token.ofText "ab", .text "cd"), (Token.ofText "ab", .text "ab")] after ∧
    blank.pathOf? before (.text "ab") = some (Token.ofText "ab") ∧
    blank.get? after (Token.ofText "ab") = some (.text "cd") ∧
    blank.pathOf? after (.text "ab") = none ∧
    ((blank.grammar policy after 1).write (.text "ab")).result = .ok (Token.ofText "ab") :=
  ⟨.insert _ _ (.insert _ _ (.start rfl)), by decide +kernel, rfl, by decide +kernel, rfl⟩

/-! ### Registrations of any kind -/

theorem Reachable.sound (reached : k.Reachable policy m) : (k.contents m).Sound := by
  induction reached with
  | start fresh =>
      rw [fresh]
      exact Registry.sound_empty
  | insert path v _ ih =>
      rw [contents_insert]
      exact ih.insert path v
  | insertAll entries _ ih =>
      rw [contents_insertAll]
      exact ih.insertAll entries
  | insertNocase path v _ ih =>
      rw [contents_insertNocase]
      exact ih.insertSpelled Token.mem_spellings_self path v
  | read feed fuel _ ih =>
      rw [contents_readFrom]
      exact ih.insertAll _
  | elsewhere _ same ih =>
      rw [same]
      exact ih

/-- However keys were registered, a value is only written as a path that holds it now, or else as a
    whole word; no path is listed twice among the values that equal themselves; and each value is
    listed once, with a path and with none of them twice. -/
theorem index_sound (reached : k.Reachable policy m) :
    (∀ v path, k.pathOf? m v = some path →
      k.Holds m path v ∧
        ∀ fuel, ((k.grammar policy m (fuel + 1)).write v).result = .ok path) ∧
    (∀ v out fuel, ((k.grammar policy m fuel).write v).result = .ok out →
      k.Holds m out v ∨ k.pathOf? m v = none ∧ policy.wholeWord? v = some out) ∧
    (((k.contents m).back.entries.filter fun entry => entry.1 == entry.1).flatMap
      Prod.snd).Nodup ∧
    (((k.contents m).back.entries.map Prod.fst).Pairwise fun v w => (v == w) = false) ∧
    ∀ entry ∈ (k.contents m).back.entries, entry.2 ≠ [] ∧ entry.2.Nodup := by
  have sound := reached.sound
  refine ⟨?_, ?_, sound.nodup_paths, sound.formed.apart, ?_⟩
  · intro v path found
    exact ⟨sound.holds_pathOf? found, write_of_pathOf? found⟩
  · intro v out fuel written
    exact (pathOf?_of_write written).imp_left sound.holds_pathOf?
  · intro entry mem
    exact ⟨sound.formed.listed entry mem, sound.formed.once entry mem⟩

/-- A key in all its spellings takes a path over from the key it spells, and with it from the
    value. -/
theorem index_sound_respelled :
    let before := blank.insertNocase (Token.ofText "from") (.int 2) .empty
    let after := blank.insertNocase (Token.ofText "FROM") (.int 3) before
    blank.Reachable .exact after ∧
    blank.pathOf? before (.int 2) = some (Token.ofText "from") ∧
    blank.pathOf? after (.int 2) = none ∧
    blank.pathOf? after (.int 3) = some (Token.ofText "FROM") ∧
    blank.Holds after (Token.ofText "FROM") (.int 3) := by
  intro before after
  have reached : blank.Reachable .exact after := .insertNocase _ _ (.insertNocase _ _ (.start rfl))
  have found : blank.pathOf? after (.int 3) = some (Token.ofText "FROM") := by decide +kernel
  exact ⟨reached, by decide +kernel, by decide +kernel, found,
    ((index_sound reached).1 _ _ found).1⟩

/-- A value that does not equal itself keeps a path that was given to another value, and a word that
    may be read whole is written as a path that holds another value. -/
theorem unequal_keeps_path :
    (let nan : Value := .double ⟨0x7ff8000000000000⟩
     let after := blank.insert (Token.ofText "a") (.int 1)
       (blank.insert (Token.ofText "a") nan .empty)
     blank.Reachable .exact after ∧
     blank.keys after = [Token.ofText "a"] ∧
     (blank.contents after).back.entries.map Prod.snd = [[Token.ofText "a"], [Token.ofText "a"]] ∧
     (blank.grammar .exact after 1).description.result = .ok "(trie: 2 exact values)") ∧
    (let policy : Policy := .greedy Char.isAlpha
     let after := blank.insert (Token.ofText "ab") (.text "cd") .empty
     blank.Reachable policy after ∧
     blank.get? after (Token.ofText "ab") = some (.text "cd") ∧
     ((blank.grammar policy after 1).write (.text "ab")).result = .ok (Token.ofText "ab")) :=
  ⟨⟨.insert _ _ (.insert _ _ (.start rfl)), by decide +kernel, by decide +kernel, by decide +kernel⟩,
    ⟨.insert _ _ (.start rfl), rfl, rfl⟩⟩

end Keywords

end Duplex
