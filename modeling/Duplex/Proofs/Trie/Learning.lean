/-
Module: Duplex.Proofs.Trie.Learning
Purpose: What a trie learns makes no difference to what it reads.  A value is learned at a path that
  leads to a node already, and is the one that would be guessed there again; so a trie that has
  learned and one that has not have the same nodes and tell the same of every path, whatever is
  registered in both of them later on.
Main exports: Trie.Alike, Read.descend_together, Pattern.readTrie_lazy, Pattern.readTrie_alike,
  Keywords.Use, Keywords.reads_transparent
-/
import Duplex.Proofs.Trie.History
import Duplex.Proofs.Watching

namespace Duplex

/-! ### Tries that tell the same -/

namespace Trie

variable {κ ν : Type} [DecidableEq κ]

/-- Two tries with the same nodes that tell the same of every path, where a guess stands in for a
    value that is missing. -/
structure Alike (guess : List κ → Option ν) (t u : Trie κ ν) : Prop where
  nodes : ∀ path, (t.node? path).isSome ↔ (u.node? path).isSome
  told : ∀ path, (t.get? path).or (guess path) = (u.get? path).or (guess path)

variable {guess : List κ → Option ν} {t u : Trie κ ν}

theorem Alike.refl (t : Trie κ ν) : Alike guess t t where
  nodes _ := Iff.rfl
  told _ := rfl

theorem Alike.trans {w : Trie κ ν} (first : Alike guess t u) (second : Alike guess u w) :
    Alike guess t w where
  nodes path := (first.nodes path).trans (second.nodes path)
  told path := (first.told path).trans (second.told path)

/-- What is put into both of them is found in both of them. -/
theorem Alike.insert (alike : Alike guess t u) (path : List κ) (v : ν) :
    Alike guess (t.insert path v) (u.insert path v) where
  nodes other := by rw [isSome_node?_insert, isSome_node?_insert, alike.nodes]
  told other := by
    rw [get?_insert, get?_insert]
    by_cases here : other = path
    · simp [here]
    · simpa [here] using alike.told other

theorem Alike.insertAll (alike : Alike guess t u) (entries : List (List κ × ν)) :
    Alike guess (t.insertAll entries) (u.insertAll entries) := by
  induction entries generalizing t u with
  | nil => exact alike
  | cons entry entries ih => exact ih (alike.insert entry.1 entry.2)

/-- A guess that is put where it was made, at a node without value, changes nothing. -/
theorem Alike.learn (alike : Alike guess t u) {path : List κ} {v : ν} {reached : Trie κ ν}
    (node : t.node? path = some reached) (missing : reached.value = none)
    (guessed : guess path = some v) : Alike guess (t.insert path v) u where
  nodes other := by
    rw [isSome_node?_insert, alike.nodes]
    apply or_iff_left_of_imp
    rintro ⟨rest, rfl⟩
    -- a beginning of a path that leads to a node leads to one
    rw [node?_append] at node
    obtain ⟨between, begun, _⟩ := Option.bind_eq_some_iff.mp node
    rw [← alike.nodes, begun]
    rfl
  told other := by
    rw [get?_insert]
    by_cases here : other = path
    · subst here
      have before := alike.told other
      simpa [get?, node, missing, guessed] using before
    · simpa [here] using alike.told other

end Trie

namespace Registry

variable {κ ν : Type} [DecidableEq κ] [BEq ν]

theorem trie_insertAll (r : Registry κ ν) (entries : List (List κ × ν)) :
    (r.insertAll entries).trie = r.trie.insertAll entries := by
  induction entries generalizing r with
  | nil => rfl
  | cons entry entries ih => exact ih (r.insert entry.1 entry.2)

theorem trie_insertSpelled {spell : κ → List κ} (own : ∀ k, k ∈ spell k) (r : Registry κ ν)
    (path : List κ) (v : ν) :
    (r.insertSpelled spell path v).trie =
      r.trie.insertAll ((Trie.spelled spell path).map fun spelling => (spelling, v)) := by
  change (r.trie.insertSpelled spell path v).1 = _
  rw [Trie.insertSpelled_eq own]
  exact Trie.fst_insertPaths r.trie v (Trie.spelled spell path)

end Registry

/-! ### Descents along the same nodes -/

namespace Read

variable {μ σ ν : Type} [Feed σ]

/-- Only the nodes of a trie decide how far a descent goes; neither its values nor the memory do. -/
theorem descend_together (path : List Token) {t u : Trie Token ν}
    (nodes : ∀ path, (t.node? path).isSome ↔ (u.node? path).isSome) {s r : Session μ σ}
    (feed : s.feed = r.feed) :
    ∃ s' r' : Session μ σ, s'.feed = r'.feed ∧
      ((∃ stop, (descend path t).perform s = (.error stop, s') ∧
          (descend path u).perform r = (.error stop, r')) ∨
        ∃ w reached other, (descend path t).perform s = (.ok (w, reached), s') ∧
          (descend path u).perform r = (.ok (w, other), r')) := by
  have here : (t.route? (Feed.peek s.feed)).isSome ↔ (u.route? (Feed.peek s.feed)).isSome := by
    simpa using nodes [Feed.peek s.feed]
  unfold descend
  rw [perform_bind_ok (perform_peek s), perform_bind_ok (perform_peek r), ← feed]
  split
  · rename_i stops
    split
    · exact ⟨s, r, feed, .inr ⟨_, _, _, rfl, rfl⟩⟩
    · rename_i goesOn
      simp [stops, goesOn] at here
  · rename_i next found
    split
    · rename_i stops
      simp [found, stops] at here
    · rename_i other found'
      have smaller : sizeOf next < sizeOf t := Trie.sizeOf_route?_lt found
      have below : ∀ path, (next.node? path).isSome ↔ (other.node? path).isSome := by
        intro path
        simpa [found, found'] using nodes (Feed.peek s.feed :: path)
      rw [perform_bind, perform_bind, perform_consume, perform_consume, ← feed]
      cases (Feed.consume s.feed).halt with
      | some cause => exact ⟨_, _, by rfl, .inl ⟨_, rfl, rfl⟩⟩
      | none =>
          cases (Feed.consume s.feed).token with
          | none => exact ⟨_, _, by rfl, .inr ⟨_, _, _, rfl, rfl⟩⟩
          | some k => exact descend_together (path ++ [k]) below rfl
termination_by sizeOf t

/-- A descent from the root takes the path to the node where it ends. -/
theorem node?_of_descend [FaithfulFeed σ] {t reached : Trie Token ν} {w : Descent}
    {s after : Session μ σ} (descended : (descend [] t).perform s = (.ok (w, reached), after)) :
    t.node? w.path = some reached := by
  obtain ⟨taken, path, node, _⟩ := descend_performed [] t descended
  rw [path]
  exact node

end Read

/-! ### Reading and learning -/

/-- What a word without a value is taken for; nothing is made of no word at all. -/
def Policy.guess (classify : String → Option Value) (path : List Token) : Option Value :=
  if path.isEmpty then none else classify (Token.spell path)

namespace Pattern

variable {σ : Type} [Feed σ] (fuel : Nat) {cell : Nat} {initial : Registry Token Value}
  (classify : String → Option Value) {s : Session Memory σ}

/-- The value at the end of a descent is read, or else the guess, which is learned. -/
theorem readTrie_lazy {w : Descent} {reached : Trie Token Value} {between : Session Memory σ}
    (descended : (Read.descend [] (s.memory.trieAt cell initial).trie).perform s =
      (.ok (w, reached), between)) :
    ∃ after,
      (readTrie fuel cell initial (.lazy classify)).perform s =
        (.ok (reached.value.or (Policy.guess classify w.path)), after) ∧
      after.feed = between.feed ∧
      (after.memory = s.memory ∨
        ∃ v, reached.value = none ∧ Policy.guess classify w.path = some v ∧
          after.memory =
            s.memory.setTrie cell ((s.memory.trieAt cell initial).insert w.path v)) := by
  have quiet := Read.quiet_descend [] (s.memory.trieAt cell initial).trie s
  rw [descended] at quiet
  change between.memory = s.memory at quiet
  have start : (Read.trieAt cell initial : Read Memory σ _).perform s =
      (.ok (s.memory.trieAt cell initial), s) := rfl
  unfold readTrie
  rw [Read.perform_bind_ok start]
  unfold Read.judge
  rw [bind_assoc, Read.perform_bind_ok descended]
  dsimp only
  cases value : reached.value with
  | some v => exact ⟨between, rfl, rfl, .inl quiet⟩
  | none =>
      unfold Policy.guess Read.judgeUnknown
      dsimp only
      by_cases empty : w.path.isEmpty
      · simp only [empty, if_true]
        exact ⟨between, rfl, rfl, .inl quiet⟩
      · simp only [empty]
        cases made : classify (Token.spell w.path) with
        | none => exact ⟨_, rfl, rfl, .inl quiet⟩
        | some v =>
            exact ⟨_, rfl, rfl, .inr ⟨v, trivial, rfl, by rw [← quiet]⟩⟩

/-- A stop on the way down ends the read, and nothing is learned. -/
theorem readTrie_stopped {stop : Stop ReadFault} {between : Session Memory σ} {policy : Policy}
    (descended : (Read.descend [] (s.memory.trieAt cell initial).trie).perform s =
      (.error stop, between)) :
    (readTrie fuel cell initial policy).perform s = (.error stop, between) := by
  have start : (Read.trieAt cell initial : Read Memory σ _).perform s =
      (.ok (s.memory.trieAt cell initial), s) := rfl
  unfold readTrie Read.judge
  rw [Read.perform_bind_ok start, bind_assoc, Read.perform_bind, descended]

section Alike

variable [FaithfulFeed σ] {r : Session Memory σ}

/-- Of two tries that tell the same, the same is read, up to the same token. -/
theorem readTrie_alike
    (alike : Trie.Alike (Policy.guess classify) (s.memory.trieAt cell initial).trie
      (r.memory.trieAt cell initial).trie)
    (feed : s.feed = r.feed) :
    ((readTrie fuel cell initial (.lazy classify)).perform s).1 =
      ((readTrie fuel cell initial (.lazy classify)).perform r).1 ∧
    ((readTrie fuel cell initial (.lazy classify)).perform s).2.feed =
      ((readTrie fuel cell initial (.lazy classify)).perform r).2.feed := by
  obtain ⟨s', r', behind, ⟨stop, first, second⟩ | ⟨w, reached, other, first, second⟩⟩ :=
    Read.descend_together [] alike.nodes feed
  · rw [readTrie_stopped fuel first, readTrie_stopped fuel second]
    exact ⟨rfl, behind⟩
  · have told := alike.told w.path
    simp only [Trie.get?, Read.node?_of_descend first, Read.node?_of_descend second,
      Option.bind_some] at told
    obtain ⟨after, read, place, _⟩ := readTrie_lazy fuel classify first
    obtain ⟨after', read', place', _⟩ := readTrie_lazy fuel classify second
    rw [read, read', place, place', told]
    exact ⟨rfl, behind⟩

/-- After a read the trie tells what it told before. -/
theorem readTrie_learns (s : Session Memory σ) :
    Trie.Alike (Policy.guess classify)
      (((readTrie fuel cell initial (.lazy classify)).perform s).2.memory.trieAt cell initial).trie
      (s.memory.trieAt cell initial).trie := by
  have quiet := Read.quiet_descend [] (s.memory.trieAt cell initial).trie s
  cases descended : (Read.descend [] (s.memory.trieAt cell initial).trie).perform s with
  | mk result between =>
      rw [descended] at quiet
      change between.memory = s.memory at quiet
      cases result with
      | error stop =>
          rw [readTrie_stopped fuel descended, quiet]
          exact .refl _
      | ok answer =>
          obtain ⟨w, reached⟩ := answer
          obtain ⟨after, read, _, learned⟩ := readTrie_lazy fuel classify descended
          rw [read]
          rcases learned with kept | ⟨v, missing, guessed, learned⟩
          · rw [kept]
            exact .refl _
          · rw [learned, Memory.trieAt_setTrie]
            exact (Trie.Alike.refl _).learn (Read.node?_of_descend descended) missing guessed

end Alike

end Pattern

/-! ### Registrations and reads in any order -/

namespace Keywords

/-- What can be done with a trie of keywords: a registration from outside, or a read from a feed of
    any kind. -/
inductive Use : Type 1 where
  | insert (path : List Token) (v : Value)
  | insertAll (entries : List (List Token × Value))
  | insertNocase (path : List Token) (v : Value)
  | read {σ : Type} [Feed σ] [FaithfulFeed σ] (feed : σ) (fuel : Nat)

/-- Whether something is registered from outside. -/
def Use.registers : Use → Bool
  | @read _ _ _ _ _ => false
  | _ => true

variable (k : Keywords) (policy : Policy)

/-- The memory after a use. -/
def use (m : Memory) : Use → Memory
  | .insert path v => k.insert path v m
  | .insertAll entries => k.insertAll entries m
  | .insertNocase path v => k.insertNocase path v m
  | @Use.read _ _ _ feed fuel => ((k.grammar policy m fuel).readFrom feed).memory

/-- The memory after uses one after the other. -/
def useAll (m : Memory) : List Use → Memory
  | [] => m
  | u :: uses => useAll (k.use policy m u) uses

variable {k} {classify : String → Option Value} {m plain : Memory}

/-- A use that registers keeps two tries alike; a read does so though it changes one of them only. -/
theorem use_alike
    (alike : Trie.Alike (Policy.guess classify) (k.contents m).trie (k.contents plain).trie)
    (u : Use) :
    Trie.Alike (Policy.guess classify) (k.contents (k.use (.lazy classify) m u)).trie
      (k.contents (if u.registers then k.use (.lazy classify) plain u else plain)).trie := by
  cases u with
  | insert path v =>
      simp only [Use.registers, if_true, use, contents_insert]
      exact alike.insert path v
  | insertAll entries =>
      simp only [Use.registers, if_true, use, contents_insertAll, Registry.trie_insertAll]
      exact alike.insertAll entries
  | insertNocase path v =>
      simp only [Use.registers, if_true, use, contents_insertNocase,
        Registry.trie_insertSpelled Token.mem_spellings_self]
      exact alike.insertAll _
  | read feed fuel =>
      cases fuel with
      | zero => exact alike
      | succ fuel =>
          exact (Pattern.readTrie_learns fuel classify { feed := feed, memory := m }).trans alike

theorem useAll_alike
    (alike : Trie.Alike (Policy.guess classify) (k.contents m).trie (k.contents plain).trie)
    (uses : List Use) :
    Trie.Alike (Policy.guess classify) (k.contents (k.useAll (.lazy classify) m uses)).trie
      (k.contents (k.useAll (.lazy classify) plain (uses.filter Use.registers))).trie := by
  induction uses generalizing m plain with
  | nil => exact alike
  | cons u uses ih =>
      have step := ih (use_alike alike u)
      rw [List.filter_cons]
      cases registers : u.registers with
      | false => simpa [registers, useAll] using step
      | true => simpa [registers, useAll] using step

/-- Tries that are alike read alike. -/
theorem readFrom_alike
    (alike : Trie.Alike (Policy.guess classify) (k.contents m).trie (k.contents plain).trie)
    {σ : Type} [Feed σ] [FaithfulFeed σ] (feed : σ) (fuel : Nat) :
    ((k.grammar (.lazy classify) m fuel).readFrom feed).result =
      ((k.grammar (.lazy classify) plain fuel).readFrom feed).result ∧
    ((k.grammar (.lazy classify) m fuel).readFrom feed).feed =
      ((k.grammar (.lazy classify) plain fuel).readFrom feed).feed := by
  cases fuel with
  | zero => exact ⟨rfl, rfl⟩
  | succ fuel =>
      exact Pattern.readTrie_alike fuel classify (s := { feed := feed, memory := m })
        (r := { feed := feed, memory := plain }) alike rfl

/-- What earlier reads have learned is never noticed.  After registrations and reads in any order,
    a read gives the same result, takes the same tokens and leaves the same feed as if only the
    registrations had been made. -/
theorem reads_transparent (k : Keywords) (classify : String → Option Value) (m : Memory)
    (uses : List Use) {σ : Type} [Feed σ] [FaithfulFeed σ] (feed : σ) (fuel : Nat) :
    let used := k.grammar (.lazy classify) (k.useAll (.lazy classify) m uses) fuel
    let registered :=
      k.grammar (.lazy classify) (k.useAll (.lazy classify) m (uses.filter Use.registers)) fuel
    (used.readFrom feed).result = (registered.readFrom feed).result ∧
    used.taken feed = registered.taken feed ∧
    (used.readFrom feed).feed = (registered.readFrom feed).feed := by
  intro used registered
  have alike : Trie.Alike (Policy.guess classify)
      (k.contents (k.useAll (.lazy classify) m uses)).trie
      (k.contents (k.useAll (.lazy classify) m (uses.filter Use.registers))).trie :=
    useAll_alike (.refl _) uses
  obtain ⟨result, behind⟩ := readFrom_alike alike feed fuel
  obtain ⟨_, watched⟩ := readFrom_alike alike (Watched.of feed) fuel
  exact ⟨result, congrArg Watched.taken watched, behind⟩

/-- A trie learns two words, and one of them is then given another value.  It holds a word that was
    never registered, and reads it as if it did not. -/
theorem reads_transparent_relearned :
    let classify : String → Option Value := fun word => some (.text word)
    let uses : List Use :=
      [.insert (Token.ofText "abc") (.int 1), .read (Single.of (.char 'a')) 9,
        .read (Pulled.mk (Token.ofText "b") (.char 'a') false) 9,
        .insert (Token.ofText "a") (.int 2)]
    let used := blank.useAll (.lazy classify) .empty uses
    let registered := blank.useAll (.lazy classify) .empty (uses.filter Use.registers)
    let feed : Pulled := ⟨Token.ofText "bx", .char 'a', false⟩
    (blank.get? used (Token.ofText "ab")).isSome ∧
    (blank.get? registered (Token.ofText "ab")).isNone ∧
    ((blank.grammar (.lazy classify) used 9).readFrom feed).result =
      ((blank.grammar (.lazy classify) registered 9).readFrom feed).result ∧
    ((blank.grammar (.lazy classify) registered 9).readFrom feed).result =
      .ok (some (.text "ab")) ∧
    (blank.grammar (.lazy classify) used 9).taken feed = Token.ofText "ab" := by
  intro classify uses used registered feed
  obtain ⟨result, taken, _⟩ := reads_transparent blank classify .empty uses feed 9
  refine ⟨by decide +kernel, by decide +kernel, result, ?_, taken.trans (by decide +kernel)⟩
  with_unfolding_all rfl

end Keywords

end Duplex
