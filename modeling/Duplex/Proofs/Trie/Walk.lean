/-
Module: Duplex.Proofs.Trie.Walk
Purpose: What a trie makes of the tokens that a feed is known to hand out.  The descent ends with the
  longest beginning of them that is a path, whatever the feed still shows behind its last token; an exact
  trie gives the value there, and a greedy one either that value or the whole word that it begins.
Main exports: Trie.IsLongest, Trie.Grown, Trie.BeginsKey, Read.ComesTo, Read.descend_comesTo,
  Read.exact_takes_longest, Keywords.greedy_takes_word
-/
import Duplex.Proofs.Calls
import Duplex.Proofs.Trie.Learning
import Duplex.Proofs.Trie.RoundTrip

namespace Duplex

/-! ### Paths and keys -/

namespace Trie

variable {κ ν : Type} [DecidableEq κ]

/-- The longest beginning of a list of tokens that is a path. -/
structure IsLongest (t : Trie κ ν) (ts path : List κ) : Prop where
  begins : path <+: ts
  isPath : (t.node? path).isSome
  longest : ∀ other, other <+: ts → (t.node? other).isSome → other <+: path

theorem IsLongest.unique {t : Trie κ ν} {ts path other : List κ} (first : t.IsLongest ts path)
    (second : t.IsLongest ts other) : path = other :=
  (second.longest path first.begins first.isPath).eq_of_length_le
    (first.longest other second.begins second.isPath).length_le

/-- A key is its own longest beginning. -/
theorem IsLongest.eq_of_get? {t : Trie κ ν} {ts path : List κ} {v : ν} (longest : t.IsLongest ts path)
    (held : t.get? ts = some v) : path = ts := by
  have isPath : (t.node? ts).isSome := by
    cases node : t.node? ts with
    | none => simp [Trie.get?, node] at held
    | some reached => rfl
  exact longest.unique ⟨List.prefix_rfl, isPath, fun _ begins _ => begins⟩

/-- A path is the longest one where no route leads on by the next token. -/
theorem isLongest_of_stops {t reached : Trie κ ν} {path rest : List κ}
    (node : t.node? path = some reached) (stops : ∀ k ∈ rest.head?, reached.route? k = none) :
    t.IsLongest (path ++ rest) path where
  begins := List.prefix_append path rest
  isPath := by rw [node]; rfl
  longest other begins isPath := by
    rcases List.prefix_or_prefix_of_prefix begins (List.prefix_append path rest) with short | long
    · exact short
    · obtain ⟨more, rfl⟩ := long
      cases more with
      | nil => simp
      | cons k more =>
          obtain ⟨behind, same⟩ := begins
          rw [List.append_assoc, List.append_cancel_left_eq] at same
          have missing : reached.route? k = none := by
            apply stops
            rw [← same]
            rfl
          simp [node?_append, node, missing] at isPath

/-- Every path that is not empty begins the path of a value. -/
def Grown (t : Trie κ ν) : Prop :=
  ∀ path ≠ [], (t.node? path).isSome → ∃ more, (t.get? (path ++ more)).isSome

/-- A value stands at some path that begins with `k`. -/
def BeginsKey (t : Trie κ ν) (k : κ) : Prop :=
  ∃ more, (t.get? (k :: more)).isSome

theorem grown_empty : (empty : Trie κ ν).Grown := by
  intro path ne isPath
  cases path with
  | nil => exact absurd rfl ne
  | cons k path => simp at isPath

theorem Grown.insert {t : Trie κ ν} (grown : t.Grown) (path : List κ) (v : ν) :
    (t.insert path v).Grown := by
  intro other ne isPath
  obtain ⟨reached, found⟩ := Option.isSome_iff_exists.mp isPath
  rcases node?_insert found with ⟨before, was⟩ | ⟨more, rfl⟩
  · obtain ⟨more, held⟩ := grown other ne (by simp [was])
    refine ⟨more, ?_⟩
    rw [get?_insert]
    split
    · rfl
    · exact held
  · exact ⟨more, by simp [get?_insert]⟩

theorem Grown.insertAll {t : Trie κ ν} (grown : t.Grown) (entries : List (List κ × ν)) :
    (t.insertAll entries).Grown := by
  induction entries generalizing t with
  | nil => exact grown
  | cons entry entries ih => exact ih (grown.insert entry.1 entry.2)

/-- In a trie that was grown, a route from the root is the beginning of a key. -/
theorem Grown.isSome_route?_iff {t : Trie κ ν} (grown : t.Grown) (k : κ) :
    (t.route? k).isSome ↔ t.BeginsKey k := by
  constructor
  · intro route
    obtain ⟨more, held⟩ := grown [k] (by simp) (by simpa using route)
    exact ⟨more, held⟩
  · rintro ⟨more, held⟩
    rw [get?_cons] at held
    cases route : t.route? k with
    | none => simp [route] at held
    | some next => rfl

end Trie

/-! ### Reads of known tokens -/

/-- Characters spell the text of them. -/
theorem Token.spell_chars (cs : List Char) : Token.spell (cs.map .char) = String.ofList cs := by
  apply String.toList_injective
  simp [Token.spell, List.flatMap_map, String.toList_singleton]

/-- Where no run of tokens is taken, all of them stay. -/
theorem Read.dropWhile_of_takeWhile {α : Type} {test : α → Bool} {ts : List α} (nothing : ts.takeWhile test = []) :
    ts.dropWhile test = ts := by
  have whole := List.takeWhile_append_dropWhile (p := test) (l := ts)
  rwa [nothing, List.nil_append] at whole

namespace Read

variable {μ σ α β : Type}

/-- The read gives `a` and leaves the tokens `rest` to be taken, where `P` says which tokens a feed hands
    out; the memory stays as it is. -/
def ComesTo (P : List Token → σ → Prop) (r : Read μ σ α) (s : Session μ σ) (a : α)
    (rest : List Token) : Prop :=
  ∃ after, r.perform s = (.ok a, after) ∧ P rest after.feed ∧ after.memory = s.memory

section Rules

variable {P : List Token → σ → Prop} {s : Session μ σ} {ts rest : List Token} {a : α} {b : β}

theorem comesTo_pure (holds : P ts s.feed) : (pure a : Read μ σ α).ComesTo P s a ts :=
  ⟨s, rfl, holds, rfl⟩

theorem ComesTo.bind {r : Read μ σ α} {f : α → Read μ σ β} (first : r.ComesTo P s a ts)
    (second : ∀ t : Session μ σ, P ts t.feed → t.memory = s.memory → (f a).ComesTo P t b rest) :
    (r >>= f).ComesTo P s b rest := by
  obtain ⟨between, run, holds, kept⟩ := first
  obtain ⟨after, goesOn, left, same⟩ := second between holds kept
  exact ⟨after, (perform_bind_ok run f).trans goesOn, left, same.trans kept⟩

end Rules

variable [Feed σ]

/-! ### Descents -/

section Steps

variable {ν : Type} {before : List Token} {t child : Trie Token ν} {s after : Session μ σ}

theorem descend_of_none (stops : t.route? (Feed.peek s.feed) = none) :
    (descend before t : Read μ σ (Descent × Trie Token ν)).perform s =
      (.ok (⟨before, false⟩, t), s) := by
  unfold descend
  rw [perform_bind_ok (perform_peek s)]
  split
  · rfl
  · simp_all

theorem descend_of_end (route : t.route? (Feed.peek s.feed) = some child)
    (ended : (consume : Read μ σ (Option Token)).perform s = (.ok none, after)) :
    (descend before t : Read μ σ (Descent × Trie Token ν)).perform s =
      (.ok (⟨before, true⟩, t), after) := by
  unfold descend
  rw [perform_bind_ok (perform_peek s)]
  split
  · simp_all
  · rw [perform_bind_ok ended]
    rfl

theorem descend_of_some {k : Token} (route : t.route? (Feed.peek s.feed) = some child)
    (took : (consume : Read μ σ (Option Token)).perform s = (.ok (some k), after)) :
    (descend before t : Read μ σ (Descent × Trie Token ν)).perform s =
      (descend (before ++ [k]) child : Read μ σ (Descent × Trie Token ν)).perform after := by
  conv => lhs; unfold descend
  rw [perform_bind_ok (perform_peek s)]
  split
  · simp_all
  · rename_i next found
    obtain rfl : next = child := Option.some.inj (found.symm.trans route)
    rw [perform_bind_ok took]

end Steps

/-! ### Known tokens -/

variable {last : Token} {P : List Token → σ → Prop} (follows : Follows last P)
  (unhalted : ∀ {ahead s}, P ahead s → (Feed.consume s).halt = none)

include follows in
theorem comesTo_peek {s : Session μ σ} {ts : List Token} (holds : P ts s.feed) :
    (peek : Read μ σ Token).ComesTo P s (ts.headD last) ts :=
  ⟨s, by rw [perform_peek, follows.peek holds], holds, rfl⟩

include follows unhalted

theorem comesTo_consume {s : Session μ σ} {ts : List Token} (holds : P ts s.feed) :
    (consume : Read μ σ (Option Token)).ComesTo P s ts.head? ts.tail := by
  obtain ⟨after, run, left⟩ := consume_follows (μ := μ) follows unhalted holds
  exact ⟨after, run, left, by simpa [run] using quiet_consume (μ := μ) s⟩

theorem comesTo_takeWhile (test : Token → Bool) {fuel : Nat} {s : Session μ σ} {ts : List Token}
    (holds : P ts s.feed) (enough : ts.length < fuel) :
    (takeWhile fuel test : Read μ σ (List Token)).ComesTo P s (ts.takeWhile test)
      (ts.dropWhile test) := by
  obtain ⟨after, run, left⟩ := takeWhile_follows (μ := μ) follows unhalted test holds enough
  exact ⟨after, run, left, by simpa [run] using quiet_takeWhile (μ := μ) fuel test s⟩

/-- A descent takes tokens as long as there is a route for the next one.  A route for the last token,
    which is still shown behind the end, is not taken again. -/
theorem descend_comesTo {ν : Type} (before : List Token) (t : Trie Token ν) {s : Session μ σ}
    {ts : List Token} (holds : P ts s.feed) :
    ∃ path rest reached atEnd, ts = path ++ rest ∧ t.node? path = some reached ∧
      (∀ k ∈ rest.head?, reached.route? k = none) ∧ (rest ≠ [] → atEnd = false) ∧
      (descend before t : Read μ σ (Descent × Trie Token ν)).ComesTo P s
        (⟨before ++ path, atEnd⟩, reached) rest := by
  induction ts generalizing before t s with
  | nil =>
      have shown : Feed.peek s.feed = last := follows.peek holds
      cases route : t.route? last with
      | none =>
          refine ⟨[], [], t, false, rfl, rfl, by simp, by simp, s, ?_, holds, rfl⟩
          rw [List.append_nil]
          exact descend_of_none (by rw [shown, route])
      | some child =>
          obtain ⟨after, ended, left, kept⟩ := comesTo_consume (μ := μ) follows unhalted holds
          refine ⟨[], [], t, true, rfl, rfl, by simp, by simp, after, ?_, left, kept⟩
          rw [List.append_nil]
          exact descend_of_end (by rw [shown, route]) ended
  | cons k ts ih =>
      have shown : Feed.peek s.feed = k := follows.peek holds
      cases route : t.route? k with
      | none =>
          refine ⟨[], k :: ts, t, false, rfl, rfl, by simpa using route, by simp, s, ?_, holds, rfl⟩
          rw [List.append_nil]
          exact descend_of_none (by rw [shown, route])
      | some child =>
          obtain ⟨next, took, left, kept⟩ := comesTo_consume (μ := μ) follows unhalted holds
          obtain ⟨path, rest, reached, atEnd, rfl, node, stops, inside, after, run, behind, same⟩ :=
            ih (before ++ [k]) child left
          refine ⟨k :: path, rest, reached, atEnd, rfl, by simp [route, node], stops, inside, after, ?_,
            behind, same.trans kept⟩
          rw [descend_of_some (by rw [shown, route]) took, run, List.append_assoc]
          rfl

/-! ### Judgements -/

section Judging

variable {fuel : Nat} {policy : Policy} {root : Trie Token Value} {w : Descent} {s : Session μ σ}
  {rest later : List Token} {verdict : Verdict}

omit follows unhalted in
/-- A trie is judged by what is made of the node where the descent ends. -/
theorem judge_comesTo {reached : Trie Token Value}
    (descended : (descend [] root : Read μ σ _).ComesTo P s (w, reached) rest)
    (found : ∀ v, reached.value = some v → ∀ t : Session μ σ, P rest t.feed →
      (judgeValue fuel policy root w v).ComesTo P t verdict later)
    (unknown : reached.value = none → ∀ t : Session μ σ, P rest t.feed →
      (judgeUnknown fuel policy root w).ComesTo P t verdict later) :
    (judge fuel policy root : Read μ σ _).ComesTo P s (w, verdict) later := by
  refine descended.bind fun t left _ => ?_
  dsimp only
  cases value : reached.value with
  | some v => exact (found v value t left).bind fun _ left _ => comesTo_pure left
  | none => exact (unknown value t left).bind fun _ left _ => comesTo_pure left

omit follows unhalted in
/-- An exact trie takes the value of the node, or nothing. -/
theorem judge_exact {reached : Trie Token Value}
    (descended : (descend [] root : Read μ σ _).ComesTo P s (w, reached) rest) :
    (judge fuel .exact root : Read μ σ _).ComesTo P s (w, reached.value.elim .notParsed .found)
      rest := by
  refine judge_comesTo descended ?_ ?_
  · intro v value t left
    rw [value]
    exact comesTo_pure left
  · intro value t left
    rw [value]
    exact comesTo_pure left

variable {continues : Char → Bool}

/-- A key is not gone on with where nothing is left, a key begins or a word does not continue. -/
theorem judgeValue_found (v : Value) (holds : P rest s.feed) (enough : rest.length < fuel)
    (stops : ∀ t ∈ rest.head?, (root.route? t).isSome ∨ Token.isCharWith continues t = false) :
    (judgeValue fuel (.greedy continues) root w v).ComesTo P s (.found v) rest := by
  unfold judgeValue
  refine (comesTo_peek follows holds).bind fun t left _ => ?_
  split
  · exact comesTo_pure left
  · rename_i goesOn
    have nothing : rest.takeWhile (Token.isCharWith continues) = [] := by
      cases rest with
      | nil => rfl
      | cons u rest =>
          have fails : Token.isCharWith continues u = false := by
            rcases stops u rfl with route | fails
            · simp [route] at goesOn
            · exact fails
          simp [fails]
    have run := comesTo_takeWhile follows unhalted (Token.isCharWith continues) left enough
    rw [nothing, dropWhile_of_takeWhile nothing] at run
    exact run.bind fun _ left _ => comesTo_pure left

/-- A key is gone on with by all characters that continue it. -/
theorem judgeValue_fresh (v : Value) {u : Token} (holds : P (u :: rest) s.feed)
    (enough : (u :: rest).length < fuel) (inside : w.atEnd = false) (route : root.route? u = none)
    (passes : Token.isCharWith continues u = true) :
    (judgeValue fuel (.greedy continues) root w v).ComesTo P s
      (.fresh (.text (Token.spell (w.path ++ (u :: rest).takeWhile (Token.isCharWith continues)))))
      ((u :: rest).dropWhile (Token.isCharWith continues)) := by
  unfold judgeValue
  refine (comesTo_peek follows holds).bind fun t left _ => ?_
  have nonempty : ((u :: rest).takeWhile (Token.isCharWith continues)).isEmpty = false := by
    simp [passes]
  rw [inside, List.headD_cons, route, Option.isSome_none, Bool.or_self, if_neg Bool.false_ne_true]
  refine (comesTo_takeWhile follows unhalted _ left enough).bind fun _ left _ => ?_
  rw [nonempty, if_neg Bool.false_ne_true]
  exact comesTo_pure left

/-- A path without a value is gone on with by the characters that continue it and begin no key. -/
theorem judgeUnknown_comesTo (holds : P rest s.feed) (enough : rest.length < fuel)
    (inside : rest ≠ [] → w.atEnd = false) {test : Token → Bool}
    (tests : test = fun t => (root.route? t).isNone && Token.isCharWith continues t) :
    (judgeUnknown fuel (.greedy continues) root w).ComesTo P s
      (if w.path ++ rest.takeWhile test = [] then .notParsed
        else .fresh (.text (Token.spell (w.path ++ rest.takeWhile test))))
      (rest.dropWhile test) := by
  rw [judgeUnknown_greedy, ← tests]
  have run : (if w.atEnd then pure [] else takeWhile fuel test : Read μ σ (List Token)).ComesTo P s
      (rest.takeWhile test) (rest.dropWhile test) := by
    split
    · rename_i ended
      have none : rest = [] := by
        by_contra left
        rw [inside left] at ended
        cases ended
      subst none
      exact comesTo_pure holds
    · exact comesTo_takeWhile follows unhalted test holds enough
  refine run.bind fun t left _ => ?_
  by_cases empty : w.path ++ rest.takeWhile test = []
  · obtain ⟨noPath, noRun⟩ := List.append_eq_nil_iff.mp empty
    rw [if_pos empty, noPath, noRun]
    exact comesTo_pure left
  · rw [if_neg empty, if_neg]
    · exact comesTo_pure left
    · simpa using empty

/-! ### Words of characters -/

/-- A character goes on with a word that is no key: it continues words, and no route begins with it. -/
def goesOn (root : Trie Token Value) (continues : Char → Bool) (c : Char) : Bool :=
  (root.route? (.char c)).isNone && continues c

omit [Feed σ] follows unhalted in
theorem goesOn_iff (grown : root.Grown) {c : Char} :
    goesOn root continues c = true ↔ continues c = true ∧ ¬ root.BeginsKey (.char c) := by
  rw [goesOn, Bool.and_eq_true, ← grown.isSome_route?_iff, Option.isNone_iff_eq_none,
    Option.not_isSome_iff_eq_none, and_comm]

variable {reached : Trie Token Value} {p q : List Char} {atEnd : Bool} {v : Value}
  (descended : (descend [] root : Read μ σ _).ComesTo P s (⟨p.map .char, atEnd⟩, reached)
    (q.map .char))
  (enough : q.length < fuel)

include descended enough

/-- The value of a key is found where no word goes on behind it. -/
theorem judge_found (value : reached.value = some v)
    (stops : ∀ c ∈ q.head?, (root.route? (.char c)).isSome ∨ continues c = false) :
    (judge fuel (.greedy continues) root : Read μ σ _).ComesTo P s
      (⟨p.map .char, atEnd⟩, .found v) (q.map .char) := by
  refine judge_comesTo descended ?_ ?_
  · intro u found t left
    obtain rfl : u = v := Option.some.inj (found.symm.trans value)
    refine judgeValue_found follows unhalted u left (by simpa using enough) ?_
    intro token head
    rw [List.head?_map] at head
    obtain ⟨c, first, rfl⟩ := Option.map_eq_some_iff.mp head
    exact stops c first
  · intro none
    rw [value] at none
    cases none

/-- Where one does, the whole word is fresh. -/
theorem judge_fresh (value : reached.value = some v) (inside : q ≠ [] → atEnd = false) {c : Char}
    (first : c ∈ q.head?) (route : root.route? (.char c) = none) (passes : continues c = true) :
    (judge fuel (.greedy continues) root : Read μ σ _).ComesTo P s
      (⟨p.map .char, atEnd⟩, .fresh (.text (String.ofList (p ++ q.takeWhile continues))))
      ((q.dropWhile continues).map .char) := by
  obtain ⟨others, rfl⟩ := List.head?_eq_some_iff.mp first
  rw [← Token.spell_chars, List.map_append]
  refine judge_comesTo descended ?_ ?_
  · intro u _ t left
    have fresh := judgeValue_fresh (w := ⟨p.map .char, atEnd⟩) follows unhalted u left
      (by simpa using enough) (inside (by simp)) route passes
    rwa [← List.map_cons, List.takeWhile_map, List.dropWhile_map] at fresh
  · intro none
    rw [value] at none
    cases none

/-- A path without a value is the beginning of a fresh word, if there is any character at all. -/
theorem judge_unknown (value : reached.value = none) (inside : q ≠ [] → atEnd = false) :
    (judge fuel (.greedy continues) root : Read μ σ _).ComesTo P s
      (⟨p.map .char, atEnd⟩,
        if p ++ q.takeWhile (goesOn root continues) = [] then .notParsed
        else .fresh (.text (String.ofList (p ++ q.takeWhile (goesOn root continues)))))
      ((q.dropWhile (goesOn root continues)).map .char) := by
  refine judge_comesTo descended ?_ ?_
  · intro u found
    rw [value] at found
    cases found
  · intro _ t left
    have judged := judgeUnknown_comesTo (w := ⟨p.map .char, atEnd⟩) follows unhalted left
      (by simpa using enough) (by simpa using inside)
      (show (fun t => (root.route? t).isNone && Token.isCharWith continues t) = _ from rfl)
    have run : (q.map Token.char).takeWhile
        (fun t => (root.route? t).isNone && Token.isCharWith continues t) =
          (q.takeWhile (goesOn root continues)).map .char := List.takeWhile_map
    have later : (q.map Token.char).dropWhile
        (fun t => (root.route? t).isNone && Token.isCharWith continues t) =
          (q.dropWhile (goesOn root continues)).map .char := List.dropWhile_map
    rw [run, later] at judged
    dsimp only at judged
    rw [← List.map_append, Token.spell_chars] at judged
    simpa only [List.map_eq_nil_iff] using judged

end Judging

end Read

/-! ### Patterns -/

section Patterns

variable {σ : Type} [Feed σ] {P : List Token → σ → Prop}

/-- What was judged is read; unless it is to be learned, the memory stays as it is. -/
theorem Pattern.readTrie_comesTo {fuel cell : Nat} {initial : Registry Token Value} {policy : Policy}
    {s : Session Memory σ} {w : Descent} {verdict : Verdict} {rest : List Token}
    (judged : (Read.judge fuel policy (s.memory.trieAt cell initial).trie).ComesTo P s (w, verdict)
      rest)
    (known : ∀ v, verdict ≠ .learn v) :
    (Pattern.readTrie fuel cell initial policy).ComesTo P s verdict.value? rest := by
  obtain ⟨after, run, left, kept⟩ := judged
  have start : (Read.trieAt cell initial : Read Memory σ _).perform s =
      (.ok (s.memory.trieAt cell initial), s) := rfl
  refine ⟨after, ?_, left, kept⟩
  unfold Pattern.readTrie
  rw [Read.perform_bind_ok start, Read.perform_bind_ok run]
  cases verdict with
  | notParsed => rfl
  | found v => rfl
  | learn v => exact absurd rfl (known v)
  | fresh v => rfl

variable {last : Token} (follows : Follows last P)
  (unhalted : ∀ {ahead s}, P ahead s → (Feed.consume s).halt = none)

/-- The read takes from the tokens `ts` ahead the longest beginning that is a path, and gives the value
    there. -/
def Read.TakesLongest {μ ν : Type} (P : List Token → σ → Prop) (root : Trie Token ν)
    (ts : List Token) (r : Read μ σ (Option ν)) (s : Session μ σ) : Prop :=
  ∃ path rest, ts = path ++ rest ∧ root.IsLongest ts path ∧ r.ComesTo P s (root.get? path) rest

include follows unhalted

theorem Pattern.readTrie_exact (fuel cell : Nat) (initial : Registry Token Value)
    {s : Session Memory σ} {ts : List Token} (holds : P ts s.feed) :
    Read.TakesLongest P (s.memory.trieAt cell initial).trie ts
      (Pattern.readTrie fuel cell initial .exact) s := by
  obtain ⟨path, rest, reached, atEnd, rfl, node, stops, _, descended⟩ :=
    Read.descend_comesTo (μ := Memory) follows unhalted [] (s.memory.trieAt cell initial).trie holds
  refine ⟨path, rest, rfl, Trie.isLongest_of_stops node stops, ?_⟩
  have held : (s.memory.trieAt cell initial).trie.get? path =
      (reached.value.elim Verdict.notParsed .found).value? := by
    cases value : reached.value <;> simp [Trie.get?, node, value, Verdict.value?]
  rw [held]
  refine Pattern.readTrie_comesTo (Read.judge_exact descended) ?_
  intro v
  cases reached.value <;> simp

/-- From whatever feed hands out the tokens `ts`, and be it none at all, an exact trie takes the longest
    beginning that is a path, be it that of a value or not.  It gives the value there, and nothing
    where there is none.  The last token, which the feed still shows behind the end, is not taken for
    a further one, even if a route leads on by it.  So does the look up in a trie of values of
    any kind. -/
theorem Read.exact_takes_longest {ts : List Token} :
    (∀ {μ ν : Type} (root : Trie Token ν) (s : Session μ σ), P ts s.feed →
      Read.TakesLongest P root ts (Read.lookup root) s) ∧
    ∀ (fuel cell : Nat) (initial : Registry Token Value) (s : Session Memory σ), P ts s.feed →
      Read.TakesLongest P (s.memory.trieAt cell initial).trie ts
        (Pattern.read (fuel + 1) (.trie cell initial .exact)) s := by
  constructor
  · intro μ ν root s holds
    obtain ⟨path, rest, reached, atEnd, rfl, node, stops, _, descended⟩ :=
      Read.descend_comesTo (μ := μ) follows unhalted [] root holds
    refine ⟨path, rest, rfl, Trie.isLongest_of_stops node stops, ?_⟩
    have held : root.get? path = reached.value := by simp [Trie.get?, node]
    rw [held]
    exact descended.bind fun _ left _ => Read.comesTo_pure left
  · intro fuel cell initial s holds
    exact Pattern.readTrie_exact follows unhalted fuel cell initial holds

omit follows unhalted in
/-- Where the paths go on with the token that is repeated, only those tokens count that were there. -/
theorem Read.exact_takes_longest_repeated :
    let entries := [(Token.ofText "a", Value.text "one"), (Token.ofText "aa", .text "two"),
      (Token.ofText "aaa", .text "three")]
    let registry : Registry Token Value := Registry.empty.insertAll entries
    let s : Session Memory Pulled :=
      { feed := ⟨[.char 'a'], .char 'a', false⟩, memory := .empty }
    (Pattern.read 1 (.trie 0 registry .exact)).ComesTo (Stands (.char 'a')) s
      (some (.text "two")) [] := by
  intro entries registry s
  have holds : Stands (.char 'a') [.char 'a', .char 'a'] s.feed := ⟨rfl, by simp, by simp⟩
  obtain ⟨path, rest, whole, longest, read⟩ :=
    (Read.exact_takes_longest Stands.follows Stands.unhalted).2 0 0 registry s holds
  obtain ⟨reached, node⟩ : ∃ reached, registry.trie.node? [.char 'a', .char 'a'] = some reached :=
    ⟨_, rfl⟩
  have both : registry.trie.IsLongest ([.char 'a', .char 'a'] ++ []) [.char 'a', .char 'a'] :=
    Trie.isLongest_of_stops node (by simp)
  obtain rfl : path = [.char 'a', .char 'a'] := longest.unique both
  obtain rfl : rest = [] := by simpa using whole
  exact read

end Patterns

/-! ### Whole words -/

namespace Keywords

variable {k : Keywords} {policy : Policy} {m : Memory}

/-- Whatever registers keys, there are no paths but those to them. -/
theorem Reachable.grown (reachable : k.Reachable policy m) : (k.contents m).trie.Grown := by
  induction reachable with
  | start fresh =>
      rw [fresh]
      exact Trie.grown_empty
  | insert path v _ ih =>
      rw [contents_insert]
      exact ih.insert path v
  | insertAll entries _ ih =>
      rw [contents_insertAll, Registry.trie_insertAll]
      exact ih.insertAll entries
  | insertNocase path v _ ih =>
      rw [contents_insertNocase, Registry.trie_insertSpelled Token.mem_spellings_self]
      exact ih.insertAll _
  | read feed fuel _ ih =>
      rw [contents_readFrom, Registry.trie_insertAll]
      exact ih.insertAll _
  | elsewhere _ same ih =>
      rw [same]
      exact ih

/-- What a greedy trie reads from a text, be it at its end, where `p` is the longest beginning that is a
    path.  The value of a key is read unless the word goes on behind it by a character that begins no
    key; then the word is read as far as its characters continue it.  A path without a value is read
    as a fresh word together with the characters behind it that continue words and begin no key; if
    there is not one character in all, nothing is read and nothing taken.  In no case is anything
    registered. -/
theorem greedy_takes_word {σ : Type} [Feed σ] {last : Token} {P : List Token → σ → Prop}
    (follows : Follows last P) (unhalted : ∀ {ahead s}, P ahead s → (Feed.consume s).halt = none)
    {continues : Char → Bool} {s : Session Memory σ}
    (reachable : k.Reachable (.greedy continues) s.memory) {text : List Char}
    (holds : P (text.map .char) s.feed) {fuel : Nat} (enough : text.length < fuel) :
    let trie := (k.contents s.memory).trie
    let read : Read Memory σ (Option Value) :=
      Pattern.read (fuel + 1) (.trie k.cell k.initial (.greedy continues))
    ∃ p q, text = p ++ q ∧ trie.IsLongest (text.map .char) (p.map .char) ∧
      (∀ v, trie.get? (p.map .char) = some v →
        ((∀ c ∈ q.head?, trie.BeginsKey (.char c) ∨ continues c = false) →
          read.ComesTo P s (some v) (q.map .char)) ∧
        ∀ c ∈ q.head?, ¬ trie.BeginsKey (.char c) → continues c = true →
          read.ComesTo P s (some (.text (String.ofList (p ++ q.takeWhile continues))))
            ((q.dropWhile continues).map .char)) ∧
      (trie.get? (p.map .char) = none →
        ∃ r rest, q = r ++ rest ∧
          (∀ c ∈ r, continues c = true ∧ ¬ trie.BeginsKey (.char c)) ∧
          (∀ c ∈ rest.head?, continues c = false ∨ trie.BeginsKey (.char c)) ∧
          (p ++ r ≠ [] → read.ComesTo P s (some (.text (String.ofList (p ++ r)))) (rest.map .char)) ∧
          (p ++ r = [] → read.ComesTo P s none (text.map .char))) := by
  intro trie read
  have begins := fun c => reachable.grown.isSome_route?_iff (.char c)
  obtain ⟨path, rest, reached, atEnd, whole, node, stops, inside, descended⟩ :=
    Read.descend_comesTo (μ := Memory) follows unhalted [] trie holds
  obtain ⟨p, q, rfl, rfl, rfl⟩ := List.map_eq_append_iff.mp whole
  have held : trie.get? (p.map .char) = reached.value := by simp [Trie.get?, node]
  have enough : q.length < fuel := by
    rw [List.length_append] at enough
    omega
  have inside : q ≠ [] → atEnd = false := by simpa using inside
  refine ⟨p, q, rfl, by rw [List.map_append]; exact Trie.isLongest_of_stops node stops, ?_, ?_⟩
  · intro v value
    rw [held] at value
    constructor
    · intro stops
      exact Pattern.readTrie_comesTo (Read.judge_found follows unhalted descended enough value
        fun c first => (stops c first).imp_left (begins c).mpr) (by simp)
    · intro c first noKey passes
      have route : trie.route? (.char c) = none := by
        rw [← Option.not_isSome_iff_eq_none, begins]
        exact noKey
      exact Pattern.readTrie_comesTo
        (Read.judge_fresh follows unhalted descended enough value inside first route passes) (by simp)
  · intro value
    rw [held] at value
    have judged : (Read.judge fuel (.greedy continues) trie).ComesTo P s _ _ :=
      Read.judge_unknown follows unhalted descended enough value inside
    refine ⟨q.takeWhile (Read.goesOn trie continues), q.dropWhile (Read.goesOn trie continues),
      List.takeWhile_append_dropWhile.symm, ?_, ?_, ?_, ?_⟩
    · intro c mem
      exact (Read.goesOn_iff reachable.grown).mp (List.mem_takeWhile_imp mem)
    · intro c head
      have fails := List.head?_dropWhile_not (Read.goesOn trie continues) q
      rw [Option.mem_def.mp head] at fails
      have stops := mt (Read.goesOn_iff reachable.grown).mpr (Bool.eq_false_iff.mp fails)
      rw [not_and_or, not_not] at stops
      exact stops.imp_left Bool.eq_false_iff.mpr
    · intro word
      rw [if_neg word] at judged
      exact Pattern.readTrie_comesTo judged (by simp)
    · intro nothing
      rw [if_pos nothing] at judged
      obtain ⟨rfl, noRun⟩ := List.append_eq_nil_iff.mp nothing
      rw [Read.dropWhile_of_takeWhile noRun] at judged
      exact Pattern.readTrie_comesTo judged (by simp)

/-- Behind the key `in` a word goes on up to the digit. -/
theorem greedy_takes_word_inside :
    let entries := [(Token.ofText "if", Value.text "if"), (Token.ofText "in", .text "in")]
    let s : Session Memory Pulled :=
      { feed := ⟨Token.ofText "nside1", .char 'i', false⟩, memory := blank.insertAll entries .empty }
    (Pattern.read 9 (.trie blank.cell blank.initial (.greedy Char.isAlpha))).ComesTo
      (Stands (.char '1')) s (some (.text "inside")) [.char '1'] := by
  intro entries s
  have reachable : blank.Reachable (.greedy Char.isAlpha) s.memory := .insertAll entries (.start rfl)
  have holds : Stands (.char '1') (['i', 'n', 's', 'i', 'd', 'e', '1'].map .char) s.feed :=
    ⟨rfl, by simp, by simp⟩
  obtain ⟨p, q, whole, longest, key, _⟩ :=
    greedy_takes_word Stands.follows Stands.unhalted reachable holds (show 7 < 8 by decide)
  have noKey : ¬ (blank.contents s.memory).trie.BeginsKey (.char 's') := by
    have route : (blank.contents s.memory).trie.route? (.char 's') = none := rfl
    rw [← reachable.grown.isSome_route?_iff, route]
    simp
  obtain ⟨reached, node, stops⟩ : ∃ reached,
      (blank.contents s.memory).trie.node? (['i', 'n'].map .char) = some reached ∧
        reached.route? (.char 's') = none := ⟨_, rfl, rfl⟩
  have both : (blank.contents s.memory).trie.IsLongest
      (['i', 'n'].map .char ++ ['s', 'i', 'd', 'e', '1'].map .char) (['i', 'n'].map .char) :=
    Trie.isLongest_of_stops node (by simpa using stops)
  obtain rfl : p = ['i', 'n'] :=
    List.map_injective_iff.mpr (fun _ _ => Token.char.inj) (longest.unique both)
  obtain rfl : q = ['s', 'i', 'd', 'e', '1'] := (List.append_cancel_left (show ['i', 'n'] ++ _ = ['i', 'n'] ++ q from whole)).symm
  exact (key (.text "in") rfl).2 's' rfl noKey rfl

end Keywords

end Duplex
