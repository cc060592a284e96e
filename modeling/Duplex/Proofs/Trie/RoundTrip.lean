/-
Module: Duplex.Proofs.Trie.RoundTrip
Purpose: Keywords, there and back.  Whatever a trie makes of a feed, a value that it holds, one that it
  learns or a word that it reads whole, the trie then writes that value, and reads an equal one from
  what it has written.
Main exports: Read.IsWhole, Read.Judged, Read.judge_performed, Read.judge_key, Read.judge_whole,
  Policy.IsKey, Keywords.read_write_read
-/
import Duplex.Proofs.Running
import Duplex.Proofs.Trie.History

namespace Duplex

/-! ### Judgements -/

namespace Read

/-- A word that is read whole: the path to a node, and a run of characters that the node has no
    route for.  Behind a key the run is not empty, and does not begin like a key; else no character
    of it does. -/
structure IsWhole (continues : Char → Bool) (root : Trie Token Value) (path run : List Token)
    (reached : Trie Token Value) : Prop where
  node : root.node? path = some reached
  stops : ∀ t ∈ run.head?, reached.route? t = none
  nonempty : path ++ run ≠ []
  goesOn : ∀ t ∈ run, Token.isCharWith continues t = true
  behindKey : reached.value ≠ none → run ≠ [] ∧ ∀ t ∈ run.head?, root.route? t = none
  apart : reached.value = none → ∀ t ∈ run, root.route? t = none

/-- What a trie can make of the tokens on the way down. -/
inductive Judged (policy : Policy) (root : Trie Token Value) (path : List Token) : Verdict → Prop
  | notParsed : Judged policy root path .notParsed
  | found {v} : root.get? path = some v → Judged policy root path (.found v)
  | learn {classify v} : policy = .lazy classify → path ≠ [] → Judged policy root path (.learn v)
  | fresh {continues run reached} : policy = .greedy continues →
      IsWhole continues root path run reached →
      Judged policy root path (.fresh (.text (Token.spell (path ++ run))))

variable {μ σ : Type} [Feed σ]

/-- At the end of the tokens nothing more is taken. -/
theorem judgeUnknown_greedy (fuel : Nat) (continues : Char → Bool) (root : Trie Token Value)
    (w : Descent) :
    (judgeUnknown fuel (.greedy continues) root w : Read μ σ Verdict) =
      (if w.atEnd then pure []
        else takeWhile fuel fun t => (root.route? t).isNone && Token.isCharWith continues t) >>=
      fun run =>
        if w.path.isEmpty && run.isEmpty then pure .notParsed
        else pure (.fresh (.text (Token.spell (w.path ++ run)))) := by
  unfold judgeUnknown
  cases w.atEnd <;> rfl

section Performed

variable [FaithfulFeed σ] {fuel : Nat} {policy : Policy} {root reached : Trie Token Value}
  {w : Descent} {s after : Session μ σ}

theorem judgeValue_performed {v : Value} {verdict : Verdict}
    (node : root.node? w.path = some reached) (value : reached.value = some v)
    (stops : w.atEnd = false → reached.route? (Feed.peek s.feed) = none)
    (run : (judgeValue fuel policy root w v : Read μ σ Verdict).perform s = (.ok verdict, after)) :
    Judged policy root w.path verdict := by
  have held : root.get? w.path = some v := by simp [Trie.get?, node, value]
  unfold judgeValue at run
  cases policy with
  | exact =>
      cases run
      exact .found held
  | lazy classify =>
      cases run
      exact .found held
  | greedy continues =>
      rw [perform_bind_ok (perform_peek s)] at run
      split at run
      · cases run
        exact .found held
      · rename_i goesOn
        simp only [Bool.or_eq_true, not_or, Bool.not_eq_true, Option.isSome_eq_false_iff,
          Option.isNone_iff_eq_none] at goesOn
        obtain ⟨notEnd, noKey⟩ := goesOn
        obtain ⟨taken, between, took, run⟩ := exists_of_bind_ok run
        obtain ⟨passes, first⟩ := takeWhile_performed fuel took
        split at run
        · cases run
          exact .found held
        · rename_i nonempty
          cases run
          have nonempty : taken ≠ [] := by simpa using nonempty
          refine .fresh rfl ⟨node, ?_, by simp [nonempty], passes, fun _ => ⟨nonempty, ?_⟩, ?_⟩
          · intro t mem
            rw [first t mem]
            exact stops notEnd
          · intro t mem
            rw [first t mem]
            exact noKey
          · intro absent
            rw [value] at absent
            cases absent

theorem judgeUnknown_performed {verdict : Verdict} (node : root.node? w.path = some reached)
    (value : reached.value = none)
    (stops : w.atEnd = false → reached.route? (Feed.peek s.feed) = none)
    (run : (judgeUnknown fuel policy root w : Read μ σ Verdict).perform s = (.ok verdict, after)) :
    Judged policy root w.path verdict := by
  cases policy with
  | exact =>
      cases run
      exact .notParsed
  | lazy classify =>
      unfold judgeUnknown at run
      dsimp only at run
      split at run
      · cases run
        exact .notParsed
      · rename_i nonempty
        rw [perform_bind_ok (perform_note _ s)] at run
        split at run
        · rw [perform_bind_ok (perform_note _ _)] at run
          cases run
          exact .learn rfl (by simpa using nonempty)
        · cases run
          exact .notParsed
  | greedy continues =>
      rw [judgeUnknown_greedy] at run
      obtain ⟨taken, between, took, run⟩ := exists_of_bind_ok run
      have word : (∀ t ∈ taken, (root.route? t).isNone && Token.isCharWith continues t) ∧
          ∀ t ∈ taken.head?, reached.route? t = none := by
        split at took
        · cases took
          simp
        · rename_i notEnd
          obtain ⟨passes, first⟩ := takeWhile_performed fuel took
          refine ⟨passes, ?_⟩
          intro t mem
          rw [first t mem]
          exact stops (by simpa using notEnd)
      split at run
      · cases run
        exact .notParsed
      · rename_i nonempty
        cases run
        simp only [Bool.and_eq_true, Option.isNone_iff_eq_none] at word
        refine .fresh rfl ⟨node, word.2, ?_, fun t mem => (word.1 t mem).2, ?_,
          fun _ t mem => (word.1 t mem).1⟩
        · intro empty
          simp_all
        · intro present
          exact absurd value present

/-- What a trie has made of a feed. -/
theorem judge_performed {verdict : Verdict}
    (run : (judge fuel policy root : Read μ σ _).perform s = (.ok (w, verdict), after)) :
    Judged policy root w.path verdict := by
  obtain ⟨⟨w', reached⟩, between, descended, run⟩ := exists_of_bind_ok run
  obtain ⟨taken, path, node, stops⟩ := descend_performed [] root descended
  rw [List.nil_append] at path
  subst path
  dsimp only at run
  cases value : reached.value with
  | some v =>
      rw [value] at run
      obtain ⟨verdict', last, judged, run⟩ := exists_of_bind_ok run
      cases run
      exact judgeValue_performed node value stops judged
  | none =>
      rw [value] at run
      obtain ⟨verdict', last, judged, run⟩ := exists_of_bind_ok run
      cases run
      exact judgeUnknown_performed node value stops judged

end Performed

/-! ### Judgements of known tokens -/

section Known

variable [LawfulFeed σ] {root reached : Trie Token Value} {s : Session μ σ}

/-- A run that is all that is left is taken, whatever is still shown behind it. -/
theorem takeWhile_all {test : Token → Bool} {run : List Token} {fuel : Nat}
    (passes : ∀ t ∈ run, test t = true) (left : remaining s.feed = run)
    (enough : run.length < fuel) :
    ∃ after, (takeWhile fuel test : Read μ σ (List Token)).perform s = (.ok run, after) := by
  have reads : (takeWhile fuel test : Read μ σ (List Token)).Reads run [] run :=
    reads_takeWhile passes (by simp) enough
  obtain ⟨after, took, _⟩ := reads s (by simpa using left)
  exact ⟨after, took⟩

/-- The value of a key stands where nothing is left behind it. -/
theorem judgeValue_key (fuel : Nat) (policy : Policy) (root : Trie Token Value) (w : Descent)
    (v : Value) (left : remaining s.feed = []) :
    ∃ after, (judgeValue (fuel + 1) policy root w v : Read μ σ Verdict).perform s =
      (.ok (.found v), after) := by
  unfold judgeValue
  cases policy with
  | exact => exact ⟨s, rfl⟩
  | lazy classify => exact ⟨s, rfl⟩
  | greedy continues =>
      rw [perform_bind_ok (perform_peek s)]
      split
      · exact ⟨s, rfl⟩
      · -- the last token may still be shown, but there is none to take
        obtain ⟨after, took⟩ : ∃ after, (takeWhile (fuel + 1) (Token.isCharWith continues) :
            Read μ σ (List Token)).perform s = (.ok [], after) := takeWhile_all nofun left (by simp)
        rw [perform_bind_ok took]
        exact ⟨after, rfl⟩

/-- The tokens of a key, and nothing behind them, are read as its value. -/
theorem judge_key (fuel : Nat) (policy : Policy) {path : List Token} {v : Value}
    (held : root.get? path = some v) (left : remaining s.feed = path) :
    ∃ w after, (judge (fuel + 1) policy root : Read μ σ _).perform s =
      (.ok (w, .found v), after) := by
  obtain ⟨reached, node, value⟩ := Option.bind_eq_some_iff.mp held
  have whole : remaining s.feed = path ++ [] := by simpa using left
  obtain ⟨atEnd, between, descended, behind, _⟩ := descend_eq (μ := μ) [] whole node (by simp)
  obtain ⟨after, judged⟩ := judgeValue_key fuel policy root ⟨[] ++ path, atEnd⟩ v behind
  unfold judge
  rw [perform_bind_ok descended]
  dsimp only
  rw [value, perform_bind_ok judged]
  exact ⟨_, _, rfl⟩

section Whole

variable {fuel : Nat} {continues : Char → Bool} {path run : List Token} {w : Descent}

theorem judgeValue_whole (v : Value) (whole : IsWhole continues root w.path run reached)
    (value : reached.value ≠ none) (opened : run ≠ [] → w.atEnd = false)
    (left : remaining s.feed = run) (enough : run.length < fuel) :
    ∃ after, (judgeValue fuel (.greedy continues) root w v : Read μ σ Verdict).perform s =
      (.ok (.fresh (.text (Token.spell (w.path ++ run)))), after) := by
  obtain ⟨nonempty, noKey⟩ := whole.behindKey value
  have goesOn : (w.atEnd || (root.route? (Feed.peek s.feed)).isSome) = false := by
    obtain ⟨t, ts, rfl⟩ := List.exists_cons_of_ne_nil nonempty
    obtain ⟨shown, _⟩ := LawfulFeed.consume_cons left
    simp [opened nonempty, shown, noKey t rfl]
  obtain ⟨after, took⟩ := takeWhile_all (μ := μ) whole.goesOn left enough
  unfold judgeValue
  rw [perform_bind_ok (perform_peek s), goesOn, if_neg Bool.false_ne_true, perform_bind_ok took]
  exact ⟨after, by simp [nonempty]⟩

theorem judgeUnknown_whole (whole : IsWhole continues root w.path run reached)
    (value : reached.value = none) (opened : run ≠ [] → w.atEnd = false)
    (left : remaining s.feed = run) (enough : run.length < fuel) :
    ∃ after, (judgeUnknown fuel (.greedy continues) root w : Read μ σ Verdict).perform s =
      (.ok (.fresh (.text (Token.spell (w.path ++ run)))), after) := by
  have took : ∃ after, ((if w.atEnd then pure []
      else takeWhile fuel fun t => (root.route? t).isNone && Token.isCharWith continues t) :
      Read μ σ (List Token)).perform s = (.ok run, after) := by
    by_cases ended : w.atEnd
    · have empty : run = [] := by
        by_contra nonempty
        rw [opened nonempty] at ended
        cases ended
      exact ⟨s, by simp [ended, empty]⟩
    · rw [if_neg ended]
      have passes : ∀ t ∈ run, ((root.route? t).isNone && Token.isCharWith continues t) = true := by
        intro t mem
        simp [whole.apart value t mem, whole.goesOn t mem]
      exact takeWhile_all passes left enough
  obtain ⟨after, took⟩ := took
  rw [judgeUnknown_greedy, perform_bind_ok took, if_neg]
  · exact ⟨after, rfl⟩
  · have nonempty := whole.nonempty
    simp only [Bool.and_eq_true, List.isEmpty_iff, not_and]
    rintro empty rfl
    simp [empty] at nonempty

/-- The tokens of a whole word, and nothing behind them, are read as that word. -/
theorem judge_whole (whole : IsWhole continues root path run reached)
    (left : remaining s.feed = path ++ run) (enough : run.length < fuel) :
    ∃ w after, (judge fuel (.greedy continues) root : Read μ σ _).perform s =
      (.ok (w, .fresh (.text (Token.spell (path ++ run)))), after) := by
  obtain ⟨atEnd, between, descended, behind, opened⟩ :=
    descend_eq (μ := μ) [] left whole.node whole.stops
  rw [List.nil_append] at descended
  unfold judge
  rw [perform_bind_ok descended]
  dsimp only
  cases value : reached.value with
  | some v =>
      obtain ⟨after, judged⟩ := judgeValue_whole (w := ⟨path, atEnd⟩) v whole (by simp [value])
        opened behind enough
      dsimp only
      rw [perform_bind_ok judged]
      exact ⟨_, _, rfl⟩
  | none =>
      obtain ⟨after, judged⟩ := judgeUnknown_whole (w := ⟨path, atEnd⟩) whole value opened behind
        enough
      dsimp only
      rw [perform_bind_ok judged]
      exact ⟨_, _, rfl⟩

end Whole

end Known

end Read

/-! ### Words of characters -/

/-- The tokens of characters are those of the text that they spell. -/
theorem Token.ofText_spell {ts : List Token} (characters : ∀ t ∈ ts, ∃ c, t = .char c) :
    Token.ofText (Token.spell ts) = ts := by
  obtain ⟨cs, rfl⟩ : ∃ cs : List Char, ts = cs.map .char := by
    induction ts with
    | nil => exact ⟨[], rfl⟩
    | cons t ts ih =>
        obtain ⟨c, rfl⟩ := characters t List.mem_cons_self
        obtain ⟨cs, rfl⟩ := ih fun u mem => characters u (List.mem_cons_of_mem _ mem)
        exact ⟨c :: cs, rfl⟩
  simp [Token.ofText, Token.spell, List.flatMap_map, String.toList_singleton]

theorem Token.exists_of_isCharWith {test : Char → Bool} {t : Token}
    (passes : Token.isCharWith test t = true) : ∃ c, t = .char c := by
  cases t with
  | char c => exact ⟨c, rfl⟩
  | int n => cases passes
  | word s => cases passes

/-- A path that may be registered: not empty, and of characters where words are read whole. -/
def Policy.IsKey : Policy → List Token → Prop
  | .greedy _, path => path ≠ [] ∧ ∀ t ∈ path, ∃ c, t = .char c
  | _, path => path ≠ []

theorem Policy.IsKey.ne_nil {policy : Policy} {path : List Token} (key : policy.IsKey path) :
    path ≠ [] := by
  cases policy with
  | exact => exact key
  | lazy classify => exact key
  | greedy continues => exact key.1

/-- The value that a verdict gives. -/
def Verdict.value? : Verdict → Option Value
  | .notParsed => none
  | .found v => some v
  | .learn v => some v
  | .fresh v => some v

/-! ### There and back -/

namespace Keywords

variable {k : Keywords} {policy : Policy} {m : Memory}

/-- A read gives what the judgement has come to. -/
theorem result_readFrom {σ : Type} [Feed σ] (feed : σ) (fuel : Nat) :
    ((k.grammar policy m (fuel + 1)).readFrom feed).result =
      ((Read.judge fuel policy (k.contents m).trie).perform
        { feed := feed, memory := m }).1.map fun answer => answer.2.value? := by
  let s : Session Memory σ := { feed := feed, memory := m }
  have start : (Read.trieAt k.cell k.initial : Read Memory σ _).perform s =
      (.ok (k.contents m), s) := rfl
  change ((Pattern.readTrie fuel k.cell k.initial policy).perform s).1 =
    ((Read.judge fuel policy (k.contents m).trie).perform s).1.map _
  unfold Pattern.readTrie
  rw [Read.perform_bind_ok start, Read.perform_bind]
  rcases (Read.judge fuel policy (k.contents m).trie).perform s with ⟨stop | ⟨w, verdict⟩, after⟩
  · rfl
  · cases verdict <;> rfl

/-- The tokens alone, from whatever feed holds just these, are read as a value equal to `v`. -/
def Restores (k : Keywords) (policy : Policy) (m : Memory) (out : List Token) (v : Value) : Prop :=
  ∃ w enough, w == v ∧ ∀ fuel ≥ enough,
    (∀ {τ : Type} [Feed τ] [LawfulFeed τ] (whole : τ), remaining whole = out →
      ((k.grammar policy m fuel).readFrom whole).result = .ok (some w)) ∧
    ((k.grammar policy m fuel).readTokens out).result = .ok (some w) ∧
    ∀ text, Token.ofText text = out →
      ((k.grammar policy m fuel).readText text).result = .ok (some w)

/-- The value is written, and comes back from what was written. -/
def Returns (k : Keywords) (policy : Policy) (m : Memory) (v : Value) : Prop :=
  ∃ out, (∀ fuel, ((k.grammar policy m (fuel + 1)).write v).result = .ok out) ∧
    k.Restores policy m out v

/-- What is read from every feed of some tokens is read from the tokens and from the text. -/
theorem restores_of_judged {out : List Token} {v w : Value} (ne : out ≠ []) (equal : w == v)
    (enough : Nat)
    (judged : ∀ fuel ≥ enough, ∀ {τ : Type} [Feed τ] [LawfulFeed τ] (whole : τ),
      remaining whole = out → ∃ answer after,
        (Read.judge fuel policy (k.contents m).trie).perform
          { feed := whole, memory := m } = (.ok answer, after) ∧ answer.2.value? = some w) :
    k.Restores policy m out v := by
  have read : ∀ fuel ≥ enough + 1, ∀ {τ : Type} [Feed τ] [LawfulFeed τ] (whole : τ),
      remaining whole = out → ((k.grammar policy m fuel).readFrom whole).result = .ok (some w) := by
    intro fuel more τ _ _ whole left
    obtain ⟨fuel, rfl⟩ : ∃ n, fuel = n + 1 := ⟨fuel - 1, by omega⟩
    obtain ⟨answer, after, run, value⟩ := judged fuel (by omega) whole left
    rw [result_readFrom, run, ← value]
    rfl
  refine ⟨w, enough + 1, equal, ?_⟩
  intro fuel more
  refine ⟨read fuel more, ?_, ?_⟩
  · obtain ⟨s, made, _, left⟩ := Input.ofTokens_ok ne
    rw [Grammar.readTokens, made]
    exact read fuel more s left
  · rintro text rfl
    have characters : text.toList ≠ [] := by simpa [Token.ofText] using ne
    obtain ⟨s, made, _, left⟩ := Input.ofText_ok characters stringFile
    rw [Grammar.readText, made]
    exact read fuel more s left

/-- A path that is not empty brings back what it holds. -/
theorem restores_of_held {v w : Value} {path : List Token} (held : k.get? m path = some w)
    (equal : w == v) (ne : path ≠ []) : k.Restores policy m path v := by
  refine restores_of_judged ne equal 1 ?_
  intro fuel more τ _ _ whole left
  obtain ⟨fuel, rfl⟩ : ∃ n, fuel = n + 1 := ⟨fuel - 1, by omega⟩
  obtain ⟨w', after, run⟩ := Read.judge_key (s := { feed := whole, memory := m }) fuel policy held
    left
  exact ⟨_, after, run, rfl⟩

section Tracked

variable {history : List (List Token × Value)} (tracks : (k.contents m).Tracks history)
  (keys : ∀ entry ∈ history, policy.IsKey entry.1)
include tracks keys

/-- A value comes back from its path. -/
theorem restores_pathOf? {v : Value} {path : List Token} (found : k.pathOf? m v = some path) :
    k.Restores policy m path v := by
  obtain ⟨w, held, equal⟩ := tracks.sound.holds_pathOf? found
  exact restores_of_held held equal (keys _ (tracks.mem_history held)).ne_nil

/-- A value that stands somewhere comes back. -/
theorem returns_of_holds {v : Value} {path : List Token} (holds : k.Holds m path v) :
    k.Returns policy m v := by
  cases found : k.pathOf? m v with
  | none => exact absurd holds (tracks.pathOf?_eq_none_iff.mp found path)
  | some out => exact ⟨out, write_of_pathOf? found, restores_pathOf? tracks keys found⟩

/-- A whole word comes back, from itself or from the path that an equal value has. -/
theorem returns_of_whole {continues : Char → Bool} {path run : List Token}
    {reached : Trie Token Value} (greedy : policy = .greedy continues)
    (whole : Read.IsWhole continues (k.contents m).trie path run reached) :
    k.Returns policy m (.text (Token.spell (path ++ run))) := by
  have characters : Token.ofText (Token.spell (path ++ run)) = path ++ run := by
    apply Token.ofText_spell
    intro t mem
    rcases List.mem_append.mp mem with onPath | inRun
    · obtain ⟨entry, registered, begins⟩ := tracks.begun whole.node (List.ne_nil_of_mem onPath)
      have key := keys entry registered
      rw [greedy] at key
      exact key.2 t (begins.subset onPath)
    · exact Token.exists_of_isCharWith (whole.goesOn t inRun)
  cases found : k.pathOf? m (.text (Token.spell (path ++ run))) with
  | some out => exact ⟨out, write_of_pathOf? found, restores_pathOf? tracks keys found⟩
  | none =>
      subst greedy
      refine ⟨path ++ run, ?_, ?_⟩
      · intro fuel
        simp [write_eq, found, Policy.wholeWord?, characters]
      · have self : (Value.text (Token.spell (path ++ run)) ==
            .text (Token.spell (path ++ run))) := by
          simp [BEq.beq, Value.same]
        refine restores_of_judged whole.nonempty self (run.length + 1) ?_
        intro fuel more τ _ _ feed left
        have enough : run.length < fuel := by omega
        obtain ⟨w, after, judged⟩ :=
          Read.judge_whole (s := { feed := feed, memory := m }) whole left enough
        exact ⟨_, after, judged, rfl⟩

end Tracked

/-- Whatever is read, if it equals itself, is written in the state after the read, and comes back
    from what was written. -/
theorem read_write_read {history : List (List Token × Value)} (reached : k.Reaches policy history m)
    (keys : ∀ entry ∈ history, policy.IsKey entry.1) {σ : Type} [Feed σ] [FaithfulFeed σ] {feed : σ}
    {fuel : Nat} {v : Value}
    (read : ((k.grammar policy m fuel).readFrom feed).result = .ok (some v)) (self : v == v) :
    k.Returns policy ((k.grammar policy m fuel).readFrom feed).memory v := by
  cases fuel with
  | zero => cases read
  | succ fuel =>
      have tracks := reached.tracks
      have later := contents_readFrom k policy m feed (fuel + 1)
      rw [learned] at later
      rw [result_readFrom] at read
      rcases judged : (Read.judge fuel policy (k.contents m).trie).perform
        { feed := feed, memory := m } with ⟨stop | ⟨w, verdict⟩, last⟩
      · rw [judged] at read
        cases read
      · rw [judged] at read later
        cases Read.judge_performed judged with
        | notParsed => cases read
        | found held =>
            cases read
            simp only [Registry.insertAll, List.foldl_nil] at later
            rw [← later] at tracks
            have holds :
                k.Holds ((k.grammar policy m (fuel + 1)).readFrom feed).memory w.path v := by
              rw [Holds, later]
              exact ⟨v, held, self⟩
            exact returns_of_holds tracks keys holds
        | learn lazily nonempty =>
            cases read
            simp only [Registry.insertAll, List.foldl_cons, List.foldl_nil] at later
            have tracks := tracks.insert w.path v
            rw [← later] at tracks
            have holds :
                k.Holds ((k.grammar policy m (fuel + 1)).readFrom feed).memory w.path v := by
              rw [Holds, later, Registry.holds_insert, if_pos rfl]
              exact self
            refine returns_of_holds tracks ?_ holds
            intro entry mem
            rcases List.mem_cons.mp mem with rfl | before
            · rw [lazily]
              exact nonempty
            · exact keys entry before
        | fresh greedy whole =>
            cases read
            simp only [Registry.insertAll, List.foldl_nil] at later
            rw [← later] at tracks whole
            exact returns_of_whole tracks keys greedy whole

/-- A word that begins with a key is read whole, and written as the key of an equal value. -/
theorem read_write_read_inside :
    let policy : Policy := .greedy Char.isAlpha
    let entries := [(Token.ofText "in", .text "in"), (Token.ofText "ab", .text "inside")]
    let before := blank.insertAll entries .empty
    let feed : Pulled := ⟨Token.ofText "nside", .char 'i', false⟩
    let after := ((blank.grammar policy before 9).readFrom feed).memory
    ((blank.grammar policy before 9).readFrom feed).result = .ok (some (.text "inside")) ∧
    ((blank.grammar policy after 1).write (.text "inside")).result = .ok (Token.ofText "ab") ∧
    blank.Returns policy after (.text "inside") := by
  intro policy entries before feed after
  have read : ((blank.grammar policy before 9).readFrom feed).result =
      .ok (some (.text "inside")) := by
    with_unfolding_all rfl
  have empty : blank.Reaches policy [] .empty := .start rfl
  have reached : blank.Reaches policy entries.reverse before := Reaches.insertAll entries empty
  have keys : ∀ entry ∈ entries.reverse, policy.IsKey entry.1 := by
    simp [entries, policy, Policy.IsKey, Token.ofText]
  exact ⟨read, by with_unfolding_all rfl, read_write_read reached keys read (by decide +kernel)⟩

/-- A value that does not equal itself is read, but not written again. -/
theorem unequal_notWritten :
    let nan : Value := .double ⟨0x7ff8000000000000⟩
    let before := blank.insert (Token.ofText "a") nan .empty
    let answer := (blank.grammar .exact before 2).readFrom (Single.of (.char 'a'))
    blank.Reaches .exact [(Token.ofText "a", nan)] before ∧
    answer.result = .ok (some nan) ∧
    ((blank.grammar .exact answer.memory 1).write nan).result = .error (.fault .notRegistered) := by
  intro nan before answer
  exact ⟨.insert _ _ (.start rfl), by with_unfolding_all rfl, by with_unfolding_all rfl⟩

end Keywords

end Duplex
