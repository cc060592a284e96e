/-
Module: Duplex.Proofs.Lexing
Purpose: A lexer is the list of its words, followed by what shows the end.  The words are what reads of
  the tokenizer give one after the other; a character that is left over is reported once, and a fault
  is told at once or kept behind the last word.  Although every word is cut while the one before it is
  handed out, whatever calls are made have the replies that follow from the list.
Main exports: Grammar.turn, Grammar.Tokenizes, Grammar.Lexes, Grammar.Tokenizes.lexes,
  Lexer.Lists, Lexer.ofFeed_lists
-/
import Duplex.Feed.Lexer
import Duplex.Proofs.Calls
import Duplex.Proofs.Watching

namespace Duplex

/-! ### What stops a run -/

/-- The fault that a caller is told about. -/
def Stop.fault? {ε : Type} : Stop ε → Option ε
  | .fault cause => some cause
  | .halt _ => none

/-- What ends the whole run. -/
def Stop.halt? {ε : Type} : Stop ε → Option Halt
  | .fault _ => none
  | .halt cause => some cause

/-! ### Reads one after the other -/

namespace Grammar

section Turns

variable {σ : Type} [Feed σ]

/-- The grammar with what it remembers after a read of the feed. -/
def following (g : Grammar) (s : σ) : Grammar :=
  { g with memory := (g.readFrom s).memory }

/-- The grammar and the feed that a read starts with, when as many reads came before, each of them
    going on where the one before it stopped. -/
def turn (g : Grammar) (s : σ) : Nat → Grammar × σ
  | 0 => (g, s)
  | n + 1 => (g.following s).turn (g.readFrom s).feed n

/-- Of reads that are made one after the other, each one that gives something gives a token and takes
    at least one. -/
def Tokenizes (g : Grammar) (s : σ) : Prop :=
  ∀ n v, ((g.turn s n).1.readFrom (g.turn s n).2).result = .ok (some v) →
    v.toToken?.isSome ∧ (g.turn s n).1.taken (g.turn s n).2 ≠ []

/-- So does each one that comes after the first. -/
theorem Tokenizes.following {g : Grammar} {s : σ} (tokenizes : g.Tokenizes s) :
    (g.following s).Tokenizes (g.readFrom s).feed :=
  fun n v read => tokenizes (n + 1) v read

end Turns

variable {σ : Type} [Feed σ] [LawfulFeed σ] [StickyFeed σ]

/-- The words that reads one after the other give, up to the first read that gives nothing or stops;
    what stops the reads then, if anything does, and the input behind them.  Where a read gives
    nothing and a character is left, that character is taken and reported, once. -/
inductive Lexes : Grammar → Input σ → List Token → Option (Stop ReadFault) → Input σ → Prop where
  | word {g : Grammar} {s rest : Input σ} {v : Value} {t : Token} {words : List Token}
      {stop : Option (Stop ReadFault)} (read : (g.readFrom s).result = .ok (some v))
      (token : v.toToken? = some t)
      (others : Lexes (g.following s) (g.readFrom s).feed words stop rest) :
      Lexes g s (t :: words) stop rest
  | stopped {g : Grammar} {s : Input σ} {stop : Stop ReadFault}
      (read : (g.readFrom s).result = .error stop) : Lexes g s [] (some stop) (g.readFrom s).feed
  | atEnd {g : Grammar} {s : Input σ} (read : (g.readFrom s).result = .ok none)
      (left : remaining (g.readFrom s).feed = []) : Lexes g s [] none (g.readFrom s).feed
  | leftOver {g : Grammar} {s next : Input σ} {c : Token} {more : List Token}
      {told : Option ReadFault × ErrorMode} (read : (g.readFrom s).result = .ok none)
      (left : remaining (g.readFrom s).feed = c :: more)
      (behind : next = (Feed.consume (g.readFrom s).feed).feed)
      (heard : told = next.mode.hear (next.record ("lexer failed at " ++ c.quoted))) :
      Lexes g s [] (told.1.map .fault) (next.inMode told.2)

/-- Nothing a grammar does to a watched input loses a token. -/
theorem invariant_taken (tokens : List Token) :
    Feed.Invariant fun (w : Watched (Input σ)) _ => w.taken ++ remaining w.feed = tokens where
  consume {w _} whole := by
    show (w.taken ++ (Feed.consume w.feed).token.toList) ++ remaining (Feed.consume w.feed).feed = _
    cases left : remaining w.feed with
    | nil => simpa [LawfulFeed.consume_nil left, left] using whole
    | cons t ts =>
        obtain ⟨_, next, notes, took, behind⟩ := LawfulFeed.consume_cons left
        simpa [took, behind, left] using whole
  report {w _} message whole := by
    show w.taken ++ remaining (Feed.report w.feed message).feed = _
    rw [Input.feed_report]
    exact whole
  setState _ whole := whole
  note _ whole := whole

/-- What a read takes, it takes from the front of the tokens that are left. -/
theorem taken_append_remaining (g : Grammar) (s : Input σ) :
    g.taken s ++ remaining (g.readFrom s).feed = remaining s := by
  rw [← (g.readFrom_watched s).2]
  exact g.pattern.read_keeps (invariant_taken (remaining s)) g.fuel
    (s := { feed := .of s, memory := g.memory }) rfl

/-- As each word takes a character, there is a last word. -/
theorem Tokenizes.lexes {g : Grammar} {s : Input σ} (tokenizes : g.Tokenizes s) :
    ∃ words stop rest, g.Lexes s words stop rest := by
  induction whole : (remaining s).length using Nat.strong_induction_on generalizing g s with
  | _ size ih =>
      cases read : (g.readFrom s).result with
      | error stop => exact ⟨[], some stop, _, .stopped read⟩
      | ok result =>
          cases result with
          | none =>
              cases left : remaining (g.readFrom s).feed with
              | nil => exact ⟨[], none, _, .atEnd read left⟩
              | cons c more => exact ⟨[], _, _, .leftOver read left rfl rfl⟩
          | some v =>
              obtain ⟨token, takes⟩ := tokenizes 0 v read
              obtain ⟨t, token⟩ := Option.isSome_iff_exists.mp token
              have shorter : (remaining (g.readFrom s).feed).length < size := by
                have split := congrArg List.length (g.taken_append_remaining s)
                have some : 0 < (g.taken s).length := List.length_pos_iff.mpr takes
                rw [List.length_append, whole] at split
                omega
              obtain ⟨words, stop, rest, others⟩ := ih _ shorter tokenizes.following rfl
              exact ⟨t :: words, stop, rest, .word read token others⟩

/-- A grammar tokenizes every feed if whatever it reads is a token that it took, whatever it
    remembers. -/
theorem Tokenizes.of_always {ρ : Type} [Feed ρ] {p : Pattern} {fuel : Nat}
    (always : ∀ (memory : Memory) (s : ρ) v,
      ((⟨p, memory, fuel⟩ : Grammar).readFrom s).result = .ok (some v) →
        v.toToken?.isSome ∧ (⟨p, memory, fuel⟩ : Grammar).taken s ≠ []) (memory : Memory) (s : ρ) :
    (⟨p, memory, fuel⟩ : Grammar).Tokenizes s := by
  intro n
  induction n generalizing memory s with
  | zero => exact always memory s
  | succ n ih => exact ih _ _

end Grammar

/-! ### Cutting a word -/

namespace Lexer

variable {σ : Type} [Feed σ] [LawfulFeed σ] [StickyFeed σ]

omit [LawfulFeed σ] [StickyFeed σ] in
/-- A word is cut if the tokenizer reads one. -/
theorem perform_cut_word {g : Grammar} {s : Input σ} {v : Value} {t : Token}
    (read : (g.readFrom s).result = .ok (some v)) (token : v.toToken? = some t) :
    ∃ after, (cut g.fuel g.pattern).perform { feed := s, memory := g.memory } =
        (.ok (some t), after) ∧
      after.feed = (g.readFrom s).feed ∧ after.memory = (g.following s).memory := by
  have run : (g.pattern.read g.fuel).perform { feed := s, memory := g.memory } =
      (.ok (some v), ((g.pattern.read g.fuel).perform { feed := s, memory := g.memory }).2) :=
    Prod.ext read rfl
  refine ⟨((g.pattern.read g.fuel).perform { feed := s, memory := g.memory }).2, ?_, rfl, rfl⟩
  rw [cut, Read.perform_bind_ok run]
  dsimp only
  rw [token]
  rfl

/-- Behind the last word none is cut. -/
theorem perform_cut_end {g : Grammar} {s rest : Input σ} {stop : Option (Stop ReadFault)}
    (ends : g.Lexes s [] stop rest) :
    ∃ after, (cut g.fuel g.pattern).perform { feed := s, memory := g.memory } =
        (stop.elim (.ok none) .error, after) ∧ after.feed = rest := by
  let behind := ((g.pattern.read g.fuel).perform { feed := s, memory := g.memory }).2
  cases ends with
  | @stopped _ _ stop read =>
      have run : (g.pattern.read g.fuel).perform { feed := s, memory := g.memory } =
          (.error stop, behind) := Prod.ext read rfl
      refine ⟨behind, ?_, rfl⟩
      rw [cut, Read.perform_bind, run]
      rfl
  | atEnd read left =>
      have run : (g.pattern.read g.fuel).perform { feed := s, memory := g.memory } =
          (.ok none, behind) := Prod.ext read rfl
      have ended : Feed.consume behind.feed = { token := none, feed := behind.feed } :=
        LawfulFeed.consume_nil left
      have none : (Read.consume : Read Memory (Input σ) _).perform behind =
          (.ok none, { behind with journal := behind.journal.addAll [] }) := by
        rw [Read.perform_consume, ended]
      refine ⟨{ behind with journal := behind.journal.addAll [] }, ?_, rfl⟩
      rw [cut, Read.perform_bind_ok run, Read.perform_bind_ok none]
      rfl
  | @leftOver _ _ next c more told read left after heard =>
      have run : (g.pattern.read g.fuel).perform { feed := s, memory := g.memory } =
          (.ok none, behind) := Prod.ext read rfl
      obtain ⟨_, _, notes, took, _⟩ := LawfulFeed.consume_cons left
      have taken : (Read.consume : Read Memory (Input σ) _).perform behind =
          (.ok (some c), { behind with feed := next, journal := behind.journal.addAll notes }) := by
        rw [Read.perform_consume, after, show behind.feed = (g.readFrom s).feed from rfl, took]
      rw [cut, Read.perform_bind_ok run, Read.perform_bind_ok taken, Read.perform_bind,
        Read.perform_report, Input.fault_report, Input.feed_report, ← heard]
      obtain ⟨_ | cause, mode⟩ := told <;> exact ⟨_, rfl, rfl⟩

/-! ### The words ahead -/

/-- The tokenizer as a grammar, with what it remembers. -/
def grammar {σ : Type} (l : Lexer σ) : Grammar :=
  ⟨l.tokenizer, l.memory, l.fuel⟩

/-- The lexer has words ahead, and then stops and leaves an input as given.  It holds the first word;
    the others are what the tokenizer will read. -/
inductive Ahead (eof : Token) (stop : Option (Stop ReadFault)) (rest : Input σ) :
    List Token → Lexer (Input σ) → Prop where
  | none {l : Lexer (Input σ)} (held : l.held = none) (shows : l.eof = eof) (chars : l.chars = rest)
      (fault : l.fault = stop.bind Stop.fault?) : Ahead eof stop rest [] l
  | some {l : Lexer (Input σ)} {t : Token} {words : List Token} (held : l.held = some t)
      (shows : l.eof = eof) (calm : l.fault = none)
      (others : l.grammar.Lexes l.chars words stop rest) : Ahead eof stop rest (t :: words) l

variable {eof : Token} {stop : Option (Stop ReadFault)} {rest : Input σ}

omit [LawfulFeed σ] [StickyFeed σ] in
theorem consume_of_none {l : Lexer (Input σ)} (held : l.held = none) :
    Feed.consume l = { token := none, feed := l } := by
  show l.consume = _
  rw [consume, held]

/-- Taking a word cuts the next one; the last word comes with what stops the tokenizer. -/
theorem consume_of_some {l : Lexer (Input σ)} {t : Token} {words : List Token}
    (held : l.held = some t) (shows : l.eof = eof) (calm : l.fault = none)
    (others : l.grammar.Lexes l.chars words stop rest) :
    (Feed.consume l).token = some t ∧ Ahead eof stop rest words (Feed.consume l).feed ∧
      (Feed.consume l).halt = if words = [] then stop.bind Stop.halt? else none := by
  show l.consume.token = _ ∧ Ahead eof stop rest words l.consume.feed ∧ l.consume.halt = _
  unfold consume
  rw [held]
  cases words with
  | nil =>
      obtain ⟨after, run, behind⟩ := perform_cut_end others
      change ((cut l.fuel l.tokenizer).run { feed := l.chars, memory := l.memory }).run = _ at run
      rcases stop with _ | (cause | cause) <;> rw [run]
      · exact ⟨rfl, .none rfl shows behind calm, rfl⟩
      · exact ⟨rfl, .none rfl shows behind rfl, rfl⟩
      · exact ⟨rfl, .none rfl shows behind calm, rfl⟩
  | cons u words =>
      cases others with
      | word read token others =>
          obtain ⟨after, run, feed, memory⟩ := perform_cut_word read token
          change ((cut l.fuel l.tokenizer).run { feed := l.chars, memory := l.memory }).run = _ at run
          rw [run]
          refine ⟨rfl, .some rfl shows calm ?_, rfl⟩
          show (⟨l.tokenizer, after.memory, l.fuel⟩ : Grammar).Lexes after.feed words stop rest
          rw [feed, memory]
          exact others

/-- The lexer hands out its words, whatever is to come behind them. -/
theorem follows : Follows eof (Ahead eof stop rest) where
  peek ahead := by
    show Option.getD _ _ = _
    cases ahead with
    | none held shows => rw [held, shows]; rfl
    | some held => rw [held]; rfl
  atEnd ahead := by
    show Option.isNone _ = _
    cases ahead with
    | none held => rw [held]; rfl
    | some held => rw [held]; rfl
  token ahead := by
    cases ahead with
    | none held => rw [consume_of_none held]; rfl
    | some held shows calm others => exact (consume_of_some held shows calm others).1
  behind ahead := by
    cases ahead with
    | none held shows chars fault =>
        rw [consume_of_none held]
        exact .none held shows chars fault
    | some held shows calm others => exact (consume_of_some held shows calm others).2.1

/-- The run is only ended by what stops the tokenizer, with the last word. -/
theorem Ahead.halt {words : List Token} {l : Lexer (Input σ)} (ahead : Ahead eof stop rest words l) :
    (Feed.consume l).halt = if words.length = 1 then stop.bind Stop.halt? else Option.none := by
  cases ahead with
  | none held =>
      rw [consume_of_none held]
      rfl
  | some held shows calm others =>
      rw [(consume_of_some held shows calm others).2.2]
      simp

/-! ### The list of words -/

/-- The lexer is the list of the words, followed by `eof`.  It hands them out in order and then nothing,
    shows the one to be taken next and then `eof`, and is at the end when none is left.  With the last
    word it is done: the characters stay as they are, and a fault that stopped the tokenizer is kept,
    until it is given up. -/
structure Lists (words : List Token) (eof : Token) (stop : Option (Stop ReadFault)) (rest : Input σ)
    (l : Lexer (Input σ)) : Prop where
  token : ∀ n, (Feed.consume (Feed.advance n l)).token = words[n]?
  shown : ∀ n, Feed.peek (Feed.advance n l) = words[n]?.getD eof
  ended : ∀ n, Feed.atEnd (Feed.advance n l) = decide (words.length ≤ n)
  halted : ∀ n, (Feed.consume (Feed.advance n l)).halt =
    if n + 1 = words.length then stop.bind Stop.halt? else none
  replied : stop.bind Stop.halt? = none → ∀ {μ : Type} (m : μ) (calls : List Call) {fuel : Nat},
    words.length < fuel → ((Call.askAll fuel calls).perform { feed := l, memory := m }).1 =
      .ok (Call.replies eof words calls)
  fault : ∀ n, (Feed.advance n l).takeFault.1 =
    if words.length ≤ n then stop.bind Stop.fault? else none
  once : ∀ n, words.length ≤ n → ∀ later,
    (Feed.advance later (Feed.advance n l).takeFault.2).takeFault.1 = none
  chars : ∀ n, words.length ≤ n → (Feed.advance n l).chars = rest

omit [LawfulFeed σ] [StickyFeed σ] in
theorem advance_of_none {l : Lexer (Input σ)} (held : l.held = none) (n : Nat) :
    Feed.advance n l = l := by
  induction n with
  | zero => rfl
  | succ n ih => rw [Feed.advance, consume_of_none held, ih]

theorem Ahead.lists {words : List Token} {l : Lexer (Input σ)}
    (ahead : Ahead eof stop rest words l) : Lists words eof stop rest l where
  token := follows.token_advance ahead
  shown := follows.peek_advance ahead
  ended := follows.atEnd_advance ahead
  halted n := by
    rw [(follows.advance ahead n).halt, List.length_drop]
    have same : words.length - n = 1 ↔ n + 1 = words.length := by omega
    simp only [same]
  replied unhalted μ m calls fuel enough := by
    refine Call.askAll_follows follows ?_ calls (s := { feed := l, memory := m }) ahead enough
    intro words l ahead
    rw [ahead.halt, unhalted, ite_self]
  fault n := by
    have standing := follows.advance ahead n
    generalize drop : words.drop n = left at standing
    cases standing with
    | none _ _ _ fault =>
        rw [if_pos (List.drop_eq_nil_iff.mp drop)]
        exact fault
    | some _ _ calm =>
        have short : ¬ words.length ≤ n := by
          rw [← List.drop_eq_nil_iff, drop]
          simp
        rw [if_neg short]
        exact calm
  once n short later := by
    have standing := follows.advance ahead n
    rw [List.drop_eq_nil_iff.mpr short] at standing
    cases standing with
    | none held => rw [advance_of_none (l := (Feed.advance n l).takeFault.2) held later]; rfl
  chars n short := by
    have standing := follows.advance ahead n
    rw [List.drop_eq_nil_iff.mpr short] at standing
    cases standing with
    | none _ _ chars => exact chars

/-- A lexer is the list of its words.  Over any input, in any error mode, with a tokenizer that gives
    tokens and takes a character for each, there are words that reads of the tokenizer give one after
    the other, and the read behind them gives nothing or stops.  If that read is the first one and
    stops, or is stopped by the report of a character that it leaves over, making the lexer stops
    likewise; otherwise the lexer that is made is the list of the words, keeps the fault and leaves
    the characters as that read has left them. -/
theorem ofFeed_lists (g : Grammar) (chars : Input σ) (eof : Token) (tokenizes : g.Tokenizes chars) :
    (∃ words stop rest, g.Lexes chars words stop rest) ∧
    ∀ words stop rest, g.Lexes chars words stop rest →
      let made := (Lexer.ofFeed g.fuel chars g.pattern g.memory eof).1
      (∀ cause, words = [] → stop = some cause → made = .error cause) ∧
      (words ≠ [] ∨ stop = none → ∃ l, made = .ok l ∧ l.Lists words eof stop rest) := by
  refine ⟨tokenizes.lexes, ?_⟩
  intro words stop rest lexes made
  have ofCut : made =
      (((cut g.fuel g.pattern).perform { feed := chars, memory := g.memory }).1.map fun held =>
        let after := ((cut g.fuel g.pattern).perform { feed := chars, memory := g.memory }).2
        ⟨after.feed, g.pattern, g.fuel, after.memory, held, eof, none⟩) := rfl
  cases words with
  | nil =>
      obtain ⟨after, run, behind⟩ := perform_cut_end lexes
      rw [run] at ofCut
      constructor
      · rintro cause - rfl
        exact ofCut
      · rintro (some | rfl)
        · exact absurd rfl some
        · exact ⟨⟨after.feed, g.pattern, g.fuel, after.memory, none, eof, none⟩, ofCut,
            Ahead.lists (.none rfl rfl behind rfl)⟩
  | cons t words =>
      refine ⟨fun _ empty => (List.cons_ne_nil t words empty).elim, fun _ => ?_⟩
      cases lexes with
      | word read token others =>
          obtain ⟨after, run, feed, memory⟩ := perform_cut_word read token
          rw [run] at ofCut
          refine ⟨⟨after.feed, g.pattern, g.fuel, after.memory, some t, eof, none⟩, ofCut,
            Ahead.lists (.some rfl rfl rfl ?_)⟩
          show (⟨g.pattern, after.memory, g.fuel⟩ : Grammar).Lexes after.feed words stop rest
          rw [feed, memory]
          exact others

/-- A condition on single tokens is a tokenizer. -/
theorem tokenizes_satisfy {ρ : Type} [Feed ρ] (c : Condition) (fuel : Nat) (memory : Memory) (s : ρ) :
    (⟨.satisfy c, memory, fuel + 1⟩ : Grammar).Tokenizes s := by
  refine Grammar.Tokenizes.of_always ?_ memory s
  intro memory s v read
  let g : Grammar := ⟨.satisfy c, memory, fuel + 1⟩
  let start : Session Memory (Watched ρ) := { feed := .of s, memory := memory }
  have same : (g.readFrom (Watched.of s)).result = (g.readFrom s).result :=
    congrArg Answer.result (g.readFrom_watched s).1
  rw [← same] at read
  change ((Read.asValue c.read).perform start).1 = .ok (some v) at read
  show v.toToken?.isSome ∧ ((Read.asValue c.read).perform start).2.feed.taken ≠ []
  have tried : c.read.perform start =
      if c.holds (Feed.peek start.feed) then Read.consume.perform start else (.ok none, start) :=
    Read.perform_consumeIf c.holds start
  split at tried
  · have taken : (Feed.consume start.feed).feed.taken =
        [] ++ (Feed.consume start.feed).token.toList := rfl
    rw [Read.perform_consume] at tried
    cases halt : (Feed.consume start.feed).halt with
    | some cause =>
        rw [halt] at tried
        rw [Read.asValue, Read.perform_bind, tried] at read
        cases read
    | none =>
        rw [halt] at tried
        rw [Read.asValue, Read.perform_bind_ok tried] at read ⊢
        cases token : (Feed.consume start.feed).token with
        | none =>
            rw [token] at read
            cases read
        | some t =>
            rw [token] at read taken
            cases read
            exact ⟨by simp, by simp [taken]⟩
  · rw [Read.asValue, Read.perform_bind_ok tried] at read
    cases read

/-- Letters are cut from the text `ab1`, and the digit is left over.  Where errors are kept, there is
    one about it behind the second letter; where they are raised, the lexer keeps it as its fault. -/
theorem ofFeed_lists_letters :
    let letter : Pattern := .satisfy (.range (.char 'a') (.char 'z'))
    let text (mode : ErrorMode) (n : Nat) : Input Slice :=
      ⟨⟨#[.char 'a', .char 'b', .char '1'], n, by decide⟩, some ⟨⟨"t", 1, n, n⟩, {}⟩, mode, false,
        .empty⟩
    let dot : Token := .char '.'
    let failed : ErrorRecord := ⟨.char '1', some ⟨"t", 1, 3, 3⟩, "lexer failed at '1'"⟩
    (∃ l, (Lexer.ofFeed 1 (text (.collect []) 0) letter .empty dot).1 = .ok l ∧
      l.Lists [.char 'a', .char 'b'] dot none (text (.collect [failed]) 3)) ∧
    ∃ l, (Lexer.ofFeed 1 (text .raise 0) letter .empty dot).1 = .ok l ∧
      l.Lists [.char 'a', .char 'b'] dot (some (.fault failed.raised)) (text .raise 3) := by
  intro letter text dot failed
  let g : Grammar := ⟨letter, .empty, 1⟩
  have message : "lexer failed at " ++ (Token.char '1').quoted = "lexer failed at '1'" := by
    decide +kernel
  have lexes : ∀ mode : ErrorMode, g.Lexes (text mode 0) [.char 'a', .char 'b']
      ((mode.hear failed).1.map .fault) (text (mode.hear failed).2 3) := by
    intro mode
    refine .word (v := .char 'a') rfl rfl ?_
    show g.Lexes (text mode 1) _ _ _
    refine .word (v := .char 'b') rfl rfl ?_
    show g.Lexes (text mode 2) _ _ _
    have stays : (g.readFrom (text mode 2)).feed = text mode 2 := rfl
    refine @Grammar.Lexes.leftOver _ _ _ _ _ _ (text mode 3) (.char '1') [] _ rfl rfl ?_ ?_
    · rw [stays]
      rfl
    · rw [message]
      rfl
  have tokenizes := fun mode => tokenizes_satisfy (.range (.char 'a') (.char 'z')) 0 .empty
    (text mode 0)
  have keeps := (ofFeed_lists g _ dot (tokenizes (.collect []))).2 _ _ _ (lexes (.collect []))
  have raises := (ofFeed_lists g _ dot (tokenizes .raise)).2 _ _ _ (lexes .raise)
  exact ⟨keeps.2 (.inr rfl), raises.2 (.inl (by simp))⟩

end Lexer

end Duplex
