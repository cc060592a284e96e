/-
Module: Duplex.Proofs.Recovery.Insist
Purpose: Insisting on a condition.  Where the current token does not meet it, an error is reported
  and tokens are dropped up to the first one that does.  What is given and what is left then is
  known from the tokens ahead; the error is worded and placed before any of them is dropped.
Main exports: Read.Words, Read.skipTo_finds, Read.Recovered, Read.insist_recovers
-/
import Duplex.Proofs.Lookahead
import Duplex.Proofs.Running
import Mathlib.Data.List.TakeWhile

namespace Duplex

/-- Behind the first token the others remain. -/
theorem LawfulFeed.remaining_advance_one {σ : Type} [Feed σ] [LawfulFeed σ] {t : Token}
    {rest : List Token} {s : σ} (left : remaining s = t :: rest) :
    remaining (Feed.advance 1 s) = rest := by
  have split : remaining s = [t] ++ rest := left
  exact remaining_advance split

namespace Read

/-! ### Dropping tokens -/

section Dropping

variable {μ σ : Type} [Feed σ] [LawfulFeed σ]

/-- A token is taken, if one is left. -/
theorem reads_consume (ahead : List Token) :
    (consume : Read μ σ (Option Token)).Reads ahead.head?.toList ahead.tail ahead.head? := by
  intro s left
  cases ahead with
  | nil =>
      refine ⟨s, ?_, rfl, rfl⟩
      rw [perform_consume, LawfulFeed.consume_nil left]
      rfl
  | cons t ahead =>
      obtain ⟨_, next, notes, taken, _⟩ := LawfulFeed.consume_cons left
      refine ⟨{ s with feed := next, journal := s.journal.addAll notes }, ?_, ?_, rfl⟩
      · rw [perform_consume, taken]
        rfl
      · show next = Feed.advance 1 s.feed
        rw [Feed.advance, taken, Feed.advance]

/-- Where no token passes, nothing at all happens, also at the end, where the last token is still
    shown. -/
theorem perform_consumeIf_none {test : Token → Bool} {s : Session μ σ}
    (fails : ∀ t ∈ (remaining s.feed).head?, test t = false) :
    (consumeIf test).perform s = (.ok none, s) := by
  rw [perform_consumeIf]
  cases left : remaining s.feed with
  | nil =>
      split
      · rw [perform_consume, LawfulFeed.consume_nil left]
        rfl
      · rfl
  | cons t ahead =>
      obtain ⟨shown, _⟩ := LawfulFeed.consume_cons left
      rw [left] at fails
      rw [shown, fails t rfl]
      rfl

variable {c : Condition} {fuel : Nat}

/-- Dropping the current token and all those behind it up to one that meets the condition, which is
    taken. -/
theorem reads_skipTo_some (t : Token) {skipped : List Token} {found : Token}
    (misses : ∀ u ∈ skipped, c.holds u = false) (meets : c.holds found = true) (rest : List Token)
    (enough : skipped.length < fuel) :
    (skipTo c.read fuel : Read μ σ _).Reads (t :: (skipped ++ [found])) rest (some found) := by
  induction fuel generalizing t skipped with
  | zero => omega
  | succ fuel ih =>
      show (skipTo c.read (fuel + 1)).Reads ([t] ++ (skipped ++ [found])) rest (some found)
      refine Reads.bind (reads_consume (t :: (skipped ++ [found] ++ rest))) ?_
      cases skipped with
      | nil => exact (reads_consumeIf meets rest).then_nil (reads_pure _ rest)
      | cons u skipped =>
          have here : ∀ v ∈ (u :: skipped ++ [found] ++ rest).head?, c.holds v = false := by
            rintro v ⟨⟩
            exact misses u List.mem_cons_self
          refine (reads_consumeIf_none here).bind_nil (ih u ?_ (Nat.lt_of_succ_lt_succ enough))
          exact fun v mem => misses v (List.mem_cons_of_mem u mem)

/-- Dropping all tokens where none behind the current one meets the condition. -/
theorem reads_skipTo_none {ahead : List Token} (misses : ∀ u ∈ ahead.tail, c.holds u = false)
    (enough : ahead.length < fuel) :
    (skipTo c.read fuel : Read μ σ _).Reads ahead [] none := by
  induction fuel generalizing ahead with
  | zero => omega
  | succ fuel ih =>
      cases ahead with
      | nil => exact (reads_consume []).then_nil (reads_pure none [])
      | cons t ahead =>
          have here : ∀ v ∈ (ahead ++ []).head?, c.holds v = false := by
            intro v first
            rw [List.append_nil] at first
            exact misses v (List.mem_of_mem_head? first)
          show (skipTo c.read (fuel + 1)).Reads ([t] ++ ahead) [] none
          refine Reads.bind (reads_consume (t :: ahead ++ [])) ?_
          refine (reads_consumeIf_none here).bind_nil (ih ?_ (Nat.lt_of_succ_lt_succ enough))
          exact fun v mem => misses v (List.mem_of_mem_tail mem)

/-- Skipping drops the current token, unseen, and gives the first one behind it that meets the
    condition. -/
theorem skipTo_finds {s : Session μ σ} (enough : (remaining s.feed).length < fuel) :
    ∃ after dropped,
      (skipTo c.read fuel).perform s = (.ok ((remaining s.feed).tail.find? c.holds), after) ∧
      after.feed = Feed.advance dropped s.feed ∧
      remaining after.feed = ((remaining s.feed).tail.dropWhile fun t => !c.holds t).tail := by
  cases found : (remaining s.feed).tail.find? c.holds with
  | none =>
      have misses : ∀ u ∈ (remaining s.feed).tail, c.holds u = false := by
        simpa using List.find?_eq_none.mp found
      obtain ⟨after, run, feed, _⟩ :=
        reads_skipTo_none (μ := μ) misses enough s (List.append_nil _).symm
      refine ⟨after, _, run, feed, ?_⟩
      rw [feed, LawfulFeed.remaining_advance (List.append_nil _).symm,
        List.dropWhile_eq_nil_iff.mpr (by simpa using misses), List.tail_nil]
  | some u =>
      obtain ⟨meets, skipped, rest, split, misses⟩ := List.find?_eq_some_iff_append.mp found
      obtain ⟨t, left⟩ : ∃ t, remaining s.feed = t :: (skipped ++ [u]) ++ rest := by
        cases ahead : remaining s.feed with
        | nil => simp [ahead] at split
        | cons t ahead => exact ⟨t, by simpa [ahead] using split⟩
      have short : skipped.length < fuel := by
        rw [left] at enough
        simp only [List.length_append, List.length_cons, List.length_nil] at enough
        omega
      obtain ⟨after, run, feed, _⟩ :=
        reads_skipTo_some (μ := μ) t (by simpa using misses) meets rest short s left
      refine ⟨after, _, run, feed, ?_⟩
      rw [feed, LawfulFeed.remaining_advance left, split,
        List.dropWhile_append_of_pos (by simpa using misses)]
      simp [meets]

end Dropping

/-! ### Reports -/

section Reporting

variable {μ σ : Type} [Feed σ]

/-- A messager that words a report: it gives the text, and does nothing to the input but replace the
    state that the input carries. -/
structure Words (message : Read μ (Input σ) String) (s : Session μ (Input σ)) (text : String)
    (told : Session μ (Input σ)) : Prop where
  gives : message.perform s = (.ok text, told)
  stays : ∃ states, told.feed = s.feed.refitted s.feed.mode states

namespace Words

variable {message : Read μ (Input σ) String} {s told : Session μ (Input σ)} {text : String}

omit [Feed σ] in
theorem mode (words : Words message s text told) : told.feed.mode = s.feed.mode := by
  obtain ⟨states, stays⟩ := words.stays
  rw [stays]
  rfl

/-- An error is the same before and after it is worded. -/
theorem record (words : Words message s text told) (text : String) :
    told.feed.record text = s.feed.record text := by
  obtain ⟨states, stays⟩ := words.stays
  rw [stays]
  rfl

theorem remaining_eq [LawfulFeed σ] [StickyFeed σ] (words : Words message s text told) :
    remaining told.feed = remaining s.feed := by
  obtain ⟨states, stays⟩ := words.stays
  rw [stays]
  rfl

end Words

/-- A collecting input keeps an error with the current token and the place. -/
theorem perform_report_collecting {s : Session μ (Input σ)} {latest : List ErrorRecord}
    (collecting : s.feed.mode = .collect latest) (text : String) :
    (report text).perform s =
      (.ok (), ⟨s.feed.inMode (.collect (s.feed.record text :: latest)), s.memory,
        s.journal.addAll (Feed.report s.feed text).notes⟩) := by
  rw [perform_report, Input.fault_report, Input.feed_report, collecting]
  rfl

/-- A raising input ends the read, and is left as it is. -/
theorem perform_report_raising {s : Session μ (Input σ)} (raising : s.feed.mode = .raise)
    (text : String) :
    (report text).perform s = (.error (.fault (s.feed.record text).raised), s) := by
  obtain ⟨⟨feed, tracker, mode, hooked, carried⟩, memory, journal⟩ := s
  cases raising
  rfl

end Reporting

/-! ### Insisting -/

section Insisting

variable {μ σ : Type} [Feed σ] [LawfulFeed σ] [StickyFeed σ]

/-- How a read ended that kept the error `error` and then searched some tokens: it gave the first of
    them that meets the condition and left those behind it, or it gave nothing and left none. -/
structure Recovered (c : Condition) (searched : List Token) (error : ErrorRecord)
    (latest : List ErrorRecord)
    (out : Except (Stop ReadFault) (Option Token) × Session μ (Input σ)) : Prop where
  result : out.1 = .ok (searched.find? c.holds)
  left : remaining out.2.feed = (searched.dropWhile fun t => !c.holds t).tail
  errors : out.2.feed.mode = .collect (error :: latest)

/-- A token that does not meet the condition may be searched as well. -/
theorem Recovered.of_tail {c : Condition} {ts : List Token} {error : ErrorRecord}
    {latest : List ErrorRecord}
    {out : Except (Stop ReadFault) (Option Token) × Session μ (Input σ)}
    (recovered : Recovered c ts.tail error latest out)
    (unmet : ∀ t ∈ ts.head?, c.holds t = false) : Recovered c ts error latest out := by
  cases ts with
  | nil => exact recovered
  | cons t ts =>
      have misses : c.holds t = false := unmet t rfl
      obtain ⟨result, left, errors⟩ := recovered
      refine ⟨?_, ?_, errors⟩
      · rw [result, List.tail_cons, List.find?_cons, misses]
      · rw [left, List.tail_cons, List.dropWhile_cons, misses, Bool.not_false, if_pos rfl]

section Searched

variable {t : Token} {error : ErrorRecord} {latest : List ErrorRecord}
  {out : Except (Stop ReadFault) (Option Token) × Session μ (Input σ)}

/-- The first of the tokens looked for is given, and those behind it are left. -/
theorem Recovered.of_split {skipped rest : List Token}
    (recovered : Recovered (.equal t) (skipped ++ t :: rest) error latest out)
    (first : t ∉ skipped) :
    out.1 = .ok (some t) ∧ remaining out.2.feed = rest := by
  have misses : ∀ u ∈ skipped, ¬ (Condition.equal t).holds u = true := by
    intro u mem meets
    exact first (eq_of_beq meets ▸ mem)
  have meets : (Condition.equal t).holds t = true := beq_self_eq_true t
  constructor
  · rw [recovered.result, List.find?_append, List.find?_eq_none.mpr misses, List.find?_cons, meets]
    rfl
  · rw [recovered.left, List.dropWhile_append_of_pos (by simpa using misses), List.dropWhile_cons,
      meets]
    rfl

/-- Where the token looked for is not among them, all are gone. -/
theorem Recovered.of_not_mem {ts : List Token}
    (recovered : Recovered (.equal t) ts error latest out) (gone : t ∉ ts) :
    out.1 = .ok none ∧ remaining out.2.feed = [] := by
  have misses : ∀ u ∈ ts, ¬ (Condition.equal t).holds u = true := by
    intro u mem meets
    exact gone (eq_of_beq meets ▸ mem)
  constructor
  · rw [recovered.result, List.find?_eq_none.mpr misses]
  · rw [recovered.left, List.dropWhile_eq_nil_iff.mpr (by simpa using misses), List.tail_nil]

end Searched

variable {c : Condition} {message : Read μ (Input σ) String} {fuel : Nat}
  {s told : Session μ (Input σ)} {text : String}

/-- A current token that meets the condition is read, and the messager is not asked. -/
theorem insist_met {t : Token} {rest : List Token} (left : remaining s.feed = t :: rest)
    (meets : c.holds t = true) :
    ∃ after, (insist fuel message c.read).perform s = (.ok (some t), after) ∧
      remaining after.feed = rest ∧ after.feed.mode = s.feed.mode := by
  have reads : (insist fuel message c.read).Reads [t] rest (some t) :=
    (reads_consumeIf meets rest).then_nil (reads_pure _ rest)
  obtain ⟨after, run, feed, _⟩ := reads s left
  refine ⟨after, run, ?_, ?_⟩
  · rw [feed]
    exact LawfulFeed.remaining_advance_one left
  · rw [feed, Input.mode_advance]

/-- Otherwise the messager is asked before anything is taken, and what it words is reported. -/
theorem perform_insist_unmet (unmet : ∀ t ∈ (remaining s.feed).head?, c.holds t = false)
    (gives : message.perform s = (.ok text, told)) :
    (insist fuel message c.read).perform s =
      (report text >>= fun _ => skipTo c.read fuel).perform told := by
  have tried : (c.read : Read μ (Input σ) _).perform s = (.ok none, s) :=
    perform_consumeIf_none unmet
  rw [insist, perform_bind_ok tried]
  exact perform_bind_ok gives _

/-- On a collecting input, what is searched are the tokens behind the current one. -/
theorem recovered_of_collecting (unmet : ∀ t ∈ (remaining s.feed).head?, c.holds t = false)
    (gives : message.perform s = (.ok text, told)) {latest : List ErrorRecord}
    (collecting : told.feed.mode = .collect latest)
    (enough : (remaining told.feed).length < fuel) :
    Recovered c (remaining told.feed).tail (told.feed.record text) latest
      ((insist fuel message c.read).perform s) := by
  let kept : Session μ (Input σ) :=
    ⟨told.feed.inMode (.collect (told.feed.record text :: latest)), told.memory,
      told.journal.addAll (Feed.report told.feed text).notes⟩
  have same : remaining kept.feed = remaining told.feed := rfl
  obtain ⟨after, dropped, run, feed, left⟩ := skipTo_finds (c := c) (s := kept) (by rwa [same])
  rw [perform_insist_unmet unmet gives, perform_bind_ok (perform_report_collecting collecting text),
    run]
  refine ⟨rfl, left, ?_⟩
  show after.feed.mode = _
  rw [feed, Input.mode_advance]
  rfl

/-- Where the error is only worded, the current token may be searched as well. -/
theorem Words.recovered (words : Words message s text told)
    (unmet : ∀ t ∈ (remaining s.feed).head?, c.holds t = false) {latest : List ErrorRecord}
    (collecting : s.feed.mode = .collect latest) (enough : (remaining s.feed).length < fuel) :
    Recovered c (remaining s.feed) (s.feed.record text) latest
      ((insist fuel message c.read).perform s) := by
  rw [← words.remaining_eq] at enough
  have behind := recovered_of_collecting unmet words.gives (words.mode.trans collecting) enough
  rw [words.remaining_eq, words.record] at behind
  exact behind.of_tail unmet

/-- On a raising input, nothing is taken. -/
theorem insist_raising (unmet : ∀ t ∈ (remaining s.feed).head?, c.holds t = false)
    (gives : message.perform s = (.ok text, told)) (raising : told.feed.mode = .raise) :
    (insist fuel message c.read).perform s =
      (.error (.fault (told.feed.record text).raised), told) := by
  rw [perform_insist_unmet unmet gives, perform_bind, perform_report_raising raising]

/-- Insisting on a condition recovers at the first token that meets it, with one report.  If the
    current token meets the condition, it is read and nothing is reported.  Otherwise the messager
    is asked with nothing taken.  On a collecting input one error with its text, the current token
    and the place is kept, and the read gives the first of all tokens ahead that meets the
    condition and leaves those behind it; if there is none, it gives nothing and all tokens are
    taken.  On a raising input it ends with this error, and nothing is taken.  Where a messager
    takes tokens or reports errors itself, the error is that of the input it leaves, and the token
    then current is dropped unseen. -/
theorem insist_recovers (c : Condition) (message : Read μ (Input σ) String) (fuel : Nat)
    (s : Session μ (Input σ)) :
    let ts := remaining s.feed
    let run := (insist fuel message c.read).perform s
    (∀ t rest, ts = t :: rest → c.holds t = true →
      run.1 = .ok (some t) ∧ remaining run.2.feed = rest ∧ run.2.feed.mode = s.feed.mode) ∧
    ((∀ t ∈ ts.head?, c.holds t = false) →
      (∀ text told, Words message s text told →
        (∀ latest, s.feed.mode = .collect latest → ts.length < fuel →
          Recovered c ts (s.feed.record text) latest run) ∧
        (s.feed.mode = .raise →
          run = (.error (.fault (s.feed.record text).raised), told) ∧ remaining told.feed = ts)) ∧
      ∀ text told, message.perform s = (.ok text, told) →
        (∀ latest, told.feed.mode = .collect latest → (remaining told.feed).length < fuel →
          Recovered c (remaining told.feed).tail (told.feed.record text) latest run) ∧
        (told.feed.mode = .raise →
          run = (.error (.fault (told.feed.record text).raised), told))) := by
  intro ts run
  refine ⟨?_, fun unmet => ⟨?_, ?_⟩⟩
  · intro t rest left meets
    obtain ⟨after, came, behind, mode⟩ : ∃ after, run = (.ok (some t), after) ∧
        remaining after.feed = rest ∧ after.feed.mode = s.feed.mode := insist_met left meets
    rw [came]
    exact ⟨rfl, behind, mode⟩
  · intro text told words
    refine ⟨fun latest collecting enough => words.recovered unmet collecting enough, ?_⟩
    intro raising
    refine ⟨?_, words.remaining_eq⟩
    rw [← words.record]
    exact insist_raising unmet words.gives (words.mode.trans raising)
  · intro text told gives
    exact ⟨fun latest collecting enough => recovered_of_collecting unmet gives collecting enough,
      insist_raising unmet gives⟩

/-- Looking for a semicolon from an `x` on, one error is kept at the `x`, the semicolon is found
    behind a `y`, and a `z` is left; behind the last semicolon of a text, which is still shown,
    there is none to be found.  A raising input ends at the `x`. -/
theorem insist_recovers_semicolon :
    let semicolon : Condition := .equal (.char ';')
    let message : Read Unit (Input Slice) String := return "want ;"
    let feed : Slice := ⟨#[.char 'x', .char 'y', .char ';', .char 'z'], 0, by decide⟩
    let ended : Slice := ⟨#[.char ';'], 1, by decide⟩
    let s : Session Unit (Input Slice) :=
      { feed := .ofFeed feed (some (.start "t" {})), memory := () }
    let kept := { s with feed := s.feed.collecting }
    let last := { kept with feed.feed := ended }
    let error : ErrorRecord := ⟨.char 'x', some ⟨"t", 1, 0, 0⟩, "want ;"⟩
    Recovered semicolon (Token.ofText "xy;z") error []
        ((insist 5 message semicolon.read).perform kept) ∧
      (Token.ofText "xy;z").find? semicolon.holds = some (.char ';') ∧
      Recovered semicolon [] { error with token := .char ';' } []
        ((insist 5 message semicolon.read).perform last) ∧
      ((insist 5 message semicolon.read).perform s).1 =
        .error (.fault (.located ⟨"t", 1, 0, 0⟩ "want ;")) := by
  intro semicolon message feed ended s kept last error
  have words : ∀ s : Session Unit (Input Slice), Words message s "want ;" s :=
    fun s => ⟨rfl, s.feed.carried, rfl⟩
  obtain ⟨_, unmet⟩ := insist_recovers semicolon message 5 kept
  obtain ⟨_, none⟩ := insist_recovers semicolon message 5 last
  obtain ⟨_, raised⟩ := insist_recovers semicolon message 5 s
  refine ⟨?_, rfl, ?_, ?_⟩
  · exact ((unmet (by decide)).1 _ _ (words kept)).1 [] rfl (by decide)
  · exact ((none (by decide)).1 _ _ (words last)).1 [] rfl (by decide)
  · rw [(((raised (by decide)).1 _ _ (words s)).2 rfl).1]
    rfl

end Insisting

end Read

end Duplex
