/-
Module: Duplex.Proofs.Lookahead
Purpose: Looking ahead leaves an input where it is.  A run is followed up to the report that ends it,
  if one does: until then it keeps one property of the feed, and from then on another one.  Followed
  that way, a pattern that reads the current token on its own, however it reads further feeds inside,
  does nothing to the input but report errors through it and replace the state it carries, and each
  error is told with the token and the place that the input has.
Main exports: Feed.Course, Pattern.read_course, ErrorMode.hearAll, handed, heard,
  Pattern.toldAhead, Pattern.peek_stays
-/
import Duplex.Proofs.ErrorModes
import Duplex.Proofs.Watching

namespace Duplex

/-! ### Runs up to the fault that ends them -/

/-- A property `P` of a feed and of the journal that a run keeps up to the report that ends it, and
    what holds from then on, by the fault of that report. -/
structure Feed.Course {σ : Type} [Feed σ] (P : σ → Journal → Prop)
    (after : ReadFault → σ → Journal → Prop) : Prop where
  consume : ∀ {s j}, P s j → P (Feed.consume s).feed (j.addAll (Feed.consume s).notes)
  report : ∀ {s j} (message : String), P s j →
    P (Feed.report s message).feed (j.addAll (Feed.report s message).notes) ∨
    ∃ cause, (Feed.report s message).fault = some cause ∧
      after cause (Feed.report s message).feed (j.addAll (Feed.report s message).notes)
  setState : ∀ {s j} (m : StateMap), P s j → P (Feed.setState s m) j
  note : ∀ {s j n}, n.byFeed = false → P s j → P s (j.add n)
  ended : ∀ cause, Feed.Invariant (after cause)

/-- A feed is like itself on its course. -/
def Likeness.ofCourse {σ : Type} [Feed σ] {P : σ → Journal → Prop}
    {after : ReadFault → σ → Journal → Prop} (course : Feed.Course P after) : Likeness σ σ where
  alike s j t k := P s j ∧ s = t ∧ j = k
  ended := after
  kept := course.ended
  peek := by
    rintro s j t k ⟨_, rfl, rfl⟩
    rfl
  atEnd := by
    rintro s j t k ⟨_, rfl, rfl⟩
    rfl
  location := by
    rintro s j t k ⟨_, rfl, rfl⟩
    rfl
  state := by
    rintro s j t k ⟨_, rfl, rfl⟩
    rfl
  setState := by
    rintro s j t k m ⟨holds, rfl, rfl⟩
    exact ⟨course.setState m holds, rfl, rfl⟩
  note := by
    rintro s j t k n own ⟨holds, rfl, rfl⟩
    exact ⟨course.note own holds, rfl, rfl⟩
  consume := by
    rintro s j t k ⟨holds, rfl, rfl⟩
    exact ⟨rfl, rfl, course.consume holds, rfl, rfl⟩
  report := by
    rintro s j t k message ⟨holds, rfl, rfl⟩
    rcases course.report message holds with kept | ended
    · exact .inl ⟨rfl, kept, rfl, rfl⟩
    · exact .inr ended

/-- A pattern keeps to a course: where it does not keep the property, the run has ended with the
    fault. -/
theorem Pattern.read_course {σ : Type} [Feed σ] {P : σ → Journal → Prop}
    {after : ReadFault → σ → Journal → Prop} (course : Feed.Course P after) (fuel : Nat)
    (p : Pattern) {s : Session Memory σ} (start : P s.feed s.journal) :
    P ((p.read fuel).perform s).2.feed ((p.read fuel).perform s).2.journal ∨
    ∃ cause, ((p.read fuel).perform s).1 = .error (.fault cause) ∧
      after cause ((p.read fuel).perform s).2.feed ((p.read fuel).perform s).2.journal := by
  have alike : (Likeness.ofCourse course).Alike s s := ⟨rfl, start, rfl, rfl⟩
  rcases (p.read_agree fuel).together alike with ⟨_, _, kept, _, _⟩ | ended
  · exact .inl kept
  · exact .inr ended

/-! ### Notes of hooks and listeners -/

/-- The token that a note hands to a hook. -/
def Note.token? : Note → Option Token
  | .took t => some t
  | _ => none

/-- The error that a note hands to a listener. -/
def Note.error? : Note → Option ErrorRecord
  | .heard r => some r
  | _ => none

/-- The tokens handed to a hook, in order. -/
def handed (notes : List Note) : List Token :=
  notes.filterMap Note.token?

/-- The errors handed to a listener, in order. -/
def heard (notes : List Note) : List ErrorRecord :=
  notes.filterMap Note.error?

@[simp] theorem handed_append (first second : List Note) :
    handed (first ++ second) = handed first ++ handed second :=
  List.filterMap_append

@[simp] theorem heard_append (first second : List Note) :
    heard (first ++ second) = heard first ++ heard second :=
  List.filterMap_append

/-- Other notes hand nothing to anyone. -/
theorem handed_of_own {notes : List Note} (own : ∀ n ∈ notes, n.byFeed = false) :
    handed notes = [] := by
  apply List.filterMap_eq_nil_iff.mpr
  intro n mem
  have silent := own n mem
  cases n with
  | took t => cases silent
  | _ => rfl

theorem heard_of_own {notes : List Note} (own : ∀ n ∈ notes, n.byFeed = false) :
    heard notes = [] := by
  apply List.filterMap_eq_nil_iff.mpr
  intro n mem
  have silent := own n mem
  cases n with
  | heard r => cases silent
  | _ => rfl

/-! ### Errors one after the other -/

namespace ErrorMode

/-- What a mode does with errors one after the other: the fault of the first one that ends the read,
    if one does, and the mode after it. -/
def hearAll : ErrorMode → List ErrorRecord → Option ReadFault × ErrorMode
  | m, [] => (none, m)
  | m, r :: rest => if (m.hear r).1.isSome then m.hear r else (m.hear r).2.hearAll rest

/-- Whether a listener hears the errors. -/
def listens : ErrorMode → Bool
  | .listen _ => true
  | _ => false

theorem hearAll_concat (m : ErrorMode) (rs : List ErrorRecord) (r : ErrorRecord) :
    m.hearAll (rs ++ [r]) =
      if (m.hearAll rs).1.isSome then m.hearAll rs else (m.hearAll rs).2.hear r := by
  induction rs generalizing m with
  | nil =>
      rcases m with _ | latest | (_ | patience) <;> rfl
  | cons q rs ih =>
      rw [List.cons_append, hearAll, hearAll]
      cases ends : (m.hear q).1.isSome with
      | true => simp [ends]
      | false => simpa [ends] using ih (m.hear q).2

/-- A mode that has ended a read does not change any more. -/
theorem hear_of_ended {m : ErrorMode} {rs : List ErrorRecord} {cause : ReadFault}
    (ended : (m.hearAll rs).1 = some cause) (r : ErrorRecord) :
    ((m.hearAll rs).2.hear r).2 = (m.hearAll rs).2 := by
  induction rs generalizing m with
  | nil => cases ended
  | cons q rs ih =>
      rw [hearAll] at ended ⊢
      rcases m with _ | latest | (_ | patience)
      · rfl
      · exact ih ended
      · rfl
      · exact ih ended

theorem listens_hear (m : ErrorMode) (r : ErrorRecord) : (m.hear r).2.listens = m.listens := by
  rcases m with _ | latest | (_ | patience) <;> rfl

theorem listens_hearAll (m : ErrorMode) (rs : List ErrorRecord) :
    (m.hearAll rs).2.listens = m.listens := by
  induction rs generalizing m with
  | nil => rfl
  | cons r rs ih =>
      rw [hearAll]
      split
      · exact listens_hear m r
      · rw [ih, listens_hear]

end ErrorMode

namespace Input

variable {σ : Type} [Feed σ]

theorem handed_report (s : Input σ) (message : String) :
    handed (Feed.report s message).notes = [] := by
  obtain ⟨feed, tracker, mode, hooked, carried⟩ := s
  rcases mode with _ | latest | (_ | patience) <;> rfl

theorem heard_report (s : Input σ) (message : String) :
    heard (Feed.report s message).notes = if s.mode.listens then [s.record message] else [] := by
  obtain ⟨feed, tracker, mode, hooked, carried⟩ := s
  rcases mode with _ | latest | (_ | patience) <;> rfl

/-! ### Inputs at the same place -/

/-- The input in another mode and with other state, at the same place. -/
def refitted {σ : Type} (s : Input σ) (m : ErrorMode) (states : StateMap) : Input σ :=
  { s with mode := m, carried := states }

/-- Neither the mode nor the state matters for taking a token. -/
theorem consume_refitted (s : Input σ) (m : ErrorMode) (states : StateMap) :
    (Feed.consume (s.refitted m states)).token = (Feed.consume s).token ∧
    (Feed.consume (s.refitted m states)).feed = (Feed.consume s).feed.refitted m states := by
  show (consume (s.refitted m states)).token = (consume s).token ∧
    (consume (s.refitted m states)).feed = (consume s).feed.refitted m states
  unfold consume
  simp only [refitted]
  split <;> exact ⟨rfl, rfl⟩

/-- The same tokens are left, the first, the second and so on. -/
theorem token_advance_refitted (s : Input σ) (m : ErrorMode) (states : StateMap) (n : Nat) :
    (Feed.consume (Feed.advance n (s.refitted m states))).token =
      (Feed.consume (Feed.advance n s)).token := by
  induction n generalizing s with
  | zero => exact (consume_refitted s m states).1
  | succ n ih =>
      rw [Feed.advance, Feed.advance, (consume_refitted s m states).2]
      exact ih _

end Input

/-! ### One look ahead -/

/-- What a look ahead on an input has come to: the input is where it was, the mode has heard the
    errors told so far with the token and the place of the input, `fault` has come of that, no hook
    was handed anything, and a listener was handed just these errors. -/
structure Looked {σ : Type} [Feed σ] (before : Input σ) (start : Journal) (fault : Option ReadFault)
    (w : Watched (Lookahead (Input σ))) (j : Journal) : Prop where
  stays : ∃ states, w.feed.parent =
    before.refitted (before.mode.hearAll (w.told.map before.record)).2 states
  fault : (before.mode.hearAll (w.told.map before.record)).1 = fault
  handed : handed j.toList = handed start.toList
  heard : heard j.toList = heard start.toList ++
    if before.mode.listens then w.told.map before.record else []

namespace Looked

variable {σ : Type} [Feed σ] {before : Input σ} {start : Journal} {fault : Option ReadFault}
  {w : Watched (Lookahead (Input σ))} {j : Journal}

theorem consume (h : Looked before start fault w j) :
    Looked before start fault (Feed.consume w).feed (j.addAll (Feed.consume w).notes) := by
  have silent : (Feed.consume w).notes = [] := Single.notes_consume w.feed.child
  rw [silent]
  exact ⟨h.stays, h.fault, h.handed, h.heard⟩

theorem setState (m : StateMap) (h : Looked before start fault w j) :
    Looked before start fault (Feed.setState w m) j := by
  obtain ⟨states, same⟩ := h.stays
  refine ⟨⟨m, ?_⟩, h.fault, h.handed, h.heard⟩
  show Feed.setState w.feed.parent m = _
  rw [same]
  rfl

theorem note {n : Note} (own : n.byFeed = false) (h : Looked before start fault w j) :
    Looked before start fault w (j.add n) := by
  have handed : Duplex.handed [n] = [] := handed_of_own (by simpa using own)
  have heard : Duplex.heard [n] = [] := heard_of_own (by simpa using own)
  refine ⟨h.stays, h.fault, ?_, ?_⟩
  · rw [Journal.toList_add, handed_append, handed, List.append_nil, h.handed]
  · rw [Journal.toList_add, heard_append, heard, List.append_nil, h.heard]

/-- One more error is told as the input has it, and what comes of it comes of the report. -/
theorem report (message : String) (h : Looked before start fault w j) :
    Looked before start (fault.or (Feed.report w message).fault) (Feed.report w message).feed
      (j.addAll (Feed.report w message).notes) := by
  obtain ⟨states, same⟩ := h.stays
  have mode : w.feed.parent.mode = (before.mode.hearAll (w.told.map before.record)).2 := by
    rw [same]
    rfl
  have record : w.feed.parent.record message = before.record message := by
    rw [same]
    rfl
  have told : (Feed.report w message).feed.told.map before.record =
      w.told.map before.record ++ [before.record message] :=
    List.map_append
  refine ⟨⟨states, ?_⟩, ?_, ?_, ?_⟩
  · show (Feed.report w.feed.parent message).feed = _
    rw [told, Input.feed_report, ErrorMode.hearAll_concat, mode, record, same]
    cases ended : (before.mode.hearAll (w.told.map before.record)).1 with
    | none => rfl
    | some cause =>
        -- a pattern that goes on after the fault changes the mode no more
        rw [ErrorMode.hear_of_ended ended]
        rfl
  · have told' : (Feed.report w message).fault =
        ((before.mode.hearAll (w.told.map before.record)).2.hear (before.record message)).1 := by
      show (Feed.report w.feed.parent message).fault = _
      rw [Input.fault_report, mode, record]
    rw [told, ErrorMode.hearAll_concat, told', ← h.fault]
    cases ended : (before.mode.hearAll (w.told.map before.record)).1 with
    | none => rfl
    | some cause => exact ended
  · show Duplex.handed (j.addAll (Feed.report w.feed.parent message).notes).toList = _
    rw [Journal.toList_addAll, handed_append, Input.handed_report, List.append_nil, h.handed]
  · show Duplex.heard (j.addAll (Feed.report w.feed.parent message).notes).toList = _
    rw [Journal.toList_addAll, heard_append, Input.heard_report, h.heard, mode,
      ErrorMode.listens_hearAll, record, told]
    cases before.mode.listens with
    | true => simp
    | false => simp

/-- A look ahead is followed up to the report that ends it. -/
theorem course (before : Input σ) (start : Journal) :
    Feed.Course (Looked before start none) fun cause => Looked before start (some cause) where
  consume := consume
  report := by
    intro w j message h
    have next := h.report message
    cases told : (Feed.report w message).fault with
    | none =>
        rw [told] at next
        exact .inl next
    | some cause =>
        rw [told] at next
        exact .inr ⟨cause, rfl, next⟩
  setState := setState
  note := note
  ended cause :=
    { consume := consume
      report := fun message h => h.report message
      setState := setState
      note := note }

end Looked

/-! ### The check of a repetition -/

namespace Read

variable {μ σ α β τ : Type} [Feed σ]

/-- What a repetition goes on with where its check has found nothing: an item is read and gathered,
    and then the check comes again. -/
def turn (accept : τ → α → Except FoldStop τ) (item : Read μ σ (Option α))
    (again : τ → Read μ σ (Option τ)) (sofar : τ) : Read μ σ (Option τ) := do
  match ← item with
  | none => return none
  | some a =>
      match ← gather accept sofar a with
      | none => return none
      | some next => again next

theorem upTo_succ (accept : τ → α → Except FoldStop τ)
    (ending : Read μ (Lookahead σ) (Option β)) (item : Read μ σ (Option α)) (fuel : Nat)
    (sofar : τ) :
    upTo accept ending item (fuel + 1) sofar =
      (do
        if ← testPeek ending then return some sofar
        else turn accept item (upTo accept ending item fuel) sofar) :=
  rfl

theorem perform_testPeek (r : Read μ (Lookahead σ) (Option α)) (s : Session μ σ) :
    (testPeek r).perform s =
      (((peeking r).perform s).1.map Option.isSome, ((peeking r).perform s).2) := by
  unfold testPeek
  rw [perform_bind]
  rcases (peeking r).perform s with ⟨stop | result, after⟩ <;> rfl

/-- The check of a repetition looks ahead once, and goes on by what it has found. -/
theorem perform_upTo (accept : τ → α → Except FoldStop τ)
    (ending : Read μ (Lookahead σ) (Option β)) (item : Read μ σ (Option α)) (fuel : Nat) (sofar : τ)
    (s : Session μ σ) :
    let look := (peeking ending).perform s
    (∀ b, look.1 = .ok (some b) →
      (upTo accept ending item (fuel + 1) sofar).perform s = (.ok (some sofar), look.2)) ∧
    (look.1 = .ok none →
      (upTo accept ending item (fuel + 1) sofar).perform s =
        (turn accept item (upTo accept ending item fuel) sofar).perform look.2) ∧
    ∀ stop, look.1 = .error stop →
      (upTo accept ending item (fuel + 1) sofar).perform s = (.error stop, look.2) := by
  intro look
  have test : (testPeek ending).perform s = (look.1.map Option.isSome, look.2) :=
    perform_testPeek ending s
  rw [upTo_succ, perform_bind, test]
  refine ⟨?_, ?_, ?_⟩
  · intro b found
    rw [found]
    rfl
  · intro nothing
    rw [nothing]
    rfl
  · intro stop stopped
    rw [stopped]
    rfl

end Read

namespace Pattern

variable {σ : Type} [Feed σ]

/-- The messages that a pattern reports while it looks ahead on an input, in order. -/
def toldAhead (fuel : Nat) (p : Pattern) (t : Session Memory (Input σ)) : List String :=
  ((p.read fuel).perform { t with feed := Watched.of (Lookahead.of t.feed) }).2.feed.told

/-- Looking ahead runs the pattern on the current token alone. -/
theorem perform_peeking (fuel : Nat) (p : Pattern) (t : Session Memory (Input σ)) :
    let run := (p.read fuel).perform { t with feed := Watched.of (Lookahead.of t.feed) }
    (Read.peeking (p.read fuel)).perform t =
      (run.1, ⟨run.2.feed.feed.parent, run.2.memory, run.2.journal⟩) := by
  intro run
  have same : (p.read fuel).perform { t with feed := Lookahead.of t.feed } =
      (run.1, run.2.unwatched) :=
    p.read_watched fuel { t with feed := Watched.of (Lookahead.of t.feed) }
  unfold Read.peeking
  rw [Read.perform_inside, same]
  rfl

/-- What a look ahead has come to, whatever its outcome. -/
theorem looked (fuel : Nat) (p : Pattern) (t : Session Memory (Input σ)) :
    let run := (p.read fuel).perform { t with feed := Watched.of (Lookahead.of t.feed) }
    ∃ fault, Looked t.feed t.journal fault run.2.feed run.2.journal ∧
      ∀ cause ∈ fault, run.1 = .error (.fault cause) := by
  intro run
  have start : Looked t.feed t.journal none (Watched.of (Lookahead.of t.feed)) t.journal :=
    ⟨⟨t.feed.carried, rfl⟩, rfl, rfl, by simp [Watched.of]⟩
  rcases p.read_course (Looked.course t.feed t.journal) fuel
    (s := { t with feed := Watched.of (Lookahead.of t.feed) }) start with goes | ⟨cause, ends, after⟩
  · exact ⟨none, goes, by simp⟩
  · refine ⟨some cause, after, ?_⟩
    rintro cause ⟨rfl⟩
    exact ends

/-- Looking ahead never moves the input.  After a pattern has looked ahead, and whatever came of it,
    the input has the same tokens left and the same current token, end and place, and no hook was
    handed anything.  All errors told meanwhile were heard by the input's mode, in order, with the
    token and the place of the input; the read ended with the one that the mode takes for a fault, and
    a listener was handed them all.  A test at the current token and the check of a repetition up to
    an ending are such looks, and do nothing else. -/
theorem peek_stays (fuel : Nat) (p : Pattern) (t : Session Memory (Input σ)) :
    let look := ((Pattern.peek p).read (fuel + 1)).perform t
    let before := t.feed
    let after := look.2.feed
    let errors := (p.toldAhead fuel t).map fun message =>
      (⟨Feed.peek before, Feed.location before, message⟩ : ErrorRecord)
    (after.feed = before.feed ∧
      (∀ n, (Feed.consume (Feed.advance n after)).token =
        (Feed.consume (Feed.advance n before)).token) ∧
      Feed.peek after = Feed.peek before ∧ Feed.atEnd after = Feed.atEnd before ∧
      Feed.location after = Feed.location before) ∧
    handed look.2.journal.toList = handed t.journal.toList ∧
    (after.mode = (before.mode.hearAll errors).2 ∧
      (∀ cause, (before.mode.hearAll errors).1 = some cause → look.1 = .error (.fault cause)) ∧
      heard look.2.journal.toList =
        heard t.journal.toList ++ if before.mode.listens then errors else []) ∧
    (Read.testPeek (p.read fuel)).perform t = (look.1.map Option.isSome, look.2) ∧
    ∀ {α τ : Type} (accept : τ → α → Except FoldStop τ) (item : Read Memory (Input σ) (Option α))
      (turns : Nat) (sofar : τ),
      let loop := Read.upTo accept (p.read fuel) item
      (∀ v, look.1 = .ok (some v) → (loop (turns + 1) sofar).perform t = (.ok (some sofar), look.2)) ∧
      (look.1 = .ok none → (loop (turns + 1) sofar).perform t =
        (Read.turn accept item (loop turns) sofar).perform look.2) ∧
      ∀ stop, look.1 = .error stop → (loop (turns + 1) sofar).perform t = (.error stop, look.2) := by
  intro look before after errors
  have peeked : look = (Read.peeking (p.read fuel)).perform t := rfl
  obtain ⟨fault, ⟨⟨states, stays⟩, ended, noHook, listener⟩, ends⟩ := p.looked fuel t
  have result := p.perform_peeking fuel t
  refine ⟨?_, ?_, ⟨?_, ?_, ?_⟩, Read.perform_testPeek _ t, ?_⟩
  · have same : after = before.refitted (before.mode.hearAll errors).2 states := by
      show look.2.feed = _
      rw [peeked, result]
      exact stays
    rw [same]
    exact ⟨rfl, Input.token_advance_refitted before _ states, rfl, rfl, rfl⟩
  · rw [peeked, result]
    exact noHook
  · show look.2.feed.mode = _
    rw [peeked, result]
    show Input.mode _ = _
    rw [stays]
    rfl
  · intro cause fails
    rw [peeked, result]
    apply ends
    rw [← ended]
    exact fails
  · rw [peeked, result]
    exact listener
  · intro α τ accept item turns sofar
    exact Read.perform_upTo accept (p.read fuel) item turns sofar t

/-- Looking for an `a` where an `x` stands reports so, and then drops the token it looks at, but only
    for itself: the input keeps the error and still has the `x` to hand out. -/
theorem peek_stays_strayed :
    let p : Pattern := .insist (.equal (.char 'a')) fun _ => "want a"
    let t : Session Memory (Input Slice) := ⟨Grammar.strayed.collecting, .empty, .empty⟩
    let look := ((Pattern.peek p).read 4).perform t
    look.1 = .ok none ∧
    look.2.feed.mode = .collect [⟨.char 'x', some ⟨"t", 1, 0, 0⟩, "want a"⟩] ∧
    (Feed.consume look.2.feed).token = some (.char 'x') ∧
    handed look.2.journal.toList = [] ∧
    (Read.upTo Tally.accept (p.read 3) ((Pattern.satisfy .any).read 1) 1 (.list [])).perform t =
      (Read.turn Tally.accept ((Pattern.satisfy .any).read 1) (fun _ => Read.exhausted)
        (.list [])).perform look.2 := by
  intro p t look
  have found : look.1 = .ok none := rfl
  obtain ⟨⟨_, left, _⟩, unhooked, ⟨heard, _⟩, _, check⟩ := peek_stays 3 p t
  refine ⟨found, ?_, left 0, unhooked, ?_⟩
  · exact heard
  · exact (check Tally.accept ((Pattern.satisfy .any).read 1) 0 (.list [])).2.1 found

end Pattern

end Duplex
