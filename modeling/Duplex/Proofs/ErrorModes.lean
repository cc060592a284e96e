/-
Module: Duplex.Proofs.ErrorModes
Purpose: The error modes of inputs agree.  A grammar reads the same in every mode up to the first
  report that ends the read: a raising input ends with the first error that a collecting one keeps,
  and a listening input with the first one that its patience does not cover.
Main exports: ErrorRecord.raised, ErrorMode.hear, Input.inMode, ModePairing,
  ModePairing.likeness, Grammar.readFrom_paired, Grammar.readFrom_raising,
  Grammar.readFrom_listening, Grammar.readFrom_errorModes
-/
import Duplex.Proofs.Likeness.Pattern

namespace Duplex

/-! ### What a report does in each mode -/

/-- The fault that an error becomes where it ends the read. -/
def ErrorRecord.raised (r : ErrorRecord) : ReadFault :=
  match r.location with
  | some place => .located place r.message
  | none => .failed ("parse fail near `" ++ r.token.quoted ++ "`: " ++ r.message)

/-- What a mode does with an error: the fault that ends the read, if any, and the mode after it. -/
def ErrorMode.hear : ErrorMode → ErrorRecord → Option ReadFault × ErrorMode
  | .raise, r => (some r.raised, .raise)
  | .collect latest, r => (none, .collect (r :: latest))
  | .listen 0, r => (some (.failed ("listener: " ++ r.message)), .listen 0)
  | .listen (patience + 1), _ => (none, .listen patience)

namespace Input

variable {σ : Type} [Feed σ]

/-- The same input in another mode. -/
def inMode {σ : Type} (s : Input σ) (m : ErrorMode) : Input σ :=
  { s with mode := m }

/-- The error that a report makes of a message. -/
def record (s : Input σ) (message : String) : ErrorRecord :=
  ⟨Feed.peek s.feed, s.place, message⟩

theorem fault_report (s : Input σ) (message : String) :
    (Feed.report s message).fault = (s.mode.hear (s.record message)).1 := by
  obtain ⟨feed, tracker, mode, hooked, carried⟩ := s
  rcases mode with _ | latest | (_ | patience) <;> rfl

theorem feed_report (s : Input σ) (message : String) :
    (Feed.report s message).feed = s.inMode (s.mode.hear (s.record message)).2 := by
  obtain ⟨feed, tracker, mode, hooked, carried⟩ := s
  rcases mode with _ | latest | (_ | patience) <;> rfl

/-- Taking a token neither looks at the mode nor changes it. -/
theorem consume_inMode (s : Input σ) (m : ErrorMode) :
    Feed.consume (s.inMode m) =
      { token := (Feed.consume s).token
        feed := (Feed.consume s).feed.inMode m
        notes := (Feed.consume s).notes
        halt := (Feed.consume s).halt } := by
  show consume (s.inMode m) =
    ⟨(consume s).token, (consume s).feed.inMode m, (consume s).notes, (consume s).halt⟩
  unfold consume
  simp only [inMode]
  split <;> rfl

theorem mode_consume (s : Input σ) : (Feed.consume s).feed.mode = s.mode := by
  show (consume s).feed.mode = s.mode
  unfold consume
  dsimp only
  split <;> rfl

theorem isSome_tracker_consume (s : Input σ) :
    (Feed.consume s).feed.tracker.isSome = s.tracker.isSome := by
  show (consume s).feed.tracker.isSome = s.tracker.isSome
  unfold consume
  dsimp only
  split
  · rfl
  · exact Option.isSome_map

end Input

/-! ### Two modes side by side -/

/-- How a mode goes along with keeping the errors.  `pairs` relates the errors kept so far, the latest
    one first, to the mode as long as that lets the read go on; `gone` is what is known of the errors
    once it has ended the read by a fault. -/
structure ModePairing where
  pairs : List ErrorRecord → ErrorMode → Prop
  gone : ReadFault → List ErrorRecord → Prop
  hear : ∀ {latest m} (r : ErrorRecord), pairs latest m →
    ((m.hear r).1 = none ∧ pairs (r :: latest) (m.hear r).2) ∨
    ∃ cause, (m.hear r).1 = some cause ∧ gone cause (r :: latest)
  more : ∀ {cause latest} (r : ErrorRecord), gone cause latest → gone cause (r :: latest)

namespace ModePairing

open Input

variable {σ : Type} [Feed σ]

/-- A collecting input is like the same input in a mode that goes along with it. -/
def likeness (P : ModePairing) : Likeness (Input σ) (Input σ) where
  alike s _ t _ := ∃ latest m, s.mode = .collect latest ∧ t = s.inMode m ∧ P.pairs latest m
  ended cause s _ := ∃ latest, s.mode = .collect latest ∧ P.gone cause latest
  kept cause :=
    { consume := fun {s j} ⟨latest, mode, h⟩ => ⟨latest, by rw [mode_consume, mode], h⟩
      report := fun {s j} message ⟨latest, mode, h⟩ => by
        refine ⟨s.record message :: latest, ?_, P.more _ h⟩
        rw [feed_report, mode]
        rfl
      setState := fun m h => h
      note := fun _ h => h }
  peek := by
    rintro s j t k ⟨latest, m, mode, rfl, h⟩
    rfl
  atEnd := by
    rintro s j t k ⟨latest, m, mode, rfl, h⟩
    rfl
  location := by
    rintro s j t k ⟨latest, m, mode, rfl, h⟩
    rfl
  state := by
    rintro s j t k ⟨latest, m, mode, rfl, h⟩
    rfl
  setState := by
    rintro s j t k states ⟨latest, m, mode, rfl, h⟩
    exact ⟨latest, m, mode, rfl, h⟩
  note := by
    rintro s j t k n _ ⟨latest, m, mode, rfl, h⟩
    exact ⟨latest, m, mode, rfl, h⟩
  consume := by
    rintro s j t k ⟨latest, m, mode, rfl, h⟩
    rw [consume_inMode]
    exact ⟨rfl, rfl, latest, m, by rw [mode_consume, mode], rfl, h⟩
  report := by
    rintro s j t k message ⟨latest, m, mode, rfl, h⟩
    have kept : (Feed.report s message).feed.mode = .collect (s.record message :: latest) := by
      rw [feed_report, mode]
      rfl
    have quiet : (Feed.report s message).fault = none := by
      rw [fault_report, mode]
      rfl
    have heard : (Feed.report (s.inMode m) message).fault = (m.hear (s.record message)).1 :=
      fault_report (s.inMode m) message
    rcases P.hear (s.record message) h with ⟨goesOn, paired⟩ | ⟨cause, ends, known⟩
    · refine .inl ⟨by rw [quiet, heard, goesOn], _, _, kept, ?_, paired⟩
      rw [feed_report, feed_report]
      rfl
    · exact .inr ⟨cause, by rw [heard, ends], _, kept, known⟩

/-- The error numbered `index` among the errors kept was told as `cause`. -/
def Told (told : ErrorRecord → ReadFault) (index : Nat) (cause : ReadFault)
    (latest : List ErrorRecord) : Prop :=
  ∃ record, latest.reverse[index]? = some record ∧ cause = told record

/-- Later errors do not change the number of an earlier one. -/
theorem Told.more {told : ErrorRecord → ReadFault} {index : Nat} {cause : ReadFault}
    {latest : List ErrorRecord} (r : ErrorRecord) (h : Told told index cause latest) :
    Told told index cause (r :: latest) := by
  obtain ⟨record, found, same⟩ := h
  have bound : index < latest.reverse.length := (List.getElem?_eq_some_iff.mp found).1
  refine ⟨record, ?_, same⟩
  rw [List.reverse_cons, List.getElem?_append_left bound, found]

/-- The latest error has the number of errors before it. -/
theorem Told.latest (told : ErrorRecord → ReadFault) (latest : List ErrorRecord)
    (r : ErrorRecord) : Told told latest.length (told r) (r :: latest) := by
  refine ⟨r, ?_, rfl⟩
  rw [List.reverse_cons, List.getElem?_append_right (by simp)]
  simp

/-- Raising goes along as long as there is no error; the first one ends the read. -/
def raising : ModePairing where
  pairs latest m := latest = [] ∧ m = .raise
  gone := Told ErrorRecord.raised 0
  hear := by
    rintro latest m r ⟨rfl, rfl⟩
    exact .inr ⟨r.raised, rfl, Told.latest _ [] r⟩
  more := Told.more

/-- The fault of a listener that has lost its patience. -/
def unheard (r : ErrorRecord) : ReadFault :=
  .failed ("listener: " ++ r.message)

/-- Listening goes along as long as patience is left; the first error beyond it ends the read. -/
def listening (patience : Nat) : ModePairing where
  pairs latest m := ∃ left, m = .listen left ∧ latest.length + left = patience
  gone := Told unheard patience
  hear := by
    rintro latest m r ⟨_ | left, rfl, total⟩
    · subst total
      exact .inr ⟨unheard r, rfl, Told.latest unheard latest r⟩
    · refine .inl ⟨rfl, left, rfl, ?_⟩
      rw [List.length_cons]
      omega
  more := Told.more

end ModePairing

/-! ### Runs in different modes -/

namespace Grammar

open Input

variable {σ : Type} [Feed σ]

/-- A collecting run beside the run on the same input in a mode that goes along with no errors: either
    both come out alike, or a fault ends the other one. -/
theorem readFrom_paired (P : ModePairing) (g : Grammar) (s : Input σ) {m : ErrorMode}
    (start : P.pairs [] m) {errors : List ErrorRecord}
    (kept : (g.readFrom s.collecting).feed.mode = .collect errors) :
    (∃ after, P.pairs errors after ∧
      (g.readFrom (s.inMode m)).result = (g.readFrom s.collecting).result ∧
      (g.readFrom (s.inMode m)).memory = (g.readFrom s.collecting).memory ∧
      (g.readFrom (s.inMode m)).feed = (g.readFrom s.collecting).feed.inMode after) ∨
    ∃ cause, P.gone cause errors ∧ (g.readFrom (s.inMode m)).result = .error (.fault cause) := by
  have alike : P.likeness.Alike (⟨s.collecting, g.memory, .empty⟩ : Session Memory (Input σ))
      ⟨s.inMode m, g.memory, .empty⟩ :=
    ⟨rfl, [], m, rfl, rfl, start⟩
  rcases (g.pattern.read_agree g.fuel).together alike with
    ⟨result, memory, latest, after, mode, feed, paired⟩ | ⟨cause, result, latest, mode, known⟩
  · have same : latest = errors := ErrorMode.collect.inj (mode.symm.trans kept)
    exact .inl ⟨after, same ▸ paired, result.symm, memory.symm, feed⟩
  · have same : latest = errors := ErrorMode.collect.inj (mode.symm.trans kept)
    exact .inr ⟨cause, same ▸ known, result⟩

/-- A collecting run keeps collecting; the errors it keeps have places exactly if the input tracks
    places. -/
theorem readFrom_collecting (g : Grammar) (s : Input σ) :
    ∃ errors, (g.readFrom s.collecting).feed.mode = .collect errors ∧
      ∀ r ∈ errors, r.location.isSome = s.tracker.isSome := by
  let Kept : Input σ → Journal → Prop := fun t _ =>
    t.tracker.isSome = s.tracker.isSome ∧
    ∃ latest, t.mode = .collect latest ∧ ∀ r ∈ latest, r.location.isSome = s.tracker.isSome
  have inv : Feed.Invariant Kept :=
    { consume := fun {t j} ⟨tracked, latest, mode, h⟩ =>
        ⟨by rw [isSome_tracker_consume, tracked], latest, by rw [mode_consume, mode], h⟩
      report := fun {t j} message ⟨tracked, latest, mode, h⟩ => by
        rw [feed_report, mode]
        refine ⟨tracked, t.record message :: latest, rfl, ?_⟩
        intro r hr
        rcases List.mem_cons.mp hr with rfl | old
        · rw [← tracked]
          exact Option.isSome_map
        · exact h r old
      setState := fun m h => h
      note := fun _ h => h }
  have start : Kept s.collecting .empty := ⟨rfl, [], rfl, by simp⟩
  exact (g.pattern.read_keeps inv g.fuel (s := ⟨s.collecting, g.memory, .empty⟩) start).2

/-- A raising run beside the collecting one: it is the same without errors, and ends with the first
    one otherwise. -/
theorem readFrom_raising (g : Grammar) (s : Input σ) {latest : List ErrorRecord}
    (mode : (g.readFrom s.collecting).feed.mode = .collect latest) :
    (latest = [] →
      (g.readFrom (s.inMode .raise)).result = (g.readFrom s.collecting).result ∧
      (g.readFrom (s.inMode .raise)).memory = (g.readFrom s.collecting).memory ∧
      (g.readFrom (s.inMode .raise)).feed = (g.readFrom s.collecting).feed.inMode .raise) ∧
    ∀ first, latest.reverse[0]? = some first →
      (g.readFrom (s.inMode .raise)).result = .error (.fault first.raised) := by
  rcases g.readFrom_paired .raising s ⟨rfl, rfl⟩ mode with
    ⟨after, ⟨none, rfl⟩, same⟩ | ⟨cause, ⟨record, told, rfl⟩, ended⟩
  · refine ⟨fun _ => same, fun first found => ?_⟩
    rw [none] at found
    cases found
  · constructor
    · intro none
      rw [none] at told
      cases told
    · intro first found
      rw [told] at found
      cases found
      exact ended

/-- A listening run beside the collecting one: it is the same as long as there is patience, and ends
    with the first error beyond it. -/
theorem readFrom_listening (g : Grammar) (s : Input σ) (patience : Nat)
    {latest : List ErrorRecord}
    (mode : (g.readFrom s.collecting).feed.mode = .collect latest) :
    (latest.length ≤ patience →
      (g.readFrom (s.inMode (.listen patience))).result = (g.readFrom s.collecting).result ∧
      (g.readFrom (s.inMode (.listen patience))).memory = (g.readFrom s.collecting).memory ∧
      (g.readFrom (s.inMode (.listen patience))).feed =
        (g.readFrom s.collecting).feed.inMode (.listen (patience - latest.length))) ∧
    ∀ record, latest.reverse[patience]? = some record →
      (g.readFrom (s.inMode (.listen patience))).result =
        .error (.fault (ModePairing.unheard record)) := by
  have start : (ModePairing.listening patience).pairs [] (.listen patience) :=
    ⟨patience, rfl, by simp⟩
  have beyond : ∀ record, latest.reverse[patience]? = some record → patience < latest.length := by
    intro record found
    rw [← List.length_reverse]
    exact (List.getElem?_eq_some_iff.mp found).1
  rcases g.readFrom_paired _ s start mode with
    ⟨after, ⟨left, rfl, total⟩, same⟩ | ⟨cause, ⟨record, told, rfl⟩, ended⟩
  · constructor
    · intro _
      have rest : patience - latest.length = left := by omega
      rw [rest]
      exact same
    · intro record found
      have := beyond record found
      omega
  · constructor
    · intro covered
      have := beyond record told
      omega
    · intro other found
      rw [told] at found
      cases found
      exact ended

/-- The modes agree.  A raising run is the collecting one as long as nothing is reported, and
    otherwise ends with the first error kept, told with its place on inputs that track places and
    with its token on others; a listening run is the collecting one as long as its patience covers
    the errors, and otherwise ends with the first error beyond it. -/
theorem readFrom_errorModes (g : Grammar) (s : Input σ) :
    let collected := g.readFrom s.collecting
    let errors := collected.feed.takeErrors.1
    let raised := g.readFrom (s.inMode .raise)
    (errors = [] → raised.result = collected.result ∧ raised.memory = collected.memory ∧
      raised.feed = collected.feed.inMode .raise) ∧
    (∀ first rest, errors = first :: rest →
      first.location.isSome = s.tracker.isSome ∧ raised.result = .error (.fault first.raised)) ∧
    ∀ patience,
      let heard := g.readFrom (s.inMode (.listen patience))
      (errors.length ≤ patience → heard.result = collected.result ∧
        heard.memory = collected.memory ∧
        heard.feed = collected.feed.inMode (.listen (patience - errors.length))) ∧
      ∀ record, errors[patience]? = some record →
        heard.result = .error (.fault (.failed ("listener: " ++ record.message))) := by
  intro collected errors raised
  obtain ⟨latest, mode, located⟩ := g.readFrom_collecting s
  have kept : errors = latest.reverse := by
    show (g.readFrom s.collecting).feed.takeErrors.1 = _
    simp only [takeErrors, mode]
  obtain ⟨alike, ends⟩ := g.readFrom_raising s mode
  refine ⟨?_, ?_, ?_⟩
  · intro none
    rw [kept, List.reverse_eq_nil_iff] at none
    exact alike none
  · intro first rest some
    have member : first ∈ latest := by
      rw [← List.mem_reverse, ← kept, some]
      exact List.mem_cons_self
    refine ⟨located first member, ends first ?_⟩
    rw [← kept, some]
    rfl
  · intro patience heard
    have length : errors.length = latest.length := by rw [kept, List.length_reverse]
    rw [length, kept]
    exact g.readFrom_listening s patience mode

/-- Two characters to be found, with a report about what stands in the way of each. -/
def insisting : Grammar :=
  { pattern := .tuple
      [.insist (.equal (.char 'a')) fun _ => "want a", .insist (.equal (.char 'b')) fun _ => "want b"]
    memory := .empty
    fuel := 6 }

/-- The text `xayb`, where both characters have to be looked for. -/
def strayed : Input Slice :=
  .ofFeed ⟨#[.char 'x', .char 'a', .char 'y', .char 'b'], 0, by decide⟩ (some (.start "t" {}))

/-- Two errors are kept: raising ends with the first of them, patience for one with the second, and
    patience for two goes on to the end.  Where any character will do, nothing is reported. -/
theorem readFrom_errorModes_strayed :
    (insisting.readFrom strayed.collecting).feed.takeErrors.1 =
      [⟨.char 'x', some ⟨"t", 1, 0, 0⟩, "want a"⟩, ⟨.char 'y', some ⟨"t", 1, 2, 2⟩, "want b"⟩] ∧
    (insisting.readFrom (strayed.inMode .raise)).result =
      .error (.fault (.located ⟨"t", 1, 0, 0⟩ "want a")) ∧
    (insisting.readFrom (strayed.inMode (.listen 1))).result =
      .error (.fault (.failed "listener: want b")) ∧
    (insisting.readFrom (strayed.inMode (.listen 2))).result =
      .ok (some (.tuple [.char 'a', .char 'b'])) ∧
    ({ insisting with pattern := .satisfy .any }.readFrom (strayed.inMode .raise)).result =
      .ok (some (.char 'x')) := by
  have modes := readFrom_errorModes insisting strayed
  have errors : (insisting.readFrom strayed.collecting).feed.takeErrors.1 =
      [⟨.char 'x', some ⟨"t", 1, 0, 0⟩, "want a"⟩, ⟨.char 'y', some ⟨"t", 1, 2, 2⟩, "want b"⟩] := rfl
  have plain := readFrom_errorModes { insisting with pattern := .satisfy .any } strayed
  refine ⟨errors, (modes.2.1 _ _ errors).2, ?_, ?_, ?_⟩
  · exact (modes.2.2 1).2 _ (by rw [errors]; rfl)
  · exact ((modes.2.2 2).1 (by rw [errors]; decide)).1
  · exact (plain.1 rfl).1

end Grammar

end Duplex
