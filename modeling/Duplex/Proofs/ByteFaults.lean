/-
Module: Duplex.Proofs.ByteFaults
Purpose: Reading from bytes that fail.  The feed ends early where its bytes do, and keeps the fault from
  the moment its last character is taken, whatever the grammar does.  Such a fault takes the place of
  whatever was read, also of nothing; an error that the grammar met itself stands before it.
Main exports: Characters.Keeps, Pattern.read_keeps_fault, Grammar.readBytes_faults
-/
import Duplex.Proofs.Pieces

namespace Duplex

/-! ### The bytes -/

/-- Nothing is wrong only with bytes that end in time and are all of them part of the text. -/
theorem Text.ByteSource.decode_sound_iff (source : Text.ByteSource) :
    source.decode.2 = none ↔ source.closing = .finished ∧
      source.chunks.flatten = source.decode.1.flatMap String.utf8EncodeChar :=
  source.pieces_decodes.sound_iff

/-! ### The feed -/

/-- The feed ends with the fault, if with any, and has met it just if all its characters were taken. -/
def Characters.Keeps (ending : Option Text.ByteFault) (s : Characters) : Prop :=
  if s.drained then s.fault = ending else s.fault = none ∧ s.ending = ending

namespace Characters.Keeps

variable {ending : Option Text.ByteFault}

/-- With the last character the fault is met; before and after it nothing changes. -/
theorem consume {s : Characters} (keeps : s.Keeps ending) : (Feed.consume s).feed.Keeps ending := by
  obtain ⟨rest, behind, held, drained, fault⟩ := s
  cases drained with
  | true => exact keeps
  | false =>
      obtain ⟨rfl, rfl⟩ : fault = none ∧ behind = ending := keeps
      cases rest with
      | cons c rest => exact ⟨rfl, rfl⟩
      | nil =>
          cases behind with
          | none => exact rfl
          | some cause => exact rfl

/-- Nothing a grammar does to an input of the characters loses the fault. -/
theorem invariant (ending : Option Text.ByteFault) :
    Feed.Invariant fun (s : Input Characters) _ => s.feed.Keeps ending where
  consume {s _} keeps := by
    obtain ⟨_, ⟨feed, _⟩ | ⟨feed, _⟩⟩ := s.consume_cases
    · rw [feed]
      exact keeps.consume
    · -- a line feed is swallowed
      rw [feed]
      exact keeps.consume.consume
  report {s _} message keeps := by
    rw [Input.feed_report]
    exact keeps
  setState _ keeps := keeps
  note _ keeps := keeps

theorem fault_eq_some_iff {s : Characters} (keeps : s.Keeps ending) (fault : Text.ByteFault) :
    s.fault = some fault ↔ Feed.atEnd s = true ∧ ending = some fault := by
  change _ ↔ s.drained = true ∧ _
  unfold Keeps at keeps
  split at keeps
  · rename_i drained
    simp [keeps, drained]
  · rename_i holding
    simp [keeps.1, holding]

end Characters.Keeps

/-- However a read ends, the feed has met the fault of its bytes just if it was read to its end. -/
theorem Pattern.read_keeps_fault {ending : Option Text.ByteFault} (fuel : Nat) (p : Pattern)
    {s : Session Memory (Input Characters)} (keeps : s.feed.feed.Keeps ending) :
    ((p.read fuel).perform s).2.feed.feed.Keeps ending :=
  p.read_keeps (Characters.Keeps.invariant ending) fuel keeps

/-! ### Making the input -/

theorem Input.ofBytes_of_nil {source : Text.ByteSource} (none : source.decode.1 = []) (file : String) :
    Input.ofBytes source file =
      .error (source.decode.2.elim .emptyInput fun fault => .source fault.message) := by
  show (do return Input.ofFeed (← Characters.ofChars source.decode) _) = _
  cases decoded : source.decode with
  | mk chars ending =>
      obtain rfl : chars = [] := by rw [← none, decoded]
      cases ending <;> rfl

theorem Input.ofBytes_ok {source : Text.ByteSource} (nonempty : source.decode.1 ≠ []) (file : String) :
    ∃ input, Input.ofBytes source file = .ok input ∧
      remaining input.feed = source.decode.1.map .char ∧ input.feed.Keeps source.decode.2 := by
  obtain ⟨c, rest, chars⟩ := List.exists_cons_of_ne_nil nonempty
  have decoded : source.decode = (c :: rest, source.decode.2) := by rw [← chars]
  have made : Characters.ofBytes source = .ok ⟨rest, source.decode.2, c, false, none⟩ := by
    show Characters.ofChars source.decode = _
    rw [decoded]
    rfl
  refine ⟨.ofFeed ⟨rest, source.decode.2, c, false, none⟩ (some (.start file {})), ?_, ?_, rfl, rfl⟩
  · rw [ofBytes, made]
    rfl
  · rw [chars]
    rfl

/-! ### Reading -/

namespace Grammar

/-- A fault that was met takes the place of what was read. -/
theorem readBytes_of_ok {source : Text.ByteSource} {file : String} {g : Grammar}
    {input : Input Characters} (made : Input.ofBytes source file = .ok input) {v : Option Value}
    (read : (g.readFrom input).result = .ok v) {fault : Text.ByteFault}
    (met : (g.readFrom input).feed.feed.fault = some fault) :
    (g.readBytes source file).result = .error (.fault (.source fault.message)) := by
  rw [readBytes, made]
  dsimp only
  rw [read, met]

/-- Where none was met, or the read stopped, the answer is that of the read. -/
theorem readBytes_of_read {source : Text.ByteSource} {file : String} {g : Grammar}
    {input : Input Characters} (made : Input.ofBytes source file = .ok input)
    (stands : (∃ stop, (g.readFrom input).result = .error stop) ∨
      (g.readFrom input).feed.feed.fault = none) :
    (g.readBytes source file).result = (g.readFrom input).result := by
  rw [readBytes, made]
  dsimp only
  split
  · rename_i v fault read met
    rcases stands with ⟨stop, stopped⟩ | unmet
    · rw [stopped] at read
      cases read
    · rw [unmet] at met
      cases met
  · rfl

/-- Whatever was met, the memory and the notes are those of the read. -/
theorem readBytes_leaves {source : Text.ByteSource} {file : String} {g : Grammar}
    {input : Input Characters} (made : Input.ofBytes source file = .ok input) :
    (g.readBytes source file).memory = (g.readFrom input).memory ∧
      (g.readBytes source file).notes = (g.readFrom input).notes := by
  rw [readBytes, made]
  dsimp only
  split <;> exact ⟨rfl, rfl⟩

/-- Reading from bytes.  Nothing is wrong with bytes that end in time and are all of a text; others come
    with a fault behind the characters they begin with.  Without a character the fault is all that
    there is.  Else, however the read ends, the feed has met the fault just if all characters were
    taken.  A fault that was met takes the place of what was read, be it a value or nothing; a read
    that stopped by itself stays as it is, and so does one that met no fault. -/
theorem readBytes_faults (g : Grammar) (source : Text.ByteSource) (file : String) :
    let answer := g.readBytes source file
    (source.decode.2 = none ↔ source.closing = .finished ∧
      source.chunks.flatten = source.decode.1.flatMap String.utf8EncodeChar) ∧
    (source.decode.1 = [] → answer = g.refuse
      (.fault (source.decode.2.elim .emptyInput fun fault => .source fault.message))) ∧
    (source.decode.1 ≠ [] → ∃ input,
      Input.ofBytes source file = .ok input ∧ remaining input.feed = source.decode.1.map .char ∧
      let read := g.readFrom input
      let met := read.feed.feed.fault
      (∀ fault, met = some fault ↔ Feed.atEnd read.feed = true ∧ source.decode.2 = some fault) ∧
      (∀ v fault, read.result = .ok v → met = some fault →
        answer.result = .error (.fault (.source fault.message))) ∧
      (∀ stop, read.result = .error stop → answer.result = .error stop) ∧
      (met = none → answer.result = read.result) ∧
      answer.memory = read.memory ∧ answer.notes = read.notes) := by
  intro answer
  refine ⟨source.decode_sound_iff, ?_, ?_⟩
  · intro none
    show g.readBytes source file = _
    rw [readBytes, Input.ofBytes_of_nil none]
  · intro some
    obtain ⟨input, made, left, keeps⟩ := Input.ofBytes_ok some file
    have kept : (g.readFrom input).feed.feed.Keeps source.decode.2 :=
      g.pattern.read_keeps_fault g.fuel (s := { feed := input, memory := g.memory }) keeps
    refine ⟨input, made, left, kept.fault_eq_some_iff, ?_, ?_, ?_, readBytes_leaves made⟩
    · intro v fault read met
      exact readBytes_of_ok made read met
    · intro stop stopped
      exact (readBytes_of_read made (.inl ⟨stop, stopped⟩)).trans stopped
    · intro unmet
      exact readBytes_of_read made (.inr unmet)

/-- A letter, and behind it a byte that begins no character. -/
def letterCut : Text.ByteSource :=
  ⟨[[0x61, 0xff]], .finished⟩

/-- The letter is read, and the byte behind it is the answer. -/
theorem readBytes_faults_letterCut :
    (readBytes ⟨.satisfy .any, .empty, 2⟩ letterCut "t").result =
      .error (.fault (.source "buffered_chars: invalid byte sequence: [ff]")) := by
  obtain ⟨_, _, reads⟩ := readBytes_faults ⟨.satisfy .any, .empty, 2⟩ letterCut "t"
  obtain ⟨input, made, _, _, answers, _⟩ := reads (by decide)
  obtain rfl : input = .ofFeed ⟨[], some (.invalid [0xff]), 'a', false, none⟩
      (some (.start "t" {})) := by
    cases made
    rfl
  exact answers (some (.char 'a')) (.invalid [0xff]) rfl rfl

/-- Any character, and then one that has to be there. -/
def insistent : Grammar :=
  ⟨.tuple [.satisfy .any, .insist (.equal (.char 'b')) fun _ => "want b"], .empty, 3⟩

/-- The fault is met when the letter is taken, but the answer is the error about what is missing behind
    the letter. -/
theorem readBytes_loses_fault :
    ∃ input, Input.ofBytes letterCut "t" = .ok input ∧
      (insistent.readFrom input).feed.feed.fault = some (.invalid [0xff]) ∧
      (insistent.readBytes letterCut "t").result =
        .error (.fault (.located ⟨"t", 1, 1, 1⟩ "want b")) :=
  ⟨_, rfl, rfl, rfl⟩

end Grammar

end Duplex
