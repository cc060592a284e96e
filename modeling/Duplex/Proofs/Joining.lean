/-
Module: Duplex.Proofs.Joining
Purpose: Items with separators between them.  The calls that a join makes of its parts are listed with
  their answers: the items it gives are those that were read or supplied, its separators those that
  were read, but for one that may end the list.  There always is one item more than separators, so
  that what was read can be written, in turn, each part by its own pattern.
Main exports: Read.JoinCall, Read.JoinCalls, Read.JoinLog, Read.joined_log, Pattern.joinParts,
  Pattern.WritesParts, Pattern.JoinWritable, Pattern.Joined, Pattern.joined_writable
-/
import Duplex.Grammar.Lexical
import Duplex.Proofs.Termination.Pattern
import Duplex.Proofs.Trie.Walk
import Mathlib.Data.Set.List

namespace Duplex

namespace Read

variable {μ σ α β : Type}

/-! ### Calls of a join -/

/-- A call that a join makes, with its answer. -/
inductive JoinCall (α β : Type) where
  | item (answer : Option α)
  | sep (answer : Option β)
  /-- The item in the place of a missing one. -/
  | rescue (answer : Option α)

namespace JoinCall

/-- The item that a call gives, read or supplied. -/
def given? : JoinCall α β → Option α
  | .item answer => answer
  | .sep _ => none
  | .rescue answer => answer

/-- The separator that a call reads. -/
def mark? : JoinCall α β → Option β
  | .item _ => none
  | .sep answer => answer
  | .rescue _ => none

/-- A separator that no item follows gives no item. -/
theorem given_missing (calls : List (JoinCall α β)) (m : β) :
    (calls ++ [sep (some m)] ++ [item none]).filterMap given? = calls.filterMap given? := by
  simp [given?]

theorem marks_missing (calls : List (JoinCall α β)) (m : β) :
    (calls ++ [sep (some m)] ++ [item none]).filterMap mark? = calls.filterMap mark? ++ [m] := by
  simp [mark?]

end JoinCall

/-- Calls made from `start` on, in their order.  A rescue is told all items and separators before it,
    the latest one first. -/
inductive JoinCalls (sep : Read μ σ (Option β)) (item : Read μ σ (Option α))
    (rescue : List α → List β → Read μ σ (Option α)) (start : Session μ σ) :
    List (JoinCall α β) → Session μ σ → Prop
  | none : JoinCalls sep item rescue start [] start
  | item {calls s t answer} :
      JoinCalls sep item rescue start calls s → item.perform s = (.ok answer, t) →
      JoinCalls sep item rescue start (calls ++ [.item answer]) t
  | sep {calls s t answer} :
      JoinCalls sep item rescue start calls s → sep.perform s = (.ok answer, t) →
      JoinCalls sep item rescue start (calls ++ [.sep answer]) t
  | rescue {calls s t answer} :
      JoinCalls sep item rescue start calls s →
      (rescue (calls.filterMap JoinCall.given?).reverse
        (calls.filterMap JoinCall.mark?).reverse).perform s = (.ok answer, t) →
      JoinCalls sep item rescue start (calls ++ [.rescue answer]) t

/-- What a join makes of its calls: all items that they give, and all separators that they read but
    for the one that was dropped.  Dropped is a last separator that may be trailing, where no item was
    read behind it. -/
structure JoinLog (trailing : β → Bool) (calls : List (JoinCall α β)) (items : List α)
    (seps : List β) (dropped : Option β) : Prop where
  given : calls.filterMap JoinCall.given? = items
  marks : calls.filterMap JoinCall.mark? = seps ++ dropped.toList
  oneMore : items.length = seps.length + 1
  dropped_iff : ∀ d, dropped = some d ↔
    trailing d = true ∧ ∃ front, calls = front ++ [.sep (some d), .item none]

section Joining

variable {sep : Read μ σ (Option β)} {item : Read μ σ (Option α)} {trailing : β → Bool}
  {rescue : List α → List β → Read μ σ (Option α)} {start s t : Session μ σ}
  {calls : List (JoinCall α β)} {items as : List α} {seps bs : List β}

/-- A join that ends without another separator. -/
theorem JoinLog.ended (given : calls.filterMap JoinCall.given? = items)
    (marks : calls.filterMap JoinCall.mark? = seps) (oneMore : items.length = seps.length + 1) :
    JoinLog trailing (calls ++ [.sep none]) items seps none where
  given := by
    rw [List.filterMap_append, given]
    exact List.append_nil items
  marks := by
    rw [List.filterMap_append, marks]
    rfl
  oneMore := oneMore
  dropped_iff := by
    refine fun d => ⟨nofun, ?_⟩
    rintro ⟨_, front, same⟩
    rw [List.append_cons front] at same
    cases (List.append_inj' same rfl).2

/-- A join that ends with a separator that no item follows. -/
theorem JoinLog.trailed {d : β} (given : calls.filterMap JoinCall.given? = items)
    (marks : calls.filterMap JoinCall.mark? = seps) (oneMore : items.length = seps.length + 1)
    (last : trailing d = true) :
    JoinLog trailing (calls ++ [.sep (some d)] ++ [.item none]) items seps (some d) where
  given := by rw [JoinCall.given_missing, given]
  marks := by rw [JoinCall.marks_missing, marks, Option.toList_some]
  oneMore := oneMore
  dropped_iff := by
    intro e
    rw [List.append_assoc]
    constructor
    · rintro ⟨rfl⟩
      exact ⟨last, calls, rfl⟩
    · rintro ⟨_, front, same⟩
      have ends := (List.append_inj' same rfl).2
      injection ends with marks
      injection marks

/-- Each turn of the loop adds to the calls, and keeps as many separators as it keeps items. -/
theorem joinLoop_log (fuel : Nat) (made : JoinCalls sep item rescue start calls s)
    (given : calls.filterMap JoinCall.given? = as.reverse)
    (marks : calls.filterMap JoinCall.mark? = bs.reverse) (oneMore : as.length = bs.length + 1)
    (run : (joinLoop sep item trailing rescue fuel as bs).perform s = (.ok (some (items, seps)), t)) :
    ∃ log dropped, JoinCalls sep item rescue start log t ∧
      JoinLog trailing log items seps dropped := by
  induction fuel generalizing calls s as bs with
  | zero => cases run
  | succ fuel ih =>
      have kept : as.reverse.length = bs.reverse.length + 1 := by
        rw [List.length_reverse, List.length_reverse, oneMore]
      -- the turns behind a separator `m` and an item `a`, which was read or supplied
      have goesOn : ∀ {more : List (JoinCall α β)} {u : Session μ σ} {m : β} {a : α},
          JoinCalls sep item rescue start (calls ++ more) u →
          more.filterMap JoinCall.given? = [a] → more.filterMap JoinCall.mark? = [m] →
          (joinLoop sep item trailing rescue fuel (a :: as) (m :: bs)).perform u =
            (.ok (some (items, seps)), t) →
          ∃ log dropped, JoinCalls sep item rescue start log t ∧
            JoinLog trailing log items seps dropped := by
        intro more u m a made one mark run
        refine ih made ?_ ?_ (by rw [List.length_cons, List.length_cons, oneMore]) run
        · rw [List.filterMap_append, given, one, List.reverse_cons]
        · rw [List.filterMap_append, marks, mark, List.reverse_cons]
      rw [joinLoop] at run
      obtain ⟨mark, s₁, marked, run⟩ := exists_of_bind_ok run
      have asked := made.sep marked
      cases mark with
      | none =>
          cases run
          exact ⟨_, none, asked, .ended given marks kept⟩
      | some m =>
          obtain ⟨found, s₂, tried, run⟩ := exists_of_bind_ok run
          have looked := asked.item tried
          cases found with
          | some a =>
              rw [List.append_assoc] at looked
              exact goesOn looked rfl rfl run
          | none =>
              dsimp only at run
              by_cases last : trailing m = true
              · rw [if_pos last] at run
                cases run
                exact ⟨_, some m, looked, .trailed given marks kept last⟩
              · rw [if_neg last] at run
                obtain ⟨supplied, s₃, rescued, run⟩ := exists_of_bind_ok run
                cases supplied with
                | none => cases run
                | some a =>
                    have helped : JoinCalls sep item rescue start
                        (calls ++ [.sep (some m)] ++ [.item none] ++ [.rescue (some a)]) s₃ := by
                      refine looked.rescue ?_
                      rw [JoinCall.given_missing, JoinCall.marks_missing, given, marks,
                        List.reverse_reverse, List.reverse_concat, List.reverse_reverse, rescued]
                    rw [List.append_assoc, List.append_assoc] at helped
                    exact goesOn helped rfl rfl run

/-- What holds of all separators that can be read holds of all that were. -/
theorem JoinCalls.mark_mem {P : β → Prop} (made : JoinCalls sep item rescue start calls s)
    (holds : ∀ {s t m}, sep.perform s = (.ok (some m), t) → P m) {m : β}
    (mem : m ∈ calls.filterMap JoinCall.mark?) : P m := by
  induction made with
  | none => cases mem
  | item _ _ ih =>
      rw [List.filterMap_append, List.mem_append] at mem
      exact mem.elim ih nofun
  | rescue _ _ ih =>
      rw [List.filterMap_append, List.mem_append] at mem
      exact mem.elim ih nofun
  | @sep _ _ _ answer _ run ih =>
      rw [List.filterMap_append, List.mem_append] at mem
      rcases mem with before | here
      · exact ih before
      · cases answer with
        | none => cases here
        | some n =>
            cases List.mem_singleton.mp here
            exact holds run

/-- A join gives what its calls give. -/
theorem joined_log {fuel : Nat}
    (run : (joined fuel sep item trailing rescue).perform s = (.ok (some (items, seps)), t)) :
    ∃ log dropped, JoinCalls sep item rescue s log t ∧ JoinLog trailing log items seps dropped := by
  obtain ⟨found, s₁, tried, run⟩ := exists_of_bind_ok run
  cases found with
  | none => cases run
  | some a =>
      have made : JoinCalls sep item rescue s [.item (some a)] s₁ := JoinCalls.none.item tried
      exact joinLoop_log fuel made rfl rfl rfl run

end Joining

end Read

/-! ### Writing what was joined -/

namespace Pattern

variable {sep item : Pattern} {rescue : Option JoinRescue} {noted : Bool} {items seps : List Value}

/-- Items and separators by turns, each with its own pattern. -/
def joinParts (sep item : Pattern) : List Value → List Value → List (Pattern × Value)
  | a :: items, s :: seps => (item, a) :: (sep, s) :: joinParts sep item items seps
  | items, _ => items.map (item, ·)

/-- Writes values one after the other, each by its own pattern. -/
def writeParts (fuel : Nat) (parts : List (Pattern × Value)) : Write Memory (List Token) :=
  Write.each (fun part => part.1.write fuel part.2) parts

/-- Where one item more than separators is joined, all are written by turns. -/
theorem write_joined (fuel : Nat) (oneMore : items.length = seps.length + 1) :
    (Pattern.joined sep item rescue noted).write (fuel + 1) (.pair (.list items) (.list seps)) =
      writeParts fuel (joinParts sep item items seps) := by
  show Write.joined (sep.write fuel) (item.write fuel) items seps = _
  obtain ⟨a, items, rfl⟩ := List.exists_cons_of_length_eq_add_one oneMore
  rw [Write.joined, if_pos (Nat.succ.inj oneMore)]
  induction seps generalizing a items with
  | nil =>
      cases List.length_eq_zero_iff.mp (Nat.succ.inj oneMore)
      rfl
  | cons s seps ih =>
      obtain ⟨b, items, rfl⟩ := List.exists_cons_of_length_eq_add_one (Nat.succ.inj oneMore)
      have others := ih b items (Nat.succ.inj oneMore)
      rw [joinParts, writeParts, Write.each, Write.each, ← writeParts, ← others, Write.alternating]
      simp only [bind_assoc, pure_bind, List.append_assoc]

/-- Where the values are written one after the other, one of them is to blame for an error. -/
theorem error_of_writeParts {fuel : Nat} {parts : List (Pattern × Value)} {d e : Desk Memory}
    {stop : Stop WriteFault} (run : (writeParts fuel parts).perform d = (.error stop, e)) :
    ∃ part ∈ parts, ∃ d', (part.1.write fuel part.2).perform d' = (.error stop, e) := by
  induction parts generalizing d with
  | nil => cases run
  | cons part parts ih =>
      rw [writeParts, Write.each, Write.perform_bind] at run
      rcases first : (part.1.write fuel part.2).perform d with ⟨_ | ts, d'⟩
      · rw [first] at run
        cases run
        exact ⟨part, List.mem_cons_self, d, first⟩
      · rw [first] at run
        dsimp only at run
        rw [Write.perform_bind, ← writeParts] at run
        rcases others : (writeParts fuel parts).perform d' with ⟨_ | us, d''⟩
        · rw [others] at run
          cases run
          obtain ⟨other, mem, blame⟩ := ih others
          exact ⟨other, List.mem_cons_of_mem part mem, blame⟩
        · rw [others] at run
          cases run

/-- A write of some parts: it is their writes one after the other, and has no error of its own. -/
structure WritesParts (fuel : Nat) (w : Write Memory (List Token))
    (parts : List (Pattern × Value)) : Prop where
  inTurn : w = writeParts fuel parts
  blame : ∀ {d e stop}, w.perform d = (.error stop, e) →
    ∃ part ∈ parts, ∃ d', (part.1.write fuel part.2).perform d' = (.error stop, e)

theorem writesParts_joined (fuel : Nat) (oneMore : items.length = seps.length + 1) :
    WritesParts fuel
      ((Pattern.joined sep item rescue noted).write (fuel + 1) (.pair (.list items) (.list seps)))
      (joinParts sep item items seps) where
  inTurn := write_joined fuel oneMore
  blame run := by
    rw [write_joined fuel oneMore] at run
    exact error_of_writeParts run

/-- A conversion back that goes through is no part of the write. -/
theorem WritesParts.convert {fuel : Nat} {conversion : Conversion} {v w : Value}
    {parts : List (Pattern × Value)} (writes : WritesParts fuel (item.write (fuel + 1) w) parts)
    (back : conversion.back v = .ok (some w)) :
    WritesParts fuel ((Pattern.convert item conversion).write (fuel + 2) v) parts := by
  have same : (Pattern.convert item conversion).write (fuel + 2) v = item.write (fuel + 1) w := by
    rw [Pattern.write, back]
    rfl
  rw [same]
  exact writes

/-- Items and separators that can be written in every form that a join has: as a pair, without the
    separators, for which any value may stand, and, where they are characters, with the text of
    them. -/
structure JoinWritable (sep item : Pattern) (items seps : List Value) : Prop where
  oneMore : items.length = seps.length + 1
  pair : ∀ rescue noted n, WritesParts n
    ((Pattern.joined sep item rescue noted).write (n + 1) (.pair (.list items) (.list seps)))
    (joinParts sep item items seps)
  itemsOnly : ∀ rescue noted constant n, WritesParts n
    ((Pattern.convert (.joined sep item rescue noted) (.itemsOnly constant)).write (n + 2)
      (.list items))
    (joinParts sep item items (List.replicate seps.length constant))
  separatorText : ∀ rescue noted cs n, seps = cs.map .char → WritesParts n
    ((Pattern.convert (.joined sep item rescue noted) .separatorText).write (n + 2)
      (.pair (.list items) (.text (String.ofList cs))))
    (joinParts sep item items seps)

theorem joinWritable_of_length (oneMore : items.length = seps.length + 1) :
    JoinWritable sep item items seps where
  oneMore := oneMore
  pair _ _ n := writesParts_joined n oneMore
  itemsOnly := by
    intro rescue noted constant n
    have count : items.length - 1 = seps.length := by
      rw [oneMore, Nat.add_sub_cancel]
    have back : (Conversion.itemsOnly constant).back (.list items) =
        .ok (some (.pair (.list items) (.list (List.replicate seps.length constant)))) := by
      rw [← count]
      rfl
    refine (writesParts_joined n ?_).convert back
    rw [List.length_replicate, oneMore]
  separatorText := by
    rintro rescue noted cs n rfl
    have back : Conversion.separatorText.back (.pair (.list items) (.text (String.ofList cs))) =
        .ok (some (.pair (.list items) (.list (cs.map .char)))) := by
      show Except.ok (some (Value.pair _ (.list ((String.ofList cs).toList.map .char)))) = _
      rw [String.toList_ofList]
    exact (writesParts_joined n oneMore).convert back

/-! ### Joins of patterns -/

section Joins

variable {σ : Type} [Feed σ] {fuel : Nat} {s t : Session Memory σ}
  {supply : List Value → List Value → Read Memory σ (Option Value)}

/-- These are the items and separators of a join, where `supply` gives missing items: the items are
    those that its calls give, the separators those that they read, but for a trailing one that is the
    default of its pattern. -/
def Joined (fuel : Nat) (sep item : Pattern)
    (supply : List Value → List Value → Read Memory σ (Option Value)) (noted : Bool)
    (s : Session Memory σ) (items seps : List Value) (t : Session Memory σ) : Prop :=
  ∃ log dropped,
    Read.JoinCalls (noting noted .separator (sep.read fuel)) (noting noted .item (item.read fuel))
      supply s log t ∧
    Read.JoinLog sep.isTrailing log items seps dropped

theorem Joined.writable (joined : Joined fuel sep item supply noted s items seps t) :
    JoinWritable sep item items seps := by
  obtain ⟨_, _, _, log⟩ := joined
  exact joinWritable_of_length log.oneMore

theorem joined_of_read {v : Value}
    (run : ((Pattern.joined sep item rescue noted).read (fuel + 1)).perform s = (.ok (some v), t)) :
    ∃ items seps, v = .pair (.list items) (.list seps) ∧
      Joined fuel sep item (fun items _ => rescueJoin fuel sep rescue items) noted s items seps t := by
  obtain ⟨pair, between, first, last⟩ := Read.exists_of_bind_ok run
  cases pair with
  | none => cases last
  | some pair =>
      obtain ⟨items, seps⟩ := pair
      cases last
      exact ⟨items, seps, rfl, Read.joined_log first⟩

/-- What was read by a conversion is what its item read, converted. -/
theorem read_of_convert {conversion : Conversion} {v : Value}
    (run : ((Pattern.convert item conversion).read (fuel + 1)).perform s = (.ok (some v), t)) :
    ∃ w, (item.read fuel).perform s = (.ok (some w), t) ∧ conversion.forward w = .ok v := by
  obtain ⟨found, between, first, last⟩ := Read.exists_of_bind_ok run
  cases found with
  | none => cases last
  | some w =>
      obtain ⟨converted, after, forward, last⟩ := Read.exists_of_bind_ok last
      cases last
      cases given : conversion.forward w with
      | error cause =>
          rw [given] at forward
          cases forward
      | ok u =>
          rw [given] at forward
          cases forward
          exact ⟨w, first, given⟩

/-- Where all separators that can be read are characters, so are those of a join. -/
theorem Joined.chars (joined : Joined fuel sep item supply noted s items seps t)
    (chars : ∀ {s t : Session Memory σ} {m : Value},
      (sep.read fuel).perform s = (.ok (some m), t) → ∃ c, m = .char c) :
    ∃ cs : List Char, seps = cs.map .char := by
  obtain ⟨log, dropped, made, given⟩ := joined
  have all : ∀ m ∈ seps, ∃ c, Value.char c = m := by
    intro m mem
    have read : m ∈ log.filterMap Read.JoinCall.mark? := by
      rw [given.marks]
      exact List.mem_append_left _ mem
    refine made.mark_mem (P := fun m => ∃ c, Value.char c = m) (fun run => ?_) read
    obtain ⟨_, plain, _⟩ := performed_noting run
    obtain ⟨c, same⟩ := chars plain
    exact ⟨c, same.symm⟩
  obtain ⟨cs, same⟩ := (Set.ext_iff.mp (Set.range_list_map Value.char) seps).mpr all
  exact ⟨cs, same.symm⟩

theorem forward_separatorText (items : List Value) (cs : List Char) :
    Conversion.separatorText.forward (.pair (.list items) (.list (cs.map .char))) =
      .ok (.pair (.list items) (.text (String.ofList cs))) := by
  have text : Token.spell ((cs.map Value.char).filterMap Value.toToken?) = String.ofList cs := by
    rw [List.filterMap_map, ← Token.spell_chars, ← List.filterMap_eq_map]
    rfl
  rw [← text]
  rfl

/-- What a join reads it can write, whatever its parts, the feed, and what supplies missing items are.
    It gives the items that were read or supplied, in their order, and the separators that were read,
    but for a last one that equals the default and has no item behind it.  There is one item more than
    separators: item, separator, item and so on are written in turn, each by its own pattern, and no
    error is that of the join itself.  So it is for a join that gives its items only, whatever is
    written between them, and for one that keeps its separators, which are characters, as text. -/
theorem joined_writable (sep item : Pattern) (noted : Bool) (fuel : Nat) (s t : Session Memory σ) :
    (∀ supply items seps,
      (Read.joined fuel (noting noted .separator (sep.read fuel)) (noting noted .item (item.read fuel))
        sep.isTrailing supply).perform s = (.ok (some (items, seps)), t) →
      Joined fuel sep item supply noted s items seps t ∧ JoinWritable sep item items seps) ∧
    ∀ rescue v,
      let supply := fun items _ => rescueJoin fuel sep rescue items
      (((Pattern.joined sep item rescue noted).read (fuel + 1)).perform s = (.ok (some v), t) →
        ∃ items seps, v = .pair (.list items) (.list seps) ∧
          Joined fuel sep item supply noted s items seps t ∧ JoinWritable sep item items seps) ∧
      (∀ constant, ((Pattern.convert (.joined sep item rescue noted) (.itemsOnly constant)).read
          (fuel + 2)).perform s = (.ok (some v), t) →
        ∃ items seps, v = .list items ∧
          Joined fuel sep item supply noted s items seps t ∧ JoinWritable sep item items seps) ∧
      ((∀ {s t : Session Memory σ} {m : Value},
          (sep.read fuel).perform s = (.ok (some m), t) → ∃ c, m = .char c) →
        ((Pattern.convert (.joined sep item rescue noted) .separatorText).read (fuel + 2)).perform s =
          (.ok (some v), t) →
        ∃ items cs, v = .pair (.list items) (.text (String.ofList cs)) ∧
          Joined fuel sep item supply noted s items (cs.map .char) t ∧
          JoinWritable sep item items (cs.map .char)) := by
  refine ⟨fun supply items seps run => ?_, fun rescue v => ⟨fun run => ?_, fun constant run => ?_,
    fun chars run => ?_⟩⟩
  · have joined : Joined fuel sep item supply noted s items seps t := Read.joined_log run
    exact ⟨joined, joined.writable⟩
  · obtain ⟨items, seps, rfl, joined⟩ := joined_of_read run
    exact ⟨items, seps, rfl, joined, joined.writable⟩
  · obtain ⟨w, run, forward⟩ := read_of_convert run
    obtain ⟨items, seps, rfl, joined⟩ := joined_of_read run
    cases forward
    exact ⟨items, seps, rfl, joined, joined.writable⟩
  · obtain ⟨w, run, forward⟩ := read_of_convert run
    obtain ⟨items, seps, rfl, joined⟩ := joined_of_read run
    obtain ⟨cs, rfl⟩ := joined.chars chars
    rw [forward_separatorText] at forward
    cases forward
    exact ⟨items, cs, rfl, joined, joined.writable⟩

end Joins

/-- A comma, which may be missing. -/
def comma : Pattern :=
  .optional (char ',') (.char ',')

theorem comma_chars {σ : Type} [Feed σ] [FaithfulFeed σ] {fuel : Nat} {s t : Session Memory σ}
    {m : Value} (run : (comma.read (fuel + 2)).perform s = (.ok (some m), t)) :
    ∃ c, m = .char c := by
  obtain ⟨found, between, first, last⟩ := Read.exists_of_bind_ok run
  cases last
  cases found with
  | none => exact ⟨',', rfl⟩
  | some w =>
      obtain ⟨token, after, taken, last⟩ := Read.exists_of_bind_ok first
      cases token with
      | none => cases last
      | some u =>
          have passes := (Read.consumeIf_performed taken).1
          cases last
          rw [eq_of_beq passes]
          exact ⟨',', rfl⟩

/-- The text `xx,x,`. -/
def commas : Session Memory Pulled :=
  { feed := ⟨[.char 'x', .char ',', .char 'x', .char ','], .char 'x', false⟩
    memory := .empty }

/-- Letters with commas between them, in the text `xx,x,`.  The comma before the second letter is
    missing, and the one behind the third is dropped. -/
theorem joined_writable_commas :
    let letters := joined comma (char 'x') none false
    let supply := fun items _ => rescueJoin 3 comma none items
    (∃ items seps, Value.pair (.list [.char 'x', .char 'x', .char 'x']) (.list [.char ',', .char ',']) =
        .pair (.list items) (.list seps) ∧
      Joined 3 comma (char 'x') supply false commas items seps ((letters.read 4).perform commas).2 ∧
      JoinWritable comma (char 'x') items seps) ∧
    ∃ items cs, Value.pair (.list [.char 'x', .char 'x', .char 'x']) (.text ",,") =
        .pair (.list items) (.text (String.ofList cs)) ∧
      Joined 3 comma (char 'x') supply false commas items (cs.map .char)
        (((convert letters .separatorText).read 5).perform commas).2 ∧
      JoinWritable comma (char 'x') items (cs.map .char) := by
  have writable := joined_writable comma (char 'x') false 3 commas
  exact ⟨((writable _).2 none _).1 rfl, ((writable _).2 none _).2.2 comma_chars rfl⟩

/-! ### Errors of items -/

/-- A list of letters that is given as a number, and written back as two letters without a
    separator. -/
def mislaid : Pattern :=
  .convert (.joined (char ',') (char 'x') none false)
    (.constant (.int 0) (some (.pair (.list [.char 'x', .char 'x']) (.list []))))

/-- An item that cannot be written spoils the join around it, also by an error about separators: what
    was read from `x` is not written. -/
theorem separatorCount_of_item :
    ∃ v t, ((joined (char ';') mislaid none false).read 6).perform
        { feed := (⟨[], .char 'x', false⟩ : Pulled), memory := .empty } = (.ok (some v), t) ∧
      ∃ d, ((joined (char ';') mislaid none false).write 6 v).perform { memory := .empty } =
        (.error (.fault (.separatorCount 2 0)), d) :=
  ⟨_, _, rfl, _, rfl⟩

end Pattern

end Duplex
