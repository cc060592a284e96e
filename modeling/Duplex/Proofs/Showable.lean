/-
Module: Duplex.Proofs.Showable
Purpose: Whatever a plain grammar has read it can write, and it invents nothing: the tokens written
  are among those that the read has taken, in the same order.  Nothing is asked of the grammar's
  choices; what a case or a last item took before it failed is just not written.  `Read.Takes` tells
  what a read that goes through has taken, with one rule for each step of a reader.
Main exports: Read.Takes, Pattern.Shown, Pattern.Plain, Pattern.Plain.shows, Grammar.write_of_read
-/
import Duplex.Proofs.Running
import Duplex.Proofs.Watching

namespace Duplex

instance {σ : Type} [Feed σ] [FaithfulFeed σ] : FaithfulFeed (Input σ) where
  shown {s t} taken := by
    change (Input.consume s).token = some t at taken
    apply FaithfulFeed.shown (s := s.feed)
    unfold Input.consume at taken
    cases first : (Feed.consume s.feed).token with
    | none => simp [first] at taken
    | some u => simpa [first] using taken

/-! ### What a read has taken -/

namespace Read

variable {μ σ α β : Type} {T : Token → Prop}

/-- A read that goes through has taken tokens that are as told with its result, provided they are
    tokens of the kind `T`. -/
def Takes (T : Token → Prop) (r : Read μ (Watched σ) α) (Q : List Token → α → Prop) : Prop :=
  ∀ s after a, r.perform s = (.ok a, after) →
    ∃ taken, after.feed.taken = s.feed.taken ++ taken ∧ ((∀ t ∈ taken, T t) → Q taken a)

theorem takes_pure {Q : List Token → α → Prop} {a : α} (h : Q [] a) :
    (pure a : Read μ (Watched σ) α).Takes T Q :=
  grows_pure fun _ => h

theorem takes_throw (stop : Stop ReadFault) (Q : List Token → α → Prop) :
    (throw stop : Read μ (Watched σ) α).Takes T Q :=
  grows_throw stop _

/-- What both steps have taken is taken in a row. -/
theorem Takes.bind {r : Read μ (Watched σ) α} {f : α → Read μ (Watched σ) β}
    {Q : List Token → α → Prop} {R : List Token → β → Prop} (first : r.Takes T Q)
    (second : ∀ a, (f a).Takes T fun us b => ∀ ts, Q ts a → R (ts ++ us) b) :
    (r >>= f).Takes T R := by
  refine Grows.bind first fun ts a holds => Grows.mono (second a) fun us b holds' kind => ?_
  have early := holds fun t mem => kind t (List.mem_append_left us mem)
  exact holds' (fun t mem => kind t (List.mem_append_right ts mem)) ts early

theorem Takes.mono {r : Read μ (Watched σ) α} {Q R : List Token → α → Prop} (h : r.Takes T Q)
    (weaker : ∀ ts a, Q ts a → R ts a) : r.Takes T R :=
  Grows.mono h fun ts a holds kind => weaker ts a (holds kind)

theorem Takes.map {r : Read μ (Watched σ) α} {Q : List Token → α → Prop}
    {R : List Token → β → Prop} {f : α → β} (h : r.Takes T Q)
    (holds : ∀ ts a, Q ts a → R ts (f a)) : (do return f (← r) : Read μ (Watched σ) β).Takes T R :=
  Grows.map h fun ts a told kind => holds ts a (told kind)

/-- Two things told of one read are told of the same tokens. -/
theorem Takes.and {r : Read μ (Watched σ) α} {Q R : List Token → α → Prop} (first : r.Takes T Q)
    (second : r.Takes T R) : r.Takes T fun ts a => Q ts a ∧ R ts a := by
  intro s after a run
  obtain ⟨ts, grown, holds⟩ := first s after a run
  obtain ⟨us, grown', holds'⟩ := second s after a run
  rw [grown] at grown'
  obtain rfl := List.append_cancel_left grown'
  exact ⟨ts, grown, fun kind => ⟨holds kind, holds' kind⟩⟩

theorem takes_note (n : Note) : (note n : Read μ (Watched σ) Unit).Takes T fun ts _ => ts = [] := by
  intro s after a run
  cases run
  exact ⟨[], (List.append_nil _).symm, fun _ => rfl⟩

variable [Feed σ]

theorem takes_report (message : String) :
    (report message : Read μ (Watched σ) Unit).Takes T fun ts _ => ts = [] := by
  intro s after a run
  rw [perform_report] at run
  obtain ⟨_, rfl⟩ := Prod.mk.inj run
  exact ⟨[], (List.append_nil _).symm, fun _ => rfl⟩

/-- A token that is taken under a test passes it, where it is taken as it was shown. -/
theorem takes_consumeIf [FaithfulFeed σ] (test : Token → Bool) :
    (consumeIf test : Read μ (Watched σ) (Option Token)).Takes T fun ts result =>
      (∀ t ∈ ts, T t ∧ test t = true) ∧ ts = result.toList := by
  intro s after result run
  rw [perform_consumeIf] at run
  split at run
  · rename_i passes
    have token := token_of_consume_ok run
    rw [perform_consume] at run
    obtain ⟨_, rfl⟩ := Prod.mk.inj run
    refine ⟨result.toList, ?_, ?_⟩
    · rw [← token]
      rfl
    · intro kind
      refine ⟨?_, rfl⟩
      intro t mem
      have shown : Feed.peek s.feed = t := by
        apply FaithfulFeed.shown
        rw [token]
        exact Option.mem_toList.mp mem
      exact ⟨kind t mem, shown ▸ passes⟩
  · cases run
    exact ⟨[], (List.append_nil _).symm, fun _ => ⟨by simp, rfl⟩⟩

end Read

namespace Pattern

variable {σ : Type} {T : Token → Prop}

/-- Describing a pattern in the middle of a read takes nothing. -/
theorem takes_describeHere (fuel : Nat) (p : Pattern) :
    (describeHere fuel p : Read Memory (Watched σ) String).Takes T fun ts _ => ts = [] := by
  intro s after text run
  obtain ⟨a, between, look, rest⟩ := Read.exists_of_bind_ok run
  have same : between.feed = s.feed := by
    cases look
    rfl
  refine ⟨[], ?_, fun _ => rfl⟩
  rw [List.append_nil, ← same]
  cases a with
  | error stop => cases rest
  | ok described =>
      cases rest
      rfl

theorem takes_noting {r : Read Memory (Watched σ) (Option Value)}
    {Q : List Token → Option Value → Prop} (h : r.Takes T Q) (noted : Bool) (note : Value → Note) :
    (noting noted note r).Takes T Q := by
  apply h.bind
  intro result
  cases result with
  | none =>
      apply Read.takes_pure
      intro ts told
      rw [List.append_nil]
      exact told
  | some v =>
      cases noted with
      | false =>
          apply Read.takes_pure
          intro ts told
          rw [List.append_nil]
          exact told
      | true =>
          apply (Read.takes_note _).bind
          intro _
          apply Read.takes_pure
          rintro us rfl ts told
          rw [List.append_nil, List.append_nil]
          exact told

variable [Feed σ]

/-- Looking ahead takes nothing. -/
theorem takes_testPeek (fuel : Nat) (p : Pattern) :
    (Read.testPeek (p.read fuel) : Read Memory (Watched σ) Bool).Takes T fun ts _ => ts = [] := by
  intro s after found run
  -- a look ahead never takes from the feed behind it, so what that has logged is an invariant
  have kept : ((p.read fuel).perform { s with feed := Lookahead.of s.feed }).2.feed.parent.taken =
      s.feed.taken :=
    p.read_keeps (P := fun (w : Lookahead (Watched σ)) _ => w.parent.taken = s.feed.taken)
      { consume := fun h => h
        report := fun _ h => h
        setState := fun _ h => h
        note := fun _ h => h } fuel (s := { s with feed := Lookahead.of s.feed }) rfl
  obtain ⟨a, between, look, rest⟩ := Read.exists_of_bind_ok run
  cases rest
  unfold Read.peeking at look
  rw [Read.perform_inside] at look
  obtain ⟨_, rfl⟩ := Prod.mk.inj look
  refine ⟨[], ?_, fun _ => rfl⟩
  rw [List.append_nil]
  exact kept

/-- Without a rescue a separator that no item follows is read as nothing. -/
theorem takes_rescueJoin (fuel : Nat) (sep : Pattern) (items : List Value) :
    (rescueJoin fuel sep none items : Read Memory (Watched σ) (Option Value)).Takes T
      fun _ result => result = none := by
  apply (takes_describeHere fuel sep).bind
  intro text
  apply (Read.takes_report _).bind
  intro _
  apply Read.takes_pure
  intros
  rfl

/-! ### What is written again -/

/-- The value is written, whatever is remembered and however many further steps are granted, and what
    is written has been taken, in the same order. -/
def Shown (fuel : Nat) (p : Pattern) (taken : List Token) (v : Value) : Prop :=
  ∃ out, (∀ n ≥ fuel, (p.write n v).Gives out) ∧ out.Sublist taken

/-- Each value that the pattern reads is shown by it. -/
def Shows (σ : Type) [Feed σ] (T : Token → Prop) (fuel : Nat) (p : Pattern) : Prop :=
  (p.read fuel : Read Memory (Watched σ) (Option Value)).Takes T fun taken result =>
    ∀ v ∈ result, Shown fuel p taken v

/-- Nothing is written without a step. -/
theorem Shown.pos {fuel : Nat} {p : Pattern} {taken : List Token} {v : Value}
    (shown : Shown fuel p taken v) : 0 < fuel := by
  obtain ⟨out, writes, _⟩ := shown
  apply Nat.pos_of_ne_zero
  rintro rfl
  cases writes 0 (Nat.le_refl 0) ⟨.empty, .empty⟩

/-- A pattern writes by what its parts write with one step less. -/
theorem Shown.succ {fuel : Nat} {p : Pattern} {taken : List Token} {v : Value} {out : List Token}
    (writes : ∀ n ≥ fuel, (p.write (n + 1) v).Gives out) (among : out.Sublist taken) :
    Shown (fuel + 1) p taken v := by
  refine ⟨out, ?_, among⟩
  intro n enough
  obtain ⟨n, rfl⟩ : ∃ k, n = k + 1 := ⟨n - 1, by omega⟩
  exact writes n (Nat.le_of_succ_le_succ enough)

/-! ### Single tokens and brackets -/

section Single

variable [FaithfulFeed σ]

/-- A condition takes the token that it gives, which meets it. -/
theorem takes_satisfy (fuel : Nat) (c : Condition) :
    ((Pattern.satisfy c).read fuel : Read Memory (Watched σ) (Option Value)).Takes T
      fun ts result => (∀ t ∈ ts, T t ∧ c.holds t = true) ∧ result = ts.head?.map Token.toValue ∧
        ts.length ≤ 1 := by
  cases fuel with
  | zero => exact Read.takes_throw _ _
  | succ fuel =>
      apply (Read.takes_consumeIf c.holds).map
      rintro ts result ⟨kind, rfl⟩
      cases result with
      | none => exact ⟨kind, rfl, Nat.zero_le 1⟩
      | some t => exact ⟨kind, rfl, Nat.le_refl 1⟩

theorem shows_satisfy (fuel : Nat) (c : Condition) : Shows σ T (fuel + 1) (.satisfy c) := by
  apply (takes_satisfy (fuel + 1) c).mono
  rintro ts result ⟨_, rfl, _⟩ v mem
  cases ts with
  | nil => cases mem
  | cons t ts =>
      cases mem
      have writes : ∀ n ≥ fuel, ((Pattern.satisfy c).write (n + 1) t.toValue).Gives [t] := by
        intro n _ d
        show (Write.token t.toValue : Write Memory _).perform d = _
        rw [Write.token, Token.toToken?_toValue]
        rfl
      apply Shown.succ writes
      exact List.singleton_sublist.mpr List.mem_cons_self

/-- A bracket that was read has been taken. -/
theorem takes_bracket (fuel : Nat) (t : Option Token) :
    (readBracket fuel (t.map bracketToken) : Read Memory (Watched σ) Bool).Takes T
      fun ts found => found = true → t.toList.Sublist ts := by
  cases t with
  | none =>
      apply Read.takes_pure
      intro _
      exact List.Sublist.refl []
  | some t =>
      apply (takes_satisfy fuel (.equal t)).map
      rintro ts result ⟨meets, rfl, _⟩ found
      cases ts with
      | nil => cases found
      | cons u ts =>
          have same : u = t := by simpa [Condition.holds] using (meets u List.mem_cons_self).2
          rw [same]
          exact List.singleton_sublist.mpr List.mem_cons_self

end Single

/-- Between the brackets stands what the item has taken. -/
theorem takes_surround [FaithfulFeed σ] {fuel : Nat} {item : Pattern}
    {Q : List Token → Option Value → Prop} (left right : Option Token)
    (body : (item.read fuel : Read Memory (Watched σ) (Option Value)).Takes T Q) :
    ((Pattern.surround (left.map bracketToken) (right.map bracketToken) item).read (fuel + 1) :
      Read Memory (Watched σ) (Option Value)).Takes T fun taken result =>
        ∀ v ∈ result, ∃ opening inner closing, taken = opening ++ inner ++ closing ∧
          left.toList.Sublist opening ∧ Q inner (some v) ∧ right.toList.Sublist closing := by
  rw [read_surround]
  apply (takes_bracket fuel left).bind
  intro opened
  cases opened with
  | false =>
      apply Read.takes_pure
      simp
  | true =>
      apply body.bind
      intro result
      cases result with
      | none =>
          apply Read.takes_pure
          simp
      | some v =>
          apply (takes_bracket fuel right).bind
          intro closed
          cases closed with
          | false =>
              apply Read.takes_pure
              simp
          | true =>
              apply Read.takes_pure
              intro closing ends inner told opening starts w mem
              cases mem
              refine ⟨opening, inner, closing, ?_, starts rfl, told, ends rfl⟩
              rw [List.append_nil, List.append_assoc]

theorem shows_surround [FaithfulFeed σ] {fuel : Nat} {item : Pattern} (left right : Option Token)
    (each : Shows σ T fuel item) :
    Shows σ T (fuel + 1) (.surround (left.map bracketToken) (right.map bracketToken) item) := by
  apply (takes_surround left right each).mono
  intro taken result told v mem
  obtain ⟨opening, inner, closing, rfl, starts, shown, ends⟩ := told v mem
  have pos := (shown v rfl).pos
  obtain ⟨out, writes, among⟩ := shown v rfl
  have whole : ∀ n ≥ fuel, (write (n + 1)
      (.surround (left.map bracketToken) (right.map bracketToken) item) v).Gives
      (left.toList ++ out ++ right.toList) := by
    intro n enough
    obtain ⟨k, rfl⟩ : ∃ k, n = k + 1 := ⟨n - 1, by omega⟩
    apply (gives_bracket left k).bind
    apply (writes (k + 1) enough).bind
    exact (gives_bracket right k).bind (Write.gives_pure _)
  exact Shown.succ whole ((starts.append among).append ends)

/-! ### Parts and cases -/

/-- Parts one after the other are written one after the other. -/
theorem takes_parts {fuel : Nat} {parts : List Pattern} (each : ∀ p ∈ parts, Shows σ T fuel p) :
    (Read.sequence (parts.map fun p => p.read fuel) :
      Read Memory (Watched σ) (Option (List Value))).Takes T fun taken result =>
        ∀ vs ∈ result, vs.length = parts.length ∧ ∃ out,
          (∀ n ≥ fuel, (Write.inTurn (parts.map (write n)) vs).Gives out) ∧ out.Sublist taken := by
  induction parts with
  | nil =>
      apply Read.takes_pure
      intro vs mem
      cases mem
      exact ⟨rfl, [], fun _ _ => Write.gives_pure _, List.Sublist.refl []⟩
  | cons p parts ih =>
      have others := ih fun q mem => each q (List.mem_cons_of_mem p mem)
      apply (each p List.mem_cons_self).bind
      intro first
      cases first with
      | none =>
          apply Read.takes_pure
          simp
      | some v =>
          apply others.bind
          intro rest
          cases rest with
          | none =>
              apply Read.takes_pure
              simp
          | some vs =>
              apply Read.takes_pure
              intro later shownAll before shown ws mem
              cases mem
              obtain ⟨out, writes, among⟩ := shown v rfl
              obtain ⟨size, more, writesAll, amongAll⟩ := shownAll vs rfl
              refine ⟨congrArg (· + 1) size, out ++ more, ?_, ?_⟩
              · intro n enough
                exact (writes n enough).append (writesAll n enough)
              · rw [List.append_nil]
                exact among.append amongAll

/-- The case that was read is written; what the cases before it took is not. -/
theorem takes_cases {fuel : Nat} {cases : List Pattern} (each : ∀ p ∈ cases, Shows σ T fuel p)
    (index : Nat) :
    (Read.choice index (cases.map fun p => p.read fuel) :
      Read Memory (Watched σ) (Option (Nat × Value))).Takes T fun taken result =>
        ∀ x ∈ result, ∃ k p, x.1 = index + k ∧ cases[k]? = some p ∧ Shown fuel p taken x.2 := by
  induction cases generalizing index with
  | nil =>
      apply Read.takes_pure
      simp
  | cons p cases ih =>
      have others := ih (fun q mem => each q (List.mem_cons_of_mem p mem)) (index + 1)
      apply (each p List.mem_cons_self).bind
      intro first
      cases first with
      | some v =>
          apply Read.takes_pure
          intro taken shown x mem
          cases mem
          refine ⟨0, p, rfl, rfl, ?_⟩
          rw [List.append_nil]
          exact shown v rfl
      | none =>
          apply others.mono
          intro later result told before _ x mem
          obtain ⟨k, q, number, here, out, writes, among⟩ := told x mem
          refine ⟨k + 1, q, by omega, here, out, writes, ?_⟩
          -- what the failed case took only stands before
          exact among.trans (List.sublist_append_right before later)

/-! ### Items one after the other -/

/-- Some items were gathered one by one, and they are written with nothing added. -/
def Gathered (fuel : Nat) (item : Pattern) (good : Value → Prop) (start final : Tally) (count : Nat)
    (taken : List Token) : Prop :=
  ∃ vs : List Value, vs.length = count ∧ vs.foldlM Tally.accept start = .ok final ∧
    (∀ v ∈ vs, good v) ∧ ∃ out,
      (∀ n ≥ fuel, (Write.each (item.write n) vs).Gives out) ∧ out.Sublist taken

section Gathered

variable {fuel : Nat} {item : Pattern} {good : Value → Prop}

theorem Gathered.nothing (start : Tally) (taken : List Token) :
    Gathered fuel item good start start 0 taken :=
  ⟨[], rfl, rfl, by simp, [], fun _ _ => Write.gives_pure _, List.nil_sublist taken⟩

theorem Gathered.cons {start next final : Tally} {count : Nat} {before later : List Token}
    {v : Value} (accepts : start.accept v = .ok next) (shown : Shown fuel item before v)
    (fine : good v) (rest : Gathered fuel item good next final count later) :
    Gathered fuel item good start final (count + 1) (before ++ later) := by
  obtain ⟨out, writes, among⟩ := shown
  obtain ⟨vs, size, folded, fines, more, writesAll, amongAll⟩ := rest
  refine ⟨v :: vs, congrArg (· + 1) size, ?_, ?_, out ++ more, ?_, among.append amongAll⟩
  · rw [List.foldlM_cons, accepts]
    exact folded
  · intro w mem
    rcases List.mem_cons.mp mem with rfl | others
    · exact fine
    · exact fines w others
  · intro n enough
    exact (writes n enough).append (writesAll n enough)

/-- Gathering an item takes nothing; what comes next goes by whether it was accepted. -/
theorem takes_gather {α : Type} {k : Option Tally → Read Memory (Watched σ) α}
    {R : List Token → α → Prop} {start : Tally} {v : Value} (refused : (k none).Takes T R)
    (accepted : ∀ next, start.accept v = .ok next → (k (some next)).Takes T R) :
    (Read.gather Tally.accept start v >>= k).Takes T R := by
  unfold Read.gather
  cases accepts : start.accept v with
  | ok next => exact accepted next accepts
  | error stop =>
      cases stop with
      | refused refusal =>
          show ((Read.report refusal.message >>= fun _ => pure none) >>= k).Takes T R
          rw [bind_assoc]
          apply (Read.takes_report _).bind
          intro _
          rw [pure_bind]
          apply refused.mono
          rintro us b holds ts rfl
          exact holds
      | abort cause => exact Read.takes_throw _ _

variable (each : (item.read fuel : Read Memory (Watched σ) (Option Value)).Takes T
  fun taken result => ∀ v ∈ result, Shown fuel item taken v ∧ good v)
include each

/-- What a repetition has gathered is written again; what its last item took without being read is
    not. -/
theorem takes_repeatLoop (limit turns count : Nat) (start : Tally) :
    (Read.repeatLoop Tally.accept (item.read fuel) limit turns count start :
      Read Memory (Watched σ) (Option (Nat × Tally))).Takes T fun taken result =>
        ∀ x ∈ result, ∃ n, x.1 = count + n ∧ Gathered fuel item good start x.2 n taken := by
  induction turns generalizing count start with
  | zero => exact Read.takes_throw _ _
  | succ turns ih =>
      unfold Read.repeatLoop
      split
      · apply each.bind
        intro result
        cases result with
        | none =>
            apply Read.takes_pure
            intro taken _ x mem
            cases mem
            exact ⟨0, rfl, .nothing _ _⟩
        | some v =>
            apply takes_gather
            · apply Read.takes_pure
              simp
            · intro next accepts
              apply (ih (count + 1) next).mono
              intro later result told before shown x mem
              obtain ⟨n, number, rest⟩ := told x mem
              obtain ⟨written, fine⟩ := shown v rfl
              exact ⟨n + 1, by omega, .cons accepts written fine rest⟩
      · apply Read.takes_pure
        intro x mem
        cases mem
        exact ⟨0, rfl, .nothing _ _⟩

/-- A repetition that is read has as many items as its bounds allow. -/
theorem takes_repeated (turns : Nat) (start : Tally) (bounds : Bounds) :
    (Read.repeated turns Tally.accept start bounds (item.read fuel) :
      Read Memory (Watched σ) (Option Tally)).Takes T fun taken result =>
        ∀ final ∈ result, ∃ n, bounds.allows n = true ∧
          Gathered fuel item good start final n taken := by
  apply (takes_repeatLoop each bounds.limit turns 0 start).bind
  intro counted
  cases counted with
  | none =>
      apply Read.takes_pure
      simp
  | some x =>
      apply Read.takes_pure
      intro taken told final mem
      obtain ⟨n, number, gathered⟩ := told x rfl
      rw [List.append_nil]
      split at mem
      · rename_i allowed
        cases mem
        rw [number, Nat.zero_add] at allowed
        exact ⟨n, allowed, gathered⟩
      · cases mem

/-- The same of a repetition up to an ending. -/
theorem takes_upTo (ending : Pattern) (steps turns : Nat) (start : Tally) :
    (Read.upTo Tally.accept (ending.read steps) (item.read fuel) turns start :
      Read Memory (Watched σ) (Option Tally)).Takes T fun taken result =>
        ∀ final ∈ result, ∃ n, Gathered fuel item good start final n taken := by
  induction turns generalizing start with
  | zero => exact Read.takes_throw _ _
  | succ turns ih =>
      apply (takes_testPeek steps ending).bind
      intro found
      cases found with
      | true =>
          apply Read.takes_pure
          intro taken _ final mem
          cases mem
          exact ⟨0, .nothing _ _⟩
      | false =>
          apply each.bind
          intro result
          cases result with
          | none =>
              apply Read.takes_pure
              simp
          | some v =>
              apply takes_gather
              · apply Read.takes_pure
                simp
              · intro next accepts
                apply (ih next).mono
                rintro later result told before shown _ rfl final mem
                obtain ⟨n, rest⟩ := told final mem
                obtain ⟨written, fine⟩ := shown v rfl
                rw [List.nil_append]
                exact ⟨n + 1, .cons accepts written fine rest⟩

end Gathered

/-! ### Joins -/

/-- Behind some items and separators, held with the latest one first, further ones were read by turns,
    and these are written with nothing added. -/
def Linked (fuel : Nat) (sep item : Pattern) (items seps : List Value) (taken : List Token)
    (x : List Value × List Value) : Prop :=
  ∃ vs ss, x = (items.reverse ++ vs, seps.reverse ++ ss) ∧ vs.length = ss.length ∧ ∃ out,
    (∀ n ≥ fuel, (Write.alternating (sep.write n) (item.write n) ss vs).Gives out) ∧
    out.Sublist taken

section Joined

variable {fuel : Nat} {sep item : Pattern}

theorem Linked.nothing (items seps : List Value) (taken : List Token) :
    Linked fuel sep item items seps taken (items.reverse, seps.reverse) :=
  ⟨[], [], by simp, rfl, [], fun _ _ => Write.gives_pure _, List.nil_sublist taken⟩

theorem Linked.cons {items seps : List Value} {before between later : List Token}
    {x : List Value × List Value} {s v : Value} (mark : Shown fuel sep before s)
    (body : Shown fuel item between v)
    (rest : Linked fuel sep item (v :: items) (s :: seps) later x) :
    Linked fuel sep item items seps (before ++ (between ++ later)) x := by
  obtain ⟨first, writesMark, amongMark⟩ := mark
  obtain ⟨second, writesBody, amongBody⟩ := body
  obtain ⟨vs, ss, rfl, size, more, writes, among⟩ := rest
  refine ⟨v :: vs, s :: ss, by simp, congrArg (· + 1) size, first ++ second ++ more, ?_, ?_⟩
  · intro n enough
    apply (writesMark n enough).bind
    apply (writesBody n enough).bind
    exact (writes n enough).bind (Write.gives_pure _)
  · rw [List.append_assoc]
    exact amongMark.append (amongBody.append among)

variable (marks : Shows σ T fuel sep) (each : Shows σ T fuel item) (noted : Bool)
  (trailing : Value → Bool)
include marks each

/-- Separators and items by turns; what stands behind the last item is not written. -/
theorem takes_joinLoop (steps turns : Nat) (items seps : List Value) :
    (Read.joinLoop (noting noted .separator (sep.read fuel)) (noting noted .item (item.read fuel))
      trailing (fun items _ => rescueJoin steps sep none items) turns items seps :
      Read Memory (Watched σ) (Option (List Value × List Value))).Takes T fun taken result =>
        ∀ x ∈ result, Linked fuel sep item items seps taken x := by
  induction turns generalizing items seps with
  | zero => exact Read.takes_throw _ _
  | succ turns ih =>
      apply (takes_noting marks noted .separator).bind
      intro mark
      cases mark with
      | none =>
          apply Read.takes_pure
          intro taken _ x mem
          cases mem
          exact .nothing items seps _
      | some s =>
          apply (takes_noting each noted .item).bind
          intro read
          cases read with
          | some v =>
              apply (ih (v :: items) (s :: seps)).mono
              intro later result told between body before mark x mem
              exact .cons (mark s rfl) (body v rfl) (told x mem)
          | none =>
              -- a last separator is left out where it may stand, and is an error elsewhere
              dsimp only
              split
              · apply Read.takes_pure
                intro _ _ taken _ x mem
                cases mem
                exact .nothing items seps _
              · apply (takes_rescueJoin steps sep items).bind
                intro rescued
                cases rescued with
                | none =>
                    apply Read.takes_pure
                    simp
                | some v =>
                    apply (ih (v :: items) (s :: seps)).mono
                    intro _ _ _ _ impossible
                    cases impossible

theorem takes_joined (steps turns : Nat) :
    (Read.joined turns (noting noted .separator (sep.read fuel))
      (noting noted .item (item.read fuel)) trailing
      (fun items _ => rescueJoin steps sep none items) :
      Read Memory (Watched σ) (Option (List Value × List Value))).Takes T fun taken result =>
        ∀ x ∈ result, ∃ out,
          (∀ n ≥ fuel, (Write.joined (sep.write n) (item.write n) x.1 x.2).Gives out) ∧
          out.Sublist taken := by
  apply (takes_noting each noted .item).bind
  intro first
  cases first with
  | none =>
      apply Read.takes_pure
      simp
  | some v =>
      apply (takes_joinLoop marks each noted trailing steps turns [v] []).mono
      intro later result told before shown x mem
      obtain ⟨out, writes, among⟩ := shown v rfl
      obtain ⟨vs, ss, rfl, size, more, writesAll, amongAll⟩ := told x mem
      refine ⟨out ++ more, ?_, among.append amongAll⟩
      intro n enough
      show (Write.joined (sep.write n) (item.write n) (v :: vs) ss).Gives (out ++ more)
      rw [Write.joined, if_pos size]
      exact (writes n enough).append (writesAll n enough)

omit trailing in
theorem shows_joined : Shows σ T (fuel + 1) (.joined sep item none noted) := by
  apply (takes_joined marks each noted _ fuel fuel).map
  intro taken result told v mem
  cases result with
  | none => cases mem
  | some x =>
      cases mem
      obtain ⟨out, writes, among⟩ := told x rfl
      exact Shown.succ writes among

end Joined

/-! ### Plain grammars -/

/-- Patterns that give characters, where all tokens are characters. -/
inductive GivesChar : Pattern → Prop
  | satisfy (c : Condition) : GivesChar (.satisfy c)
  | surround {item : Pattern} (left right : Option Token) : GivesChar item →
      GivesChar (.surround (left.map bracketToken) (right.map bracketToken) item)

/-- Folds that keep their items: any items into a list, and characters into a text. -/
inductive KeepsItems (T : Token → Prop) (item : Pattern) : Folding → Prop
  | list : KeepsItems T item { fold := .list }
  | text : GivesChar item → (∀ t, T t → ∃ c, t = .char c) → KeepsItems T item { fold := .text }

/-- The grammars made of conditions on single tokens, parts in a row, choices, repetitions that keep
    their items, by count or up to an ending, joins without a rescue, and single tokens as brackets,
    over tokens of the kind `T`.  There are no more cases than a machine word can count. -/
inductive Plain (T : Token → Prop) : Pattern → Prop
  | satisfy (c : Condition) : Plain T (.satisfy c)
  | tuple {parts : List Pattern} : (∀ p ∈ parts, Plain T p) → Plain T (.tuple parts)
  | sequence {parts : List Pattern} : (∀ p ∈ parts, Plain T p) → Plain T (.sequence parts)
  | choice {cases : List Pattern} : cases.length ≤ UInt64.size → (∀ p ∈ cases, Plain T p) →
      Plain T (.choice cases)
  | repeated {folding : Folding} {item : Pattern} (bounds : Bounds) (skippable : Bool) :
      KeepsItems T item folding → Plain T item → Plain T (.repeated folding item bounds skippable)
  | upTo {folding : Folding} {item : Pattern} (ending : Pattern) :
      KeepsItems T item folding → Plain T item → Plain T (.upTo ending folding item)
  | joined {sep item : Pattern} (noted : Bool) :
      Plain T sep → Plain T item → Plain T (.joined sep item none noted)
  | surround {item : Pattern} (left right : Option Token) :
      Plain T item → Plain T (.surround (left.map bracketToken) (right.map bracketToken) item)

theorem GivesChar.takes [FaithfulFeed σ] {p : Pattern} (gives : GivesChar p)
    (chars : ∀ t, T t → ∃ c, t = .char c) (fuel : Nat) :
    (p.read fuel : Read Memory (Watched σ) (Option Value)).Takes T fun _ result =>
      ∀ v ∈ result, ∃ c, v = .char c := by
  induction gives generalizing fuel with
  | satisfy c =>
      apply (takes_satisfy fuel c).mono
      rintro ts result ⟨kind, rfl, _⟩ v mem
      cases ts with
      | nil => cases mem
      | cons t ts =>
          cases mem
          obtain ⟨c, rfl⟩ := chars t (kind t List.mem_cons_self).1
          exact ⟨c, rfl⟩
  | surround left right _ ih =>
      cases fuel with
      | zero => exact Read.takes_throw _ _
      | succ fuel =>
          apply (takes_surround left right (ih fuel)).mono
          intro taken result told v mem
          obtain ⟨_, _, _, _, _, inner, _⟩ := told v mem
          exact inner v rfl

/-- The items of a fold that keeps them: any, or characters for a text. -/
def Kept (folding : Folding) (v : Value) : Prop :=
  folding.fold = .text → ∃ c, v = .char c

/-- A fold that keeps its items gives them back. -/
theorem KeepsItems.items {folding : Folding} {item : Pattern} (keeps : KeepsItems T item folding)
    {vs : List Value} {final : Tally} (folded : vs.foldlM Tally.accept folding.fold.start = .ok final)
    (kept : ∀ v ∈ vs, Kept folding v) : folding.items final.finish = .ok vs := by
  cases keeps with
  | list =>
      rw [show Folding.fold _ = .list from rfl, Fold.start, foldlM_accept_list] at folded
      cases folded
      simp [Folding.items, Tally.finish, Fold.items]
  | text =>
      obtain ⟨cs, rfl⟩ : ∃ cs : List Char, vs = cs.map Value.char := by
        clear folded
        induction vs with
        | nil => exact ⟨[], rfl⟩
        | cons v vs ih =>
            obtain ⟨c, rfl⟩ := kept v List.mem_cons_self rfl
            obtain ⟨cs, rfl⟩ := ih fun w mem => kept w (List.mem_cons_of_mem _ mem)
            exact ⟨c :: cs, rfl⟩
      rw [show Folding.fold _ = .text from rfl, Fold.start, foldlM_accept_text] at folded
      cases folded
      simp [Folding.items, Tally.finish, Fold.items]

section Repeated

variable [FaithfulFeed σ] {fuel : Nat} {folding : Folding} {item : Pattern}
  (keeps : KeepsItems T item folding) (each : Shows σ T fuel item)
include keeps each

/-- Each item is shown, and a character where the fold needs one. -/
theorem KeepsItems.takes :
    (item.read fuel : Read Memory (Watched σ) (Option Value)).Takes T fun taken result =>
      ∀ v ∈ result, Shown fuel item taken v ∧ Kept folding v := by
  cases keeps with
  | list =>
      apply each.mono
      intro taken result shown v mem
      exact ⟨shown v mem, fun text => by cases text⟩
  | text gives chars =>
      apply (each.and (gives.takes chars fuel)).mono
      intro taken result told v mem
      exact ⟨told.1 v mem, fun _ => told.2 v mem⟩

theorem shows_repeated (bounds : Bounds) (skippable : Bool) :
    Shows σ T (fuel + 1) (.repeated folding item bounds skippable) := by
  apply (takes_repeated (keeps.takes each) fuel folding.fold.start bounds).map
  intro taken result told v mem
  cases result with
  | none => cases mem
  | some final =>
      cases mem
      obtain ⟨_, allowed, vs, rfl, folded, kept, out, writes, among⟩ := told final rfl
      have whole : ∀ n ≥ fuel,
          (write (n + 1) (.repeated folding item bounds skippable) final.finish).Gives out := by
        intro n enough
        show (Write.ofExcept (folding.items final.finish) >>= _).Gives out
        rw [keeps.items folded kept]
        apply (Write.gives_pure vs).bind
        rw [if_pos allowed]
        exact writes n enough
      exact Shown.succ whole among

theorem shows_upTo (ending : Pattern) : Shows σ T (fuel + 1) (.upTo ending folding item) := by
  apply (takes_upTo (keeps.takes each) ending fuel fuel folding.fold.start).map
  intro taken result told v mem
  cases result with
  | none => cases mem
  | some final =>
      cases mem
      obtain ⟨n, vs, _, folded, kept, out, writes, among⟩ := told final rfl
      have whole : ∀ n ≥ fuel, (write (n + 1) (.upTo ending folding item) final.finish).Gives out := by
        intro n enough
        show (Write.ofExcept (folding.items final.finish) >>= _).Gives out
        rw [keeps.items folded kept]
        exact writes n enough
      exact Shown.succ whole among

end Repeated

/-! ### What was read is written -/

section Parts

variable {fuel : Nat} {parts : List Pattern} (each : ∀ p ∈ parts, Shows σ T fuel p)
include each

theorem shows_tuple : Shows σ T (fuel + 1) (.tuple parts) := by
  apply (takes_parts each).map
  intro taken result told v mem
  cases result with
  | none => cases mem
  | some vs =>
      cases mem
      obtain ⟨_, out, writes, among⟩ := told vs rfl
      exact Shown.succ writes among

theorem shows_sequence : Shows σ T (fuel + 1) (.sequence parts) := by
  apply (takes_parts each).map
  intro taken result told v mem
  cases result with
  | none => cases mem
  | some vs =>
      cases mem
      obtain ⟨size, out, writes, among⟩ := told vs rfl
      have whole : ∀ n ≥ fuel, (write (n + 1) (.sequence parts) (.list vs)).Gives out := by
        intro n enough
        show (if vs.length = parts.length then _ else _ : Write Memory _).Gives out
        rw [if_pos size]
        exact writes n enough
      exact Shown.succ whole among

theorem shows_choice (few : parts.length ≤ UInt64.size) :
    Shows σ T (fuel + 1) (.choice parts) := by
  apply (takes_cases each 0).map
  intro taken result told v mem
  cases result with
  | none => cases mem
  | some x =>
      cases mem
      obtain ⟨k, p, number, here, out, writes, among⟩ := told x rfl
      rw [Nat.zero_add] at number
      have word : x.1 < UInt64.size := by
        rw [number]
        exact Nat.lt_of_lt_of_le (List.getElem?_eq_some_iff.mp here).1 few
      have chosen : parts[(Value.ofCount x.1).toCount]? = some p := by
        rw [Value.toCount_ofCount word, number, here]
      have whole : ∀ n ≥ fuel,
          (write (n + 1) (.choice parts) (.pair (.ofCount x.1) x.2)).Gives out := by
        intro n enough
        unfold Pattern.write
        simp only [Value.pair, chosen]
        exact writes n enough
      exact Shown.succ whole among

end Parts

/-- Whatever a plain grammar reads it shows. -/
theorem Plain.shows [FaithfulFeed σ] {p : Pattern} (plain : Plain T p) (fuel : Nat) :
    Shows σ T fuel p := by
  -- by induction on the steps granted: what a pattern is made of is read with one step less
  induction fuel generalizing p with
  | zero => exact Read.takes_throw _ _
  | succ fuel ih =>
      cases plain with
      | satisfy c => exact shows_satisfy fuel c
      | tuple parts => exact shows_tuple fun p mem => ih (parts p mem)
      | sequence parts => exact shows_sequence fun p mem => ih (parts p mem)
      | choice few cases => exact shows_choice (fun p mem => ih (cases p mem)) few
      | repeated bounds skippable keeps item =>
          exact shows_repeated keeps (ih item) bounds skippable
      | upTo ending keeps item => exact shows_upTo keeps (ih item) ending
      | joined noted sep item => exact shows_joined (ih sep) (ih item) noted
      | surround left right item => exact shows_surround left right (ih item)

end Pattern

namespace Grammar

/-- What was read is written, and nothing is invented.  Whatever a plain grammar reads from any feed,
    as long as the tokens it takes are of the grammar's kind, writing the value goes through, whatever
    is remembered by then, and the tokens written are among those that the read has taken, in the same
    order. -/
theorem write_of_read {σ : Type} [Feed σ] [FaithfulFeed σ] {T : Token → Prop} {g : Grammar}
    (plain : g.pattern.Plain T) {feed : σ} (kind : ∀ t ∈ g.taken feed, T t) {v : Value}
    (read : (g.readFrom feed).result = .ok (some v)) :
    ∃ out, (∀ memory, { g with memory := memory }.write v = ⟨.ok out, memory, []⟩) ∧
      out.Sublist (g.taken feed) := by
  let s : Session Memory (Watched σ) := { feed := .of feed, memory := g.memory }
  have watched : ((g.pattern.read g.fuel).perform s).1 = .ok (some v) := by
    have same := congrArg Answer.result (g.readFrom_watched feed).1
    exact same.trans read
  obtain ⟨taken, grown, shown⟩ := plain.shows g.fuel s ((g.pattern.read g.fuel).perform s).2 (some v)
    (Prod.ext watched rfl)
  have all : g.taken feed = taken := grown
  rw [all] at kind ⊢
  obtain ⟨out, writes, among⟩ := shown kind v rfl
  refine ⟨out, ?_, among⟩
  intro memory
  have run := writes g.fuel (Nat.le_refl _) { memory := memory }
  show (⟨((g.pattern.write g.fuel v).perform { memory := memory }).1,
    ((g.pattern.write g.fuel v).perform { memory := memory }).2.memory,
    ((g.pattern.write g.fuel v).perform { memory := memory }).2.journal.toList⟩ : Answer _ _) = _
  rw [run]
  rfl

/-- Pairs of an `a` and a `b`, as many as there are. -/
def couples : Grammar :=
  { pattern := .repeated { fold := .list }
      (.tuple [.satisfy (.equal (.char 'a')), .satisfy (.equal (.char 'b'))]) .many true
    memory := .empty
    fuel := 5 }

/-- From `abax` the last `a` is taken before the second pair fails; what was read is written without
    it. -/
theorem write_of_read_couples :
    let feed : Slice := ⟨#[.char 'a', .char 'b', .char 'a', .char 'x'], 0, by decide⟩
    (couples.readFrom feed).result = .ok (some (.list [.tuple [.char 'a', .char 'b']])) ∧
    couples.taken feed = [.char 'a', .char 'b', .char 'a'] ∧
    ∃ out, (∀ memory, { couples with memory := memory }.write
        (.list [.tuple [.char 'a', .char 'b']]) = ⟨.ok out, memory, []⟩) ∧
      out.Sublist [.char 'a', .char 'b', .char 'a'] := by
  intro feed
  have plain : couples.pattern.Plain fun _ => True := by
    apply Pattern.Plain.repeated _ _ .list
    apply Pattern.Plain.tuple
    intro p mem
    rcases List.mem_cons.mp mem with rfl | mem
    · exact .satisfy _
    · cases List.mem_singleton.mp mem
      exact .satisfy _
  have read : (couples.readFrom feed).result =
      .ok (some (.list [.tuple [.char 'a', .char 'b']])) := rfl
  exact ⟨read, rfl, write_of_read plain (fun _ _ => trivial) read⟩

end Grammar

end Duplex
