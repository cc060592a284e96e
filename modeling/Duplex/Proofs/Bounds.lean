/-
Module: Duplex.Proofs.Bounds
Purpose: Repetitions and their limits.  However many reads of the item would succeed one after the
  other, be there no end to them, a repetition makes as many of them as its bounds let it try and no
  other read, but for the one that does not succeed; and it is read if their number is allowed.
  Over a list of tokens a repetition of one condition takes the longest run of tokens that pass, cut
  off at the limit.
Main exports: Read.successes, Read.NeverRefuses, Read.RepeatsWithin, Read.repeated_within,
  Read.successes_satisfy, Pattern.repeated_bounds
-/
import Duplex.Proofs.Repeating
import Duplex.Proofs.Trie.Walk
import Mathlib.Data.ENat.Lattice
import Mathlib.Order.CompletePartialOrder

namespace Duplex

/-- What is made of a number of items that gathered into `v`: nothing, unless it is allowed. -/
def Bounds.keep {β : Type} (b : Bounds) (count : Nat) (v : β) : Option β :=
  if b.min ≤ count ∧ count ≤ b.max then .some v else none

theorem Bounds.keep_eq {β : Type} (b : Bounds) (count : Nat) (v : β) :
    (if b.allows count then .some v else none) = b.keep count v := by
  simp only [keep, allows_iff]

theorem Bounds.map_keep {β γ : Type} (b : Bounds) (count : Nat) (v : β) (f : β → γ) :
    (b.keep count v).map f = b.keep count (f v) := by
  rw [keep, keep]
  split <;> rfl

namespace Read

variable {μ σ α β τ : Type}

/-! ### Runs of one item -/

section Runs

variable {item : Read μ σ (Option α)} {s t u : Session μ σ} {as bs : List α} {a : α}

theorem Repeats.concat (repeats : Repeats item s as t) (last : item.perform t = (.ok (some a), u)) :
    Repeats item s (as ++ [a]) u := by
  induction repeats with
  | nothing s => exact .more last (.nothing u)
  | more first _ ih => exact .more first (ih last)

/-- A run begins with a run of each smaller length. -/
theorem Repeats.take (repeats : Repeats item s as t) (n : Nat) :
    ∃ u, Repeats item s (as.take n) u := by
  induction repeats generalizing n with
  | nothing s => exact ⟨s, by simpa using .nothing s⟩
  | @more s _ _ _ _ first _ ih =>
      cases n with
      | zero => exact ⟨s, .nothing s⟩
      | succ n =>
          obtain ⟨u, front⟩ := ih n
          exact ⟨u, .more first front⟩

/-- Of two runs of one length there is only one. -/
theorem Repeats.unique (one : Repeats item s as t) (other : Repeats item s bs u)
    (same : as.length = bs.length) : as = bs ∧ t = u := by
  induction one generalizing bs with
  | nothing s =>
      cases other with
      | nothing => exact ⟨rfl, rfl⟩
      | more => simp at same
  | more first _ ih =>
      cases other with
      | nothing => simp at same
      | more again rest =>
          obtain ⟨rfl, rfl⟩ : _ = _ ∧ _ = _ := by simpa using first.symm.trans again
          obtain ⟨rfl, rfl⟩ := ih rest (by simpa using same)
          exact ⟨rfl, rfl⟩

/-- No run is longer than one behind which the item does not give a value. -/
theorem Repeats.length_le (ended : Repeats item s as t)
    (stops : ∀ a u, item.perform t ≠ (.ok (some a), u)) (other : Repeats item s bs u) :
    bs.length ≤ as.length := by
  induction ended generalizing bs with
  | nothing s =>
      cases other with
      | nothing => exact Nat.le_refl 0
      | more again _ => exact absurd again (stops _ _)
  | more first _ ih =>
      cases other with
      | nothing => exact Nat.zero_le _
      | more again rest =>
          obtain ⟨rfl, rfl⟩ : _ = _ ∧ _ = _ := by simpa using first.symm.trans again
          exact Nat.succ_le_succ (ih stops rest)

/-- The number of reads of the item that give a value one after the other, before the first one that
    does not; there may be no end to them. -/
noncomputable def successes (item : Read μ σ (Option α)) (s : Session μ σ) : ℕ∞ :=
  ⨆ (n : Nat) (_ : ∃ as t, as.length = n ∧ Repeats item s as t), (n : ℕ∞)

theorem le_successes_iff {n : Nat} :
    (n : ℕ∞) ≤ successes item s ↔ ∃ as t, as.length = n ∧ Repeats item s as t := by
  constructor
  · intro reached
    by_contra none
    have shorter : ∀ m, (∃ as t, as.length = m ∧ Repeats item s as t) → m < n := by
      rintro m ⟨as, t, rfl, repeats⟩
      by_contra long
      obtain ⟨u, front⟩ := repeats.take n
      exact none ⟨_, u, List.length_take_of_le (Nat.le_of_not_lt long), front⟩
    cases n with
    | zero => exact none ⟨[], s, rfl, .nothing s⟩
    | succ n =>
        have bounded : successes item s ≤ (n : ℕ∞) :=
          iSup₂_le fun m run => Nat.cast_le.mpr (Nat.le_of_lt_succ (shorter m run))
        exact absurd (Nat.cast_le.mp (reached.trans bounded)) (Nat.not_succ_le_self n)
  · intro run
    exact le_iSup₂ (f := fun (n : Nat) (_ : ∃ as t, as.length = n ∧ Repeats item s as t) =>
      (n : ℕ∞)) n run

/-- A run behind which the item does not give a value has all of them. -/
theorem Repeats.successes_eq (ended : Repeats item s as t)
    (stops : ∀ a u, item.perform t ≠ (.ok (some a), u)) : successes item s = as.length := by
  apply le_antisymm
  · refine iSup₂_le fun n run => ?_
    obtain ⟨bs, u, rfl, other⟩ := run
    exact Nat.cast_le.mpr (ended.length_le stops other)
  · exact le_successes_iff.mpr ⟨as, t, rfl, ended⟩

/-- Behind as many values as there are the item gives none, or stops. -/
theorem Repeats.ends (repeats : Repeats item s as t) (all : successes item s = as.length) :
    ∃ u, item.perform t = (.ok none, u) ∨ ∃ stop, item.perform t = (.error stop, u) := by
  rcases tried : item.perform t with ⟨stop | none | a, u⟩
  · exact ⟨u, .inr ⟨stop, rfl⟩⟩
  · exact ⟨u, .inl rfl⟩
  · have longer : ((as.length + 1 : Nat) : ℕ∞) ≤ successes item s :=
      le_successes_iff.mpr ⟨as ++ [a], u, by simp, repeats.concat tried⟩
    rw [all] at longer
    exact absurd (Nat.cast_le.mp longer) (Nat.not_succ_le_self _)

end Runs

/-! ### Repetitions -/

/-- Whatever the item reads from here on, one value after the other, a fold gathers it. -/
def NeverRefuses (accept : τ → α → Except FoldStop τ) (start : τ) (item : Read μ σ (Option α))
    (s : Session μ σ) : Prop :=
  ∀ as t, Repeats item s as t → ∃ gathered, as.foldlM accept start = .ok gathered

/-- The repetition `r` has read the items `as`, which left `t` behind and gathered into `v`.  They are
    all that can be read one after the other, but not more than the limit.  At the limit that is the
    whole of it.  Below the limit there was one more read, which gave no value: the repetition ends
    where that one ended, and stops if that one stopped.  The value is given if the number of items
    is allowed. -/
structure RepeatsWithin (bounds : Bounds) (item : Read μ σ (Option α)) (r : Read μ σ (Option β))
    (s : Session μ σ) (as : List α) (t : Session μ σ) (v : β) : Prop where
  items : Repeats item s as t
  count : (as.length : ℕ∞) = min (successes item s) bounds.limit
  atLimit : bounds.limit ≤ successes item s → r.perform s = (.ok (bounds.keep as.length v), t)
  below : successes item s < bounds.limit → ∃ u,
    (item.perform t = (.ok none, u) ∧ r.perform s = (.ok (bounds.keep as.length v), u)) ∨
      ∃ stop, item.perform t = (.error stop, u) ∧ r.perform s = (.error stop, u)

theorem RepeatsWithin.map {bounds : Bounds} {item : Read μ σ (Option α)} {r : Read μ σ (Option β)}
    {s t : Session μ σ} {as : List α} {v : β} {γ : Type} (within : RepeatsWithin bounds item r s as t v)
    (f : β → γ) : RepeatsWithin bounds item (do return (← r).map f) s as t (f v) where
  items := within.items
  count := within.count
  atLimit reached := by
    rw [perform_bind_ok (within.atLimit reached), ← Bounds.map_keep]
    rfl
  below short := by
    obtain ⟨u, ⟨last, run⟩ | ⟨stop, last, run⟩⟩ := within.below short
    · refine ⟨u, .inl ⟨last, ?_⟩⟩
      rw [perform_bind_ok run, ← Bounds.map_keep]
      rfl
    · refine ⟨u, .inr ⟨stop, last, ?_⟩⟩
      rw [perform_bind, run]

section Repetition

variable [Feed σ] {accept : τ → α → Except FoldStop τ} {start : τ} {item : Read μ σ (Option α)}
  {s t : Session μ σ} {as : List α} {gathered : τ} (bounds : Bounds) (turns : Nat)

/-- At the limit a repetition is done. -/
theorem Repeats.perform_full (repeats : Repeats item s as t)
    (folded : as.foldlM accept start = .ok gathered) (full : as.length = bounds.limit) :
    (repeated (turns + 1 + as.length) accept start bounds item).perform s =
      (.ok (bounds.keep as.length gathered), t) := by
  have loop : (repeatLoop accept item bounds.limit (turns + 1 + as.length) 0 start).perform s =
      (.ok (some (as.length, gathered)), t) := by
    rw [repeats.perform_repeatLoop folded (by omega), repeatLoop, if_neg (by omega), Nat.zero_add]
    rfl
  rw [repeated, perform_bind_ok loop, ← Bounds.keep_eq]
  rfl

/-- Below the limit it reads the item once more, and is done if that gives no value. -/
theorem Repeats.perform_short {u : Session μ σ} (repeats : Repeats item s as t)
    (folded : as.foldlM accept start = .ok gathered) (short : as.length < bounds.limit)
    (last : item.perform t = (.ok none, u)) :
    (repeated (turns + 1 + as.length) accept start bounds item).perform s =
      (.ok (bounds.keep as.length gathered), u) := by
  have loop : (repeatLoop accept item bounds.limit (turns + 1 + as.length) 0 start).perform s =
      (.ok (some (as.length, gathered)), u) := by
    rw [repeats.perform_repeatLoop folded (by omega), repeatLoop, if_pos (by omega), Nat.zero_add,
      perform_bind_ok last]
    rfl
  rw [repeated, perform_bind_ok loop, ← Bounds.keep_eq]
  rfl

/-- Where that read stops, so does the repetition. -/
theorem Repeats.perform_stopped {u : Session μ σ} {stop : Stop ReadFault}
    (repeats : Repeats item s as t) (folded : as.foldlM accept start = .ok gathered)
    (short : as.length < bounds.limit) (last : item.perform t = (.error stop, u)) :
    (repeated (turns + 1 + as.length) accept start bounds item).perform s = (.error stop, u) := by
  have loop : (repeatLoop accept item bounds.limit (turns + 1 + as.length) 0 start).perform s =
      (.error stop, u) := by
    rw [repeats.perform_repeatLoop folded (by omega), repeatLoop, if_pos (by omega), perform_bind,
      last]
  rw [repeated, perform_bind, loop]

/-- A repetition with a fold that refuses nothing keeps within its bounds. -/
theorem repeated_within (never : NeverRefuses accept start item s) {fuel : Nat}
    (enough : min (successes item s) bounds.limit < (fuel : ℕ∞)) :
    ∃ as t gathered, as.foldlM accept start = .ok gathered ∧
      RepeatsWithin bounds item (repeated fuel accept start bounds item) s as t gathered := by
  obtain ⟨n, few⟩ : ∃ n : Nat, (n : ℕ∞) = min (successes item s) bounds.limit :=
    ENat.ne_top_iff_exists.mp (ne_top_of_le_ne_top (ENat.natCast_ne_top _) (min_le_right _ _))
  obtain ⟨as, t, rfl, repeats⟩ := le_successes_iff.mp (few.trans_le (min_le_left _ _))
  obtain ⟨gathered, folded⟩ := never as t repeats
  obtain ⟨turns, rfl⟩ : ∃ turns, fuel = turns + 1 + as.length := by
    rw [← few, Nat.cast_lt] at enough
    exact ⟨fuel - as.length - 1, by omega⟩
  refine ⟨as, t, gathered, folded, repeats, few, ?_, ?_⟩
  · intro reached
    rw [min_eq_right reached, Nat.cast_inj] at few
    exact repeats.perform_full bounds turns folded few
  · intro short
    rw [min_eq_left short.le] at few
    rw [← few, Nat.cast_lt] at short
    obtain ⟨u, last | ⟨stop, last⟩⟩ := repeats.ends few.symm
    · exact ⟨u, .inl ⟨last, repeats.perform_short bounds turns folded short last⟩⟩
    · exact ⟨u, .inr ⟨stop, last, repeats.perform_stopped bounds turns folded short last⟩⟩

end Repetition

/-! ### Runs of tokens that pass -/

theorem ComesTo.map {P : List Token → σ → Prop} {r : Read μ σ α} {s : Session μ σ} {a : α}
    {rest : List Token} (here : r.ComesTo P s a rest) (f : α → β) :
    (do return f (← r)).ComesTo P s (f a) rest :=
  here.bind fun _ left _ => comesTo_pure left

/-- Items are read one after the other if each is read from its own tokens, whatever comes behind. -/
theorem repeats_pieces {P : List Token → σ → Prop} {item : Read μ σ (Option α)}
    {pieces : List (List Token × α)} {rest : List Token} {s : Session μ σ}
    (here : ∀ piece ∈ pieces, ∀ (t : Session μ σ) (rest : List Token), P (piece.1 ++ rest) t.feed →
      item.ComesTo P t (some piece.2) rest)
    (holds : P (pieces.flatMap Prod.fst ++ rest) s.feed) :
    ∃ t, Repeats item s (pieces.map Prod.snd) t ∧ P rest t.feed ∧ t.memory = s.memory := by
  induction pieces generalizing s with
  | nil => exact ⟨s, .nothing s, holds, rfl⟩
  | cons piece pieces ih =>
      rw [List.flatMap_cons, List.append_assoc] at holds
      obtain ⟨between, first, left, kept⟩ := here piece List.mem_cons_self s _ holds
      obtain ⟨t, repeats, behind, same⟩ :=
        ih (fun other mem => here other (List.mem_cons_of_mem piece mem)) left
      exact ⟨t, .more first repeats, behind, same.trans kept⟩

/-- What stands behind a run is what is left when the run is dropped. -/
theorem drop_length_takeWhile {test : α → Bool} {ts : List α} :
    ts.drop (ts.takeWhile test).length = ts.dropWhile test := by
  have behind : (ts.takeWhile test ++ ts.dropWhile test).drop (ts.takeWhile test).length =
      ts.dropWhile test := List.drop_left
  rwa [List.takeWhile_append_dropWhile] at behind

section Tokens

variable [Feed σ] {last : Token} {P : List Token → σ → Prop} (follows : Follows last P)
  (unhalted : ∀ {ahead s}, P ahead s → (Feed.consume s).halt = none)

include follows unhalted

theorem comesTo_consumeIf (test : Token → Bool) {s : Session μ σ} {t : Token} {ts : List Token}
    (holds : P (t :: ts) s.feed) (passes : test t = true) :
    (consumeIf test : Read μ σ (Option Token)).ComesTo P s (some t) ts := by
  refine (comesTo_peek follows holds).bind fun u left _ => ?_
  rw [List.headD_cons, if_pos passes]
  exact comesTo_consume follows unhalted left

/-- A token that does not pass is left; the last one, which is still shown behind the end, cannot be
    taken. -/
theorem comesTo_consumeIf_none (test : Token → Bool) {s : Session μ σ} {ts : List Token}
    (holds : P ts s.feed) (fails : ∀ t ∈ ts.head?, test t = false) :
    (consumeIf test : Read μ σ (Option Token)).ComesTo P s none ts := by
  refine (comesTo_peek follows holds).bind fun u left _ => ?_
  cases ts with
  | nil =>
      split
      · exact comesTo_consume follows unhalted left
      · exact comesTo_pure left
  | cons t ts =>
      rw [List.headD_cons, if_neg (Bool.eq_false_iff.mp (fails t rfl))]
      exact comesTo_pure left

variable {c : Condition} {s : Session Memory σ} (fuel : Nat)

theorem comesTo_satisfy {t : Token} {ts : List Token} (holds : P (t :: ts) s.feed)
    (passes : c.holds t = true) :
    ((Pattern.satisfy c).read (fuel + 1)).ComesTo P s (some t.toValue) ts :=
  (comesTo_consumeIf follows unhalted c.holds holds passes).map (Option.map Token.toValue)

theorem comesTo_satisfy_none {ts : List Token} (holds : P ts s.feed)
    (fails : ∀ t ∈ ts.head?, c.holds t = false) :
    ((Pattern.satisfy c).read (fuel + 1)).ComesTo P s none ts :=
  (comesTo_consumeIf_none follows unhalted c.holds holds fails).map (Option.map Token.toValue)

/-- Tokens that pass are read one after the other. -/
theorem repeats_satisfy {us rest : List Token} (passes : ∀ t ∈ us, c.holds t = true)
    (holds : P (us ++ rest) s.feed) :
    ∃ t, Repeats ((Pattern.satisfy c).read (fuel + 1)) s (us.map Token.toValue) t ∧
      P rest t.feed ∧ t.memory = s.memory := by
  let pieces : List (List Token × Value) := us.map fun t => ([t], t.toValue)
  have tokens : pieces.flatMap Prod.fst = us := by
    rw [List.flatMap_map]
    exact List.flatMap_singleton' us
  have values : pieces.map Prod.snd = us.map Token.toValue := by
    rw [List.map_map]
    rfl
  rw [← values]
  refine repeats_pieces ?_ (by rwa [tokens])
  intro piece mem t rest left
  obtain ⟨u, among, rfl⟩ := List.mem_map.mp mem
  exact comesTo_satisfy follows unhalted fuel left (passes u among)

/-- Behind a run of tokens that pass none is read. -/
theorem comesTo_satisfy_behind {ts : List Token} (holds : P (ts.dropWhile c.holds) s.feed) :
    ((Pattern.satisfy c).read (fuel + 1)).ComesTo P s none (ts.dropWhile c.holds) := by
  have stops : ∀ t ∈ (ts.dropWhile c.holds).head?, c.holds t = false := by
    intro t head
    have fails := List.head?_dropWhile_not c.holds ts
    rwa [Option.mem_def.mp head] at fails
  exact comesTo_satisfy_none follows unhalted fuel holds stops

/-- As many of them are read as stand before the first one that does not pass. -/
theorem successes_satisfy {ts : List Token} (holds : P ts s.feed) :
    successes ((Pattern.satisfy c).read (fuel + 1)) s = (ts.takeWhile c.holds).length := by
  have whole : P (ts.takeWhile c.holds ++ ts.dropWhile c.holds) s.feed := by
    rwa [List.takeWhile_append_dropWhile]
  obtain ⟨t, repeats, left, _⟩ := repeats_satisfy follows unhalted fuel
    (fun _ mem => List.mem_takeWhile_imp mem) whole
  obtain ⟨_, refused, _⟩ := comesTo_satisfy_behind follows unhalted fuel left
  have ended := repeats.successes_eq fun a u some => by
    have none := refused.symm.trans some
    simp at none
  rwa [List.length_map] at ended

/-- What is read one after the other is a run of them. -/
theorem exists_of_repeats_satisfy {ts : List Token} {as : List Value} {t : Session Memory σ}
    (holds : P ts s.feed) (repeats : Repeats ((Pattern.satisfy c).read (fuel + 1)) s as t) :
    ∃ us, us <+: ts.takeWhile c.holds ∧ as = us.map Token.toValue := by
  have among : (as.length : ℕ∞) ≤ successes ((Pattern.satisfy c).read (fuel + 1)) s :=
    le_successes_iff.mpr ⟨as, t, rfl, repeats⟩
  rw [successes_satisfy follows unhalted fuel holds, Nat.cast_le] at among
  have begins : (ts.takeWhile c.holds).take as.length <+: ts :=
    (List.take_prefix _ _).trans (List.takeWhile_prefix _)
  obtain ⟨rest, whole⟩ := begins
  rw [← whole] at holds
  obtain ⟨u, run, _⟩ := repeats_satisfy follows unhalted fuel
    (fun _ mem => List.mem_takeWhile_imp (List.mem_of_mem_take mem)) holds
  obtain ⟨same, _⟩ := repeats.unique run
    (by rw [List.length_map, List.length_take_of_le among])
  exact ⟨_, List.take_prefix _ _, same⟩

end Tokens

end Read

/-! ### Folds -/

/-- Whether an item is of the kind that is gathered.  Of digits for a number of limited size none is
    sure to be taken. -/
def Tally.Takes : Tally → Value → Prop
  | .text _, v => (∃ c, v = .char c) ∨ ∃ s, v = .text s
  | .map _, v => ∃ (k : Token) (w : Value), v = .pair k.toValue w
  | .int _ _, _ => False
  | .double _ _ _, _ => False
  | .big _ _, v => ∃ d, v = .int d
  | .sum _, v => ∃ n, v = .int n
  | _, _ => True

theorem Tally.Takes.accept {t : Tally} {v : Value} (takes : t.Takes v) :
    ∃ next, t.accept v = .ok next ∧ next.Takes = t.Takes := by
  cases t with
  | list => exact ⟨_, rfl, rfl⟩
  | text => obtain ⟨c, rfl⟩ | ⟨s, rfl⟩ := takes <;> exact ⟨_, rfl, rfl⟩
  | count => exact ⟨_, rfl, rfl⟩
  | map entries =>
      obtain ⟨k, w, rfl⟩ := takes
      exact ⟨.map (Value.insertEntry k w entries), by cases k <;> rfl, rfl⟩
  | int => exact takes.elim
  | big =>
      obtain ⟨d, rfl⟩ := takes
      exact ⟨_, rfl, rfl⟩
  | double => exact takes.elim
  | sum =>
      obtain ⟨n, rfl⟩ := takes
      exact ⟨_, rfl, rfl⟩
  | nested => exact ⟨_, rfl, rfl⟩
  | last => exact ⟨_, rfl, rfl⟩

/-- Every fold but those of digits into machine numbers gathers whatever is of its kind. -/
theorem Fold.neverRefuses {σ : Type} {f : Fold} {item : Read Memory σ (Option Value)}
    {s : Session Memory σ}
    (takes : ∀ as t, Read.Repeats item s as t → ∀ v ∈ as, f.start.Takes v) :
    Read.NeverRefuses Tally.accept f.start item s := by
  intro as t repeats
  have fits := takes as t repeats
  clear takes repeats
  generalize f.start = tally at fits
  induction as generalizing tally with
  | nil => exact ⟨tally, rfl⟩
  | cons v as ih =>
      obtain ⟨first, others⟩ := List.forall_mem_cons.mp fits
      obtain ⟨next, accepts, same⟩ := first.accept
      rw [← same] at others
      obtain ⟨gathered, folded⟩ := ih next others
      exact ⟨gathered, by rw [List.foldlM_cons, accepts]; exact folded⟩

/-! ### Patterns -/

namespace Pattern

section Repetition

variable {σ : Type} [Feed σ] {folding : Folding} (bounds : Bounds) {fuel : Nat}

/-- A repeated pattern keeps within its bounds. -/
theorem read_repeated_within {item : Pattern} {s : Session Memory σ}
    (never : Read.NeverRefuses Tally.accept folding.fold.start (item.read fuel) s) (skippable : Bool)
    (enough : min (Read.successes (item.read fuel) s) bounds.limit < (fuel : ℕ∞)) :
    ∃ as t v, foldAll folding.fold as = .ok v ∧ Read.RepeatsWithin bounds (item.read fuel)
      ((Pattern.repeated folding item bounds skippable).read (fuel + 1)) s as t v := by
  obtain ⟨as, t, gathered, folded, within⟩ :=
    Read.repeated_within bounds never enough
  exact ⟨as, t, gathered.finish, foldAll_ok folded, within.map Tally.finish⟩

variable {last : Token} {P : List Token → σ → Prop} (follows : Follows last P)
  (unhalted : ∀ {ahead s}, P ahead s → (Feed.consume s).halt = none)

include follows unhalted

/-- A fold refuses no tokens if those that pass are of the kind that it gathers. -/
theorem neverRefuses_satisfy {f : Fold} {c : Condition} {s : Session Memory σ} {ts : List Token}
    (holds : P ts s.feed) (takes : ∀ t ∈ ts, c.holds t = true → f.start.Takes t.toValue) :
    Read.NeverRefuses Tally.accept f.start ((Pattern.satisfy c).read (fuel + 1)) s := by
  refine Fold.neverRefuses fun as t repeats v mem => ?_
  obtain ⟨us, begins, rfl⟩ :=
    Read.exists_of_repeats_satisfy follows unhalted fuel holds repeats
  obtain ⟨u, among, rfl⟩ := List.mem_map.mp mem
  have inside := begins.subset among
  exact takes u ((List.takeWhile_prefix _).subset inside) (List.mem_takeWhile_imp inside)

/-- One token after the other is taken that passes, up to the limit. -/
theorem comesTo_repeated_satisfy {c : Condition} {s : Session Memory σ}
    (never : Read.NeverRefuses Tally.accept folding.fold.start ((Pattern.satisfy c).read fuel) s)
    (skippable : Bool) {ts : List Token} (holds : P ts s.feed)
    (enough : min (ts.takeWhile c.holds).length bounds.limit < fuel) :
    let run := (ts.takeWhile c.holds).take bounds.limit
    ∃ v, foldAll folding.fold (run.map Token.toValue) = .ok v ∧
      ((Pattern.repeated folding (.satisfy c) bounds skippable).read (fuel + 1)).ComesTo P s
        (bounds.keep run.length v) (ts.drop run.length) := by
  intro run
  obtain ⟨fuel, rfl⟩ : ∃ k, fuel = k + 1 := ⟨fuel - 1, by omega⟩
  have among : Read.successes ((Pattern.satisfy c).read (fuel + 1)) s =
      (ts.takeWhile c.holds).length := Read.successes_satisfy follows unhalted fuel holds
  have size : run.length = min bounds.limit (ts.takeWhile c.holds).length := List.length_take
  have cut : min (Read.successes ((Pattern.satisfy c).read (fuel + 1)) s) bounds.limit =
      ((min (ts.takeWhile c.holds).length bounds.limit : Nat) : ℕ∞) := by
    rw [among]
    exact Nat.mono_cast.map_min.symm
  obtain ⟨as, t, v, folded, within⟩ := read_repeated_within bounds never skippable
    (by rw [cut]; exact Nat.cast_lt.mpr enough)
  have count : as.length = run.length := by
    rw [size, min_comm]
    exact Nat.cast_injective (within.count.trans cut)
  have begins : run <+: ts := (List.take_prefix _ _).trans (List.takeWhile_prefix _)
  have whole : P (run ++ ts.drop run.length) s.feed := by
    rwa [List.prefix_iff_eq_append.mp begins]
  have passes : ∀ t ∈ run, c.holds t = true :=
    fun _ mem => List.mem_takeWhile_imp (List.mem_of_mem_take mem)
  obtain ⟨u, repeats, left, kept⟩ := Read.repeats_satisfy follows unhalted fuel passes whole
  obtain ⟨rfl, rfl⟩ := within.items.unique repeats (by rw [count, List.length_map])
  refine ⟨v, folded, ?_⟩
  rw [← count]
  rcases le_or_gt (bounds.limit : ℕ∞) (Read.successes ((Pattern.satisfy c).read (fuel + 1)) s) with
    full | short
  · exact ⟨t, within.atLimit full, by rwa [count], kept⟩
  · -- the token behind the run was looked at and left
    have all : run = ts.takeWhile c.holds := by
      rw [among, Nat.cast_lt] at short
      exact List.take_of_length_le short.le
    rw [all, Read.drop_length_takeWhile] at left
    obtain ⟨after, refused, behind, same⟩ :=
      Read.comesTo_satisfy_behind follows unhalted fuel left
    obtain ⟨u, ⟨last, read⟩ | ⟨stop, last, read⟩⟩ := within.below short
    · obtain rfl : u = after := by simpa using last.symm.trans refused
      refine ⟨u, read, ?_, same.trans kept⟩
      rwa [count, all, Read.drop_length_takeWhile]
    · have never := last.symm.trans refused
      simp at never

end Repetition

/-- A repetition respects its bounds, whatever the item, the bounds and the feed are, if its fold
    refuses nothing of what the item reads.  Of the reads of the item that would succeed one after the
    other it makes as many as the limit lets it, which is the maximum if it is greedy and the minimum
    otherwise.  At the limit it reads nothing more.  Below the limit there is one read more, which
    does not succeed: the repetition ends where that read ended, and with its fault if it had one.
    Otherwise it gives the fold of the items in order exactly if their number is between the minimum
    and the maximum.  So a repetition of one condition takes the longest run of tokens that pass, cut
    off at the limit, and nothing else. -/
theorem repeated_bounds :
    (∀ {μ σ α τ : Type} [Feed σ] (accept : τ → α → Except FoldStop τ) (start : τ) (bounds : Bounds)
      (item : Read μ σ (Option α)) (s : Session μ σ) (fuel : Nat),
      Read.NeverRefuses accept start item s → min (Read.successes item s) bounds.limit < (fuel : ℕ∞) →
      ∃ as t v, as.foldlM accept start = .ok v ∧
        Read.RepeatsWithin bounds item (Read.repeated fuel accept start bounds item) s as t v) ∧
    (∀ {σ : Type} [Feed σ] (folding : Folding) (item : Pattern) (bounds : Bounds) (skippable : Bool)
      (s : Session Memory σ) (fuel : Nat),
      Read.NeverRefuses Tally.accept folding.fold.start (item.read fuel) s →
      min (Read.successes (item.read fuel) s) bounds.limit < (fuel : ℕ∞) →
      ∃ as t v, foldAll folding.fold as = .ok v ∧
        Read.RepeatsWithin bounds (item.read fuel)
          ((Pattern.repeated folding item bounds skippable).read (fuel + 1)) s as t v) ∧
    ∀ {σ : Type} [Feed σ] {last : Token} {P : List Token → σ → Prop}, Follows last P →
      (∀ {ahead s}, P ahead s → (Feed.consume s).halt = none) →
      ∀ (folding : Folding) (c : Condition) (bounds : Bounds) (skippable : Bool)
        (s : Session Memory σ) (ts : List Token) (fuel : Nat),
      Read.NeverRefuses Tally.accept folding.fold.start ((Pattern.satisfy c).read fuel) s →
      P ts s.feed →
      min (ts.takeWhile c.holds).length bounds.limit < fuel →
      let run := (ts.takeWhile c.holds).take bounds.limit
      Read.successes ((Pattern.satisfy c).read fuel) s = (ts.takeWhile c.holds).length ∧
        ∃ v, foldAll folding.fold (run.map Token.toValue) = .ok v ∧
          ((Pattern.repeated folding (.satisfy c) bounds skippable).read (fuel + 1)).ComesTo P s
            (bounds.keep run.length v) (ts.drop run.length) := by
  refine ⟨?_, ?_, ?_⟩
  · intro μ σ α τ _ accept start bounds item s fuel never enough
    exact Read.repeated_within bounds never enough
  · intro σ _ folding item bounds skippable s fuel never enough
    exact read_repeated_within bounds never skippable enough
  · intro σ _ last P follows unhalted folding c bounds skippable s ts fuel never holds enough run
    obtain ⟨more, rfl⟩ : ∃ k, fuel = k + 1 := ⟨fuel - 1, by omega⟩
    exact ⟨Read.successes_satisfy follows unhalted more holds,
      comesTo_repeated_satisfy bounds follows unhalted never skippable holds enough⟩

/-- An item that reads for ever is read twice where the minimum is three and the maximum two, which
    gives nothing.  Of pairs of letters the second one fails behind its first letter, which is gone.
    Of four letters three are taken where three are the most. -/
theorem repeated_bounds_letters :
    (∀ s : Session Memory Pulled, ((Read.repeated 3 (fun n (_ : Unit) => .ok (n + 1)) 0 ⟨3, 2, true⟩
      (pure (some ()))).perform s).1 = .ok none) ∧
    (let pair : Pattern := .tuple [.satisfy (.equal (.char 'a')), .satisfy (.equal (.char 'b'))]
      let s : Session Memory Pulled :=
        { feed := ⟨Token.ofText "bac", .char 'a', false⟩, memory := .empty }
      let run := ((Pattern.repeated { fold := .list } pair .many true).read 4).perform s
      run.1 = .ok (some (.list [.pair (.char 'a') (.char 'b')])) ∧
        run.2.feed = ⟨[], .char 'c', false⟩) ∧
    ((Pattern.repeated { fold := .text } (.satisfy (.equal (.char 'a'))) ⟨2, 3, true⟩ false).read
      5).ComesTo (Stands (.char 'a'))
        { feed := (⟨Token.ofText "aaa", .char 'a', false⟩ : Pulled), memory := .empty }
      (some (.text "aaa")) [.char 'a'] := by
  refine ⟨?_, ?_, ?_⟩
  · intro s
    let accept : Nat → Unit → Except FoldStop Nat := fun n _ => .ok (n + 1)
    have never : Read.NeverRefuses accept 0 (pure (some ()) : Read Memory Pulled _) s := by
      intro as t run
      clear run
      generalize 0 = n
      induction as generalizing n with
      | nil => exact ⟨n, rfl⟩
      | cons _ as ih => exact ih (n + 1)
    have twice : Read.Repeats (pure (some ()) : Read Memory Pulled _) s [(), ()] s :=
      .more rfl (.more rfl (.nothing s))
    have reached : ((2 : Nat) : ℕ∞) ≤ Read.successes (pure (some ())) s :=
      Read.le_successes_iff.mpr ⟨_, s, rfl, twice⟩
    have enough : min (Read.successes (pure (some ())) s) (2 : Nat) < ((3 : Nat) : ℕ∞) := by
      rw [min_eq_right reached]
      exact Nat.cast_lt.mpr (by decide)
    obtain ⟨as, t, v, _, within⟩ := repeated_bounds.1 accept 0 ⟨3, 2, true⟩ _ s 3 never enough
    have count : as.length = 2 := Nat.cast_injective (within.count.trans (min_eq_right reached))
    show ((Read.repeated 3 accept 0 ⟨3, 2, true⟩ (pure (some ()))).perform s).1 = _
    rw [within.atLimit reached, count]
    rfl
  · intro pair s run
    obtain ⟨t, u, first, second, left⟩ : ∃ t u, (pair.read 3).perform s =
        (.ok (some (.pair (.char 'a') (.char 'b'))), t) ∧ (pair.read 3).perform t = (.ok none, u) ∧
        u.feed = ⟨[], .char 'c', false⟩ := ⟨_, _, rfl, rfl, rfl⟩
    have once : Read.Repeats (pair.read 3) s [.pair (.char 'a') (.char 'b')] t :=
      .more first (.nothing t)
    have among : Read.successes (pair.read 3) s = 1 := once.successes_eq (by simp [second])
    have many : (1 : ℕ∞) < Bounds.many.limit := by
      rw [← Nat.cast_one]
      exact Nat.cast_lt.mpr (by decide)
    have few : min (Read.successes (pair.read 3) s) Bounds.many.limit = ((1 : Nat) : ℕ∞) := by
      rw [among]
      exact min_eq_left many.le
    obtain ⟨as, _, v, folded, within⟩ := repeated_bounds.2.1 { fold := .list } pair .many true s 3
      (Fold.neverRefuses fun _ _ _ _ _ => trivial) (by rw [few]; exact Nat.cast_lt.mpr (by decide))
    obtain ⟨rfl, rfl⟩ := within.items.unique once (Nat.cast_injective (within.count.trans few))
    obtain rfl : .list [.pair (.char 'a') (.char 'b')] = v := Except.ok.inj folded
    obtain ⟨w, ⟨last, read⟩ | ⟨stop, last, _⟩⟩ := within.below (by rw [among]; exact many)
    · obtain rfl : u = w := by simpa [second] using last
      show (Read.perform _ s).1 = _ ∧ (Read.perform _ s).2.feed = _
      rw [read]
      exact ⟨rfl, left⟩
    · simp [second] at last
  · have holds : Stands (.char 'a') (Token.ofText "aaaa")
        (⟨Token.ofText "aaa", .char 'a', false⟩ : Pulled) :=
      ⟨rfl, by simp [Token.ofText], by simp [Token.ofText]⟩
    have never : Read.NeverRefuses Tally.accept (Fold.start .text)
        ((Pattern.satisfy (.equal (.char 'a'))).read 4) { feed := _, memory := .empty } :=
      neverRefuses_satisfy Stands.follows Stands.unhalted holds
        fun t _ same => .inl ⟨'a', by rw [eq_of_beq same]; rfl⟩
    obtain ⟨_, v, folded, read⟩ := repeated_bounds.2.2 Stands.follows Stands.unhalted
      { fold := .text } (.equal (.char 'a')) ⟨2, 3, true⟩ false
      { feed := _, memory := .empty } _ 4 never holds (by decide)
    obtain rfl : .text "aaa" = v := Except.ok.inj folded
    exact read

/-- Of two letters the first is the only one that can be read, and one is as many as are allowed.
    But the second one is reported, and the error that this raises is what the repetition ends with. -/
theorem repeated_raises :
    let item : Pattern := .insist (.equal (.char 'a')) fun _ => "no a"
    let s : Session Memory (Input Slice) :=
      { feed := .ofFeed ⟨#[.char 'a', .char 'b'], 0, by decide⟩ none, memory := .empty }
    Read.successes (item.read 3) s = 1 ∧ Bounds.many.min ≤ 1 ∧ 1 ≤ Bounds.many.max ∧
      ¬ ∃ v t, ((Pattern.repeated { fold := .list } item .many true).read 4).perform s =
        (.ok (some v), t) := by
  intro item s
  obtain ⟨t, u, stop, first, second⟩ : ∃ t u stop,
      (item.read 3).perform s = (.ok (some (.char 'a')), t) ∧
      (item.read 3).perform t = (.error stop, u) := ⟨_, _, _, rfl, rfl⟩
  have once : Read.Repeats (item.read 3) s [.char 'a'] t := .more first (.nothing t)
  refine ⟨once.successes_eq (by simp [second]), by decide, by decide, ?_⟩
  rintro ⟨v, w, read⟩
  obtain ⟨stop, raised⟩ : ∃ stop, (((Pattern.repeated { fold := .list } item .many true).read
      4).perform s).1 = .error stop := ⟨_, rfl⟩
  simp [read] at raised

end Pattern

end Duplex
