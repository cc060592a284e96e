/-
Module: Duplex.Proofs.Predictive
Purpose: Grammars that one token of lookahead decides.  `First` and `Nullable` say by which tokens a
  pattern can begin and whether it can read nothing; `Predictive` asks that the tokens that may
  follow are told apart from those that go on, everywhere in a grammar.  Nothing goes back over a
  token once taken, so all rests on one fact: a pattern that cannot begin by the current token
  takes nothing.
Main exports: Pattern.Nullable, Pattern.First, Pattern.Follow, Pattern.Predictive,
  Pattern.Predictive.idle
-/
import Duplex.Proofs.Cursor

namespace Duplex

/-! ### Enough fuel -/

/-- The property holds of every amount of fuel from some amount on. -/
def Granted (P : Nat → Prop) : Prop :=
  ∃ enough, ∀ fuel, enough ≤ fuel → P fuel

namespace Granted

variable {P Q : Nat → Prop}

theorem of_forall (h : ∀ fuel, P fuel) : Granted P :=
  ⟨0, fun fuel _ => h fuel⟩

theorem atLeast (n : Nat) : Granted (n ≤ ·) :=
  ⟨n, fun _ h => h⟩

theorem and (first : Granted P) (second : Granted Q) : Granted fun fuel => P fuel ∧ Q fuel := by
  obtain ⟨n, first⟩ := first
  obtain ⟨m, second⟩ := second
  exact ⟨n + m, fun fuel h => ⟨first fuel (by omega), second fuel (by omega)⟩⟩

theorem mono (h : ∀ fuel, P fuel → Q fuel) (granted : Granted P) : Granted Q := by
  obtain ⟨n, granted⟩ := granted
  exact ⟨n, fun fuel enough => h fuel (granted fuel enough)⟩

/-- Finitely many properties hold of some amount of fuel together. -/
theorem forall_mem {α : Type} {P : α → Nat → Prop} {as : List α}
    (each : ∀ a ∈ as, Granted (P a)) : Granted fun fuel => ∀ a ∈ as, P a fuel := by
  induction as with
  | nil => exact .of_forall fun _ => by simp
  | cons a as ih =>
      have others := ih fun b later => each b (List.mem_cons_of_mem a later)
      refine ((each a List.mem_cons_self).and others).mono fun fuel both => ?_
      rw [List.forall_mem_cons]
      exact both

theorem forall_le {P : Nat → Nat → Prop} {n : Nat} (each : ∀ k, k ≤ n → Granted (P k)) :
    Granted fun fuel => ∀ k, k ≤ n → P k fuel := by
  have listed : ∀ k ∈ List.range (n + 1), Granted (P k) := fun k mem =>
    each k (Nat.le_of_lt_succ (List.mem_range.mp mem))
  refine (forall_mem listed).mono fun fuel all k le => ?_
  exact all k (List.mem_range.mpr (Nat.lt_succ_of_le le))

/-- One more step, as a pattern takes for itself before it passes on its fuel. -/
theorem succ (h : ∀ fuel, P fuel → Q (fuel + 1)) (granted : Granted P) : Granted Q := by
  obtain ⟨n, granted⟩ := granted
  refine ⟨n + 1, fun fuel enough => ?_⟩
  obtain ⟨fuel, rfl⟩ : ∃ k, fuel = k + 1 := ⟨fuel - 1, by omega⟩
  exact h fuel (granted fuel (by omega))

end Granted

namespace Pattern

/-! ### How patterns begin -/

/-- The pattern of a token that stands as bracket. -/
def bracketToken (t : Token) : Pattern :=
  .satisfy (.equal t)

/-- A pattern between brackets, as parts one after the other. -/
def bracketParts (left right : Option Pattern) (item : Pattern) : List Pattern :=
  left.toList ++ item :: right.toList

/-- Patterns that can read without taking a token. -/
inductive Nullable : Pattern → Prop
  | tuple {parts} : (∀ p ∈ parts, Nullable p) → Nullable (.tuple parts)
  | sequence {parts} : (∀ p ∈ parts, Nullable p) → Nullable (.sequence parts)
  | choice {cases p} : p ∈ cases → Nullable p → Nullable (.choice cases)
  | repeated {folding item bounds skippable} :
      bounds.min = 0 → Nullable (.repeated folding item bounds skippable)
  | repeatedItem {folding item bounds skippable} :
      Nullable item → Nullable (.repeated folding item bounds skippable)
  | surround {left right item} :
      (∀ p ∈ bracketParts left right item, Nullable p) → Nullable (.surround left right item)
  | joined {sep item rescue noted} : Nullable item → Nullable (.joined sep item rescue noted)

/-- The tokens that a pattern can take first. -/
inductive First : Pattern → Token → Prop
  | satisfy {c t} : c.holds t = true → First (.satisfy c) t
  | tuple {before p after t} :
      (∀ q ∈ before, Nullable q) → First p t → First (.tuple (before ++ p :: after)) t
  | sequence {parts t} : First (.tuple parts) t → First (.sequence parts) t
  | choice {cases p t} : p ∈ cases → First p t → First (.choice cases) t
  | repeated {folding item bounds skippable t} :
      First item t → First (.repeated folding item bounds skippable) t
  | surround {left right item t} :
      First (.tuple (bracketParts left right item)) t → First (.surround left right item) t
  | joined {sep item rescue noted t} : First item t → First (.joined sep item rescue noted) t
  | separator {sep item rescue noted t} :
      Nullable item → First sep t → First (.joined sep item rescue noted) t

/-- The tokens that may follow a part with the parts `after` behind it, where `follow` may follow
    all of them. -/
def Follow (after : List Pattern) (follow : Token → Prop) (t : Token) : Prop :=
  First (.tuple after) t ∨ (Nullable (.tuple after) ∧ follow t)

/-- Grammars that one token of lookahead decides, where `follow` may come next: the cases of a
    choice begin by different tokens, and what may follow a repetition or a join does not look like
    more of it.  What is repeated, joined or chosen takes at least one token. -/
inductive Predictive : (Token → Prop) → Pattern → Prop
  | satisfy {follow c} : Predictive follow (.satisfy c)
  | tuple {follow parts} :
      (∀ before p after, parts = before ++ p :: after → Predictive (Follow after follow) p) →
      Predictive follow (.tuple parts)
  | sequence {follow parts} :
      (∀ before p after, parts = before ++ p :: after → Predictive (Follow after follow) p) →
      Predictive follow (.sequence parts)
  | choice {follow cases} :
      (∀ p ∈ cases, Predictive follow p) →
      (∀ p ∈ cases, ¬ Nullable p) →
      cases.Pairwise (fun p q => ∀ t, First p t → ¬ First q t) →
      Predictive follow (.choice cases)
  | list {follow item bounds skippable} :
      bounds.greedy = true →
      Predictive (fun t => First item t ∨ follow t) item →
      ¬ Nullable item →
      (∀ t, First item t → ¬ follow t) →
      Predictive follow (.repeated { fold := .list } item bounds skippable)
  | text {follow c bounds skippable} :
      bounds.greedy = true →
      (∀ t, First (.satisfy c) t → ¬ follow t) →
      Predictive follow (.repeated { fold := .text } (.satisfy c) bounds skippable)
  | surround {follow item} {left right : Option Token} :
      Predictive (Follow (right.map bracketToken).toList follow) item →
      Predictive follow (.surround (left.map bracketToken) (right.map bracketToken) item)
  | joined {follow sep item noted} :
      Predictive (fun t => First sep t ∨ follow t) item →
      Predictive (First item) sep →
      ¬ Nullable item →
      ¬ Nullable sep →
      (∀ t, First sep t → ¬ follow t) →
      Predictive follow (.joined sep item none noted)

/-! ### Beginnings of parts -/

theorem First.head {p : Pattern} {parts : List Pattern} {t : Token} (h : First p t) :
    First (.tuple (p :: parts)) t := by
  rw [← List.nil_append (p :: parts)]
  exact .tuple (fun _ mem => by cases mem) h

theorem First.tail {p : Pattern} {parts : List Pattern} {t : Token} (nullable : Nullable p)
    (h : First (.tuple parts) t) : First (.tuple (p :: parts)) t := by
  cases h with
  | @tuple before q after _ all first =>
      rw [← List.cons_append]
      refine .tuple ?_ first
      intro r mem
      rcases List.mem_cons.mp mem with rfl | mem
      · exact nullable
      · exact all r mem

theorem first_satisfy_iff {c : Condition} {t : Token} :
    First (.satisfy c) t ↔ c.holds t = true := by
  constructor
  · intro h
    cases h with
    | satisfy holds => exact holds
  · exact .satisfy

theorem first_bracket_iff {t u : Token} : First (bracketToken t) u ↔ u = t := by
  rw [bracketToken, first_satisfy_iff, Condition.holds, beq_iff_eq]

theorem nullable_tuple_iff {parts : List Pattern} :
    Nullable (.tuple parts) ↔ ∀ p ∈ parts, Nullable p := by
  constructor
  · intro h
    cases h with
    | tuple all => exact all
  · exact .tuple

theorem nullable_sequence_iff {parts : List Pattern} :
    Nullable (.sequence parts) ↔ ∀ p ∈ parts, Nullable p := by
  constructor
  · intro h
    cases h with
    | sequence all => exact all
  · exact .sequence

theorem nullable_tuple_cons {p : Pattern} {parts : List Pattern} :
    Nullable (.tuple (p :: parts)) ↔ Nullable p ∧ Nullable (.tuple parts) := by
  rw [nullable_tuple_iff, nullable_tuple_iff, List.forall_mem_cons]

theorem not_nullable_bracket (t : Token) : ¬ Nullable (bracketToken t) :=
  nofun

/-- Behind a part that a bracket closes comes that bracket. -/
theorem eq_of_follow_bracket {follow : Token → Prop} {t u : Token}
    (h : Follow [bracketToken t] follow u) : u = t := by
  rcases h with first | ⟨nullable, _⟩
  · generalize eq : [bracketToken t] = parts at first
    cases first with
    | @tuple before p after _ all first =>
        cases before with
        | nil =>
            cases eq
            exact first_bracket_iff.mp first
        | cons q before => cases before <;> cases eq
  · exact absurd (nullable_tuple_iff.mp nullable _ List.mem_cons_self) (not_nullable_bracket t)

/-! ### Patterns that cannot begin -/

/-- The current token, if there is one, is none that the pattern can take first. -/
def Barred (p : Pattern) (rest : List Token) : Prop :=
  ∀ t ∈ rest.head?, ¬ First p t

/-- A pattern that cannot begin by the current token takes nothing; it reads if it is nullable. -/
def Idle (p : Pattern) : Prop :=
  Granted fun fuel => ∀ {σ : Type} [Feed σ] [LawfulFeed σ] (rest : List Token), Barred p rest →
    ∃ result, (p.read fuel (σ := σ)).Reads [] rest result ∧ (result.isSome ↔ Nullable p)

/-- The same for parts one after the other. -/
theorem idle_parts {parts : List Pattern} (idle : ∀ p ∈ parts, Idle p) :
    Granted fun fuel => ∀ {σ : Type} [Feed σ] [LawfulFeed σ] (rest : List Token),
      Barred (.tuple parts) rest →
      ∃ result, (Read.sequence (parts.map fun p => p.read fuel (σ := σ))).Reads [] rest result ∧
        (result.isSome ↔ Nullable (.tuple parts)) := by
  induction parts with
  | nil =>
      refine .of_forall fun fuel σ _ _ rest _ => ⟨some [], Read.reads_pure _ rest, ?_⟩
      simp [nullable_tuple_iff]
  | cons p parts ih =>
      have first := idle p List.mem_cons_self
      have others := ih fun q mem => idle q (List.mem_cons_of_mem _ mem)
      refine (first.and others).mono fun fuel ⟨first, others⟩ σ _ _ rest barred => ?_
      obtain ⟨result, reads, iff⟩ := first (σ := σ) rest fun t mem h => barred t mem h.head
      cases result with
      | none =>
          refine ⟨none, Read.reads_sequence_none _ reads, ?_⟩
          simp [nullable_tuple_cons, ← iff]
      | some v =>
          have nullable : Nullable p := iff.mp rfl
          obtain ⟨result, reads', iff'⟩ :=
            others (σ := σ) rest fun t mem h => barred t mem (h.tail nullable)
          have whole := Read.reads_sequence_cons reads reads'
          refine ⟨_, whole, ?_⟩
          rw [nullable_tuple_cons, ← iff', Option.isSome_map]
          simp [nullable]

/-- Cases that all take a token are passed over. -/
theorem idle_cases {cases : List Pattern} (idle : ∀ p ∈ cases, Idle p)
    (takes : ∀ p ∈ cases, ¬ Nullable p) :
    Granted fun fuel => ∀ {σ : Type} [Feed σ] [LawfulFeed σ] (rest : List Token),
      Barred (.choice cases) rest → ∀ i,
        (Read.choice i (cases.map fun p => p.read fuel (σ := σ))).Reads [] rest none := by
  induction cases with
  | nil => exact .of_forall fun fuel σ _ _ rest _ i => Read.reads_pure _ rest
  | cons p cases ih =>
      have first := idle p List.mem_cons_self
      have others := ih (fun q mem => idle q (List.mem_cons_of_mem _ mem))
        fun q mem => takes q (List.mem_cons_of_mem _ mem)
      refine (first.and others).mono fun fuel ⟨first, others⟩ σ _ _ rest barred i => ?_
      obtain ⟨result, reads, iff⟩ :=
        first (σ := σ) rest fun t mem h => barred t mem (.choice List.mem_cons_self h)
      have missing : result = none := by
        rw [← Option.not_isSome_iff_eq_none, iff]
        exact takes p List.mem_cons_self
      subst missing
      apply Read.reads_choice_skip reads
      apply others rest
      intro t mem h
      cases h with
      | choice among h => exact barred t mem (.choice (List.mem_cons_of_mem _ among) h)

/-- A pattern that takes a token does not read where it cannot begin. -/
theorem Idle.none {p : Pattern} (idle : Idle p) (takes : ¬ Nullable p) :
    Granted fun fuel => ∀ {σ : Type} [Feed σ] [LawfulFeed σ] (rest : List Token),
      Barred p rest → (p.read fuel (σ := σ)).Reads [] rest none := by
  refine idle.mono fun fuel idle σ _ _ rest barred => ?_
  obtain ⟨result, reads, iff⟩ := idle (σ := σ) rest barred
  cases result with
  | none => exact reads
  | some v => exact absurd (iff.mp rfl) takes

theorem idle_satisfy (c : Condition) : Idle (.satisfy c) := by
  refine (Granted.of_forall fun _ => trivial).succ fun fuel _ σ _ _ rest barred => ?_
  refine ⟨none, ?_, nofun, nofun⟩
  have fails : ∀ t ∈ rest.head?, c.holds t = false := by
    intro t mem
    rw [← Bool.not_eq_true]
    exact fun holds => barred t mem (.satisfy holds)
  exact (Read.reads_consumeIf_none fails).map (Option.map Token.toValue)

/-- Nothing is repeated where the item cannot begin. -/
theorem idle_repeated (folding : Folding) {item : Pattern} (bounds : Bounds) (skippable : Bool)
    (idle : Idle item) (takes : ¬ Nullable item) :
    Idle (.repeated folding item bounds skippable) := by
  refine ((idle.none takes).and (.atLeast 1)).succ fun fuel ⟨idle, enough⟩ σ _ _ rest barred => ?_
  obtain ⟨fuel, rfl⟩ : ∃ k, fuel = k + 1 := ⟨fuel - 1, by omega⟩
  have stop := idle (σ := σ) rest fun t mem h => barred t mem (.repeated h)
  have loop : (Read.repeatLoop Tally.accept (item.read (fuel + 1) (σ := σ)) bounds.limit
      (fuel + 1) 0 folding.fold.start).Reads [] rest (some (0, folding.fold.start)) :=
    Read.reads_repeatLoop_stop stop
  refine ⟨_, (Read.reads_repeated loop).map (Option.map Tally.finish), ?_⟩
  have empty : bounds.allows 0 = true ↔ bounds.min = 0 := by
    rw [Bounds.allows_iff]
    omega
  have nullable : Nullable (.repeated folding item bounds skippable) ↔ bounds.min = 0 := by
    constructor
    · intro h
      cases h with
      | repeated least => exact least
      | repeatedItem h => exact absurd h takes
    · exact .repeated
  rw [nullable, ← empty, Option.isSome_map]
  split <;> simp [*]

section Brackets

variable {σ : Type} [Feed σ]

/-- Reads a bracket that may be missing. -/
def readBracket (fuel : Nat) (q : Option Pattern) : Read Memory σ Bool :=
  match q with
  | some q => return (← q.read fuel).isSome
  | none => return true

theorem read_surround (fuel : Nat) (left right : Option Pattern) (item : Pattern) :
    (Pattern.surround left right item).read (fuel + 1) (σ := σ) =
      Read.surround (readBracket fuel left) (readBracket fuel right) (item.read fuel) :=
  rfl

variable [LawfulFeed σ]

theorem reads_bracket (t : Option Token) (rest : List Token) (fuel : Nat) :
    (readBracket (fuel + 1) (t.map bracketToken) : Read Memory σ Bool).Reads t.toList rest
      true := by
  cases t with
  | none => exact Read.reads_pure _ rest
  | some t =>
      have holds : (Condition.equal t).holds t = true := beq_self_eq_true t
      exact ((Read.reads_consumeIf holds rest).map (Option.map Token.toValue)).map Option.isSome

theorem reads_bracket_missing {t : Token} {rest : List Token}
    (barred : Barred (bracketToken t) rest) (fuel : Nat) :
    (readBracket (fuel + 1) (some (bracketToken t)) : Read Memory σ Bool).Reads [] rest false := by
  have fails : ∀ u ∈ rest.head?, (Condition.equal t).holds u = false := by
    intro u mem
    rw [← Bool.not_eq_true]
    exact fun holds => barred u mem (.satisfy holds)
  exact ((Read.reads_consumeIf_none fails).map (Option.map Token.toValue)).map Option.isSome

end Brackets

theorem nullable_surround_iff {left right : Option Pattern} {item : Pattern} :
    Nullable (.surround left right item) ↔ ∀ p ∈ bracketParts left right item, Nullable p := by
  constructor
  · intro h
    cases h with
    | surround all => exact all
  · exact .surround

/-- A pattern between brackets takes nothing where it cannot begin. -/
theorem idle_surround (left right : Option Token) {item : Pattern} (idle : Idle item) :
    Idle (.surround (left.map bracketToken) (right.map bracketToken) item) := by
  refine (idle.and (.atLeast 1)).succ fun fuel ⟨idle, enough⟩ σ _ _ rest barred => ?_
  obtain ⟨fuel, rfl⟩ : ∃ k, fuel = k + 1 := ⟨fuel - 1, by omega⟩
  rw [read_surround, nullable_surround_iff]
  cases left with
  | some t =>
      have barredLeft : Barred (bracketToken t) rest := fun u mem h =>
        barred u mem (.surround h.head)
      have opening := reads_bracket_missing (σ := σ) barredLeft fuel
      refine ⟨none, Read.reads_surround_closed opening, nofun, fun all => ?_⟩
      exact absurd (all _ List.mem_cons_self) (not_nullable_bracket t)
  | none =>
      have opening := reads_bracket (σ := σ) none rest fuel
      obtain ⟨result, reads, iff⟩ :=
        idle (σ := σ) rest fun u mem h => barred u mem (.surround h.head)
      cases result with
      | none =>
          have whole := Read.reads_surround_none
            (readBracket (fuel + 1) (right.map bracketToken)) opening reads
          refine ⟨none, whole, nofun, fun all => ?_⟩
          exact iff.mpr (all item List.mem_cons_self)
      | some v =>
          have nullable : Nullable item := iff.mp rfl
          cases right with
          | none =>
              have closing := reads_bracket (σ := σ) none rest fuel
              have whole := Read.reads_surround opening reads closing
              refine ⟨some v, whole, fun _ p mem => ?_, fun _ => rfl⟩
              cases List.mem_singleton.mp mem
              exact nullable
          | some t =>
              have barredRight : Barred (bracketToken t) rest := fun u mem h =>
                barred u mem (.surround (h.head.tail nullable))
              have closing := reads_bracket_missing (σ := σ) barredRight fuel
              have whole := Read.reads_surround opening reads closing
              refine ⟨none, whole, nofun, fun all => ?_⟩
              exact absurd (all (bracketToken t) (by simp [bracketParts])) (not_nullable_bracket t)

/-- Noting what was read takes nothing. -/
theorem reads_noting {σ : Type} [Feed σ] [LawfulFeed σ] {r : Read Memory σ (Option Value)}
    {ts rest : List Token} {result : Option Value} (noted : Bool) (note : Value → Note)
    (h : r.Reads ts rest result) : (noting noted note r).Reads ts rest result := by
  apply h.then_nil
  cases result with
  | none => exact Read.reads_pure _ rest
  | some v =>
      cases noted with
      | false => exact Read.reads_pure _ rest
      | true => exact (Read.reads_note (note v) rest).bind_nil (Read.reads_pure _ rest)

/-- Nothing is joined where the item cannot begin. -/
theorem idle_joined (sep : Pattern) {item : Pattern} (rescue : Option JoinRescue) (noted : Bool)
    (idle : Idle item) (takes : ¬ Nullable item) : Idle (.joined sep item rescue noted) := by
  refine (idle.none takes).succ fun fuel idle σ _ _ rest barred => ?_
  have first := idle (σ := σ) rest fun t mem h => barred t mem (.joined h)
  refine ⟨none, ?_, nofun, ?_⟩
  · exact (Read.reads_joined_none (reads_noting noted .item first)).map _
  · intro h
    cases h with
    | joined h => exact absurd h takes

/-- A predictive grammar takes nothing where it cannot begin. -/
theorem Predictive.idle {follow : Token → Prop} {p : Pattern} (h : Predictive follow p) :
    Idle p := by
  induction h with
  | satisfy => exact idle_satisfy _
  | @tuple follow parts _ ih =>
      have each : ∀ p ∈ parts, Idle p := by
        intro p mem
        obtain ⟨before, after, eq⟩ := List.append_of_mem mem
        exact ih before p after eq
      refine (idle_parts each).succ fun fuel idle σ _ _ rest barred => ?_
      obtain ⟨result, reads, iff⟩ := idle (σ := σ) rest barred
      exact ⟨_, reads.map (Option.map Value.tuple), by rw [Option.isSome_map, iff]⟩
  | @sequence follow parts _ ih =>
      have each : ∀ p ∈ parts, Idle p := by
        intro p mem
        obtain ⟨before, after, eq⟩ := List.append_of_mem mem
        exact ih before p after eq
      refine (idle_parts each).succ fun fuel idle σ _ _ rest barred => ?_
      obtain ⟨result, reads, iff⟩ := idle (σ := σ) rest fun t mem h => barred t mem (.sequence h)
      refine ⟨_, reads.map (Option.map Value.list), ?_⟩
      rw [Option.isSome_map, iff, nullable_tuple_iff, nullable_sequence_iff]
  | @choice follow cases _ takes _ ih =>
      refine (idle_cases ih takes).succ fun fuel idle σ _ _ rest barred => ?_
      refine ⟨none, (idle rest barred 0).map _, nofun, ?_⟩
      intro nullable
      cases nullable with
      | choice mem nullable => exact absurd nullable (takes _ mem)
  | list greedy _ takes _ ih => exact idle_repeated _ _ _ ih takes
  | text greedy _ => exact idle_repeated _ _ _ (idle_satisfy _) nofun
  | surround _ ih => exact idle_surround _ _ ih
  | joined _ _ takes _ _ ih _ => exact idle_joined _ _ _ ih takes

end Pattern

end Duplex
