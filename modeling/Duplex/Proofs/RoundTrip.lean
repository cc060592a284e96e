/-
Module: Duplex.Proofs.RoundTrip
Purpose: What a predictive grammar writes it reads back, whatever may follow.  `Fits` says which
  values a grammar describes.  Writing such a value succeeds, and reading the tokens written gives
  the value again and takes no token more, on every feed that hands out tokens.
Main exports: Pattern.Fits, Write.Gives, Pattern.Round, Pattern.Predictive.round,
  Pattern.reads_convert, Pattern.gives_convert
-/
import Duplex.Proofs.Predictive
import Duplex.Proofs.Writing

namespace Duplex

/-! ### Writes that go through -/

namespace Write

variable {μ α β : Type}

/-- The write gives `a`, whatever is remembered, and leaves the desk as it is. -/
def Gives (w : Write μ α) (a : α) : Prop :=
  ∀ d, w.perform d = (.ok a, d)

theorem gives_pure (a : α) : (pure a : Write μ α).Gives a :=
  fun _ => rfl

theorem Gives.bind {w : Write μ α} {f : α → Write μ β} {a : α} {b : β} (first : w.Gives a)
    (second : (f a).Gives b) : (w >>= f).Gives b := by
  intro d
  rw [perform_bind_ok (first d)]
  exact second d

/-- One write after the other, with what they give joined. -/
theorem Gives.append {w v : Write μ (List Token)} {ts us : List Token} (first : w.Gives ts)
    (second : v.Gives us) : (do let ts ← w; return ts ++ (← v)).Gives (ts ++ us) :=
  first.bind (second.bind (gives_pure _))

end Write

/-- Counts below the machine words are kept by machine integers. -/
theorem Value.toCount_ofCount {n : Nat} (h : n < UInt64.size) : (Value.ofCount n).toCount = n := by
  simp only [Value.ofCount, Value.toCount, Int64.toUInt64_ofNat', UInt64.toNat_ofNat']
  exact Nat.mod_eq_of_lt h

namespace Pattern

/-! ### Conversions -/

section Conversions

variable {σ : Type} [Feed σ] [LawfulFeed σ] {item : Pattern} {conversion : Conversion} {v w : Value}
  {ts rest : List Token} {fuel : Nat}

/-- What an item reads is converted. -/
theorem reads_convert (inner : (item.read fuel (σ := σ)).Reads ts rest (some v))
    (converts : conversion.forward v = .ok w) :
    ((Pattern.convert item conversion).read (fuel + 1) (σ := σ)).Reads ts rest (some w) := by
  have converted : (Read.ofExcept (conversion.forward v) : Read Memory σ Value).Reads [] rest w := by
    rw [converts]
    exact Read.reads_pure w rest
  exact inner.then_nil (converted.map some)

theorem reads_convert_none (inner : (item.read fuel (σ := σ)).Reads ts rest none) :
    ((Pattern.convert item conversion).read (fuel + 1) (σ := σ)).Reads ts rest none :=
  inner.then_nil (Read.reads_pure none rest)

/-- What goes back from a value is written. -/
theorem gives_convert (back : conversion.back v = .ok (some w))
    (inner : (item.write fuel w).Gives ts) :
    ((Pattern.convert item conversion).write (fuel + 1) v).Gives ts := by
  have found : (Write.ofExcept ((conversion.back v).mapError (.halt ∘ .abort)) :
      Write Memory _).Gives (some w) := by
    rw [back]
    exact Write.gives_pure _
  exact found.bind inner

end Conversions

/-! ### The values of a grammar -/

/-- The values that a grammar describes. -/
inductive Fits : Pattern → Value → Prop
  | satisfy {c t} : c.holds t = true → Fits (.satisfy c) t.toValue
  | tuple {parts vs} :
      parts.length = vs.length → (∀ x ∈ parts.zip vs, Fits x.1 x.2) → Fits (.tuple parts) (.tuple vs)
  | sequence {parts vs} :
      parts.length = vs.length → (∀ x ∈ parts.zip vs, Fits x.1 x.2) →
      Fits (.sequence parts) (.list vs)
  | choice {cases i p v} :
      cases[i]? = some p → i < UInt64.size → Fits p v → Fits (.choice cases) (.pair (.ofCount i) v)
  | list {item bounds skippable vs} :
      bounds.allows vs.length = true → (∀ v ∈ vs, Fits item v) →
      Fits (.repeated { fold := .list } item bounds skippable) (.list vs)
  | text {c bounds skippable} {s : String} :
      bounds.allows s.length = true → (∀ ch ∈ s.toList, c.holds (.char ch) = true) →
      Fits (.repeated { fold := .text } (.satisfy c) bounds skippable) (.text s)
  | surround {left right item v} : Fits item v → Fits (.surround left right item) v
  | joined {sep item rescue noted items seps} :
      items.length = seps.length + 1 → (∀ v ∈ items, Fits item v) → (∀ v ∈ seps, Fits sep v) →
      Fits (.joined sep item rescue noted) (.pair (.list items) (.list seps))

/-! ### There and back -/

/-- The tokens begin the way a pattern does. -/
def Begins (p : Pattern) : List Token → Prop
  | [] => Nullable p
  | t :: _ => First p t

/-- Only tokens of `follow` come next, if any does. -/
def Ahead (follow : Token → Prop) (rest : List Token) : Prop :=
  ∀ t ∈ rest.head?, follow t

/-- The tokens `out` are what is written for a value, and what it is read from where `follow` may
    come next. -/
structure RoundWith (fuel : Nat) (follow : Token → Prop) (p : Pattern) (v : Value)
    (out : List Token) : Prop where
  writes : (p.write fuel v).Gives out
  reads : ∀ {σ : Type} [Feed σ] [LawfulFeed σ] {rest : List Token}, Ahead follow rest →
    (p.read fuel (σ := σ)).Reads out rest (some v)

/-- Each value of a grammar is written, and read back from what was written. -/
def Round (follow : Token → Prop) (p : Pattern) : Prop :=
  ∀ {v}, Fits p v → ∃ out, Begins p out ∧ Granted fun fuel => RoundWith fuel follow p v out

theorem roundWith_satisfy (fuel : Nat) (follow : Token → Prop) {c : Condition} {t : Token}
    (holds : c.holds t = true) : RoundWith (fuel + 1) follow (.satisfy c) t.toValue [t] := by
  constructor
  · intro d
    show (Write.token t.toValue : Write Memory _).perform d = _
    rw [Write.token, Token.toToken?_toValue]
    rfl
  · intro σ _ _ rest _
    exact (Read.reads_consumeIf holds rest).map (Option.map Token.toValue)

theorem round_satisfy (follow : Token → Prop) (c : Condition) : Round follow (.satisfy c) := by
  intro v fits
  cases fits with
  | @satisfy c t holds =>
      refine ⟨[t], .satisfy holds, (Granted.of_forall fun _ => trivial).succ fun fuel _ => ?_⟩
      exact roundWith_satisfy fuel follow holds

/-! ### Parts one after the other -/

theorem Begins.append {p : Pattern} {parts : List Pattern} {out more : List Token}
    (first : Begins p out) (others : Begins (.tuple parts) more) :
    Begins (.tuple (p :: parts)) (out ++ more) := by
  cases out with
  | cons t out => exact First.head first
  | nil =>
      cases more with
      | cons t more => exact First.tail first others
      | nil => exact nullable_tuple_cons.mpr ⟨first, others⟩

/-- What follows a part is the beginning of the parts behind it, or what follows them all. -/
theorem Begins.ahead {parts : List Pattern} {follow : Token → Prop} {out rest : List Token}
    (begins : Begins (.tuple parts) out) (ahead : Ahead follow rest) :
    Ahead (Follow parts follow) (out ++ rest) := by
  intro t mem
  cases out with
  | cons u out =>
      cases mem
      exact .inl begins
  | nil => exact .inr ⟨begins, ahead t mem⟩

/-- Parts one after the other, each followed by the parts behind it. -/
theorem round_parts {follow : Token → Prop} {parts : List Pattern} {vs : List Value}
    (each : ∀ before p after, parts = before ++ p :: after → Round (Follow after follow) p)
    (size : parts.length = vs.length) (fits : ∀ x ∈ parts.zip vs, Fits x.1 x.2) :
    ∃ out, Begins (.tuple parts) out ∧ Granted fun fuel =>
      (Write.inTurn (parts.map fun p => p.write fuel) vs).Gives out ∧
      ∀ {σ : Type} [Feed σ] [LawfulFeed σ] {rest : List Token}, Ahead follow rest →
        (Read.sequence (parts.map fun p => p.read fuel (σ := σ))).Reads out rest (some vs) := by
  induction parts generalizing vs with
  | nil =>
      have empty : vs = [] := List.length_eq_zero_iff.mp size.symm
      subst empty
      refine ⟨[], .tuple (by simp), .of_forall fun fuel => ⟨Write.gives_pure _, ?_⟩⟩
      intro σ _ _ rest _
      exact Read.reads_pure _ rest
  | cons p parts ih =>
      cases vs with
      | nil => cases size
      | cons v vs =>
          obtain ⟨out, begins, round⟩ :=
            each [] p parts rfl (fits (p, v) List.mem_cons_self)
          obtain ⟨more, begins', round'⟩ := ih
            (fun before q after eq => each (p :: before) q after (by rw [eq]; rfl))
            (Nat.succ.inj size) fun x mem => fits x (List.mem_cons_of_mem _ mem)
          refine ⟨out ++ more, begins.append begins', (round.and round').mono ?_⟩
          intro fuel ⟨first, writes, reads⟩
          refine ⟨first.writes.append writes, ?_⟩
          intro σ _ _ rest ahead
          exact Read.reads_sequence_cons (first.reads (begins'.ahead ahead)) (reads ahead)

/-! ### Choices -/

/-- Cases that begin by other tokens are passed over, up to the one that was written. -/
theorem round_cases {follow : Token → Prop} {cases : List Pattern} {i : Nat} {p : Pattern}
    {v : Value} (idle : ∀ p ∈ cases, Idle p) (takes : ∀ p ∈ cases, ¬ Nullable p)
    (apart : cases.Pairwise fun p q => ∀ t, First p t → ¬ First q t)
    (found : cases[i]? = some p) {out : List Token} (begins : Begins p out)
    (round : Granted fun fuel => RoundWith fuel follow p v out) :
    Granted fun fuel => ∀ {σ : Type} [Feed σ] [LawfulFeed σ] {rest : List Token},
      Ahead follow rest → ∀ k,
        (Read.choice k (cases.map fun p => p.read fuel (σ := σ))).Reads out rest
          (some (k + i, v)) := by
  induction cases generalizing i with
  | nil => cases found
  | cons q cases ih =>
      rw [List.pairwise_cons] at apart
      cases i with
      | zero =>
          cases found
          refine round.mono fun fuel round σ _ _ rest ahead k => ?_
          exact Read.reads_choice_here _ k (round.reads ahead)
      | succ i =>
          have others := ih (fun p mem => idle p (List.mem_cons_of_mem _ mem))
            (fun p mem => takes p (List.mem_cons_of_mem _ mem)) apart.2 found
          have among : p ∈ cases := List.mem_of_getElem? found
          have skip := (idle q List.mem_cons_self).none (takes q List.mem_cons_self)
          refine (skip.and others).mono fun fuel ⟨skip, others⟩ σ _ _ rest ahead k => ?_
          have barred : Barred q (out ++ rest) := by
            intro t mem first
            cases out with
            | nil => exact takes p (List.mem_cons_of_mem _ among) begins
            | cons u out =>
                cases mem
                exact apart.1 p among _ first begins
          rw [show k + (i + 1) = k + 1 + i by omega]
          exact Read.reads_choice_skip (skip _ barred) (others ahead (k + 1))

/-! ### Repetitions -/

/-- Items one after the other, up to what does not look like another one. -/
theorem round_items {follow : Token → Prop} {item : Pattern} {vs : List Value}
    (round : Round (fun t => First item t ∨ follow t) item) (idle : Idle item)
    (takes : ¬ Nullable item) (apart : ∀ t, First item t → ¬ follow t)
    (fits : ∀ v ∈ vs, Fits item v) :
    ∃ out, (∀ t ∈ out.head?, First item t) ∧ (out = [] → vs = []) ∧ Granted fun fuel =>
      (Write.each (item.write fuel) vs).Gives out ∧
      ∀ {σ : Type} [Feed σ] [LawfulFeed σ] {rest : List Token}, Ahead follow rest →
        ∀ {start final : Tally} (count limit : Nat) {turns : Nat},
          vs.foldlM Tally.accept start = .ok final → count + vs.length ≤ limit →
          vs.length < turns →
          (Read.repeatLoop Tally.accept (item.read fuel (σ := σ)) limit turns count start).Reads
            out rest (some (count + vs.length, final)) := by
  induction vs with
  | nil =>
      refine ⟨[], by simp, fun _ => rfl, (idle.none takes).mono fun fuel idle => ?_⟩
      refine ⟨Write.gives_pure _, ?_⟩
      intro σ _ _ rest ahead start final count limit turns folded _ enough
      cases folded
      obtain ⟨turns, rfl⟩ : ∃ k, turns = k + 1 := ⟨turns - 1, by omega⟩
      exact Read.reads_repeatLoop_stop (idle rest fun t mem first => apart t first (ahead t mem))
  | cons v vs ih =>
      obtain ⟨out, begins, here⟩ := round (fits v List.mem_cons_self)
      obtain ⟨more, looks, _, others⟩ := ih fun w mem => fits w (List.mem_cons_of_mem _ mem)
      have nonempty : out ≠ [] := by
        rintro rfl
        exact takes begins
      refine ⟨out ++ more, ?_, fun empty => ?_, (here.and others).mono ?_⟩
      · intro t mem
        cases out with
        | nil => exact absurd rfl nonempty
        | cons u out =>
            cases mem
            exact begins
      · exact absurd (List.append_eq_nil_iff.mp empty).1 nonempty
      · intro fuel ⟨here, writes, reads⟩
        refine ⟨here.writes.append writes, ?_⟩
        intro σ _ _ rest ahead start final count limit turns folded room enough
        simp only [List.length_cons] at room enough ⊢
        obtain ⟨turns, rfl⟩ : ∃ k, turns = k + 1 := ⟨turns - 1, by omega⟩
        rw [List.foldlM_cons] at folded
        cases accepts : start.accept v with
        | error refusal =>
            rw [accepts] at folded
            cases folded
        | ok next =>
            rw [accepts] at folded
            have between : Ahead (fun t => First item t ∨ follow t) (more ++ rest) := by
              intro t mem
              cases more with
              | nil => exact .inr (ahead t mem)
              | cons u more => exact .inl (looks t mem)
            rw [show count + (vs.length + 1) = count + 1 + vs.length by omega]
            exact Read.reads_repeatLoop_step (by omega) (here.reads between) accepts
              (reads ahead _ _ folded (by omega) (by omega))

theorem foldlM_accept_list (vs latest : List Value) :
    vs.foldlM Tally.accept (.list latest) = .ok (.list (vs.reverse ++ latest)) := by
  induction vs generalizing latest with
  | nil => rfl
  | cons v vs ih =>
      rw [List.foldlM_cons]
      show vs.foldlM Tally.accept (.list (v :: latest)) = _
      rw [ih, List.reverse_cons, List.append_assoc]
      rfl

theorem foldlM_accept_text (cs : List Char) (s : String) :
    (cs.map Value.char).foldlM Tally.accept (.text s) = .ok (.text (s ++ String.ofList cs)) := by
  induction cs generalizing s with
  | nil => simp [Pure.pure, Except.pure]
  | cons c cs ih =>
      rw [List.map_cons, List.foldlM_cons]
      show (cs.map Value.char).foldlM Tally.accept (.text (s.push c)) = _
      rw [ih]
      congr 2
      apply String.toList_injective
      simp

/-- A repetition whose fold gathers the items into a value and gives them back. -/
theorem round_repeated {follow : Token → Prop} {item : Pattern} {bounds : Bounds}
    {folding : Folding} (skippable : Bool) {v : Value} {vs : List Value}
    (greedy : bounds.greedy = true)
    (round : Round (fun t => First item t ∨ follow t) item) (idle : Idle item)
    (takes : ¬ Nullable item) (apart : ∀ t, First item t → ¬ follow t)
    (fits : ∀ v ∈ vs, Fits item v) (allows : bounds.allows vs.length = true)
    (back : folding.items v = .ok vs) {gathered : Tally}
    (folded : vs.foldlM Tally.accept folding.fold.start = .ok gathered)
    (finish : gathered.finish = v) :
    ∃ out, Begins (.repeated folding item bounds skippable) out ∧ Granted fun fuel =>
      RoundWith fuel follow (.repeated folding item bounds skippable) v out := by
  obtain ⟨out, looks, empty, items⟩ := round_items round idle takes apart fits
  have within := Bounds.allows_iff.mp allows
  refine ⟨out, ?_, (items.and (.atLeast (vs.length + 1))).succ ?_⟩
  · cases out with
    | nil =>
        rw [empty rfl] at within
        exact .repeated (Nat.le_zero.mp within.1)
    | cons t out => exact .repeated (looks t rfl)
  · intro fuel ⟨⟨writes, reads⟩, enough⟩
    constructor
    · have given : (Write.ofExcept (folding.items v) : Write Memory _).Gives vs := by
        rw [back]
        exact Write.gives_pure vs
      apply given.bind
      rw [if_pos allows]
      exact writes
    · intro σ _ _ rest ahead
      have limit : bounds.limit = bounds.max := by rw [Bounds.limit, if_pos greedy]
      have loop := reads (σ := σ) ahead 0 bounds.limit folded (by omega)
        (Nat.lt_of_succ_le enough)
      have whole := (Read.reads_repeated loop).map (Option.map Tally.finish)
      rw [Nat.zero_add, if_pos allows, Option.map_some, finish] at whole
      exact whole

/-! ### Brackets -/

theorem gives_bracket (t : Option Token) (fuel : Nat) :
    (writeBracketOption (write (fuel + 1)) (t.map bracketToken)).Gives t.toList := by
  cases t with
  | none => exact Write.gives_pure _
  | some t =>
      intro d
      show (Write.token t.toValue : Write Memory _).perform d = _
      rw [Write.token, Token.toToken?_toValue]
      rfl

theorem begins_bracket (t : Option Token) :
    Begins (.tuple (t.map bracketToken).toList) t.toList := by
  cases t with
  | none => exact .tuple (by simp)
  | some t => exact First.head (.satisfy (beq_self_eq_true t))

theorem Begins.surround {left right : Option Pattern} {item : Pattern} {out : List Token}
    (h : Begins (.tuple (bracketParts left right item)) out) :
    Begins (.surround left right item) out := by
  cases out with
  | nil => exact Nullable.surround (nullable_tuple_iff.mp h)
  | cons t out => exact First.surround h

theorem round_surround {follow : Token → Prop} (left right : Option Token) {item : Pattern}
    (round : Round (Follow (right.map bracketToken).toList follow) item) :
    Round follow (.surround (left.map bracketToken) (right.map bracketToken) item) := by
  intro v fits
  cases fits with
  | surround fits =>
      obtain ⟨out, begins, round⟩ := round fits
      refine ⟨left.toList ++ (out ++ right.toList), ?_, (round.and (.atLeast 1)).succ ?_⟩
      · apply Begins.surround
        have inner := begins.append (begins_bracket right)
        cases left with
        | none => exact inner
        | some t =>
            have opening : Begins (bracketToken t) [t] := .satisfy (beq_self_eq_true t)
            exact opening.append inner
      · intro fuel ⟨round, enough⟩
        obtain ⟨fuel, rfl⟩ : ∃ k, fuel = k + 1 := ⟨fuel - 1, by omega⟩
        constructor
        · rw [← List.append_assoc]
          apply (gives_bracket left fuel).bind
          apply round.writes.bind
          exact (gives_bracket right fuel).bind (Write.gives_pure _)
        · intro σ _ _ rest ahead
          rw [read_surround]
          exact Read.reads_surround (reads_bracket left _ fuel)
            (round.reads ((begins_bracket right).ahead ahead)) (reads_bracket right rest fuel)

/-! ### Joins -/

/-- Separators and items by turns, up to what does not look like another separator. -/
theorem round_alternating {follow : Token → Prop} {sep item : Pattern} {seps vs : List Value}
    (noted : Bool) (roundItem : Round (fun t => First sep t ∨ follow t) item)
    (roundSep : Round (First item) sep) (idle : Idle sep) (takesItem : ¬ Nullable item)
    (takesSep : ¬ Nullable sep) (apart : ∀ t, First sep t → ¬ follow t)
    (size : vs.length = seps.length) (fits : ∀ v ∈ vs, Fits item v)
    (fitsSep : ∀ v ∈ seps, Fits sep v) :
    ∃ out, (∀ {rest}, Ahead follow rest → Ahead (fun t => First sep t ∨ follow t) (out ++ rest)) ∧
      Granted fun fuel =>
        (Write.alternating (sep.write fuel) (item.write fuel) seps vs).Gives out ∧
        ∀ {σ : Type} [Feed σ] [LawfulFeed σ] {rest : List Token}, Ahead follow rest →
          ∀ trailing rescue (items marks : List Value) {turns : Nat}, seps.length < turns →
            (Read.joinLoop (noting noted .separator (sep.read fuel (σ := σ)))
              (noting noted .item (item.read fuel)) trailing rescue turns items marks).Reads out rest
              (some (items.reverse ++ vs, marks.reverse ++ seps)) := by
  induction seps generalizing vs with
  | nil =>
      have empty : vs = [] := List.length_eq_zero_iff.mp size
      subst empty
      refine ⟨[], fun ahead t mem => .inr (ahead t mem), (idle.none takesSep).mono ?_⟩
      intro fuel idle
      refine ⟨Write.gives_pure _, ?_⟩
      intro σ _ _ rest ahead trailing rescue items marks turns enough
      obtain ⟨turns, rfl⟩ : ∃ k, turns = k + 1 := ⟨turns - 1, by omega⟩
      rw [List.append_nil, List.append_nil]
      apply Read.reads_joinLoop_stop
      apply reads_noting
      exact idle rest fun t mem first => apart t first (ahead t mem)
  | cons s seps ih =>
      cases vs with
      | nil => cases size
      | cons v vs =>
          obtain ⟨mark, beginsMark, roundMark⟩ := roundSep (fitsSep s List.mem_cons_self)
          obtain ⟨body, beginsBody, roundBody⟩ := roundItem (fits v List.mem_cons_self)
          obtain ⟨more, between, others⟩ := ih (Nat.succ.inj size)
            (fun w mem => fits w (List.mem_cons_of_mem _ mem))
            fun w mem => fitsSep w (List.mem_cons_of_mem _ mem)
          refine ⟨mark ++ (body ++ more), ?_, (roundMark.and (roundBody.and others)).mono ?_⟩
          · intro rest ahead t mem
            cases mark with
            | nil => exact absurd beginsMark takesSep
            | cons u mark =>
                cases mem
                exact .inl beginsMark
          · intro fuel ⟨roundMark, roundBody, writes, reads⟩
            constructor
            · rw [← List.append_assoc]
              apply roundMark.writes.bind
              apply roundBody.writes.bind
              exact writes.bind (Write.gives_pure _)
            · intro σ _ _ rest ahead trailing rescue items marks turns enough
              simp only [List.length_cons] at enough
              obtain ⟨turns, rfl⟩ : ∃ k, turns = k + 1 := ⟨turns - 1, by omega⟩
              have itemNext : Ahead (First item) (body ++ (more ++ rest)) := by
                intro t mem
                cases body with
                | nil => exact absurd beginsBody takesItem
                | cons u body =>
                    cases mem
                    exact beginsBody
              have loop := Read.reads_joinLoop_step
                (reads_noting noted .separator (roundMark.reads (σ := σ) itemNext))
                (reads_noting noted .item (roundBody.reads (between ahead)))
                (reads ahead trailing rescue (v :: items) (s :: marks) (Nat.lt_of_succ_lt_succ enough))
              simpa using loop

theorem round_joined {follow : Token → Prop} {sep item : Pattern} (noted : Bool)
    (roundItem : Round (fun t => First sep t ∨ follow t) item)
    (roundSep : Round (First item) sep) (idle : Idle sep) (takesItem : ¬ Nullable item)
    (takesSep : ¬ Nullable sep) (apart : ∀ t, First sep t → ¬ follow t) :
    Round follow (.joined sep item none noted) := by
  intro v fits
  cases fits with
  | @joined _ _ _ _ items seps size fits fitsSep =>
      cases items with
      | nil => cases size
      | cons first items =>
          have size : items.length = seps.length := Nat.succ.inj size
          obtain ⟨out, begins, here⟩ := roundItem (fits first List.mem_cons_self)
          obtain ⟨more, between, others⟩ := round_alternating noted roundItem roundSep idle
            takesItem takesSep apart size (fun w mem => fits w (List.mem_cons_of_mem _ mem)) fitsSep
          refine ⟨out ++ more, ?_, (here.and (others.and (.atLeast (seps.length + 1)))).succ ?_⟩
          · cases out with
            | nil => exact absurd begins takesItem
            | cons t out => exact First.joined begins
          · intro fuel ⟨here, ⟨writes, reads⟩, enough⟩
            constructor
            · have pairs : (Write.joined (sep.write fuel) (item.write fuel) (first :: items)
                  seps).Gives (out ++ more) := by
                rw [Write.joined, if_pos size]
                exact here.writes.append writes
              exact pairs
            · intro σ _ _ rest ahead
              have joined := fun trailing rescue =>
                Read.reads_joined (reads_noting noted .item (here.reads (σ := σ) (between ahead)))
                  (reads ahead trailing rescue [first] [] (Nat.lt_of_succ_le enough))
              exact (joined _ _).map
                (Option.map fun parts => Value.pair (.list parts.1) (.list parts.2))

/-! ### All grammars -/

/-- A predictive grammar reads back what it writes. -/
theorem Predictive.round {follow : Token → Prop} {p : Pattern} (h : Predictive follow p) :
    Round follow p := by
  induction h with
  | satisfy => exact round_satisfy _ _
  | tuple _ ih =>
      intro v fits
      cases fits with
      | tuple size fits =>
          obtain ⟨out, begins, round⟩ := round_parts ih size fits
          refine ⟨out, begins, round.succ fun fuel ⟨writes, reads⟩ => ⟨writes, ?_⟩⟩
          intro σ _ _ rest ahead
          exact (reads ahead).map (Option.map Value.tuple)
  | @sequence follow parts _ ih =>
      intro v fits
      cases fits with
      | @sequence _ vs size fits =>
          obtain ⟨out, begins, round⟩ := round_parts ih size fits
          refine ⟨out, ?_, round.succ fun fuel ⟨writes, reads⟩ => ⟨?_, ?_⟩⟩
          · cases out with
            | nil => exact .sequence (nullable_tuple_iff.mp begins)
            | cons t out => exact First.sequence begins
          · show (if vs.length = parts.length then _ else _ : Write Memory _).Gives out
            rw [if_pos size.symm]
            exact writes
          · intro σ _ _ rest ahead
            exact (reads ahead).map (Option.map Value.list)
  | @choice follow cases each takes apart ih =>
      intro v fits
      cases fits with
      | @choice _ i p v found small fits =>
          have among := List.mem_of_getElem? found
          obtain ⟨out, begins, round⟩ := ih p among fits
          have reads := round_cases (fun q mem => (each q mem).idle) takes apart found begins round
          refine ⟨out, ?_, (round.and reads).succ fun fuel ⟨round, reads⟩ => ⟨?_, ?_⟩⟩
          · cases out with
            | nil => exact absurd begins (takes p among)
            | cons t out => exact First.choice among begins
          · have chosen : cases[(Value.ofCount i).toCount]? = some p := by
              rw [Value.toCount_ofCount small, found]
            unfold Pattern.write
            simp only [Value.pair, chosen]
            exact round.writes
          · intro σ _ _ rest ahead
            have whole := (reads (σ := σ) ahead 0).map
              (Option.map fun taken => Value.pair (.ofCount taken.1) taken.2)
            rw [Nat.zero_add] at whole
            exact whole
  | list greedy inner takes apart ih =>
      intro v fits
      cases fits with
      | @list _ _ _ vs allows fits =>
          refine round_repeated _ greedy ih inner.idle takes apart fits allows rfl
            (foldlM_accept_list vs []) ?_
          rw [Tally.finish, List.append_nil, List.reverse_reverse]
  | @text follow c bounds skippable greedy apart =>
      intro v fits
      cases fits with
      | @text _ _ _ s allows holds =>
          have chars : ∀ v ∈ s.toList.map Value.char, Fits (.satisfy c) v := by
            intro v mem
            obtain ⟨ch, among, rfl⟩ := List.mem_map.mp mem
            exact .satisfy (t := .char ch) (holds ch among)
          refine round_repeated _ greedy (round_satisfy _ c) (idle_satisfy c) nofun apart chars ?_ rfl
            (foldlM_accept_text s.toList "") ?_
          · rw [List.length_map, String.length_toList]
            exact allows
          · simp [Tally.finish]
  | surround _ ih => exact round_surround _ _ ih
  | joined inner innerSep takesItem takesSep apart ih ihSep =>
      exact round_joined _ ih ihSep innerSep.idle takesItem takesSep apart

/-- Round trip of predictive grammars, in context.  A value that a grammar describes can be written,
    whatever is remembered.  Where the tokens written are ahead on a feed, and then none at all or
    one that may follow the grammar, reading gives the value again; exactly the tokens written have
    been taken, nothing was reported, and the memory is as before. -/
theorem predictive_roundTrip {follow : Token → Prop} {p : Pattern} {v : Value}
    (predictive : Predictive follow p) (fits : Fits p v) :
    ∃ out enough, ∀ fuel, enough ≤ fuel →
      (∀ d, (p.write fuel v).perform d = (.ok out, d)) ∧
      ∀ {σ : Type} [Feed σ] [LawfulFeed σ] (s : Session Memory σ) (rest : List Token),
        remaining s.feed = out ++ rest → (∀ t ∈ rest.head?, follow t) →
        ∃ t, (p.read fuel).perform s = (.ok (some v), t) ∧
          t.feed = Feed.advance out.length s.feed ∧ remaining t.feed = rest ∧
          t.memory = s.memory := by
  obtain ⟨out, _, enough, round⟩ := predictive.round fits
  refine ⟨out, enough, fun fuel granted => ⟨(round fuel granted).writes, ?_⟩⟩
  intro σ _ _ s rest left ahead
  obtain ⟨t, run, feed, memory⟩ := (round fuel granted).reads ahead s left
  refine ⟨t, run, feed, ?_, memory⟩
  rw [feed]
  exact LawfulFeed.remaining_advance left

/-- Up to three digits, or a star. -/
def numeralCases : List Pattern :=
  [.repeated { fold := .text } (.satisfy (.range (.char '0') (.char '9'))) ⟨1, 3, true⟩ false,
    bracketToken (.char '*')]

/-- Numerals in square brackets, with commas between them. -/
def numerals : Pattern :=
  .surround (some (bracketToken (.char '['))) (some (bracketToken (.char ']')))
    (.joined (bracketToken (.char ',')) (.choice numeralCases) none true)

/-- The value written as `[42,*]`. -/
def someNumerals : Value :=
  .pair (.list [.pair (.ofCount 0) (.text "42"), .pair (.ofCount 1) (.char '*')])
    (.list [.char ','])

/-- Whatever follows, one token of lookahead decides. -/
theorem predictive_numerals (follow : Token → Prop) : Predictive follow numerals := by
  have digits : ∀ t, First (.satisfy (.range (.char '0') (.char '9'))) t →
      t ≠ .char ',' ∧ t ≠ .char ']' ∧ t ≠ .char '*' := by
    intro t first
    rw [first_satisfy_iff] at first
    refine ⟨?_, ?_, ?_⟩ <;> rintro rfl <;> revert first <;> decide
  have takes : ∀ p ∈ numeralCases, ¬ Nullable p := by
    intro p mem
    rcases List.mem_cons.mp mem with rfl | mem
    · rintro (_ | _)
      · contradiction
      · contradiction
    · cases List.mem_singleton.mp mem
      exact not_nullable_bracket _
  have apart : numeralCases.Pairwise fun p q => ∀ t, First p t → ¬ First q t := by
    refine .cons (fun q mem t first star => ?_) (List.pairwise_singleton _ _)
    cases List.mem_singleton.mp mem
    cases first with
    | repeated first => exact (digits t first).2.2 (first_bracket_iff.mp star)
  have item : Predictive (fun t => First (bracketToken (.char ',')) t ∨
      Follow [bracketToken (.char ']')] follow t) (.choice numeralCases) := by
    refine .choice (fun p mem => ?_) takes apart
    rcases List.mem_cons.mp mem with rfl | mem
    · apply Predictive.text rfl
      rintro t first (comma | closing)
      · exact (digits t first).1 (first_bracket_iff.mp comma)
      · exact (digits t first).2.1 (eq_of_follow_bracket closing)
    · cases List.mem_singleton.mp mem
      exact .satisfy
  have inner : Predictive (Follow [bracketToken (.char ']')] follow)
      (.joined (bracketToken (.char ',')) (.choice numeralCases) none true) := by
    apply Predictive.joined item .satisfy
    · rintro (_ | _ | ⟨mem, nullable⟩)
      exact takes _ mem nullable
    · exact not_nullable_bracket _
    · intro t comma closing
      rw [first_bracket_iff.mp comma] at closing
      cases eq_of_follow_bracket closing
  exact @Predictive.surround follow _ (some (.char '[')) (some (.char ']')) inner

theorem fits_numerals : Fits numerals someNumerals := by
  have number : Fits (.choice numeralCases) (.pair (.ofCount 0) (.text "42")) :=
    .choice rfl (by decide) (.text rfl (List.all_eq_true.mp rfl))
  have star : Fits (.choice numeralCases) (.pair (.ofCount 1) (.char '*')) :=
    .choice rfl (by decide) (.satisfy (t := .char '*') rfl)
  refine .surround (.joined rfl ?_ ?_)
  · intro v mem
    rcases List.mem_cons.mp mem with rfl | mem
    · exact number
    · cases List.mem_singleton.mp mem
      exact star
  · intro v mem
    cases List.mem_singleton.mp mem
    exact .satisfy (t := .char ',') rfl

/-- Numerals are written, and read back from a text whatever comes behind them. -/
theorem predictive_roundTrip_numerals :
    ∃ out enough, ∀ fuel, enough ≤ fuel →
      (∀ d, (numerals.write fuel someNumerals).perform d = (.ok out, d)) ∧
      ∀ (s : Session Memory (Input Slice)) (rest : List Token), remaining s.feed = out ++ rest →
        ∃ t, (numerals.read fuel).perform s = (.ok (some someNumerals), t) ∧
          t.feed = Feed.advance out.length s.feed ∧ remaining t.feed = rest ∧
          t.memory = s.memory := by
  obtain ⟨out, enough, round⟩ :=
    predictive_roundTrip (predictive_numerals fun _ => True) fits_numerals
  refine ⟨out, enough, fun fuel granted => ⟨(round fuel granted).1, ?_⟩⟩
  intro s rest left
  exact (round fuel granted).2 s rest left fun _ _ => trivial

end Pattern

end Duplex
