/-
Module: Duplex.Proofs.Likeness.Combinator
Purpose: Every combinator keeps a likeness.  If the readers it is made of agree, so does what it makes
  of them.  Loops go by induction on the steps granted to them, the walk down a trie by the size of
  the trie.
Main exports: Likeness.Agree.repeated, Likeness.Agree.upTo, Likeness.Agree.joined,
  Likeness.Agree.chain, Likeness.Agree.outline, Likeness.Agree.judge
-/
import Duplex.Proofs.Likeness.Basic

namespace Duplex

namespace Likeness.Agree

variable {μ σ ρ α β τ : Type} [Feed σ] [Feed ρ] {L : Likeness σ ρ}

/-! ### Single tokens -/

theorem consumeOrFault : L.Agree (Read.consumeOrFault : Read μ σ Token) Read.consumeOrFault := by
  refine bind consume fun taken => ?_
  cases taken with
  | none => exact throw _
  | some t => exact pure t

theorem consumeIf (test : Token → Bool) :
    L.Agree (Read.consumeIf test : Read μ σ (Option Token)) (Read.consumeIf test) := by
  refine bind peek fun t => ?_
  split
  · exact consume
  · exact pure none

theorem takeWhile (test : Token → Bool) (fuel : Nat) :
    L.Agree (Read.takeWhile fuel test : Read μ σ (List Token)) (Read.takeWhile fuel test) := by
  induction fuel with
  | zero => exact throw _
  | succ fuel ih =>
      refine bind (consumeIf test) fun taken => ?_
      cases taken with
      | none => exact pure []
      | some t => exact map _ ih

theorem noneLeft : L.Agree (Read.noneLeft : Read μ σ Bool) Read.noneLeft :=
  map _ consume

/-- A report made under a condition, before going on either way. -/
theorem reportIf {c : Prop} [Decidable c] {message message' : String} {f : Unit → Read μ σ α}
    {g : Unit → Read μ ρ α} (same : message = message') (h : ∀ u, L.Agree (f u) (g u)) :
    L.Agree (if c then Read.report message >>= f else f ())
      (if c then Read.report message' >>= g else g ()) := by
  subst same
  split
  · exact bind (report message) h
  · exact h ()

/-! ### Sequences, choices and repetition -/

theorem sequence {γ : Type} {f : γ → Read μ σ (Option α)} {g : γ → Read μ ρ (Option α)}
    {parts : List γ} (each : ∀ p ∈ parts, L.Agree (f p) (g p)) :
    L.Agree (Read.sequence (parts.map f)) (Read.sequence (parts.map g)) := by
  induction parts with
  | nil => exact pure _
  | cons p rest ih =>
      refine bind (each p List.mem_cons_self) fun first => ?_
      cases first with
      | none => exact pure none
      | some a =>
          refine bind (ih fun q hq => each q (List.mem_cons_of_mem p hq)) fun others => ?_
          cases others with
          | none => exact pure none
          | some as => exact pure _

theorem choice {γ : Type} {f : γ → Read μ σ (Option α)} {g : γ → Read μ ρ (Option α)}
    {cases : List γ} (each : ∀ p ∈ cases, L.Agree (f p) (g p)) (index : Nat) :
    L.Agree (Read.choice index (cases.map f)) (Read.choice index (cases.map g)) := by
  induction cases generalizing index with
  | nil => exact pure _
  | cons p rest ih =>
      refine bind (each p List.mem_cons_self) fun first => ?_
      cases first with
      | none => exact ih (fun q hq => each q (List.mem_cons_of_mem p hq)) _
      | some a => exact pure _

theorem gather (accept : τ → α → Except FoldStop τ) (sofar : τ) (a : α) :
    L.Agree (Read.gather accept sofar a : Read μ σ (Option τ)) (Read.gather accept sofar a) := by
  unfold Read.gather
  cases accept sofar a with
  | ok next => exact pure _
  | error stop =>
      cases stop with
      | refused refusal => exact bind (report _) fun _ => pure none
      | abort cause => exact throw _

theorem repeatLoop {item : Read μ σ (Option α)} {item' : Read μ ρ (Option α)}
    (h : L.Agree item item') (accept : τ → α → Except FoldStop τ) (limit fuel count : Nat)
    (sofar : τ) :
    L.Agree (Read.repeatLoop accept item limit fuel count sofar)
      (Read.repeatLoop accept item' limit fuel count sofar) := by
  induction fuel generalizing count sofar with
  | zero => exact throw _
  | succ fuel ih =>
      unfold Read.repeatLoop
      split
      · refine bind h fun read => ?_
        cases read with
        | none => exact pure _
        | some a =>
            refine bind (gather accept sofar a) fun gathered => ?_
            cases gathered with
            | none => exact pure none
            | some next => exact ih _ _
      · exact pure _

theorem repeated {item : Read μ σ (Option α)} {item' : Read μ ρ (Option α)}
    (h : L.Agree item item') (fuel : Nat) (accept : τ → α → Except FoldStop τ) (start : τ)
    (bounds : Bounds) :
    L.Agree (Read.repeated fuel accept start bounds item)
      (Read.repeated fuel accept start bounds item') := by
  refine bind (repeatLoop h accept _ _ _ _) fun result => ?_
  cases result with
  | none => exact pure none
  | some counted => exact pure _

theorem upTo {ending : Read μ (Lookahead σ) (Option β)} {ending' : Read μ (Lookahead ρ) (Option β)}
    {item : Read μ σ (Option α)} {item' : Read μ ρ (Option α)}
    (hending : L.lookahead.Agree ending ending') (hitem : L.Agree item item')
    (accept : τ → α → Except FoldStop τ) (fuel : Nat) (sofar : τ) :
    L.Agree (Read.upTo accept ending item fuel sofar)
      (Read.upTo accept ending' item' fuel sofar) := by
  induction fuel generalizing sofar with
  | zero => exact throw _
  | succ fuel ih =>
      refine bind (testPeek hending) fun ended => ?_
      split
      · exact pure _
      · refine bind hitem fun read => ?_
        cases read with
        | none => exact pure none
        | some a =>
            refine bind (gather accept sofar a) fun gathered => ?_
            cases gathered with
            | none => exact pure none
            | some next => exact ih next

/-! ### Recovery -/

theorem skipTo {item : Read μ σ (Option α)} {item' : Read μ ρ (Option α)} (h : L.Agree item item')
    (fuel : Nat) : L.Agree (Read.skipTo item fuel) (Read.skipTo item' fuel) := by
  induction fuel with
  | zero => exact throw _
  | succ fuel ih =>
      refine bind consume fun taken => ?_
      cases taken with
      | none => exact pure none
      | some t =>
          refine bind h fun read => ?_
          cases read with
          | none => exact ih
          | some a => exact pure _

theorem insist {item : Read μ σ (Option α)} {item' : Read μ ρ (Option α)}
    {message : Read μ σ String} {message' : Read μ ρ String} (hmessage : L.Agree message message')
    (hitem : L.Agree item item') (fuel : Nat) :
    L.Agree (Read.insist fuel message item) (Read.insist fuel message' item') := by
  refine bind hitem fun read => ?_
  cases read with
  | none => exact bind hmessage fun text => bind (report text) fun _ => skipTo hitem fuel
  | some a => exact pure _

theorem skipWhile {skip : Read μ (Counted σ) (Option β)} {skip' : Read μ (Counted ρ) (Option β)}
    (h : L.counted.Agree skip skip') (fuel : Nat) :
    L.Agree (Read.skipWhile skip fuel) (Read.skipWhile skip' fuel) := by
  induction fuel with
  | zero => exact throw _
  | succ fuel ih =>
      refine bind (counting h) fun (skipped, taken) => ?_
      dsimp only
      split
      · exact pure ()
      · exact ih

theorem settle {item : Read μ σ (Option α)} {item' : Read μ ρ (Option α)}
    {message : Read μ σ String} {message' : Read μ ρ String}
    {skip : Read μ (Counted σ) (Option β)} {skip' : Read μ (Counted ρ) (Option β)}
    (hmessage : L.Agree message message') (hskip : L.counted.Agree skip skip')
    (hitem : L.Agree item item') (fuel : Nat) (value : α) :
    L.Agree (Read.settle fuel message skip value item)
      (Read.settle fuel message' skip' value item') := by
  refine bind hitem fun read => ?_
  cases read with
  | none =>
      exact bind hmessage fun text => bind (report text) fun _ =>
        bind (skipWhile hskip fuel) fun _ => pure _
  | some a => exact pure _

theorem stickyEnd {item : Read μ (Lookahead σ) (Option β)} {item' : Read μ (Lookahead ρ) (Option β)}
    {otherwise : Read μ σ (Option α)} {otherwise' : Read μ ρ (Option α)}
    (hitem : L.lookahead.Agree item item') (hotherwise : L.Agree otherwise otherwise') (value : α) :
    L.Agree (Read.stickyEnd item value otherwise) (Read.stickyEnd item' value otherwise') := by
  refine bind (testPeek hitem) fun reads => ?_
  split
  · refine bind noneLeft fun ended => ?_
    split
    · exact pure _
    · exact hotherwise
  · exact hotherwise

/-! ### Brackets and joined items -/

theorem surround {left right : Read μ σ Bool} {left' right' : Read μ ρ Bool}
    {item : Read μ σ (Option α)} {item' : Read μ ρ (Option α)} (hleft : L.Agree left left')
    (hright : L.Agree right right') (hitem : L.Agree item item') :
    L.Agree (Read.surround left right item) (Read.surround left' right' item') := by
  refine bind hleft fun opened => ?_
  split
  · refine bind hitem fun read => ?_
    cases read with
    | none => exact pure none
    | some a =>
        refine bind hright fun closed => ?_
        split <;> exact pure _
  · exact pure none

theorem joinLoop {sep : Read μ σ (Option β)} {sep' : Read μ ρ (Option β)}
    {item : Read μ σ (Option α)} {item' : Read μ ρ (Option α)} {trailing : β → Bool}
    {rescue : List α → List β → Read μ σ (Option α)}
    {rescue' : List α → List β → Read μ ρ (Option α)}
    (hsep : L.Agree sep sep') (hitem : L.Agree item item')
    (hrescue : ∀ as bs, L.Agree (rescue as bs) (rescue' as bs)) (fuel : Nat) (items : List α)
    (seps : List β) :
    L.Agree (Read.joinLoop sep item trailing rescue fuel items seps)
      (Read.joinLoop sep' item' trailing rescue' fuel items seps) := by
  induction fuel generalizing items seps with
  | zero => exact throw _
  | succ fuel ih =>
      refine bind hsep fun mark => ?_
      cases mark with
      | none => exact pure _
      | some s =>
          refine bind hitem fun read => ?_
          cases read with
          | some a => exact ih _ _
          | none =>
              dsimp only
              split
              · exact pure _
              · refine bind (hrescue _ _) fun rescued => ?_
                cases rescued with
                | none => exact pure none
                | some a => exact ih _ _

theorem joined {sep : Read μ σ (Option β)} {sep' : Read μ ρ (Option β)}
    {item : Read μ σ (Option α)} {item' : Read μ ρ (Option α)} {trailing : β → Bool}
    {rescue : List α → List β → Read μ σ (Option α)}
    {rescue' : List α → List β → Read μ ρ (Option α)}
    (hsep : L.Agree sep sep') (hitem : L.Agree item item')
    (hrescue : ∀ as bs, L.Agree (rescue as bs) (rescue' as bs)) (fuel : Nat) :
    L.Agree (Read.joined fuel sep item trailing rescue)
      (Read.joined fuel sep' item' trailing rescue') := by
  refine bind hitem fun read => ?_
  cases read with
  | none => exact pure none
  | some a => exact joinLoop hsep hitem hrescue fuel _ _

/-! ### Operator chains -/

/-- Climbing and tightening call each other with fewer steps, so both go by one induction. -/
theorem climb_tighten {operator : Read μ σ (Option (Operator α))}
    {operator' : Read μ ρ (Option (Operator α))}
    {operand : α → Operator α → Read μ σ (Option α)}
    {operand' : α → Operator α → Read μ ρ (Option α)}
    (hoperator : L.Agree operator operator')
    (hoperand : ∀ lhs op, L.Agree (operand lhs op) (operand' lhs op)) (fuel : Nat) :
    (∀ lhs pending min, L.Agree (Read.climb operator operand fuel lhs pending min)
      (Read.climb operator' operand' fuel lhs pending min)) ∧
    ∀ op rhs next, L.Agree (Read.tighten operator operand fuel op rhs next)
      (Read.tighten operator' operand' fuel op rhs next) := by
  induction fuel with
  | zero =>
      constructor
      · intro lhs pending min
        unfold Read.climb
        exact throw _
      · intro op rhs next
        unfold Read.tighten
        exact throw _
  | succ fuel ih =>
      obtain ⟨ihClimb, ihTighten⟩ := ih
      have onward : ∀ lhs op min, L.Agree (Read.climb operator operand (fuel + 1) lhs (some op) min)
          (Read.climb operator' operand' (fuel + 1) lhs (some op) min) := by
        intro lhs op min
        rw [Read.climb_some, Read.climb_some]
        split
        · exact pure _
        · refine bind (hoperand lhs op) fun read => ?_
          cases read with
          | none => exact pure none
          | some rhs =>
              refine bind hoperator fun next => bind (ihTighten op rhs next) fun tightened => ?_
              rcases tightened with _ | ⟨rhs, _ | stop⟩
              · exact pure none
              · exact pure _
              · exact ihClimb _ _ _
      constructor
      · intro lhs pending min
        cases pending with
        | some op => exact onward lhs op min
        | none =>
            rw [Read.climb_none, Read.climb_none]
            refine bind hoperator fun current => ?_
            cases current with
            | none => exact pure _
            | some op => exact onward lhs op min
      · intro op rhs next
        cases next with
        | none =>
            rw [Read.tighten_none, Read.tighten_none]
            exact pure _
        | some next =>
            rw [Read.tighten_some, Read.tighten_some]
            split
            · refine bind (ihClimb _ _ _) fun climbed => ?_
              rcases climbed with _ | ⟨joined, stop⟩
              · exact pure none
              · exact ihTighten _ _ _
            · exact pure _

theorem chain {operand : Read μ σ (Option α)} {operand' : Read μ ρ (Option α)}
    {operator : Read μ σ (Option (Operator α))} {operator' : Read μ ρ (Option (Operator α))}
    {rescue : α → Operator α → Read μ σ (Option α)}
    {rescue' : α → Operator α → Read μ ρ (Option α)}
    (hoperand : L.Agree operand operand') (hoperator : L.Agree operator operator')
    (hrescue : ∀ lhs op, L.Agree (rescue lhs op) (rescue' lhs op)) (fuel : Nat) :
    L.Agree (Read.chain fuel operand operator rescue)
      (Read.chain fuel operand' operator' rescue') := by
  refine bind hoperand fun read => ?_
  cases read with
  | none => exact pure none
  | some first =>
      refine bind ((climb_tighten hoperator ?_ fuel).1 _ _ _) fun climbed => ?_
      · intro lhs op
        refine bind hoperand fun read => ?_
        cases read with
        | none => exact hrescue lhs op
        | some rhs => exact pure _
      · rcases climbed with _ | ⟨joined, stop⟩ <;> exact pure _

/-! ### Outlines -/

/-- Two sets of parts to read outlines with that agree part by part; blocks agree whenever what is
    to be run in them does. -/
structure Parts (L : Likeness σ ρ) (parts : Read.OutlineParts μ σ α β)
    (parts' : Read.OutlineParts μ ρ α β) : Prop where
  tail : L.Agree parts.tail parts'.tail
  layout : L.Agree parts.layout parts'.layout
  quoted : parts.quoted = parts'.quoted
  block : ∀ (a : α) (b : β)
    {body : Read μ σ (Option α) → Read μ σ (Option (Nat × List (Outline α β)))}
    {body' : Read μ ρ (Option α) → Read μ ρ (Option (Nat × List (Outline α β)))},
    (∀ {item item'}, L.Agree item item' → L.Agree (body item) (body' item')) →
    L.Agree (parts.block a b body) (parts'.block a b body')

theorem layer {parts : Read.OutlineParts μ σ α β} {parts' : Read.OutlineParts μ ρ α β}
    (hparts : Parts L parts parts') (fuel : Nat) {item : Read μ σ (Option α)}
    {item' : Read μ ρ (Option α)} (hitem : L.Agree item item') (here : Nat)
    (nodes : List (Outline α β)) :
    L.Agree (Read.layer parts fuel item here nodes) (Read.layer parts' fuel item' here nodes) := by
  induction fuel generalizing item item' here nodes with
  | zero => exact throw _
  | succ fuel ih =>
      refine bind hitem fun read => ?_
      cases read with
      | none => exact pure _
      | some a =>
          refine bind hparts.tail fun tail => ?_
          cases tail with
          | some tail =>
              refine bind hparts.layout fun indent => ?_
              cases indent with
              | none => exact pure none
              | some below =>
                  refine reportIf rfl fun _ => ?_
                  refine bind (hparts.block a tail fun h => ih h below []) fun inner => ?_
                  rcases inner with _ | ⟨closed, children⟩
                  · exact pure none
                  · dsimp only
                    split
                    · exact pure _
                    · exact reportIf rfl fun _ => ih hitem here _
          | none =>
              refine bind hparts.layout fun indent => ?_
              cases indent with
              | none => exact pure none
              | some next =>
                  refine reportIf (by rw [hparts.quoted]) fun _ => ?_
                  dsimp only
                  split
                  · exact pure _
                  · exact ih hitem here _

theorem outline {parts : Read.OutlineParts μ σ α β} {parts' : Read.OutlineParts μ ρ α β}
    (hparts : Parts L parts parts') {item : Read μ σ (Option α)} {item' : Read μ ρ (Option α)}
    (hitem : L.Agree item item') (fuel base : Nat) :
    L.Agree (Read.outline fuel parts item base) (Read.outline fuel parts' item' base) := by
  refine bind (layer hparts fuel hitem base []) fun read => ?_
  rcases read with _ | ⟨closed, nodes⟩
  · exact pure none
  · exact reportIf rfl fun _ => pure _

/-! ### Tries -/

theorem descend {ν : Type} (path : List Token) (t : Trie Token ν) :
    L.Agree (Read.descend path t : Read μ σ (Descent × Trie Token ν)) (Read.descend path t) := by
  unfold Read.descend
  refine bind peek fun current => ?_
  split
  · exact pure _
  · rename_i next found
    refine bind consume fun taken => ?_
    cases taken with
    | none => exact pure _
    | some k =>
        -- the child is smaller than the node it was found in
        have smaller : sizeOf next < sizeOf t := Trie.sizeOf_route?_lt found
        exact descend (path ++ [k]) next
termination_by sizeOf t

theorem judgeValue (fuel : Nat) (policy : Policy) (root : Trie Token Value) (w : Descent)
    (v : Value) :
    L.Agree (Read.judgeValue fuel policy root w v : Read μ σ Verdict)
      (Read.judgeValue fuel policy root w v) := by
  unfold Read.judgeValue
  cases policy with
  | exact => exact pure _
  | lazy classify => exact pure _
  | greedy continues =>
      refine bind peek fun t => ?_
      split
      · exact pure _
      · refine bind (takeWhile _ fuel) fun run => ?_
        split <;> exact pure _

theorem judgeUnknown (fuel : Nat) (policy : Policy) (root : Trie Token Value) (w : Descent) :
    L.Agree (Read.judgeUnknown fuel policy root w : Read μ σ Verdict)
      (Read.judgeUnknown fuel policy root w) := by
  unfold Read.judgeUnknown
  cases policy with
  | exact => exact pure _
  | lazy classify =>
      dsimp only
      split
      · exact pure _
      · refine bind (note rfl) fun _ => ?_
        split
        · exact bind (note rfl) fun _ => pure _
        · exact pure _
  | greedy continues =>
      dsimp only
      split
      · refine bind (pure []) fun run => ?_
        split <;> exact pure _
      · refine bind (takeWhile _ fuel) fun run => ?_
        split <;> exact pure _

theorem judge (fuel : Nat) (policy : Policy) (root : Trie Token Value) :
    L.Agree (Read.judge fuel policy root : Read μ σ (Descent × Verdict))
      (Read.judge fuel policy root) := by
  refine bind (descend [] root) fun (w, reached) => ?_
  dsimp only
  split
  · exact map _ (judgeValue fuel policy root w _)
  · exact map _ (judgeUnknown fuel policy root w)

theorem lookup {ν : Type} (root : Trie Token ν) :
    L.Agree (Read.lookup root : Read μ σ (Option ν)) (Read.lookup root) :=
  map _ (descend [] root)

end Likeness.Agree

end Duplex
