/-
Module: Duplex.Proofs.Reporting
Purpose: Reads that go on as others do, and reads that end with a report.  `Read.GoesOn` says that a
  read takes some tokens and then does what another one does; `Read.Reports` that it takes them and
  reports one error where they end, which an input that keeps errors keeps and a raising input ends
  with.
Main exports: Read.GoesOn, Read.GoesOn.trans, Read.Reports, Read.GoesOn.reports,
  Read.Reports.then_nil, Read.reports_joinLoop, Grammar.answers_of_reports
-/
import Duplex.Proofs.Recovery.Insist
import Duplex.Proofs.Running

namespace Duplex

namespace Read

/-! ### Reads that go on -/

section GoingOn

variable {μ σ α β : Type} [Feed σ] [LawfulFeed σ] {ts us rest : List Token}

/-- Where the tokens `ts` and then `rest` remain, the read takes `ts` and goes on as `next`. -/
def GoesOn (r : Read μ σ α) (ts rest : List Token) (next : Read μ σ α) : Prop :=
  ∀ s : Session μ σ, remaining s.feed = ts ++ rest →
    ∃ t : Session μ σ, r.perform s = next.perform t ∧
      t.feed = Feed.advance ts.length s.feed ∧ t.memory = s.memory

theorem GoesOn.refl (r : Read μ σ α) (rest : List Token) : r.GoesOn [] rest r :=
  fun s _ => ⟨s, rfl, rfl, rfl⟩

theorem Reads.goesOn {r : Read μ σ α} {a : α} (first : r.Reads ts rest a) (f : α → Read μ σ β) :
    (r >>= f).GoesOn ts rest (f a) := by
  intro s left
  obtain ⟨t, run, feed, memory⟩ := first s left
  exact ⟨t, perform_bind_ok run f, feed, memory⟩

theorem GoesOn.trans {r between next : Read μ σ α} (first : r.GoesOn ts (us ++ rest) between)
    (second : between.GoesOn us rest next) : r.GoesOn (ts ++ us) rest next := by
  intro s left
  rw [List.append_assoc] at left
  obtain ⟨t, run, feed, memory⟩ := first s left
  obtain ⟨u, run', feed', memory'⟩ := second t (feed ▸ LawfulFeed.remaining_advance left)
  refine ⟨u, run.trans run', ?_, memory'.trans memory⟩
  rw [feed', feed, List.length_append, Feed.advance_add]

theorem GoesOn.reads {r next : Read μ σ α} {a : α} (goes : r.GoesOn ts (us ++ rest) next)
    (reads : next.Reads us rest a) : r.Reads (ts ++ us) rest a := by
  intro s left
  rw [List.append_assoc] at left
  obtain ⟨t, run, feed, memory⟩ := goes s left
  obtain ⟨u, run', feed', memory'⟩ := reads t (feed ▸ LawfulFeed.remaining_advance left)
  refine ⟨u, run.trans run', ?_, memory'.trans memory⟩
  rw [feed', feed, List.length_append, Feed.advance_add]

/-- A turn of a join takes a separator and an item. -/
theorem goesOn_joinLoop {sep : Read μ σ (Option β)} {item : Read μ σ (Option α)}
    {trailing : β → Bool} {rescue : List α → List β → Read μ σ (Option α)} {fuel : Nat}
    {items : List α} {seps : List β} {s : β} {a : α} (mark : sep.Reads ts (us ++ rest) (some s))
    (here : item.Reads us rest (some a)) :
    (joinLoop sep item trailing rescue (fuel + 1) items seps).GoesOn (ts ++ us) rest
      (joinLoop sep item trailing rescue fuel (a :: items) (s :: seps)) := by
  rw [joinLoop]
  exact (mark.goesOn _).trans (here.goesOn _)

end GoingOn

/-! ### Reads that report -/

section Reporting

variable {μ σ α β : Type} [Feed σ] [LawfulFeed σ] [StickyFeed σ] {ts us rest : List Token}
  {message : String}

/-- Where the tokens `ts` and then `rest` remain, the read takes `ts` and reports one error there.
    An input that keeps errors keeps this one, and `a` is given; a raising input ends with it. -/
structure Reports (r : Read μ (Input σ) α) (ts rest : List Token) (message : String) (a : α) :
    Prop where
  kept : ∀ {s : Session μ (Input σ)} {latest : List ErrorRecord},
    remaining s.feed = ts ++ rest → s.feed.mode = .collect latest →
    let reached := Feed.advance ts.length s.feed
    ∃ t : Session μ (Input σ), r.perform s = (.ok a, t) ∧
      t.feed = reached.inMode (.collect (reached.record message :: latest)) ∧ t.memory = s.memory
  raised : ∀ {s : Session μ (Input σ)}, remaining s.feed = ts ++ rest → s.feed.mode = .raise →
    (r.perform s).1 = .error (.fault ((Feed.advance ts.length s.feed).record message).raised)

theorem reports_report (message : String) (rest : List Token) :
    (report message : Read μ (Input σ) Unit).Reports [] rest message () where
  kept _ collecting := ⟨_, perform_report_collecting collecting message, rfl, rfl⟩
  raised _ raising := congrArg Prod.fst (perform_report_raising raising message)

/-- A report behind what was read before it. -/
theorem GoesOn.reports {r next : Read μ (Input σ) α} {a : α} (goes : r.GoesOn ts (us ++ rest) next)
    (reports : next.Reports us rest message a) : r.Reports (ts ++ us) rest message a := by
  have reached : ∀ {s : Session μ (Input σ)}, remaining s.feed = (ts ++ us) ++ rest →
      ∃ t : Session μ (Input σ), r.perform s = next.perform t ∧ remaining t.feed = us ++ rest ∧
        t.feed.mode = s.feed.mode ∧ t.memory = s.memory ∧
        Feed.advance us.length t.feed = Feed.advance (ts ++ us).length s.feed := by
    intro s left
    rw [List.append_assoc] at left
    obtain ⟨t, run, feed, memory⟩ := goes s left
    refine ⟨t, run, feed ▸ LawfulFeed.remaining_advance left, ?_, memory, ?_⟩
    · rw [feed, Input.mode_advance]
    · rw [feed, List.length_append, Feed.advance_add]
  constructor
  · intro s latest left collecting
    obtain ⟨t, run, behind, mode, memory, same⟩ := reached left
    obtain ⟨u, run', feed, memory'⟩ := reports.kept behind (mode.trans collecting)
    rw [same] at feed
    exact ⟨u, run.trans run', feed, memory'.trans memory⟩
  · intro s left raising
    obtain ⟨t, run, behind, mode, _, same⟩ := reached left
    rw [run, reports.raised behind (mode.trans raising), same]

/-- A report where nothing more is taken. -/
theorem Reads.then_reports {r : Read μ (Input σ) α} {f : α → Read μ (Input σ) β} {a : α} {b : β}
    (first : r.Reads ts rest a) (second : (f a).Reports [] rest message b) :
    (r >>= f).Reports ts rest message b := by
  have whole := (first.goesOn f).reports second
  rwa [List.append_nil] at whole

/-- A last step that takes nothing. -/
theorem Reports.then_nil {r : Read μ (Input σ) α} {f : α → Read μ (Input σ) β} {a : α} {b : β}
    (first : r.Reports ts rest message a) (second : (f a).Reads [] rest b) :
    (r >>= f).Reports ts rest message b where
  kept := by
    intro s latest left collecting reached
    obtain ⟨t, run, feed, memory⟩ := first.kept left collecting
    have behind : remaining t.feed = [] ++ rest := by
      rw [feed]
      exact LawfulFeed.remaining_advance left
    obtain ⟨u, run', feed', memory'⟩ := second t behind
    exact ⟨u, (perform_bind_ok run f).trans run', feed'.trans feed, memory'.trans memory⟩
  raised := by
    intro s left raising
    have stops := first.raised left raising
    rw [perform_bind]
    rcases run : r.perform s with ⟨_ | _, t⟩
    · rw [run] at stops
      cases stops
      rfl
    · rw [run] at stops
      cases stops

theorem Reports.map {r : Read μ (Input σ) α} {a : α} (f : α → β)
    (h : r.Reports ts rest message a) : (do return f (← r)).Reports ts rest message (f a) :=
  h.then_nil (reads_pure (f a) rest)

/-- Where no item follows a separator that may not end a join, the report is that of the rescue. -/
theorem reports_joinLoop {sep : Read μ (Input σ) (Option β)} {item : Read μ (Input σ) (Option α)}
    {trailing : β → Bool} {rescue : List α → List β → Read μ (Input σ) (Option α)} {fuel : Nat}
    {items : List α} {seps : List β} {s : β} (mark : sep.Reads ts rest (some s))
    (absent : item.Reads [] rest none) (last : trailing s = false)
    (rescued : (rescue items (s :: seps)).Reports [] rest message none) :
    (joinLoop sep item trailing rescue (fuel + 1) items seps).Reports ts rest message none := by
  rw [joinLoop]
  apply mark.then_reports
  apply absent.then_reports
  rw [last]
  exact rescued.then_nil (reads_pure _ rest)

end Reporting

end Read

/-- A grammar that reports on an input: where errors are kept, this is the only one, and where errors
    are raised, it is the fault. -/
theorem Grammar.answers_of_reports {σ : Type} [Feed σ] [LawfulFeed σ] [StickyFeed σ] {g : Grammar}
    {v : Value} {ts rest : List Token} {message : String} {s : Input σ}
    (reports : (g.pattern.read g.fuel (σ := Input σ)).Reports ts rest message (some v))
    (left : remaining s = ts ++ rest) (raising : s.mode = .raise) :
    let error := (Feed.advance ts.length s).record message
    (g.readPartial (.ok s)).result = .ok ([error], some v) ∧
      (g.readInput (.ok s)).result = .error (.fault error.raised) := by
  intro error
  constructor
  · obtain ⟨t, run, feed, _⟩ := reports.kept (s := { feed := s.collecting, memory := g.memory })
      left rfl
    have same : (Feed.advance ts.length s.collecting).record message = error := by
      show (Feed.advance ts.length (s.inMode (.collect []))).record message = error
      rw [Input.advance_inMode]
      rfl
    dsimp only at feed
    rw [same] at feed
    show ((g.pattern.read g.fuel).perform { feed := s.collecting, memory := g.memory }).1.map
      (fun v => (((g.pattern.read g.fuel).perform
        { feed := s.collecting, memory := g.memory }).2.feed.takeErrors.1, v)) = _
    rw [run]
    show Except.ok (t.feed.takeErrors.1, some v) = _
    rw [feed]
    rfl
  · exact reports.raised (s := { feed := s, memory := g.memory }) left raising

end Duplex
