/-
Module: Duplex.Proofs.Trie.Spellings
Purpose: Keywords that are registered in all spellings.  Such a registration puts its value at every
  spelling of a path, takes all these paths from the values they were listed for, and lists the path
  it was given alone.  So the index lists a path for a value exactly if the latest registration that
  covers the path was given as that very path: a value that is only left at other spellings can be
  read there, but has no path to be written as any more.
Main exports: Registration, Registry.Given, Registry.Follows, Registry.Follows.insertSpelled,
  Keywords.Records, Keywords.pathOf?_of_spellings, Keywords.respelled_lost
-/
import Duplex.Proofs.Trie.RoundTrip

namespace Duplex

/-! ### Registrations of both kinds -/

/-- One registration of a value: at a path alone, or at every spelling of it. -/
structure Registration (κ ν : Type) where
  path : List κ
  value : ν
  everySpelling : Bool

namespace Registration

variable {κ ν : Type}

/-- The paths that hold the value after the registration. -/
def paths (spell : κ → List κ) (e : Registration κ ν) : List (List κ) :=
  if e.everySpelling then Trie.spelled spell e.path else [e.path]

/-- A registration of a value at a path alone. -/
def alone (entry : List κ × ν) : Registration κ ν :=
  ⟨entry.1, entry.2, false⟩

/-- A path is among its own spellings. -/
theorem path_mem_paths {spell : κ → List κ} (own : ∀ k, k ∈ spell k) (e : Registration κ ν) :
    e.path ∈ e.paths spell := by
  unfold paths
  split
  · exact Trie.mem_spelled_self own e.path
  · exact List.mem_singleton_self e.path

end Registration

/-! ### Paths that are taken away -/

namespace PathIndex

variable {κ ν : Type} [DecidableEq κ] [BEq ν] [PartialEquivBEq ν]

/-- A path stays with a value unless it was taken from an equal one. -/
theorem pathsOf_unregisterAll {b : PathIndex κ ν} (formed : b.WellFormed)
    (replaced : List (List κ × ν)) (u : ν) :
    (b.unregisterAll replaced).pathsOf u =
      (b.pathsOf u).filter fun p => replaced.all fun x => !(x.2 == u && x.1 == p) := by
  induction replaced generalizing b with
  | nil => simp [unregisterAll]
  | cons first replaced ih =>
      have rest := ih (formed.unregister first.2 first.1)
      rw [pathsOf_unregister formed] at rest
      show ((b.unregister first.2 first.1).unregisterAll replaced).pathsOf u = _
      rw [rest]
      by_cases same : first.2 == u
      · rw [if_pos same, List.filter_filter]
        apply List.filter_congr
        intro p _
        by_cases here : p = first.1
        · simp [here, same]
        · simp [here, Ne.symm here]
      · rw [if_neg same]
        apply List.filter_congr
        intro p _
        simp [same]

end PathIndex

namespace Trie

variable {κ ν : Type} [DecidableEq κ]

/-- Only at the paths that a value is put at something is replaced. -/
theorem mem_paths_of_replaced {t : Trie κ ν} {v : ν} {paths : List (List κ)} {x : List κ × ν}
    (mem : x ∈ (t.insertPaths v paths).2) : x.1 ∈ paths := by
  induction paths generalizing t with
  | nil => cases mem
  | cons path paths ih =>
      rw [insertPaths] at mem
      cases held : t.get? path with
      | none =>
          rw [held] at mem
          exact List.mem_cons_of_mem path (ih mem)
      | some old =>
          rw [held] at mem
          rcases List.mem_cons.mp mem with rfl | later
          · exact List.mem_cons_self
          · exact List.mem_cons_of_mem path (ih later)

end Trie

namespace Registry

variable {κ ν : Type} [DecidableEq κ] [BEq ν] {spell : κ → List κ}

/-- A registration in all spellings takes them all from whatever value they were listed for, and lists
    the path that was given, and no other, last for the new one. -/
theorem pathsOf_insertSpelled [PartialEquivBEq ν] {r : Registry κ ν} (sound : r.Sound)
    (own : ∀ k, k ∈ spell k) (path : List κ) (v u : ν) :
    (r.insertSpelled spell path v).back.pathsOf u =
      (r.back.pathsOf u).filter (· ∉ Trie.spelled spell path) ++ if v == u then [path] else [] := by
  have dropped : (r.back.unregisterAll (r.trie.insertSpelled spell path v).2).pathsOf u =
      (r.back.pathsOf u).filter (· ∉ Trie.spelled spell path) := by
    rw [PathIndex.pathsOf_unregisterAll sound.formed, Trie.insertSpelled_eq own]
    apply List.filter_congr
    intro p listed
    by_cases among : p ∈ Trie.spelled spell path
    · -- what the path held was replaced, and that is equal to `u`
      obtain ⟨w, held, equal⟩ := sound.holds listed
      have replaced := Trie.mem_replaced v among held
      simp only [among, not_true_eq_false, decide_false]
      rw [List.all_eq_false]
      exact ⟨(p, w), replaced, by simp [equal]⟩
    · simp only [among, not_false_eq_true, decide_true]
      rw [List.all_eq_true]
      intro x mem
      have elsewhere : x.1 ≠ p := by
        rintro rfl
        exact among (Trie.mem_paths_of_replaced mem)
      simp [elsewhere]
  have back : (r.insertSpelled spell path v).back =
      (r.back.unregisterAll (r.trie.insertSpelled spell path v).2).register v path := rfl
  rw [back, PathIndex.pathsOf_register, dropped]
  by_cases same : v == u
  · rw [if_pos same, if_pos same, List.filter_filter]
    congr 1
    apply List.filter_congr
    intro p _
    by_cases given : p = path
    · simp [given, Trie.mem_spelled_self own path]
    · simp [given]
  · rw [if_neg same, if_neg same, List.append_nil]

/-! ### Registries and their registrations -/

/-- The latest registration that covers a path, in a history with the latest one first. -/
def latest? (spell : κ → List κ) (history : List (Registration κ ν)) (path : List κ) :
    Option (Registration κ ν) :=
  history.find? fun e => path ∈ e.paths spell

/-- The number of registrations since the latest one that covers a path. -/
def sinceCovered (spell : κ → List κ) (history : List (Registration κ ν)) (path : List κ) : Nat :=
  history.findIdx fun e => path ∈ e.paths spell

/-- The latest registration that covers a path was given as that very path, for a value equal to
    `v`. -/
def Given (spell : κ → List κ) (history : List (Registration κ ν)) (path : List κ) (v : ν) : Prop :=
  ∃ e, latest? spell history path = some e ∧ e.path = path ∧ e.value == v

omit [BEq ν] in
theorem latest?_cons (e : Registration κ ν) (history : List (Registration κ ν)) (path : List κ) :
    latest? spell (e :: history) path =
      if path ∈ e.paths spell then some e else latest? spell history path := by
  by_cases covered : path ∈ e.paths spell <;> simp [latest?, covered]

omit [BEq ν] in
theorem sinceCovered_cons (e : Registration κ ν) (history : List (Registration κ ν))
    (path : List κ) :
    sinceCovered spell (e :: history) path =
      if path ∈ e.paths spell then 0 else sinceCovered spell history path + 1 := by
  by_cases covered : path ∈ e.paths spell <;> simp [sinceCovered, List.findIdx_cons, covered]

theorem given_cons {e : Registration κ ν} {history : List (Registration κ ν)} {path : List κ}
    {v : ν} :
    Given spell (e :: history) path v ↔
      if path ∈ e.paths spell then e.path = path ∧ e.value == v else Given spell history path v := by
  unfold Given
  rw [latest?_cons]
  by_cases covered : path ∈ e.paths spell <;> simp [covered]

/-- The registry is what a history of registrations of both kinds, latest first, has made of an empty
    one. -/
structure Follows (spell : κ → List κ) (r : Registry κ ν) (history : List (Registration κ ν)) :
    Prop where
  sound : r.Sound
  held : ∀ path, r.get? path = (latest? spell history path).map Registration.value
  listed : ∀ {v path}, path ∈ r.back.pathsOf v ↔ Given spell history path v
  /-- The paths of a value are in the order of their registrations. -/
  ordered : ∀ v, (r.back.pathsOf v).Pairwise fun earlier later =>
    sinceCovered spell history later < sinceCovered spell history earlier

theorem follows_empty : (empty : Registry κ ν).Follows spell [] where
  sound := sound_empty
  held path := by simp [empty, get?, latest?]
  listed := by simp [empty, Given, latest?]
  ordered v := by simp [empty]

/-! ### Further registrations -/

/-- One step for both kinds: a registration puts its value at the paths it covers, takes these from
    whatever value they were listed for, and lists the path that was given. -/
theorem Follows.step {r next : Registry κ ν} {history : List (Registration κ ν)}
    (follows : r.Follows spell history) (own : ∀ k, k ∈ spell k) {e : Registration κ ν}
    (sound : next.Sound)
    (held : ∀ other, next.get? other = if other ∈ e.paths spell then some e.value else r.get? other)
    (paths : ∀ u, next.back.pathsOf u =
      (r.back.pathsOf u).filter (· ∉ e.paths spell) ++ if e.value == u then [e.path] else []) :
    next.Follows spell (e :: history) where
  sound := sound
  held other := by
    rw [held, latest?_cons]
    split
    · rfl
    · exact follows.held other
  listed := by
    intro u other
    rw [paths, List.mem_append, List.mem_filter, given_cons, follows.listed]
    by_cases covered : other ∈ e.paths spell
    · by_cases same : e.value == u <;> simp [covered, same, eq_comm]
    · have elsewhere : other ≠ e.path := by
        rintro rfl
        exact covered (e.path_mem_paths own)
      by_cases same : e.value == u <;> simp [covered, same, elsewhere]
  ordered u := by
    rw [paths, List.pairwise_append]
    have uncovered : ∀ p ∈ (r.back.pathsOf u).filter (· ∉ e.paths spell), p ∉ e.paths spell := by
      intro p mem
      simpa using (List.mem_filter.mp mem).2
    refine ⟨?_, ?_, ?_⟩
    · -- the paths that are left have all grown older by one
      apply ((follows.ordered u).filter _).imp_of_mem
      intro earlier later memEarlier memLater older
      rw [sinceCovered_cons, sinceCovered_cons, if_neg (uncovered _ memEarlier),
        if_neg (uncovered _ memLater)]
      exact Nat.succ_lt_succ older
    · by_cases same : e.value == u <;> simp [same]
    · intro earlier mem later last
      have given : later = e.path := by
        by_cases same : e.value == u <;> simp_all
      rw [sinceCovered_cons, sinceCovered_cons, if_neg (uncovered _ mem), given,
        if_pos (e.path_mem_paths own)]
      exact Nat.succ_pos _

section Told

variable {r : Registry κ ν} {history : List (Registration κ ν)} (follows : r.Follows spell history)
include follows

/-- A value has no path to be written as where none was given to it. -/
theorem Follows.pathOf?_eq_none_iff {v : ν} :
    r.pathOf? v = none ↔ ∀ path, ¬ Given spell history path v := by
  rw [pathOf?, PathIndex.pathOf?_eq_getLast?, List.getLast?_eq_none_iff,
    List.eq_nil_iff_forall_not_mem]
  simp only [follows.listed]

/-- A value is written as the youngest of the paths that were given to it. -/
theorem Follows.pathOf?_eq_some_iff {v : ν} {path : List κ} :
    r.pathOf? v = some path ↔
      Given spell history path v ∧
        ∀ other, Given spell history other v → other ≠ path →
          sinceCovered spell history path < sinceCovered spell history other := by
  rw [pathOf?, PathIndex.pathOf?_eq_some_iff_youngest (follows.ordered v)]
  simp only [follows.listed]

/-- A path that holds a value was given to it, unless it was last covered by another spelling. -/
theorem Follows.given_of_holds {v : ν} {path : List κ} (holds : r.Holds path v)
    (own : ∀ e, latest? spell history path = some e → e.everySpelling = true → e.path = path) :
    Given spell history path v := by
  obtain ⟨w, held, equal⟩ := holds
  rw [follows.held, Option.map_eq_some_iff] at held
  obtain ⟨e, latest, rfl⟩ := held
  refine ⟨e, latest, ?_, equal⟩
  cases every : e.everySpelling with
  | true => exact own e latest every
  | false =>
      have covered : path ∈ e.paths spell := by simpa using List.find?_some latest
      rw [Registration.paths, every, if_neg Bool.false_ne_true] at covered
      exact (List.mem_singleton.mp covered).symm

end Told

variable [PartialEquivBEq ν] {r : Registry κ ν} {history : List (Registration κ ν)}

theorem Follows.insert (follows : r.Follows spell history) (own : ∀ k, k ∈ spell k)
    (path : List κ) (v : ν) : (r.insert path v).Follows spell (⟨path, v, false⟩ :: history) := by
  apply follows.step own (follows.sound.insert path v)
  · intro other
    simp [get?_insert, Registration.paths]
  · intro u
    rw [pathsOf_insert follows.sound]
    simp [Registration.paths]

theorem Follows.insertAll (follows : r.Follows spell history) (own : ∀ k, k ∈ spell k)
    (entries : List (List κ × ν)) :
    (r.insertAll entries).Follows spell ((entries.map .alone).reverse ++ history) := by
  induction entries generalizing r history with
  | nil => exact follows
  | cons entry entries ih =>
      have rest := ih (follows.insert own entry.1 entry.2)
      rw [List.map_cons, List.reverse_cons, List.append_assoc]
      exact rest

theorem Follows.insertSpelled (follows : r.Follows spell history) (own : ∀ k, k ∈ spell k)
    (path : List κ) (v : ν) :
    (r.insertSpelled spell path v).Follows spell (⟨path, v, true⟩ :: history) := by
  apply follows.step own (follows.sound.insertSpelled own path v)
  · exact get?_insertSpelled own r path v
  · exact pathsOf_insertSpelled follows.sound own path v

end Registry

/-! ### Keywords in use -/

namespace Keywords

/-- The memories that a history of registrations of both kinds, latest first, leads to from one where
    nothing is registered.  Reads go on in between, and register what they learn. -/
inductive Records (k : Keywords) (policy : Policy) :
    List (Registration Token Value) → Memory → Prop
  | start {m} : k.contents m = .empty → Records k policy [] m
  | insert {history m} (path : List Token) (v : Value) :
      Records k policy history m → Records k policy (⟨path, v, false⟩ :: history) (k.insert path v m)
  | insertAll {history m} (entries : List (List Token × Value)) :
      Records k policy history m →
      Records k policy ((entries.map .alone).reverse ++ history) (k.insertAll entries m)
  | insertNocase {history m} (path : List Token) (v : Value) :
      Records k policy history m →
      Records k policy (⟨path, v, true⟩ :: history) (k.insertNocase path v m)
  | read {history m} {σ : Type} [Feed σ] (feed : σ) (fuel : Nat) :
      Records k policy history m →
      Records k policy (((k.learned policy m feed fuel).map .alone).reverse ++ history)
        ((k.grammar policy m fuel).readFrom feed).memory
  /-- Whatever leaves the trie as it is. -/
  | elsewhere {history m m'} :
      Records k policy history m → k.contents m' = k.contents m → Records k policy history m'

variable {k : Keywords} {policy : Policy} {m : Memory} {history : List (Registration Token Value)}

theorem Records.follows (recorded : k.Records policy history m) :
    (k.contents m).Follows Token.spellings history := by
  have own := Token.mem_spellings_self
  induction recorded with
  | start fresh =>
      rw [fresh]
      exact Registry.follows_empty
  | insert path v _ ih =>
      rw [contents_insert]
      exact ih.insert own path v
  | insertAll entries _ ih =>
      rw [contents_insertAll]
      exact ih.insertAll own entries
  | insertNocase path v _ ih =>
      rw [contents_insertNocase]
      exact ih.insertSpelled own path v
  | read feed fuel _ ih =>
      rw [contents_readFrom]
      exact ih.insertAll own _
  | elsewhere _ same ih =>
      rw [same]
      exact ih

/-- Whether a path holds a value is found out by looking. -/
theorem holds_iff_any {path : List Token} {v : Value} :
    k.Holds m path v ↔ (k.get? m path).any (· == v) = true := by
  show (∃ w, k.get? m path = some w ∧ (w == v) = true) ↔ _
  cases k.get? m path <;> simp

/-- Which values can be written, however keys were registered.  A path holds what was registered there
    last, in whatever spelling.  A value is written as a path whose latest registration was given as
    that very path, the youngest of these, and the path holds the value and brings it back; so a value
    can be written as long as one of its paths was not last covered by another spelling.  Without such
    a path it is not registered, though other spellings may still hold it. -/
theorem pathOf?_of_spellings (recorded : k.Records policy history m) :
    (∀ path, k.get? m path =
      (Registry.latest? Token.spellings history path).map Registration.value) ∧
    (∀ v path, k.pathOf? m v = some path ↔
      Registry.Given Token.spellings history path v ∧
        ∀ other, Registry.Given Token.spellings history other v → other ≠ path →
          Registry.sinceCovered Token.spellings history path <
            Registry.sinceCovered Token.spellings history other) ∧
    (∀ v path, k.pathOf? m v = some path →
      k.Holds m path v ∧
      (∀ fuel, ((k.grammar policy m (fuel + 1)).write v).result = .ok path) ∧
      (path ≠ [] → k.Restores policy m path v)) ∧
    (∀ v path, k.Holds m path v →
      (∀ e, Registry.latest? Token.spellings history path = some e →
        e.everySpelling = true → e.path = path) →
      ∃ out, k.pathOf? m v = some out) ∧
    ∀ v, (∀ path, ¬ Registry.Given Token.spellings history path v) →
      k.pathOf? m v = none ∧
      (policy.wholeWord? v = none →
        ∀ fuel, ((k.grammar policy m (fuel + 1)).write v).result = .error (.fault .notRegistered)) := by
  have follows := recorded.follows
  refine ⟨follows.held, fun v path => follows.pathOf?_eq_some_iff, ?_, ?_, ?_⟩
  · intro v path found
    obtain ⟨w, held, equal⟩ := follows.sound.holds_pathOf? found
    exact ⟨⟨w, held, equal⟩, write_of_pathOf? found, restores_of_held held equal⟩
  · intro v path holds own
    have given := follows.given_of_holds holds own
    cases found : k.pathOf? m v with
    | none => exact absurd given (follows.pathOf?_eq_none_iff.mp found path)
    | some out => exact ⟨out, rfl⟩
  · intro v none
    have absent : k.pathOf? m v = .none := follows.pathOf?_eq_none_iff.mpr none
    refine ⟨absent, ?_⟩
    intro whole fuel
    simp [write_eq, absent, whole]

/-- After a key in all its spellings one spelling is given to another value: the first value is still
    written as the key, and comes back from it. -/
theorem pathOf?_of_spellings_kept :
    let before := blank.insertNocase (Token.ofText "ok") (.int 1) .empty
    let after := blank.insert (Token.ofText "OK") (.int 2) before
    blank.Records .exact
      [⟨Token.ofText "OK", .int 2, false⟩, ⟨Token.ofText "ok", .int 1, true⟩] after ∧
    blank.pathOf? after (.int 1) = some (Token.ofText "ok") ∧
    blank.Holds after (Token.ofText "ok") (.int 1) ∧
    blank.Restores .exact after (Token.ofText "ok") (.int 1) := by
  intro before after
  have recorded : blank.Records .exact
      [⟨Token.ofText "OK", .int 2, false⟩, ⟨Token.ofText "ok", .int 1, true⟩] after :=
    .insert _ _ (.insertNocase _ _ (.start rfl))
  have found : blank.pathOf? after (.int 1) = some (Token.ofText "ok") := by decide +kernel
  obtain ⟨holds, _, restores⟩ := (pathOf?_of_spellings recorded).2.2.1 _ _ found
  exact ⟨recorded, found, holds, restores (by simp [Token.ofText])⟩

/-- A value that was registered at a path of its own, and then again in all spellings of another one,
    loses its own path in the index: it is still read there, but once the other path is given away it
    cannot be written any more. -/
theorem respelled_lost :
    let first := blank.insert (Token.ofText "ab") (.int 1) .empty
    let second := blank.insertNocase (Token.ofText "AB") (.int 1) first
    let after := blank.insert (Token.ofText "AB") (.int 2) second
    blank.Reachable .exact after ∧
    blank.Holds after (Token.ofText "ab") (.int 1) ∧
    blank.Restores .exact after (Token.ofText "ab") (.int 1) ∧
    blank.pathOf? after (.int 1) = none ∧
    ((blank.grammar .exact after 1).write (.int 1)).result = .error (.fault .notRegistered) := by
  intro first second after
  have reached : blank.Reachable .exact after :=
    .insert _ _ (.insertNocase _ _ (.insert _ _ (.start rfl)))
  have stands : blank.Holds after (Token.ofText "ab") (.int 1) :=
    holds_iff_any.mpr (by decide +kernel)
  obtain ⟨w, held, equal⟩ := stands
  have absent : blank.pathOf? after (.int 1) = none := by decide +kernel
  refine ⟨reached, ⟨w, held, equal⟩, restores_of_held held equal (by simp [Token.ofText]), absent, ?_⟩
  rw [write_eq, absent]
  rfl

end Keywords

end Duplex
