/-
Module: Duplex.Proofs.Trie.Index
Purpose: The way back from values to paths.  `PathIndex.pathsOf` is the view of the index: the paths
  that are listed for a value.  Registering and unregistering are told through it, and so is every
  registration of a key; a listed path is one that holds the value in the trie.
Main exports: PathIndex.WellFormed, PathIndex.pathsOf_register, PathIndex.pathsOf_unregister,
  Registry.Sound, Registry.pathsOf_insert, Registry.Sound.insert, Registry.Sound.insertSpelled
-/
import Mathlib.Data.List.Nodup
import Duplex.Trie.Registry
import Duplex.Proofs.Trie.Paths

namespace Duplex

namespace PathIndex

variable {κ ν : Type} [BEq ν]

/-- The paths listed for a value, latest last. -/
def pathsOf (b : PathIndex κ ν) (v : ν) : List (List κ) :=
  ((b.entries.find? fun entry => entry.1 == v).map Prod.snd).getD []

/-- An index in order: no value is listed twice or without a path, and no path twice for one
    value. -/
structure WellFormed (b : PathIndex κ ν) : Prop where
  apart : (b.entries.map Prod.fst).Pairwise fun v w => (v == w) = false
  listed : ∀ entry ∈ b.entries, entry.2 ≠ []
  once : ∀ entry ∈ b.entries, entry.2.Nodup

theorem pathOf?_eq_getLast? (b : PathIndex κ ν) (v : ν) :
    b.pathOf? v = (b.pathsOf v).getLast? := by
  unfold pathOf? pathsOf
  cases b.entries.find? fun entry => entry.1 == v <;> rfl

/-- Where the paths of a value are in the order of their ages, the oldest one first, the value is
    written as the youngest. -/
theorem pathOf?_eq_some_iff_youngest {b : PathIndex κ ν} {v : ν} {path : List κ}
    {age : List κ → Nat}
    (ordered : (b.pathsOf v).Pairwise fun earlier later => age later < age earlier) :
    b.pathOf? v = some path ↔
      path ∈ b.pathsOf v ∧ ∀ other ∈ b.pathsOf v, other ≠ path → age path < age other := by
  rw [pathOf?_eq_getLast?, List.getLast?_eq_some_iff]
  constructor
  · rintro ⟨earlier, split⟩
    rw [split, List.pairwise_append] at ordered
    refine ⟨by simp [split], ?_⟩
    intro other mem differs
    rw [split, List.mem_append, List.mem_singleton] at mem
    rcases mem with before | same
    · exact ordered.2.2 other before path List.mem_cons_self
    · exact absurd same differs
  · rintro ⟨mem, youngest⟩
    obtain ⟨earlier, last, split⟩ : ∃ earlier last, b.pathsOf v = earlier ++ [last] :=
      (List.eq_nil_or_concat' _).resolve_left (List.ne_nil_of_mem mem)
    by_cases same : last = path
    · exact ⟨earlier, by rw [split, same]⟩
    · -- the path would be older than the last one, and that older than the path
      have younger := youngest last (by simp [split]) same
      rw [split, List.pairwise_append] at ordered
      rw [split, List.mem_append, List.mem_singleton] at mem
      rcases mem with before | equal
      · have older := ordered.2.2 path before last List.mem_cons_self
        omega
      · exact absurd equal.symm same

@[simp] theorem pathsOf_empty (v : ν) : (empty : PathIndex κ ν).pathsOf v = [] :=
  rfl

theorem wellFormed_empty : (empty : PathIndex κ ν).WellFormed := by
  constructor <;> simp [empty]

/-! ### One entry changed -/

section Update

variable {v : ν} {f : List (List κ) → List (List κ)}

@[simp] theorem map_fst_update (v : ν) (f : List (List κ) → List (List κ))
    (entries : List (ν × List (List κ))) :
    (update v f entries).map Prod.fst = entries.map Prod.fst := by
  induction entries with
  | nil => rfl
  | cons entry entries ih =>
      obtain ⟨w, paths⟩ := entry
      by_cases here : w == v <;> simp [update, here, ih]

theorem mem_update {entry : ν × List (List κ)} {entries : List (ν × List (List κ))}
    (mem : entry ∈ update v f entries) :
    entry ∈ entries ∨ ∃ paths, (entry.1, paths) ∈ entries ∧ entry.2 = f paths := by
  induction entries with
  | nil => simp [update] at mem
  | cons first entries ih =>
      obtain ⟨w, paths⟩ := first
      by_cases here : w == v
      · simp only [update, here, if_true, List.mem_cons] at mem
        rcases mem with rfl | later
        · exact .inr ⟨paths, by simp⟩
        · exact .inl (List.mem_cons_of_mem _ later)
      · simp only [update, here, Bool.false_eq_true, if_false, List.mem_cons] at mem
        rcases mem with rfl | later
        · exact .inl List.mem_cons_self
        · rcases ih later with same | ⟨old, among, changed⟩
          · exact .inl (List.mem_cons_of_mem _ same)
          · exact .inr ⟨old, List.mem_cons_of_mem _ among, changed⟩

variable [PartialEquivBEq ν]

/-- The entry that is changed is found by the values equal to its own, and no other entry is. -/
theorem find?_update (v u : ν) (f : List (List κ) → List (List κ))
    (entries : List (ν × List (List κ))) :
    ((update v f entries).find? fun entry => entry.1 == u) =
      if v == u then (entries.find? fun entry => entry.1 == u).map fun entry => (entry.1, f entry.2)
      else entries.find? fun entry => entry.1 == u := by
  induction entries with
  | nil => simp [update]
  | cons entry entries ih =>
      obtain ⟨w, paths⟩ := entry
      by_cases here : w == v
      · have alike : (w == u) = (v == u) := BEq.congr_left here
        by_cases found : v == u <;> simp [update, here, alike, found]
      · by_cases first : w == u
        · have other : ¬ (v == u) := fun found => here (BEq.trans first (BEq.symm found))
          simp [update, here, first, other]
        · simp [update, here, first, ih]

end Update

/-! ### Finding the entry of a value -/

section Finding

variable [PartialEquivBEq ν]

/-- Behind the entry of a value there is no other entry of an equal one. -/
theorem not_listed_again {entry other : ν × List (List κ)} {entries : List (ν × List (List κ))}
    {u : ν} (apart : ∀ w ∈ entries.map Prod.fst, (entry.1 == w) = false) (here : entry.1 == u)
    (mem : other ∈ entries) : ¬ (other.1 == u) := by
  intro equal
  have differs := apart other.1 (List.mem_map_of_mem mem)
  rw [BEq.trans here (BEq.symm equal)] at differs
  cases differs

theorem find?_eq_some_of_mem {entry : ν × List (List κ)} {entries : List (ν × List (List κ))}
    {u : ν} (apart : (entries.map Prod.fst).Pairwise fun v w => (v == w) = false)
    (mem : entry ∈ entries) (equal : entry.1 == u) :
    (entries.find? fun e => e.1 == u) = some entry := by
  induction entries with
  | nil => simp at mem
  | cons first entries ih =>
      rw [List.map_cons, List.pairwise_cons] at apart
      by_cases here : first.1 == u
      · rcases List.mem_cons.mp mem with rfl | later
        · simp [here]
        · exact absurd equal (not_listed_again apart.1 here later)
      · rcases List.mem_cons.mp mem with rfl | later
        · exact absurd equal here
        · simp [here, ih apart.2 later]

/-- A path is listed for a value by the entry of an equal one. -/
theorem mem_pathsOf {b : PathIndex κ ν} (formed : b.WellFormed) {v : ν} {path : List κ} :
    path ∈ b.pathsOf v ↔ ∃ entry ∈ b.entries, entry.1 == v ∧ path ∈ entry.2 := by
  unfold pathsOf
  constructor
  · intro mem
    cases found : b.entries.find? fun entry => entry.1 == v with
    | none => simp [found] at mem
    | some entry =>
        have equal : entry.1 == v := by simpa using List.find?_some found
        exact ⟨entry, List.mem_of_find?_eq_some found, equal, by simpa [found] using mem⟩
  · rintro ⟨entry, mem, equal, listed⟩
    simpa [find?_eq_some_of_mem formed.apart mem equal] using listed

/-- Where no value is listed twice, dropping entries drops a value and shows no other one for it. -/
theorem find?_filter {entries : List (ν × List (List κ))}
    (apart : (entries.map Prod.fst).Pairwise fun v w => (v == w) = false) (u : ν)
    (keep : ν × List (List κ) → Bool) :
    ((entries.filter keep).find? fun entry => entry.1 == u) =
      (entries.find? fun entry => entry.1 == u).filter keep := by
  induction entries with
  | nil => rfl
  | cons entry entries ih =>
      rw [List.map_cons, List.pairwise_cons] at apart
      by_cases here : entry.1 == u
      · by_cases kept : keep entry
        · simp [kept, here, Option.filter]
        · have absent : ((entries.filter keep).find? fun entry => entry.1 == u) = none := by
            rw [List.find?_eq_none]
            intro e mem
            exact not_listed_again apart.1 here (List.mem_of_mem_filter mem)
          simp [kept, here, absent, Option.filter]
      · by_cases kept : keep entry <;> simp [kept, here, ih apart.2]

end Finding

/-! ### Registering and unregistering -/

section Changes

variable [DecidableEq κ]

/-- Only the value that is registered is new to an index. -/
theorem mem_values_register {b : PathIndex κ ν} {v u : ν} {path : List κ}
    (mem : u ∈ (b.register v path).entries.map Prod.fst) : u ∈ b.entries.map Prod.fst ∨ u = v := by
  unfold register at mem
  split at mem
  · exact .inl (by simpa using mem)
  · rw [List.map_append, List.mem_append] at mem
    exact mem.imp id (by simp)

theorem sublist_values_unregister (b : PathIndex κ ν) (v : ν) (path : List κ) :
    ((b.unregister v path).entries.map Prod.fst).Sublist (b.entries.map Prod.fst) := by
  unfold unregister
  rw [← map_fst_update v (fun paths => paths.filter fun p => p ≠ path) b.entries]
  exact List.filter_sublist.map Prod.fst

theorem WellFormed.register {b : PathIndex κ ν} (formed : b.WellFormed) (v : ν)
    (path : List κ) : (b.register v path).WellFormed := by
  unfold PathIndex.register
  by_cases known : b.entries.any fun entry => entry.1 == v
  · rw [if_pos known]
    constructor
    · simpa using formed.apart
    · intro entry mem
      rcases mem_update mem with old | ⟨paths, _, changed⟩
      · exact formed.listed entry old
      · simp [changed]
    · intro entry mem
      rcases mem_update mem with old | ⟨paths, among, changed⟩
      · exact formed.once entry old
      · rw [changed, List.nodup_append]
        have kept := (formed.once (entry.1, paths) among).filter fun p => decide (p ≠ path)
        simpa using kept
  · rw [if_neg known]
    constructor
    · have new : ∀ entry ∈ b.entries, (entry.1 == v) = false := by simpa using known
      rw [List.map_append, List.pairwise_append]
      simpa [formed.apart] using new
    · intro entry mem
      rcases List.mem_append.mp mem with old | new
      · exact formed.listed entry old
      · simp_all
    · intro entry mem
      rcases List.mem_append.mp mem with old | new
      · exact formed.once entry old
      · simp_all

theorem WellFormed.unregister {b : PathIndex κ ν} (formed : b.WellFormed) (v : ν)
    (path : List κ) : (b.unregister v path).WellFormed := by
  constructor
  · exact formed.apart.sublist (sublist_values_unregister b v path)
  · intro entry mem
    simpa using (List.mem_filter.mp mem).2
  · intro entry mem
    rcases mem_update (List.mem_filter.mp mem).1 with old | ⟨paths, among, changed⟩
    · exact formed.once entry old
    · rw [changed]
      exact (formed.once (entry.1, paths) among).filter _

variable [PartialEquivBEq ν]

theorem pathsOf_register (b : PathIndex κ ν) (v u : ν) (path : List κ) :
    (b.register v path).pathsOf u =
      if v == u then (b.pathsOf u).filter (· ≠ path) ++ [path] else b.pathsOf u := by
  unfold register pathsOf
  by_cases known : b.entries.any fun entry => entry.1 == v
  · rw [if_pos known, find?_update]
    by_cases same : v == u
    · have found : (b.entries.find? fun entry => entry.1 == u).isSome := by
        obtain ⟨entry, mem, equal⟩ := List.any_eq_true.mp known
        exact List.find?_isSome.mpr ⟨entry, mem, BEq.trans equal same⟩
      obtain ⟨entry, here⟩ := Option.isSome_iff_exists.mp found
      simp [same, here]
    · simp [same]
  · rw [if_neg known]
    by_cases same : v == u
    · have absent : (b.entries.find? fun entry => entry.1 == u) = none := by
        rw [List.find?_eq_none]
        intro entry mem equal
        exact known (List.any_eq_true.mpr ⟨entry, mem, BEq.trans equal (BEq.symm same)⟩)
      simp [absent, same]
    · simp [same]

theorem pathsOf_unregister {b : PathIndex κ ν} (formed : b.WellFormed) (v u : ν)
    (path : List κ) :
    (b.unregister v path).pathsOf u =
      if v == u then (b.pathsOf u).filter (· ≠ path) else b.pathsOf u := by
  unfold unregister pathsOf
  rw [find?_filter (by simpa using formed.apart), find?_update]
  cases found : b.entries.find? fun entry => entry.1 == u with
  | none => simp
  | some entry =>
      by_cases same : v == u
      · simp only [same, if_true, Option.map_some, Option.getD_some]
        cases entry.2.filter fun p => decide (p ≠ path) <;> rfl
      · have listed := formed.listed entry (List.mem_of_find?_eq_some found)
        simp [same, listed, Option.filter]

/-- The index after paths were dropped from the values they were listed for. -/
def unregisterAll (b : PathIndex κ ν) (replaced : List (List κ × ν)) : PathIndex κ ν :=
  replaced.foldl (fun back (path, old) => back.unregister old path) b

/-- Only paths are left that were not dropped from the value. -/
theorem WellFormed.unregisterAll {b : PathIndex κ ν} (formed : b.WellFormed)
    (replaced : List (List κ × ν)) :
    (b.unregisterAll replaced).WellFormed ∧
    ∀ {u path}, path ∈ (b.unregisterAll replaced).pathsOf u →
      path ∈ b.pathsOf u ∧ ∀ old, (path, old) ∈ replaced → ¬ (old == u) := by
  induction replaced generalizing b with
  | nil => exact ⟨formed, fun mem => ⟨mem, by simp⟩⟩
  | cons first replaced ih =>
      obtain ⟨dropped, value⟩ := first
      obtain ⟨formed', left⟩ := ih (formed.unregister value dropped)
      refine ⟨formed', ?_⟩
      intro u path mem
      obtain ⟨listed, others⟩ := left mem
      rw [pathsOf_unregister formed] at listed
      by_cases same : value == u
      · rw [if_pos same, List.mem_filter] at listed
        refine ⟨listed.1, ?_⟩
        intro old among equal
        rcases List.mem_cons.mp among with here | later
        · simp_all
        · exact others old later equal
      · rw [if_neg same] at listed
        refine ⟨listed, ?_⟩
        intro old among equal
        rcases List.mem_cons.mp among with here | later
        · simp_all
        · exact others old later equal

end Changes

end PathIndex

/-! ### Registered keys -/

namespace Registry

variable {κ ν : Type} [DecidableEq κ] [BEq ν]

/-- The value at a path is equal to `v`. -/
def Holds (r : Registry κ ν) (path : List κ) (v : ν) : Prop :=
  ∃ w, r.get? path = some w ∧ w == v

/-- An index in order, which lists a path only for the value that is there. -/
structure Sound (r : Registry κ ν) : Prop where
  formed : r.back.WellFormed
  holds : ∀ {v path}, path ∈ r.back.pathsOf v → r.Holds path v

theorem sound_empty : (empty : Registry κ ν).Sound where
  formed := PathIndex.wellFormed_empty
  holds mem := by simp [empty] at mem

/-- The path that a value is written as holds it. -/
theorem Sound.holds_pathOf? {r : Registry κ ν} (sound : r.Sound) {v : ν} {path : List κ}
    (found : r.pathOf? v = some path) : r.Holds path v := by
  rw [pathOf?, PathIndex.pathOf?_eq_getLast?] at found
  exact sound.holds (List.mem_of_getLast? found)

theorem get?_insert (r : Registry κ ν) (path : List κ) (v : ν) (other : List κ) :
    (r.insert path v).get? other = if other = path then some v else r.get? other :=
  Trie.get?_insert r.trie path v other

theorem holds_insert {r : Registry κ ν} {path other : List κ} {v u : ν} :
    (r.insert path v).Holds other u ↔ if other = path then (v == u) = true else r.Holds other u := by
  by_cases same : other = path <;> simp [Holds, get?_insert, same]

theorem get?_insertSpelled {spell : κ → List κ} (own : ∀ k, k ∈ spell k) (r : Registry κ ν)
    (path : List κ) (v : ν) (other : List κ) :
    (r.insertSpelled spell path v).get? other =
      if other ∈ Trie.spelled spell path then some v else r.get? other := by
  change (r.trie.insertSpelled spell path v).1.get? other = _
  rw [Trie.insertSpelled_eq own]
  exact Trie.get?_insertPaths r.trie v (Trie.spelled spell path) other

theorem holds_insertSpelled {spell : κ → List κ} (own : ∀ k, k ∈ spell k) {r : Registry κ ν}
    {path other : List κ} {v u : ν} :
    (r.insertSpelled spell path v).Holds other u ↔
      if other ∈ Trie.spelled spell path then (v == u) = true else r.Holds other u := by
  have held := get?_insertSpelled own r path v other
  by_cases among : other ∈ Trie.spelled spell path <;> simp [Holds, held, among]

variable [PartialEquivBEq ν]

/-- A registration takes its path from whatever value it was listed for, and lists it last for the
    new one. -/
theorem pathsOf_insert {r : Registry κ ν} (sound : r.Sound) (path : List κ) (v u : ν) :
    (r.insert path v).back.pathsOf u =
      (r.back.pathsOf u).filter (· ≠ path) ++ if v == u then [path] else [] := by
  have without : ∀ b : PathIndex κ ν, b.pathsOf u = (r.back.pathsOf u).filter (· ≠ path) →
      (b.register v path).pathsOf u =
        (r.back.pathsOf u).filter (· ≠ path) ++ if v == u then [path] else [] := by
    intro b dropped
    by_cases same : v == u <;> simp [PathIndex.pathsOf_register, same, dropped]
  unfold insert
  cases held : r.trie.get? path with
  | none =>
      apply without
      symm
      rw [List.filter_eq_self]
      intro p mem
      obtain ⟨w, here, _⟩ := sound.holds mem
      simp only [decide_eq_true_eq]
      rintro rfl
      simp [get?, held] at here
  | some old =>
      apply without
      rw [PathIndex.pathsOf_unregister sound.formed]
      by_cases same : old == u
      · simp [same]
      · simp only [same]
        symm
        -- the path cannot be listed for `u`, which it does not hold
        rw [if_neg Bool.false_ne_true, List.filter_eq_self]
        intro p mem
        obtain ⟨w, here, equal⟩ := sound.holds mem
        simp only [decide_eq_true_eq]
        rintro rfl
        rw [get?, held] at here
        cases here
        exact same equal

theorem Sound.insert {r : Registry κ ν} (sound : r.Sound) (path : List κ) (v : ν) :
    (r.insert path v).Sound where
  formed := by
    unfold Registry.insert
    cases r.trie.get? path with
    | none => exact sound.formed.register v path
    | some old => exact (sound.formed.unregister old path).register v path
  holds := by
    intro u other mem
    rw [pathsOf_insert sound, List.mem_append, List.mem_filter] at mem
    rw [holds_insert]
    rcases mem with ⟨listed, differs⟩ | last
    · rw [if_neg (by simpa using differs)]
      exact sound.holds listed
    · by_cases same : v == u <;> simp_all

theorem Sound.insertAll {r : Registry κ ν} (sound : r.Sound) (entries : List (List κ × ν)) :
    (r.insertAll entries).Sound := by
  induction entries generalizing r with
  | nil => exact sound
  | cons entry entries ih => exact ih (sound.insert entry.1 entry.2)

/-! ### All spellings of a key -/

/-- Every spelling that is taken over is dropped from the value it was listed for. -/
theorem Sound.insertSpelled {r : Registry κ ν} (sound : r.Sound) {spell : κ → List κ}
    (own : ∀ k, k ∈ spell k) (path : List κ) (v : ν) : (r.insertSpelled spell path v).Sound := by
  obtain ⟨formed, left⟩ := sound.formed.unregisterAll (r.trie.insertSpelled spell path v).2
  have kept : ∀ {u other}, other ∈ (r.back.unregisterAll
      (r.trie.insertSpelled spell path v).2).pathsOf u →
      (r.insertSpelled spell path v).Holds other u := by
    intro u other listed
    obtain ⟨before, notReplaced⟩ := left listed
    obtain ⟨w, held, equal⟩ := sound.holds before
    have apart : other ∉ Trie.spelled spell path := by
      intro among
      rw [Trie.insertSpelled_eq own] at notReplaced
      exact notReplaced w (Trie.mem_replaced v among held) equal
    rw [holds_insertSpelled own, if_neg apart]
    exact ⟨w, held, equal⟩
  have back : (r.insertSpelled spell path v).back =
      (r.back.unregisterAll (r.trie.insertSpelled spell path v).2).register v path := rfl
  constructor
  · rw [back]
    exact formed.register v path
  · intro u other mem
    rw [back, PathIndex.pathsOf_register] at mem
    by_cases same : v == u
    · rw [if_pos same, List.mem_append, List.mem_singleton] at mem
      rcases mem with listed | rfl
      · exact kept (List.mem_of_mem_filter listed)
      · rw [holds_insertSpelled own, if_pos (Trie.mem_spelled_self own other)]
        exact same
    · rw [if_neg same] at mem
      exact kept mem

/-- Among the values that equal themselves no path is listed twice. -/
theorem Sound.nodup_paths {r : Registry κ ν} (sound : r.Sound) :
    ((r.back.entries.filter fun entry => entry.1 == entry.1).flatMap Prod.snd).Nodup := by
  have holds : ∀ entry ∈ r.back.entries, entry.1 == entry.1 → ∀ path ∈ entry.2,
      r.Holds path entry.1 := by
    intro entry mem self path listed
    exact sound.holds ((PathIndex.mem_pathsOf sound.formed).mpr ⟨entry, mem, self, listed⟩)
  rw [List.nodup_flatMap]
  constructor
  · intro entry mem
    exact sound.formed.once entry (List.mem_of_mem_filter mem)
  · have apart := List.pairwise_map.mp sound.formed.apart
    refine (apart.sublist List.filter_sublist).imp_of_mem ?_
    intro first second memFirst memSecond differs path listedFirst listedSecond
    obtain ⟨memFirst, selfFirst⟩ := List.mem_filter.mp memFirst
    obtain ⟨memSecond, selfSecond⟩ := List.mem_filter.mp memSecond
    obtain ⟨v, held, equalFirst⟩ := holds first memFirst selfFirst path listedFirst
    obtain ⟨w, heldAgain, equalSecond⟩ := holds second memSecond selfSecond path listedSecond
    rw [held] at heldAgain
    cases heldAgain
    rw [BEq.trans (BEq.symm equalFirst) equalSecond] at differs
    cases differs

end Registry

end Duplex
