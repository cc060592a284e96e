/-
Module: Duplex.Proofs.Trie.FiniteMap
Purpose: A trie is a finite map from paths to values, whatever was done to it.  Its lookup is known
  from the latest update that wrote to the path, its keys are the paths of its values, each of them
  once, and putting a value at all spellings of a path tells every value that it replaces, once.
Main exports: Trie.Distinct, Trie.nodup_keys, Trie.Spelling, Text.spelling, Trie.Update,
  Trie.ofUpdates, Trie.ofUpdates_isMap
-/
import Duplex.Proofs.Trie.Paths
import Duplex.Text.Case
import Duplex.Trie.Descent
import Mathlib.Data.List.Forall2
import Mathlib.Data.List.Induction
import Mathlib.Data.List.Nodup

namespace Duplex

namespace Trie

variable {κ ν : Type} [DecidableEq κ]

/-! ### Entries in order -/

theorem insertAll_cons (t : Trie κ ν) (entry : List κ × ν) (entries : List (List κ × ν)) :
    t.insertAll (entry :: entries) = (t.insert entry.1 entry.2).insertAll entries :=
  rfl

/-- Of entries that are inserted in order the last one for a path counts. -/
theorem get?_insertAll (t : Trie κ ν) (entries : List (List κ × ν)) (path : List κ) :
    (t.insertAll entries).get? path = (entries.reverse.lookup path).or (t.get? path) := by
  induction entries generalizing t with
  | nil => rfl
  | cons entry entries ih =>
      obtain ⟨first, v⟩ := entry
      rw [insertAll_cons, ih, get?_insert, List.reverse_cons, List.lookup_append, Option.or_assoc]
      by_cases here : path = first
      · simp [here]
      · have other : (path == first) = false := by simpa using here
        simp [here, List.lookup_cons, other]

/-- The value that is given back is the one that stood at the path. -/
theorem exchange_eq (t : Trie κ ν) (path : List κ) (v : ν) :
    t.exchange path v = (t.get? path, t.insert path v) := by
  induction path generalizing t with
  | nil => rw [exchange, get?_nil, insert]
  | cons k path ih => simp only [exchange, insert, ih, get?_child]

/-! ### Keys -/

/-- At no node two routes have the same key. -/
def Distinct (t : Trie κ ν) : Prop :=
  ∀ path reached, t.node? path = some reached → (reached.routes.map Prod.fst).Nodup

theorem map_fst_replace (k : κ) (child : Trie κ ν) (routes : List (κ × Trie κ ν)) :
    (replace k child routes).map Prod.fst =
      if k ∈ routes.map Prod.fst then routes.map Prod.fst else routes.map Prod.fst ++ [k] := by
  induction routes with
  | nil => rfl
  | cons route routes ih =>
      obtain ⟨l, t⟩ := route
      by_cases here : k = l
      · simp [replace, here]
      · rw [replace, if_neg here, List.map_cons, ih]
        by_cases later : k ∈ routes.map Prod.fst <;> simp [here, later]

namespace Distinct

variable {t : Trie κ ν}

theorem nodup (h : t.Distinct) : (t.routes.map Prod.fst).Nodup :=
  h [] t (node?_nil t)

theorem empty : (empty : Trie κ ν).Distinct := by
  intro path reached found
  cases path with
  | nil =>
      cases found.symm.trans (node?_nil _)
      exact List.nodup_nil
  | cons k path => simp at found

theorem route (h : t.Distinct) {k : κ} {next : Trie κ ν} (found : t.route? k = some next) :
    next.Distinct := by
  intro path reached below
  exact h (k :: path) reached (by rw [node?_cons, found, Option.bind_some, below])

theorem child (h : t.Distinct) (k : κ) : (t.child k).Distinct := by
  unfold Trie.child
  cases found : t.route? k with
  | none => exact empty
  | some next => exact h.route found

theorem setRoute (h : t.Distinct) {next : Trie κ ν} (below : next.Distinct) (k : κ) :
    (t.setRoute k next).Distinct := by
  intro path reached found
  cases path with
  | nil =>
      cases found.symm.trans (node?_nil _)
      show ((replace k next t.routes).map Prod.fst).Nodup
      rw [map_fst_replace]
      split
      · exact h.nodup
      · rename_i absent
        exact List.nodup_append_comm.mpr (List.nodup_cons.mpr ⟨absent, h.nodup⟩)
  | cons l path =>
      rw [node?_cons, route?_setRoute] at found
      by_cases same : l = k
      · rw [if_pos same] at found
        exact below path reached found
      · rw [if_neg same, ← node?_cons] at found
        exact h (l :: path) reached found

theorem insert (h : t.Distinct) (path : List κ) (v : ν) : (t.insert path v).Distinct := by
  induction path generalizing t with
  | nil =>
      intro other reached found
      cases other with
      | nil =>
          cases found.symm.trans (node?_nil _)
          exact h.nodup
      | cons k other =>
          have same : (t.insert [] v).node? (k :: other) = t.node? (k :: other) := by
            simp [Trie.insert, route?, routes]
          exact h (k :: other) reached (same.symm.trans found)
  | cons k path ih => exact h.setRoute (ih (h.child k)) k

theorem insertAll (h : t.Distinct) (entries : List (List κ × ν)) :
    (t.insertAll entries).Distinct := by
  induction entries generalizing t with
  | nil => exact h
  | cons entry entries ih => exact ih (h.insert entry.1 entry.2)

end Distinct

/-- Where the keys are distinct, each route is found behind its key. -/
theorem find?_eq_some_iff {routes : List (κ × Trie κ ν)} (nodup : (routes.map Prod.fst).Nodup)
    {k : κ} {child : Trie κ ν} : find? k routes = some child ↔ (k, child) ∈ routes := by
  induction routes with
  | nil => simp [find?]
  | cons route routes ih =>
      obtain ⟨l, t⟩ := route
      obtain ⟨absent, nodup⟩ := List.nodup_cons.mp nodup
      by_cases here : k = l
      · subst here
        have elsewhere : (k, child) ∉ routes := fun mem => absent (List.mem_map.mpr ⟨_, mem, rfl⟩)
        simp [find?, elsewhere, eq_comm]
      · simp [find?, here, ih nodup]

omit [DecidableEq κ] in
theorem keysOf_eq (routes : List (κ × Trie κ ν)) :
    keysOf routes = routes.flatMap fun route => route.2.keys.map (route.1 :: ·) := by
  induction routes with
  | nil => rw [keysOf, List.flatMap_nil]
  | cons route routes ih => rw [keysOf, ih, List.flatMap_cons]

omit [DecidableEq κ] in
/-- The key of a value at the node itself, and the keys behind each route. -/
theorem keys_eq (t : Trie κ ν) :
    t.keys = (if t.value.isSome then [[]] else []) ++
      t.routes.flatMap fun route => route.2.keys.map (route.1 :: ·) := by
  obtain ⟨v, routes⟩ := t
  rw [keys, keysOf_eq, value, Trie.routes]

/-- The keys are the paths of all values. -/
theorem mem_keys {t : Trie κ ν} (distinct : t.Distinct) (path : List κ) :
    path ∈ t.keys ↔ (t.get? path).isSome := by
  induction path generalizing t with
  | nil =>
      rw [keys_eq]
      cases held : t.value <;> simp [held]
  | cons k path ih =>
      have inside : k :: path ∈ t.keys ↔
          ∃ child, (k, child) ∈ t.routes ∧ path ∈ child.keys := by
        rw [keys_eq]
        split <;> simp
      rw [inside, get?_cons]
      constructor
      · rintro ⟨child, mem, below⟩
        have found : t.route? k = some child := (find?_eq_some_iff distinct.nodup).mpr mem
        rw [found, Option.bind_some]
        exact (ih (distinct.route found)).mp below
      · intro held
        cases found : t.route? k with
        | none => simp [found] at held
        | some child =>
            rw [found, Option.bind_some] at held
            exact ⟨child, (find?_eq_some_iff distinct.nodup).mp found,
              (ih (distinct.route found)).mpr held⟩

/-- No key is listed twice. -/
theorem nodup_keys (t : Trie κ ν) (distinct : t.Distinct) : t.keys.Nodup := by
  have behind : (t.routes.flatMap fun route => route.2.keys.map (route.1 :: ·)).Nodup := by
    rw [List.nodup_flatMap]
    constructor
    · rintro ⟨k, child⟩ mem
      have found : t.route? k = some child := (find?_eq_some_iff distinct.nodup).mpr mem
      have smaller : sizeOf child < sizeOf t := sizeOf_route?_lt found
      exact (nodup_keys child (distinct.route found)).map List.cons_injective
    · refine (List.pairwise_map.mp distinct.nodup).imp ?_
      intro first second ne path one other
      obtain ⟨_, _, rfl⟩ := List.mem_map.mp one
      obtain ⟨_, _, same⟩ := List.mem_map.mp other
      exact ne (List.cons.inj same).1.symm
  rw [keys_eq]
  split
  · exact List.nodup_cons.mpr ⟨by simp, behind⟩
  · exact behind
termination_by sizeOf t

/-! ### What is replaced -/

/-- Where no path comes twice, what is replaced is what stood at the paths. -/
theorem replaced_eq {paths : List (List κ)} (once : paths.Nodup) (t : Trie κ ν) (v : ν) :
    (t.insertPaths v paths).2 = paths.filterMap fun path => (t.get? path).map (path, ·) := by
  induction paths generalizing t with
  | nil => rfl
  | cons path paths ih =>
      obtain ⟨absent, once⟩ := List.nodup_cons.mp once
      have kept : ∀ other ∈ paths, ((t.insert path v).get? other).map (other, ·) =
          (t.get? other).map (other, ·) := by
        intro other mem
        have ne : other ≠ path := fun same => absent (same ▸ mem)
        rw [get?_insert, if_neg ne]
      rw [insertPaths_cons, ih once, List.filterMap_congr kept, List.filterMap_cons]
      cases t.get? path <;> rfl

omit [DecidableEq κ] in
theorem mem_spelled {spell : κ → List κ} {path other : List κ} :
    other ∈ spelled spell path ↔ List.Forall₂ (fun k s => s ∈ spell k) path other := by
  induction path generalizing other with
  | nil => simp [spelled]
  | cons k path ih =>
      cases other with
      | nil => simp [spelled]
      | cons s other => simp [spelled, ih]

omit [DecidableEq κ] in
/-- Distinct choices at each key make distinct paths. -/
theorem nodup_spelled {spell : κ → List κ} (once : ∀ k, (spell k).Nodup) (path : List κ) :
    (spelled spell path).Nodup := by
  induction path with
  | nil => exact List.nodup_singleton []
  | cons k path ih =>
      rw [spelled, List.nodup_flatMap]
      refine ⟨fun s _ => ih.map List.cons_injective, (once k).imp ?_⟩
      intro first second ne path one other
      obtain ⟨_, _, rfl⟩ := List.mem_map.mp one
      obtain ⟨_, _, same⟩ := List.mem_map.mp other
      exact ne (List.cons.inj same).1.symm

/-! ### Spellings -/

/-- The ways to spell a key: among them the key itself, and none twice. -/
structure Spelling (κ : Type) where
  of : κ → List κ
  own : ∀ k, k ∈ of k
  once : ∀ k, (of k).Nodup

namespace Spelling

/-- Whether a path is spelled by another one, key by key. -/
abbrev Spells (spelling : Spelling κ) : List κ → List κ → Prop :=
  List.Forall₂ fun k s => s ∈ spelling.of k

end Spelling

end Trie

namespace Text

/-- The spellings of a character are itself, its lower case and its upper case, as far as these are
    single characters. -/
theorem mem_spellings {c s : Char} :
    s ∈ spellings c ↔ s = c ∨ lowerCase c = [s] ∨ upperCase c = [s] := by
  unfold spellings
  rw [List.foldl_cons, List.foldl_cons, List.foldl_nil]
  generalize lowerCase c = lower
  generalize upperCase c = upper
  -- only the length of either case matters: one character, or not
  rcases lower with _ | ⟨l, _ | ⟨m, lower⟩⟩ <;> rcases upper with _ | ⟨u, _ | ⟨v, upper⟩⟩ <;>
    simp only [reduceCtorEq, List.cons.injEq, and_true, and_false, or_false, false_or,
      List.mem_singleton] <;>
    grind

/-- A spelling is only added if it is new. -/
theorem nodup_spellings (c : Char) : (spellings c).Nodup := by
  refine List.foldlRecOn (motive := List.Nodup) _ _ (List.nodup_singleton c) ?_
  intro known once mapped _
  split
  · split
    · exact once
    · rename_i new
      exact List.nodup_append_comm.mpr (List.nodup_cons.mpr ⟨by simpa using new, once⟩)
  · exact once

/-- Characters spelled in either case. -/
def spelling : Trie.Spelling Char where
  of := spellings
  own _ := mem_spellings.mpr (.inl rfl)
  once := nodup_spellings

end Text

namespace Trie

variable {κ ν : Type} [DecidableEq κ]

/-! ### Updates -/

/-- A change of a trie: a value at a path, entries in order, or a value at all spellings of a
    path. -/
inductive Update (κ ν : Type) where
  | insert (path : List κ) (v : ν)
  | merge (entries : List (List κ × ν))
  | insertSpelled (path : List κ) (v : ν)

namespace Update

/-- The trie after the update. -/
def apply (spelling : Spelling κ) (t : Trie κ ν) : Update κ ν → Trie κ ν
  | insert path v => t.insert path v
  | merge entries => t.insertAll entries
  | insertSpelled path v => (t.insertSpelled spelling.of path v).1

/-- The value that the update writes to a path, the last one if it writes there several times. -/
def wrote? (spelling : Spelling κ) (path : List κ) : Update κ ν → Option ν
  | insert here v => if path = here then some v else none
  | merge entries => entries.reverse.lookup path
  | insertSpelled here v => if spelling.Spells here path then some v else none

/-- What the update wrote stands there now; other paths are left as they were. -/
theorem get?_apply (spelling : Spelling κ) (t : Trie κ ν) (u : Update κ ν) (path : List κ) :
    (u.apply spelling t).get? path = (u.wrote? spelling path).or (t.get? path) := by
  cases u with
  | insert here v =>
      rw [apply, wrote?, get?_insert]
      split <;> rfl
  | merge entries => exact get?_insertAll t entries path
  | insertSpelled here v =>
      rw [apply, wrote?, insertSpelled_eq spelling.own, get?_insertPaths]
      simp only [mem_spelled]
      split <;> rfl

theorem distinct_apply (spelling : Spelling κ) {t : Trie κ ν} (distinct : t.Distinct)
    (u : Update κ ν) : (u.apply spelling t).Distinct := by
  cases u with
  | insert path v => exact distinct.insert path v
  | merge entries => exact distinct.insertAll entries
  | insertSpelled path v =>
      rw [apply, insertSpelled_eq spelling.own, fst_insertPaths]
      exact distinct.insertAll _

end Update

/-- The trie that updates make of an empty one. -/
def ofUpdates (spelling : Spelling κ) (updates : List (Update κ ν)) : Trie κ ν :=
  updates.foldl (Update.apply spelling) empty

theorem distinct_ofUpdates (spelling : Spelling κ) (updates : List (Update κ ν)) :
    (ofUpdates spelling updates).Distinct :=
  List.foldlRecOn updates (Update.apply spelling) Distinct.empty
    fun _ distinct u _ => Update.distinct_apply spelling distinct u

/-- At each path stands what the latest update of those that wrote there has written. -/
theorem get?_ofUpdates (spelling : Spelling κ) (updates : List (Update κ ν)) (path : List κ) :
    (ofUpdates spelling updates).get? path = updates.reverse.findSome? (·.wrote? spelling path) := by
  induction updates using List.reverseRecOn with
  | nil => exact get?_empty path
  | append_singleton updates u ih =>
      rw [ofUpdates, List.foldl_append, List.foldl_cons, List.foldl_nil, ← ofUpdates,
        Update.get?_apply, ih, List.reverse_append, List.reverse_singleton, List.singleton_append,
        List.findSome?_cons]
      cases u.wrote? spelling path <;> rfl

/-- A trie is a finite map.  Whatever updates have been made, each path holds what was written to it
    last, and nothing if nothing was; an insertion gives the value that stood at its path; the keys
    are the paths that hold a value, each of them once; and an insertion at all spellings of a path
    tells what it replaces, which is what stood at the paths that spell it key by key, each of them
    once.  A character is spelled by itself, by its lower case and by its upper case, where those
    are single characters. -/
theorem ofUpdates_isMap (spelling : Spelling κ) (updates : List (Update κ ν)) :
    let t := ofUpdates spelling updates
    (∀ path, t.get? path = updates.reverse.findSome? (·.wrote? spelling path)) ∧
    (∀ path v, t.exchange path v = (t.get? path, t.insert path v)) ∧
    (∀ path, t.contains path = (t.get? path).isSome) ∧
    t.keys.Nodup ∧ (∀ path, path ∈ t.keys ↔ (t.get? path).isSome) ∧
    (∀ path v,
      let replaced := (t.insertSpelled spelling.of path v).2
      (∀ other old, (other, old) ∈ replaced ↔
        spelling.Spells path other ∧ t.get? other = some old) ∧
      (replaced.map Prod.fst).Nodup) ∧
    ∀ c s, s ∈ Text.spelling.of c ↔ s = c ∨ Text.lowerCase c = [s] ∨ Text.upperCase c = [s] := by
  intro t
  have distinct : t.Distinct := distinct_ofUpdates spelling updates
  refine ⟨get?_ofUpdates spelling updates, exchange_eq t, fun _ => rfl, t.nodup_keys distinct,
    mem_keys distinct, ?_, fun _ _ => Text.mem_spellings⟩
  intro path v replaced
  have once := nodup_spelled spelling.once path
  have told : replaced =
      (spelled spelling.of path).filterMap fun other => (t.get? other).map (other, ·) := by
    show (t.insertSpelled spelling.of path v).2 = _
    rw [insertSpelled_eq spelling.own, replaced_eq once]
  constructor
  · intro other old
    simp [told, mem_spelled]
  · have among : (replaced.map Prod.fst).Sublist (spelled spelling.of path) := by
      have kept : replaced.map Prod.fst =
          (spelled spelling.of path).filter fun other => (t.get? other).isSome := by
        rw [told, List.map_filterMap, ← List.filterMap_eq_filter]
        refine List.filterMap_congr fun other _ => ?_
        cases held : t.get? other <;> simp [Option.guard, held]
      rw [kept]
      exact List.filter_sublist
    exact once.sublist among

/-- A key spelled in both cases takes over the path it was inserted at before, and tells so. -/
example :
    ((ofUpdates Text.spelling [.insert ['a'] 1, .merge [(['b'], 2)]]).insertSpelled
      Text.spelling.of ['A'] 3).2 = [(['a'], 1)] := by
  decide

end Trie

end Duplex
