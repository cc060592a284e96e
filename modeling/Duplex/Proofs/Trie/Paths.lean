/-
Module: Duplex.Proofs.Trie.Paths
Purpose: A trie as a map from paths to values.  Routes are looked up and replaced one key at a time;
  from that follows what stands at the end of each path after values were put in, one by one or at
  all spellings of a path at once.
Main exports: Trie.node?_append, Trie.get?_insert, Trie.get?_insertPaths, Trie.mem_replaced,
  Trie.insertSpelled_eq
-/
import Duplex.Trie.Basic

namespace Duplex.Trie

variable {κ ν : Type} [DecidableEq κ]

/-! ### Routes -/

@[simp] theorem find?_replace_self (k : κ) (child : Trie κ ν) (routes : List (κ × Trie κ ν)) :
    find? k (replace k child routes) = some child := by
  induction routes with
  | nil => simp [replace, find?]
  | cons route routes ih =>
      obtain ⟨l, t⟩ := route
      by_cases here : k = l <;> simp [replace, find?, here, ih]

theorem find?_replace_of_ne {k l : κ} (ne : l ≠ k) (child : Trie κ ν)
    (routes : List (κ × Trie κ ν)) : find? l (replace k child routes) = find? l routes := by
  induction routes with
  | nil => simp [replace, find?, ne]
  | cons route routes ih =>
      obtain ⟨m, t⟩ := route
      by_cases here : k = m
      · subst here
        simp [replace, find?, ne]
      · simp [replace, find?, here, ih]

theorem route?_setRoute (t child : Trie κ ν) (k l : κ) :
    (t.setRoute k child).route? l = if l = k then some child else t.route? l := by
  by_cases same : l = k
  · subst same
    simp [setRoute, route?, routes]
  · simp [setRoute, route?, routes, same, find?_replace_of_ne same]

@[simp] theorem route?_empty (k : κ) : (empty : Trie κ ν).route? k = none :=
  rfl

@[simp] theorem value_setRoute (t child : Trie κ ν) (k : κ) :
    (t.setRoute k child).value = t.value :=
  rfl

/-! ### Nodes and values -/

@[simp] theorem node?_nil (t : Trie κ ν) : t.node? [] = some t := by
  simp [node?]

@[simp] theorem node?_cons (t : Trie κ ν) (k : κ) (path : List κ) :
    t.node? (k :: path) = (t.route? k).bind fun next => next.node? path := by
  rw [node?]

/-- A path goes on from the node where its beginning ends. -/
theorem node?_append (t : Trie κ ν) (path more : List κ) :
    t.node? (path ++ more) = (t.node? path).bind fun reached => reached.node? more := by
  induction path generalizing t with
  | nil => simp
  | cons k path ih => cases next : t.route? k <;> simp [next, ih]

@[simp] theorem get?_nil (t : Trie κ ν) : t.get? [] = t.value := by
  simp [get?]

theorem get?_cons (t : Trie κ ν) (k : κ) (path : List κ) :
    t.get? (k :: path) = (t.route? k).bind fun next => next.get? path := by
  cases next : t.route? k <;> simp [get?, next]

@[simp] theorem get?_empty (path : List κ) : (empty : Trie κ ν).get? path = none := by
  cases path with
  | nil => rfl
  | cons k path => simp [get?_cons]

/-- Below a missing child there is nothing, as below an empty one. -/
theorem get?_child (t : Trie κ ν) (k : κ) (path : List κ) :
    (t.child k).get? path = t.get? (k :: path) := by
  cases next : t.route? k <;> simp [child, next, get?_cons]

/-- A value that was put in stands at its path, and the other paths stay as they were. -/
theorem get?_insert (t : Trie κ ν) (path : List κ) (v : ν) (other : List κ) :
    (t.insert path v).get? other = if other = path then some v else t.get? other := by
  induction path generalizing t other with
  | nil =>
      cases other with
      | nil => simp [insert, value]
      | cons k other => simp [insert, get?_cons, route?, routes]
  | cons k path ih =>
      cases other with
      | nil => simp [insert]
      | cons l other =>
          rw [insert, get?_cons, route?_setRoute]
          by_cases same : l = k
          · subst same
            simp [ih, get?_child]
          · simp [same, get?_cons]

/-- Only paths that were there, and those that the new path begins with, lead to a node. -/
theorem node?_insert {t : Trie κ ν} {path other : List κ} {v : ν} {reached : Trie κ ν}
    (found : (t.insert path v).node? other = some reached) :
    (∃ before, t.node? other = some before) ∨ other <+: path := by
  induction path generalizing t other with
  | nil =>
      cases other with
      | nil => exact .inr (List.prefix_refl [])
      | cons k other => exact .inl ⟨reached, by simpa [insert, route?, routes] using found⟩
  | cons k path ih =>
      cases other with
      | nil => exact .inr (List.nil_prefix)
      | cons l other =>
          rw [insert, node?_cons, route?_setRoute] at found
          by_cases same : l = k
          · subst same
            rw [if_pos rfl, Option.bind_some] at found
            rcases ih found with ⟨before, below⟩ | begins
            · cases next : t.route? l with
              | some child =>
                  exact .inl ⟨before, by simpa [Trie.child, next] using below⟩
              | none =>
                  -- below a missing child only the child itself can be reached
                  cases other with
                  | nil => exact .inr ⟨path, rfl⟩
                  | cons m other => simp [Trie.child, next] at below
            · exact .inr (List.cons_prefix_cons.mpr ⟨rfl, begins⟩)
          · exact .inl ⟨reached, by simpa [same] using found⟩

/-- A new path adds the nodes along it, and no others. -/
theorem isSome_node?_insert (t : Trie κ ν) (path other : List κ) (v : ν) :
    ((t.insert path v).node? other).isSome ↔ (t.node? other).isSome ∨ other <+: path := by
  induction path generalizing t other with
  | nil =>
      cases other with
      | nil => simp
      | cons k other => simp [insert, route?, routes]
  | cons k path ih =>
      cases other with
      | nil => simp
      | cons l other =>
          rw [insert, node?_cons, route?_setRoute, List.cons_prefix_cons]
          by_cases same : l = k
          · subst same
            rw [if_pos rfl, Option.bind_some, ih, node?_cons]
            cases next : t.route? l with
            | some child => simp [Trie.child, next]
            | none =>
                -- below a missing child only the child itself can be reached
                cases other <;> simp [Trie.child, next]
          · simp [same]

/-! ### Several paths at once -/

@[simp] theorem fst_insertPaths_cons (t : Trie κ ν) (v : ν) (path : List κ)
    (paths : List (List κ)) :
    (t.insertPaths v (path :: paths)).1 = ((t.insert path v).insertPaths v paths).1 := by
  rw [insertPaths]
  cases t.get? path <;> rfl

/-- A value is put at several paths one after the other. -/
theorem fst_insertPaths (t : Trie κ ν) (v : ν) (paths : List (List κ)) :
    (t.insertPaths v paths).1 = t.insertAll (paths.map fun path => (path, v)) := by
  induction paths generalizing t with
  | nil => rfl
  | cons path paths ih =>
      rw [fst_insertPaths_cons, ih]
      rfl

/-- The value stands at all the paths that it was put at. -/
theorem get?_insertPaths (t : Trie κ ν) (v : ν) (paths : List (List κ)) (other : List κ) :
    (t.insertPaths v paths).1.get? other = if other ∈ paths then some v else t.get? other := by
  induction paths generalizing t with
  | nil => simp [insertPaths]
  | cons path paths ih =>
      rw [fst_insertPaths_cons, ih, get?_insert]
      by_cases later : other ∈ paths <;> simp [later]

/-- What stood at one of the paths is among what was replaced. -/
theorem mem_replaced {t : Trie κ ν} {paths : List (List κ)} {path : List κ} {old : ν} (v : ν)
    (mem : path ∈ paths) (held : t.get? path = some old) :
    (path, old) ∈ (t.insertPaths v paths).2 := by
  induction paths generalizing t with
  | nil => simp at mem
  | cons first paths ih =>
      rw [insertPaths]
      by_cases here : path = first
      · subst here
        simp [held]
      · have kept : (t.insert first v).get? path = some old := by
          simp [get?_insert, here, held]
        have among := ih (List.mem_of_ne_of_mem here mem) kept
        cases t.get? first <;> simp [among]

omit [DecidableEq κ] in
/-- Where each key is one of its own spellings, so is each path. -/
theorem mem_spelled_self {spell : κ → List κ} (own : ∀ k, k ∈ spell k) (path : List κ) :
    path ∈ spelled spell path := by
  induction path with
  | nil => simp [spelled]
  | cons k path ih => simp [spelled, own k, ih]

/-! ### One walk for all spellings -/

theorem replace_replace (k : κ) (first second : Trie κ ν) (routes : List (κ × Trie κ ν)) :
    replace k second (replace k first routes) = replace k second routes := by
  induction routes with
  | nil => simp [replace]
  | cons route routes ih =>
      obtain ⟨l, t⟩ := route
      by_cases here : k = l <;> simp [replace, here, ih]

@[simp] theorem setRoute_setRoute (t first second : Trie κ ν) (k : κ) :
    (t.setRoute k first).setRoute k second = t.setRoute k second := by
  simp [setRoute, value, routes, replace_replace]

@[simp] theorem child_setRoute (t child : Trie κ ν) (k : κ) :
    (t.setRoute k child).child k = child := by
  simp [Trie.child, route?_setRoute]

theorem insertPaths_cons (t : Trie κ ν) (v : ν) (path : List κ) (paths : List (List κ)) :
    t.insertPaths v (path :: paths) =
      (((t.insert path v).insertPaths v paths).1,
        (t.get? path).toList.map (path, ·) ++ ((t.insert path v).insertPaths v paths).2) := by
  rw [insertPaths]
  cases t.get? path <;> rfl

theorem insertPaths_append (t : Trie κ ν) (v : ν) (paths others : List (List κ)) :
    t.insertPaths v (paths ++ others) =
      (((t.insertPaths v paths).1.insertPaths v others).1,
        (t.insertPaths v paths).2 ++ ((t.insertPaths v paths).1.insertPaths v others).2) := by
  induction paths generalizing t with
  | nil => rfl
  | cons path paths ih =>
      rw [List.cons_append, insertPaths_cons, ih, insertPaths_cons, List.append_assoc]

/-- Paths that begin alike only change the child they begin with. -/
theorem insertPaths_setRoute (t child : Trie κ ν) (v : ν) (k : κ) (paths : List (List κ)) :
    (t.setRoute k child).insertPaths v (paths.map (k :: ·)) =
      (t.setRoute k (child.insertPaths v paths).1,
        (child.insertPaths v paths).2.map fun x => (k :: x.1, x.2)) := by
  induction paths generalizing child with
  | nil => rfl
  | cons path paths ih =>
      have below : (t.setRoute k child).get? (k :: path) = child.get? path := by
        rw [← get?_child, child_setRoute]
      rw [List.map_cons, insertPaths_cons, insertPaths_cons, insert, child_setRoute,
        setRoute_setRoute, ih, below]
      simp

theorem insertPaths_below {paths : List (List κ)} (some : paths ≠ []) (t : Trie κ ν) (v : ν)
    (k : κ) :
    t.insertPaths v (paths.map (k :: ·)) =
      (t.setRoute k ((t.child k).insertPaths v paths).1,
        ((t.child k).insertPaths v paths).2.map fun x => (k :: x.1, x.2)) := by
  obtain ⟨path, paths, rfl⟩ := List.exists_cons_of_ne_nil some
  rw [List.map_cons, insertPaths_cons, insertPaths_cons, insert, insertPaths_setRoute, get?_child]
  simp

/-- The walk below a node puts the value at every spelling in turn. -/
theorem insertSpelledBelow_eq {spell : κ → List κ} (own : ∀ k, k ∈ spell k) (v : ν)
    (before path : List κ) (t : Trie κ ν) :
    insertSpelledBelow spell v before path t =
      ((t.insertPaths v (spelled spell path)).1,
        (t.insertPaths v (spelled spell path)).2.map fun x => (before ++ x.1, x.2)) := by
  induction path generalizing before t with
  | nil => cases held : t.value <;> simp [insertSpelledBelow, spelled, insertPaths, held, insert]
  | cons k rest ih =>
      have some : spelled spell rest ≠ [] := List.ne_nil_of_mem (mem_spelled_self own rest)
      -- branch by branch, with what the branches before have replaced
      have branches : ∀ (spellings : List κ) (done : Trie κ ν × List (List κ × ν)),
          spellings.foldl
            (fun done s =>
              let below := insertSpelledBelow spell v (before ++ [s]) rest (done.1.child s)
              (done.1.setRoute s below.1, done.2 ++ below.2))
            done =
          let paths := spellings.flatMap fun s => (spelled spell rest).map (s :: ·)
          ((done.1.insertPaths v paths).1,
            done.2 ++ (done.1.insertPaths v paths).2.map fun x => (before ++ x.1, x.2)) := by
        intro spellings
        induction spellings with
        | nil =>
            intro done
            simp [insertPaths]
        | cons s spellings others =>
            intro done
            rw [List.foldl_cons, others]
            dsimp only
            rw [List.flatMap_cons, insertPaths_append, insertPaths_below some, ih]
            simp [Function.comp_def]
      rw [insertSpelledBelow, branches]
      rfl

/-- One walk puts a value at every spelling of a path, as if they were put in one after the other. -/
theorem insertSpelled_eq {spell : κ → List κ} (own : ∀ k, k ∈ spell k) (t : Trie κ ν)
    (path : List κ) (v : ν) :
    t.insertSpelled spell path v = t.insertPaths v (spelled spell path) := by
  rw [insertSpelled, insertSpelledBelow_eq own]
  simp

end Duplex.Trie
