/-
Module: Duplex.Trie.Basic
Purpose: Trees keyed by paths.  A node may hold a value and leads on to one child per key; a path
  that was created stays, whether or not a value stands at its end.
Main exports: Trie, Trie.node?, Trie.get?, Trie.insert, Trie.exchange, Trie.create,
  Trie.insertAll, Trie.insertSpelled, Trie.keys, Trie.same
-/

namespace Duplex

/-- A node: its value, and its children by key, each key once. -/
inductive Trie (κ ν : Type) where
  | node (value : Option ν) (routes : List (κ × Trie κ ν))

namespace Trie

variable {κ ν : Type}

/-- No path at all. -/
def empty : Trie κ ν :=
  .node none []

instance : Inhabited (Trie κ ν) := ⟨empty⟩

/-- The value at a node. -/
def value : Trie κ ν → Option ν
  | .node v _ => v

/-- The children of a node. -/
def routes : Trie κ ν → List (κ × Trie κ ν)
  | .node _ rs => rs

section Keys

variable [DecidableEq κ]

/-- The child behind `k` among routes. -/
def find? (k : κ) : List (κ × Trie κ ν) → Option (Trie κ ν)
  | [] => none
  | (l, t) :: rest => if k = l then some t else find? k rest

/-- Routes with the child behind `k` replaced, or added behind the others. -/
def replace (k : κ) (child : Trie κ ν) : List (κ × Trie κ ν) → List (κ × Trie κ ν)
  | [] => [(k, child)]
  | (l, t) :: rest => if k = l then (l, child) :: rest else (l, t) :: replace k child rest

/-- The child of a node behind `k`. -/
def route? (t : Trie κ ν) (k : κ) : Option (Trie κ ν) :=
  find? k t.routes

/-- The node with its child behind `k` replaced or added. -/
def setRoute (t : Trie κ ν) (k : κ) (child : Trie κ ν) : Trie κ ν :=
  .node t.value (replace k child t.routes)

/-- The child behind `k`, or an empty one. -/
def child (t : Trie κ ν) (k : κ) : Trie κ ν :=
  (t.route? k).getD empty

/-- The node at the end of a path. -/
def node? : Trie κ ν → List κ → Option (Trie κ ν)
  | t, [] => some t
  | t, k :: rest => (t.route? k).bind fun next => next.node? rest

/-- The value at the end of a path. -/
def get? (t : Trie κ ν) (path : List κ) : Option ν :=
  (t.node? path).bind value

/-- Whether a value stands at the end of a path. -/
def contains (t : Trie κ ν) (path : List κ) : Bool :=
  (t.get? path).isSome

/-- The trie with every node along a path in it. -/
def create : Trie κ ν → List κ → Trie κ ν
  | t, [] => t
  | t, k :: rest => t.setRoute k ((t.child k).create rest)

/-- The trie with a value at the end of a path, in place of an earlier one. -/
def insert : Trie κ ν → List κ → ν → Trie κ ν
  | t, [], v => .node (some v) t.routes
  | t, k :: rest, v => t.setRoute k ((t.child k).insert rest v)

/-- Puts a value at the end of a path, and gives the one that stood there before. -/
def exchange : Trie κ ν → List κ → ν → Option ν × Trie κ ν
  | t, [], v => (t.value, .node (some v) t.routes)
  | t, k :: rest, v =>
      let below := (t.child k).exchange rest v
      (below.1, t.setRoute k below.2)

/-- Inserts entries in order. -/
def insertAll (t : Trie κ ν) (entries : List (List κ × ν)) : Trie κ ν :=
  entries.foldl (fun t (path, v) => t.insert path v) t

/-- Every way to write a path with each key in one of its spellings, in the order of the
    spellings. -/
def spelled (spell : κ → List κ) : List κ → List (List κ)
  | [] => [[]]
  | k :: rest => (spell k).flatMap fun s => (spelled spell rest).map (s :: ·)

/-- Puts one value at several paths; also gives the values that stood there before, with their
    paths. -/
def insertPaths (t : Trie κ ν) (v : ν) : List (List κ) → Trie κ ν × List (List κ × ν)
  | [] => (t, [])
  | path :: rest =>
      let (after, replaced) := (t.insert path v).insertPaths v rest
      match t.get? path with
      | some old => (after, (path, old) :: replaced)
      | none => (after, replaced)

/-- Puts a value at every spelling of the rest of a path, below the node that `before` has led to, in
    one walk that branches at every key; also gives what it replaced, with the whole paths. -/
def insertSpelledBelow (spell : κ → List κ) (v : ν) :
    List κ → List κ → Trie κ ν → Trie κ ν × List (List κ × ν)
  | before, [], t => (.node (some v) t.routes, t.value.toList.map fun old => (before, old))
  | before, k :: rest, t =>
      (spell k).foldl
        (fun done s =>
          let below := insertSpelledBelow spell v (before ++ [s]) rest (done.1.child s)
          (done.1.setRoute s below.1, done.2 ++ below.2))
        (t, [])

/-- Puts a value at every spelling of a path; also gives what it replaced. -/
def insertSpelled (spell : κ → List κ) (t : Trie κ ν) (path : List κ) (v : ν) :
    Trie κ ν × List (List κ × ν) :=
  insertSpelledBelow spell v [] path t

end Keys

mutual

/-- The paths of all values. -/
def keys : Trie κ ν → List (List κ)
  | .node v routes => (if v.isSome then [[]] else []) ++ keysOf routes

/-- The paths of all values behind routes. -/
def keysOf : List (κ × Trie κ ν) → List (List κ)
  | [] => []
  | (k, t) :: rest => (keys t).map (k :: ·) ++ keysOf rest

end

section Same

variable [DecidableEq κ] [BEq ν]

mutual

/-- Equality of two tries: equal values and the same paths, in whatever order the routes are. -/
def same : Trie κ ν → Trie κ ν → Bool
  | .node v routes, u => v == u.value && routes.length == u.routes.length && sameRoutes routes u

/-- Whether each route leads to an equal child in `u`. -/
def sameRoutes : List (κ × Trie κ ν) → Trie κ ν → Bool
  | [], _ => true
  | (k, t) :: rest, u =>
      (match u.route? k with
        | some other => same t other
        | none => false) && sameRoutes rest u

end

end Same

end Trie

end Duplex
