/-
Module: Duplex.Trie.Registry
Purpose: A trie together with the way back from values to paths.  For each value the index keeps
  the paths registered for it, latest last, without those that another value has taken over since;
  a value is written as the latest of its paths.
Main exports: PathIndex, Registry, Registry.insert, Registry.insertSpelled, Registry.pathOf?
-/
import Duplex.Trie.Basic

namespace Duplex

/-- The paths registered for each value, latest last. -/
structure PathIndex (κ ν : Type) where
  entries : List (ν × List (List κ))

namespace PathIndex

variable {κ ν : Type}

/-- Nothing registered. -/
def empty : PathIndex κ ν :=
  ⟨[]⟩

instance : Inhabited (PathIndex κ ν) := ⟨empty⟩

/-- Number of distinct values. -/
def size (b : PathIndex κ ν) : Nat :=
  b.entries.length

section Keys

variable [DecidableEq κ] [BEq ν]

/-- The entry of a value changed by `f`; the first entry of an equal value is meant. -/
def update (v : ν) (f : List (List κ) → List (List κ)) :
    List (ν × List (List κ)) → List (ν × List (List κ))
  | [] => []
  | (w, paths) :: rest => if w == v then (w, f paths) :: rest else (w, paths) :: update v f rest

/-- Makes `path` the latest path of `v`. -/
def register (b : PathIndex κ ν) (v : ν) (path : List κ) : PathIndex κ ν :=
  if b.entries.any (fun entry => entry.1 == v) then
    ⟨update v (fun paths => paths.filter (fun p => p ≠ path) ++ [path]) b.entries⟩
  else ⟨b.entries ++ [(v, [path])]⟩

/-- Drops `path` from the paths of `v`, and `v` with its last path. -/
def unregister (b : PathIndex κ ν) (v : ν) (path : List κ) : PathIndex κ ν :=
  let without := update v (fun paths => paths.filter (fun p => p ≠ path)) b.entries
  ⟨without.filter fun entry => !entry.2.isEmpty⟩

/-- The latest path of a value. -/
def pathOf? (b : PathIndex κ ν) (v : ν) : Option (List κ) :=
  (b.entries.find? fun entry => entry.1 == v).bind fun entry => entry.2.getLast?

end Keys

end PathIndex

/-- A trie and the paths of its values. -/
structure Registry (κ ν : Type) where
  trie : Trie κ ν
  back : PathIndex κ ν

namespace Registry

variable {κ ν : Type}

/-- Nothing registered. -/
def empty : Registry κ ν :=
  ⟨.empty, .empty⟩

instance : Inhabited (Registry κ ν) := ⟨empty⟩

variable [DecidableEq κ] [BEq ν]

/-- Registers a value at a path, in place of an earlier one. -/
def insert (r : Registry κ ν) (path : List κ) (v : ν) : Registry κ ν :=
  let back :=
    match r.trie.get? path with
    | some old => r.back.unregister old path
    | none => r.back
  ⟨r.trie.insert path v, back.register v path⟩

/-- Registers entries in order. -/
def insertAll (r : Registry κ ν) (entries : List (List κ × ν)) : Registry κ ν :=
  entries.foldl (fun r (path, v) => r.insert path v) r

/-- Registers a value at every spelling of a path; it is written as the path given. -/
def insertSpelled (spell : κ → List κ) (r : Registry κ ν) (path : List κ) (v : ν) :
    Registry κ ν :=
  let (trie, replaced) := r.trie.insertSpelled spell path v
  let back := replaced.foldl (fun back (p, old) => back.unregister old p) r.back
  ⟨trie, back.register v path⟩

/-- The value at a path. -/
def get? (r : Registry κ ν) (path : List κ) : Option ν :=
  r.trie.get? path

/-- The path that a value is written as. -/
def pathOf? (r : Registry κ ν) (v : ν) : Option (List κ) :=
  r.back.pathOf? v

/-- Number of distinct values. -/
def size (r : Registry κ ν) : Nat :=
  r.back.size

end Registry

end Duplex
