/-
Module: Duplex.State
Purpose: State that an input carries for one read, at most one value of each kind, and the open
  brackets among it that still wait to be closed.
Main exports: OpenBrackets, StateKind, StateMap
-/
import Duplex.Location

namespace Duplex

/-! ### Open brackets -/

/-- For each pair of brackets the places where it was opened and not yet closed, latest last. -/
structure OpenBrackets where
  places : List ((Char × Char) × List Location)
deriving DecidableEq, Repr, Inhabited

namespace OpenBrackets

/-- Nothing is open. -/
def empty : OpenBrackets :=
  ⟨[]⟩

/-- The places where `pair` is open, latest last. -/
def opened (b : OpenBrackets) (pair : Char × Char) : List Location :=
  (b.places.lookup pair).getD []

/-- The same brackets with the places of `pair` replaced. -/
def withStack (b : OpenBrackets) (pair : Char × Char) (stack : List Location) : OpenBrackets :=
  ⟨(pair, stack) :: b.places.filter (fun entry => entry.1 != pair)⟩

/-- `pair` was opened at `l`. -/
def add (b : OpenBrackets) (pair : Char × Char) (l : Location) : OpenBrackets :=
  b.withStack pair (b.opened pair ++ [l])

/-- The place where `pair` was opened last, and the brackets without it. -/
def remove (b : OpenBrackets) (pair : Char × Char) : Option Location × OpenBrackets :=
  match (b.opened pair).getLast? with
  | some l => (some l, b.withStack pair (b.opened pair).dropLast)
  | none => (none, b)

end OpenBrackets

/-! ### State by kind -/

/-- The kinds of state that an input can carry. -/
inductive StateKind where
  | tally
  | brackets
  | number
  | text
  | flag
deriving DecidableEq, Repr, Inhabited

/-- What state of a kind consists of. -/
abbrev StateKind.Carrier : StateKind → Type
  | .tally => UInt32
  | .brackets => OpenBrackets
  | .number => Int64
  | .text => String
  | .flag => Bool

/-- All kinds of state. -/
def StateKind.all : List StateKind :=
  [.tally, .brackets, .number, .text, .flag]

/-- At most one value of each kind of state. -/
structure StateMap where
  get? : (k : StateKind) → Option k.Carrier

namespace StateMap

instance : Inhabited StateMap := ⟨⟨fun _ => none⟩⟩

/-- No state at all. -/
def empty : StateMap :=
  ⟨fun _ => none⟩

/-- The state with what is kept for kind `k` replaced. -/
def put (m : StateMap) (k : StateKind) (v : Option k.Carrier) : StateMap :=
  ⟨fun l => if h : k = l then h ▸ v else m.get? l⟩

/-- The state with the value `v` of kind `k`, in place of an earlier one. -/
def insert (m : StateMap) (k : StateKind) (v : k.Carrier) : StateMap :=
  m.put k (some v)

/-- The value of kind `k`, and the state without it. -/
def remove (m : StateMap) (k : StateKind) : Option k.Carrier × StateMap :=
  (m.get? k, m.put k none)

/-- Replaces the value of kind `k`, which has to be there. -/
def set? (m : StateMap) (k : StateKind) (v : k.Carrier) : Option StateMap :=
  (m.get? k).map fun _ => m.insert k v

/-- Number of kinds that have a value. -/
def size (m : StateMap) : Nat :=
  (StateKind.all.filter fun k => (m.get? k).isSome).length

/-- What diagnostics say about the state. -/
def text (m : StateMap) : String :=
  s!"StateMap({m.size} entries)"

@[simp] theorem get?_put_self (m : StateMap) (k : StateKind) (v : Option k.Carrier) :
    (m.put k v).get? k = v := by
  simp [put]

theorem get?_put_of_ne (m : StateMap) {k l : StateKind} (v : Option k.Carrier) (h : k ≠ l) :
    (m.put k v).get? l = m.get? l := by
  simp [put, h]

end StateMap

end Duplex
