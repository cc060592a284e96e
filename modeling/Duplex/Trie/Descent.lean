/-
Module: Duplex.Trie.Descent
Purpose: Reading along a trie.  The descent takes tokens as long as there is a route for the current
  one, and then a policy decides what the node reached means: exactly its value, or a value made
  for an unknown word and remembered, or a whole word that merely begins with a key.
Main exports: Descent, Read.descend, Policy, Verdict, Read.judge
-/
import Duplex.Read
import Duplex.Trie.Basic
import Duplex.Value.Text

namespace Duplex

namespace Trie

variable {κ ν : Type} [DecidableEq κ] [SizeOf κ] [SizeOf ν]

/-- A child found among routes is smaller than they are. -/
theorem sizeOf_find?_lt {k : κ} {child : Trie κ ν} :
    ∀ {routes : List (κ × Trie κ ν)}, find? k routes = some child → sizeOf child < sizeOf routes
  | [], h => by simp [find?] at h
  | (l, t) :: rest, h => by
      rw [find?] at h
      split at h
      · cases h
        simp
        omega
      · have := sizeOf_find?_lt h
        simp
        omega

/-- A child of a node is smaller than the node. -/
theorem sizeOf_route?_lt {t child : Trie κ ν} {k : κ} (h : t.route? k = some child) :
    sizeOf child < sizeOf t := by
  cases t with
  | node v routes =>
      have : sizeOf child < sizeOf routes := sizeOf_find?_lt h
      simp
      omega

end Trie

/-- The tokens taken on the way down a trie. -/
structure Descent where
  path : List Token
  /-- The tokens ended on the way. -/
  atEnd : Bool
deriving DecidableEq, Repr, Inhabited

namespace Read

variable {μ σ ν : Type} [Feed σ]

/-- Walks down from a node that was reached by `path`; gives the whole descent and the node where it
    ended. -/
def descend (path : List Token) (t : Trie Token ν) : Read μ σ (Descent × Trie Token ν) := do
  match _found : t.route? (← peek) with
  | none => return (⟨path, false⟩, t)
  | some next =>
      match ← consume with
      | none => return (⟨path, true⟩, t)
      | some k => descend (path ++ [k]) next
termination_by sizeOf t
decreasing_by exact Trie.sizeOf_route?_lt (by assumption)

end Read

/-- What a node means that a descent has reached. -/
inductive Policy where
  /-- Its value; without a value, nothing. -/
  | exact
  /-- Its value; without one, what `classify` makes of the text taken, to be remembered. -/
  | lazy (classify : String → Option Value)
  /-- Its value, unless the word goes on by characters that pass `continues`: then the whole word
      as a text.  A word does not go on at a character that begins a key. -/
  | greedy (continues : Char → Bool)

/-- The name of a policy in descriptions. -/
def Policy.name : Policy → String
  | .exact => "exact"
  | .lazy _ => "lazy"
  | .greedy _ => "greedy"

/-- What came of a descent. -/
inductive Verdict where
  | notParsed
  | found (v : Value)
  /-- To be registered at the path taken. -/
  | learn (v : Value)
  /-- Not to be registered. -/
  | fresh (v : Value)
deriving Repr, Inhabited

namespace Read

variable {μ σ : Type} [Feed σ]

/-- A descent that ended at the value `v`. -/
def judgeValue (fuel : Nat) (policy : Policy) (root : Trie Token Value) (w : Descent) (v : Value) :
    Read μ σ Verdict := do
  match policy with
  | .greedy continues =>
      if w.atEnd || (root.route? (← peek)).isSome then return .found v
      else
        let run ← takeWhile fuel (Token.isCharWith continues)
        if run.isEmpty then return .found v
        else return .fresh (.text (Token.spell (w.path ++ run)))
  | _ => return .found v

/-- A descent that ended at a node without value. -/
def judgeUnknown (fuel : Nat) (policy : Policy) (root : Trie Token Value) (w : Descent) :
    Read μ σ Verdict := do
  match policy with
  | .exact => return .notParsed
  | .lazy classify =>
      if w.path.isEmpty then return .notParsed
      else
        let text := Token.spell w.path
        note (.classify text)
        match classify text with
        | some v =>
            note (.logged .debug ("memoizing " ++ Text.quotedText text ++ " as " ++ v.quoted))
            return .learn v
        | none => return .notParsed
  | .greedy continues =>
      let run ←
        if w.atEnd then pure []
        else takeWhile fuel fun t => (root.route? t).isNone && Token.isCharWith continues t
      if w.path.isEmpty && run.isEmpty then return .notParsed
      else return .fresh (.text (Token.spell (w.path ++ run)))

/-- Walks a trie and decides what that means. -/
def judge (fuel : Nat) (policy : Policy) (root : Trie Token Value) :
    Read μ σ (Descent × Verdict) := do
  let (w, reached) ← descend [] root
  match reached.value with
  | some v => return (w, ← judgeValue fuel policy root w v)
  | none => return (w, ← judgeUnknown fuel policy root w)

/-- The value at the end of a descent, for tries of any values. -/
def lookup {ν : Type} (root : Trie Token ν) : Read μ σ (Option ν) := do
  let (_, reached) ← descend [] root
  return reached.value

end Read

end Duplex
