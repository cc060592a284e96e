/-
Module: Duplex.Journal
Purpose: What a run leaves behind besides its result, in the order it happened: the calls that
  grammars and inputs make to the functions given to them, and the messages they log.  A journal
  grows at its end in one step per note; `toList` is the view of it.
Main exports: Level, Note, Journal, Journal.add, Journal.addAll, Journal.toList
-/
import Duplex.Fault
import Duplex.Value.Basic

namespace Duplex

/-- How serious a logged message is. -/
inductive Level where
  | debug
  | warn
deriving DecidableEq, Repr, Inhabited

/-- One thing that happened during a run. -/
inductive Note where
  /-- An input with a hook handed out a token. -/
  | took (token : Token)
  /-- A listener was handed an error. -/
  | heard (record : ErrorRecord)
  /-- A lookup had no entry for the current token. -/
  | noKey (token : Token)
  /-- A trie asked for the value of an unknown word. -/
  | classify (text : String)
  /-- A pattern made on first use was made. -/
  | supplied
  /-- A value was read, with the token then current. -/
  | did (value : Value) (token : Token)
  /-- A joined item was read. -/
  | item (value : Value)
  /-- A separator was read. -/
  | separator (value : Value)
  /-- An operator lacked its right operand. -/
  | rescue (lhs : Value) (operator : String)
  /-- The item pattern of a block was chosen. -/
  | choose (item tail : Value)
  /-- A message was logged. -/
  | logged (level : Level) (text : String)
deriving Repr, Inhabited

/-- Notes in the order they were made, held with the latest one first. -/
structure Journal where
  latest : List Note
deriving Repr, Inhabited

namespace Journal

/-- Nothing has happened. -/
def empty : Journal :=
  ⟨[]⟩

/-- Notes one more thing. -/
def add (j : Journal) (n : Note) : Journal :=
  ⟨n :: j.latest⟩

/-- Notes several things, the first of them first. -/
def addAll (j : Journal) (notes : List Note) : Journal :=
  ⟨notes.foldl (fun latest n => n :: latest) j.latest⟩

/-- All notes, in the order they were made. -/
def toList (j : Journal) : List Note :=
  j.latest.reverse

@[simp] theorem toList_empty : empty.toList = [] :=
  rfl

@[simp] theorem toList_add (j : Journal) (n : Note) : (j.add n).toList = j.toList ++ [n] := by
  simp [add, toList]

@[simp] theorem toList_addAll (j : Journal) (notes : List Note) :
    (j.addAll notes).toList = j.toList ++ notes := by
  have grown : ∀ (ns latest : List Note),
      ns.foldl (fun latest n => n :: latest) latest = ns.reverse ++ latest := by
    intro ns
    induction ns with
    | nil => intro latest; rfl
    | cons n rest ih => intro latest; simp [ih]
  simp [addAll, toList, grown]

end Journal

end Duplex
