/-
Module: Duplex.Location
Purpose: Places in a character input.  Lines count from one; columns count from zero and only by
  consumed characters; the position counts every consumed character.
Main exports: Location, Location.start, Location.newLine, Location.text
-/

namespace Duplex

/-- A place in a named character input. -/
structure Location where
  file : String
  line : Nat
  column : Nat
  position : Nat
deriving DecidableEq, Repr, Inhabited

namespace Location

/-- The place before the first character. -/
def start (file : String) : Location :=
  ⟨file, 1, 0, 0⟩

/-- The first column of the next line, at the same position. -/
def newLine (l : Location) : Location :=
  { l with line := l.line + 1, column := 0 }

/-- The next column of the same line, at the same position. -/
def nextColumn (l : Location) : Location :=
  { l with column := l.column + 1 }

/-- `count` characters further, in the same line and column. -/
def advance (l : Location) (count : Nat) : Location :=
  { l with position := l.position + count }

/-- File, line and column, as editors understand them. -/
def text (l : Location) : String :=
  s!"{l.file}:{l.line}:{l.column}"

end Location

end Duplex
