/-
Module: Duplex.Value.Text
Purpose: The two texts of a value.  Diagnostics quote a value, so that its kind can be seen; plain
  text leaves characters and texts bare and draws an outline with its blocks in braces.
Main exports: Value.quoted, Value.plain
-/
import Duplex.Decimal.Shortest
import Duplex.Value.Basic

namespace Duplex

namespace Value

/-- Parts with a comma and a blank between them. -/
def commaSeparated (parts : List String) : String :=
  String.intercalate ", " parts

mutual

/-- The text of a value in diagnostics and descriptions. -/
def quoted : Value → String
  | .char c => Text.quotedChar c
  | .text s => Text.quotedText s
  | .int n => toString n.toInt
  | .bool b => if b then "true" else "false"
  | .big n => toString n
  | .double x => x.text
  | .list items => "[" ++ commaSeparated (quotedAll items) ++ "]"
  | .tuple [part] => "(" ++ quoted part ++ ",)"
  | .tuple parts => "(" ++ commaSeparated (quotedAll parts) ++ ")"
  | .map entries => "\x7b" ++ commaSeparated (quotedEntries entries) ++ "\x7d"
  | .root nodes => "Root([" ++ commaSeparated (quotedAll nodes) ++ "])"
  | .nest item tail children =>
      "Nest \x7b item: " ++ quoted item ++ ", tail: " ++ quoted tail
        ++ ", children: [" ++ commaSeparated (quotedAll children) ++ "] \x7d"
  | .term item => "Term(" ++ quoted item ++ ")"

/-- The quoted texts of several values. -/
def quotedAll : List Value → List String
  | [] => []
  | v :: vs => quoted v :: quotedAll vs

/-- The texts of map entries, key and value divided by a colon. -/
def quotedEntries : List (Token × Value) → List String
  | [] => []
  | (k, v) :: rest => (k.quoted ++ ": " ++ quoted v) :: quotedEntries rest

end

mutual

/-- The text of a value on its own. -/
def plain : Value → String
  | .char c => c.toString
  | .text s => s
  | .root nodes => "Root [" ++ commaSeparated (plainAll nodes) ++ "]"
  | .nest item tail children =>
      plain item ++ plain tail ++ " \x7b " ++ commaSeparated (plainAll children) ++ " \x7d"
  | .term item => plain item
  | v => quoted v

/-- The plain texts of several values. -/
def plainAll : List Value → List String
  | [] => []
  | v :: vs => plain v :: plainAll vs

end

end Value

end Duplex
