/-
Module: Duplex.Grammar.Matched
Purpose: What texts that match an expression are made into, and templates to write them back.
Main exports: MatchResult, MatchResult.make, TemplatePart, fillTemplate
-/
import Duplex.Decimal.Parse
import Duplex.Pattern.Basic

namespace Duplex

/-- What a match is made into. -/
inductive MatchResult where
  /-- The texts of its groups. -/
  | groups
  /-- The first group as machine integer. -/
  | number
  /-- The length of the match in bytes. -/
  | length
deriving DecidableEq, Repr, Inhabited

/-- The value of a match. -/
def MatchResult.make (r : MatchResult) (m : Text.Regex.Match) : Option Value :=
  match r with
  | .groups => some (.list (m.groups.map fun g => .text (g.getD "<unmatched>")))
  | .number =>
      match m.groups with
      | some first :: _ => (Decimal.parseInt64? first).map .int
      | _ => none
  | .length => some (.ofCount m.text.utf8ByteSize)

/-- One part of a template. -/
inductive TemplatePart where
  | text (s : String)
  /-- An item of a list, which has to be a text; of any other value the value itself. -/
  | item (index : Nat)
deriving DecidableEq, Repr, Inhabited

/-- The text of one part of a template for a value. -/
def TemplatePart.fill? (v : Value) : TemplatePart → Option String
  | .text s => some s
  | .item index =>
      match v with
      | .list items =>
          match items[index]? with
          | some (.text s) => some s
          | _ => none
      | v => some v.plain

/-- The text of a template for a value. -/
def fillTemplate (parts : List TemplatePart) (v : Value) : Option String :=
  (parts.mapM (TemplatePart.fill? v)).map String.join

end Duplex
