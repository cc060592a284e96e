/-
Module: Duplex.Value.Table
Purpose: Choices by value: first among listed values, then by the kind of value, then a default.
Main exports: Table, Table.find?
-/
import Duplex.Value.Basic

namespace Duplex

/-- A choice of `ρ` for some or all values. -/
structure Table (ρ : Type) where
  entries : List (Value × ρ) := []
  byKind : List (Kind × ρ) := []
  fallback : Option ρ := none

namespace Table

variable {ρ : Type}

instance : Inhabited (Table ρ) := ⟨{}⟩

/-- The choice for a value: that of the first equal entry, else that of its kind, else the
    default. -/
def find? (t : Table ρ) (v : Value) : Option ρ :=
  match t.entries.find? (fun entry => v == entry.1) with
  | some (_, r) => some r
  | none =>
      match t.byKind.lookup v.kind with
      | some r => some r
      | none => t.fallback

end Table

end Duplex
