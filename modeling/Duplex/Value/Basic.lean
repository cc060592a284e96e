/-
Module: Duplex.Value.Basic
Purpose: The values that patterns read and write.  One dynamic type carries them all, because a
  grammar is itself data: which shape a value has is decided by the pattern that reads it.
  Equality is by shape and by kind, so a character never equals the text of that character, and
  doubles compare by value.
Main exports: Value, Value.same, Kind, Value.kind, Token.toValue, Value.toToken?
-/
import Duplex.Decimal.Double
import Duplex.Token

namespace Duplex

/-- A value of a pattern. -/
inductive Value where
  | char (c : Char)
  | text (s : String)
  | int (n : Int64)
  | bool (b : Bool)
  | big (n : Int)
  | double (x : Decimal.Double)
  | list (items : List Value)
  | tuple (parts : List Value)
  /-- Entries with distinct keys, in the order of their keys. -/
  | map (entries : List (Token × Value))
  /-- The top of an outline. -/
  | root (nodes : List Value)
  /-- An outline item with what follows it on its line, and the block below it. -/
  | nest (item tail : Value) (children : List Value)
  /-- An outline item without a block. -/
  | term (item : Value)
deriving Repr, Inhabited

/-- The kinds that a value is told apart by. -/
inductive Kind where
  | char
  | text
  | int
  | bool
  | big
  | double
  | list
  | tuple
  | map
  | outline
deriving DecidableEq, Repr, Inhabited

namespace Value

/-- The kind of a value; the three shapes of an outline are one kind. -/
def kind : Value → Kind
  | .char _ => .char
  | .text _ => .text
  | .int _ => .int
  | .bool _ => .bool
  | .big _ => .big
  | .double _ => .double
  | .list _ => .list
  | .tuple _ => .tuple
  | .map _ => .map
  | .root _ => .outline
  | .nest _ _ _ => .outline
  | .term _ => .outline

mutual

/-- Equality of values: the same kind and shape, with equal parts. -/
def same : Value → Value → Bool
  | .char a, .char b => a == b
  | .text a, .text b => a == b
  | .int a, .int b => a == b
  | .bool a, .bool b => a == b
  | .big a, .big b => a == b
  | .double a, .double b => a.same b
  | .list a, .list b => sameAll a b
  | .tuple a, .tuple b => sameAll a b
  | .map a, .map b => sameEntries a b
  | .root a, .root b => sameAll a b
  | .nest i t c, .nest j u d => same i j && same t u && sameAll c d
  | .term a, .term b => same a b
  | _, _ => false

/-- Equality of two runs of values, position by position. -/
def sameAll : List Value → List Value → Bool
  | [], [] => true
  | a :: as, b :: bs => same a b && sameAll as bs
  | _, _ => false

/-- Equality of two runs of entries, position by position. -/
def sameEntries : List (Token × Value) → List (Token × Value) → Bool
  | [], [] => true
  | (k, a) :: as, (l, b) :: bs => k == l && same a b && sameEntries as bs
  | _, _ => false

end

instance : BEq Value := ⟨same⟩

/-- The token that a value is, if it is one. -/
def toToken? : Value → Option Token
  | .char c => some (.char c)
  | .int n => some (.int n)
  | .text s => some (.word s)
  | _ => none

/-- The items of a list. -/
def items? : Value → Option (List Value)
  | .list items => some items
  | _ => none

/-- The parts of a tuple. -/
def parts? : Value → Option (List Value)
  | .tuple parts => some parts
  | _ => none

/-- A machine integer as a count: a negative one wraps around to the top of the machine word. -/
def toCount : Value → Nat
  | .int n => n.toUInt64.toNat
  | _ => 0

/-- A count as machine integer. -/
def ofCount (n : Nat) : Value :=
  .int (Int64.ofNat n)

/-- Two values as a pair. -/
def pair (a b : Value) : Value :=
  .tuple [a, b]

/-- An entry put among entries sorted by key; the value of a key already there is replaced. -/
def insertEntry (k : Token) (v : Value) : List (Token × Value) → List (Token × Value)
  | [] => [(k, v)]
  | (l, w) :: rest =>
      if k = l then (k, v) :: rest
      else if k.le l then (k, v) :: (l, w) :: rest
      else (l, w) :: insertEntry k v rest

end Value

/-- The value that reading a token gives. -/
def Token.toValue : Token → Value
  | .char c => .char c
  | .int n => .int n
  | .word s => .text s

@[simp] theorem Token.toToken?_toValue (t : Token) : t.toValue.toToken? = some t := by
  cases t <;> rfl

end Duplex
