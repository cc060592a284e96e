/-
Module: Duplex.Feed.Source
Purpose: Feeds that hold tokens themselves: a run of tokens in memory, tokens pulled one at a time
  with one held back, a single token, and characters decoded from bytes.  None can be made from
  nothing, so there always is a token to look at.
Main exports: Slice, Pulled, Single, Characters
-/
import Duplex.Feed.Basic
import Duplex.Text.Utf8

namespace Duplex

/-! ### Tokens in memory -/

/-- A run of tokens and how many of them were taken. -/
structure Slice where
  items : Array Token
  position : Nat
  nonempty : 0 < items.size

namespace Slice

/-- A feed of the given tokens. -/
def ofList (tokens : List Token) : Except ReadFault Slice :=
  if h : 0 < tokens.toArray.size then .ok ⟨tokens.toArray, 0, h⟩ else .error .emptyInput

/-- The token at the cursor, or the last one. -/
def current (s : Slice) : Token :=
  have := s.nonempty
  have : min s.position (s.items.size - 1) < s.items.size := by omega
  s.items[min s.position (s.items.size - 1)]

instance : Feed Slice where
  peek := current
  consume s :=
    match s.items[s.position]? with
    | some t => { token := some t, feed := { s with position := s.position + 1 } }
    | none => { token := none, feed := s }
  atEnd s := decide (s.items.size ≤ s.position)

end Slice

/-! ### Tokens pulled one at a time -/

/-- Tokens still to be pulled, behind the one held back for looking; the last token stays held
    after it was taken. -/
structure Pulled where
  rest : List Token
  held : Token
  drained : Bool
deriving Repr, Inhabited

namespace Pulled

/-- A feed that pulls the given tokens. -/
def ofList : List Token → Except ReadFault Pulled
  | [] => .error .emptyInput
  | t :: rest => .ok ⟨rest, t, false⟩

instance : Feed Pulled where
  peek s := s.held
  consume s :=
    if s.drained then { token := none, feed := s }
    else
      match s.rest with
      | t :: rest => { token := some s.held, feed := { s with rest := rest, held := t } }
      | [] => { token := some s.held, feed := { s with drained := true } }
  atEnd s := s.drained

end Pulled

/-! ### One token -/

/-- A feed of exactly one token. -/
structure Single where
  value : Token
  taken : Bool
deriving Repr, Inhabited

namespace Single

/-- The feed of `t`, not yet taken. -/
def of (t : Token) : Single :=
  ⟨t, false⟩

instance : Feed Single where
  peek s := s.value
  consume s :=
    if s.taken then { token := none, feed := s }
    else { token := some s.value, feed := { s with taken := true } }
  atEnd s := s.taken

end Single

/-! ### Characters from bytes -/

/-- Characters decoded from bytes.  A fault of the bytes ends the feed early; it is met when the
    last character before it is taken, and kept from then on. -/
structure Characters where
  rest : List Char
  /-- What follows the last character. -/
  ending : Option Text.ByteFault
  held : Char
  drained : Bool
  fault : Option Text.ByteFault
deriving Repr, Inhabited

namespace Characters

/-- A feed of characters, and the fault behind them; one before the first character is told at once. -/
def ofChars : List Char × Option Text.ByteFault → Except ReadFault Characters
  | (c :: rest, ending) => .ok ⟨rest, ending, c, false, none⟩
  | ([], some fault) => .error (.source fault.message)
  | ([], none) => .error .emptyInput

/-- A feed of the characters that a decoder answers with. -/
def ofPieces (pieces : List Text.Piece) : Except ReadFault Characters :=
  ofChars (Text.bufferedChars pieces)

/-- A feed of the characters of a byte source. -/
def ofBytes (source : Text.ByteSource) : Except ReadFault Characters :=
  ofPieces source.pieces

instance : Feed Characters where
  peek s := .char s.held
  consume s :=
    if s.drained then { token := none, feed := s }
    else
      match s.rest, s.ending with
      | c :: rest, _ => { token := some (.char s.held), feed := { s with rest := rest, held := c } }
      | [], some fault =>
          { token := some (.char s.held)
            feed := { s with drained := true, ending := none, fault := some fault }
            notes := [.logged .warn ("ending input early: " ++ fault.message)] }
      | [], none => { token := some (.char s.held), feed := { s with drained := true } }
  atEnd s := s.drained

/-- Gives up the kept fault. -/
def takeFault (s : Characters) : Option Text.ByteFault × Characters :=
  (s.fault, { s with fault := none })

end Characters

end Duplex
