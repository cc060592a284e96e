/-
Module: Duplex.Fault
Purpose: What can go wrong, by cause.  Not parsing is no fault: it is an ordinary answer of a
  pattern.  A fault ends the read or the write that meets it; its wording stands in one place.
Main exports: ReadFault, WriteFault, Abort, Halt, Stop, ErrorRecord, Redefined, FoldFault, FoldStop
-/
import Duplex.Location
import Duplex.Token

namespace Duplex

/-- Why reading stopped. -/
inductive ReadFault where
  /-- A token was required after the last one. -/
  | endOfInput
  /-- There was no token at all. -/
  | emptyInput
  /-- A report without a known place. -/
  | failed (message : String)
  /-- A report at a place. -/
  | located (location : Location) (message : String)
  /-- The bytes behind the input failed, or were no text. -/
  | source (message : String)
  /-- A recursive pattern without a definition. -/
  | undefined
deriving DecidableEq, Repr, Inhabited

/-- The wording of a reading fault. -/
def ReadFault.message : ReadFault → String
  | .endOfInput => "unexpected end of input"
  | .emptyInput => "empty input"
  | .failed m => m
  | .located l m => l.text ++ ": " ++ m
  | .source m => "IO error (" ++ m ++ ")"
  | .undefined => "recursive pattern used before being defined"

/-- Why writing stopped. -/
inductive WriteFault where
  | unsupported (what : String)
  | separatorCount (items separators : Nat)
  | repeatCount (count min max : Nat)
  | tupleSize (expected got : Nat)
  | notRegistered
  | noConstant
  | undefined
  | badCase (index cases : Nat)
deriving DecidableEq, Repr, Inhabited

/-- The wording of a writing fault. -/
def WriteFault.message : WriteFault → String
  | .unsupported what => what ++ " is not supported"
  | .separatorCount items separators =>
      s!"missing separator: {separators} separators for {items} items"
  | .repeatCount count min max => s!"bad written count {count}, not in {min}..={max}"
  | .tupleSize expected got => s!"bad tuple size ({got}, not {expected})"
  | .notRegistered => "value has no registered path"
  | .noConstant => "surrounding pattern has no constant to show"
  | .undefined => "recursive pattern used before being defined"
  | .badCase index cases => s!"no case {index} among {cases} alternatives"

/-- A computation left the values it is defined for, which ends the whole run. -/
inductive Abort where
  /-- A digit does not fit the thirty-two bits of digits. -/
  | digitRange
  /-- No digits are known for the base of a number. -/
  | badRadix
  /-- A tally has no room for one more. -/
  | tallyRange
  /-- A line would be indented beyond the machine words. -/
  | indentRange
  /-- More items are asked for than can be laid out. -/
  | noRoom
  /-- A value is of a kind that its receiver has no use for, which the types of a grammar rule out. -/
  | illTyped
deriving DecidableEq, Repr, Inhabited

/-- What ends a whole run, whoever asked for it: an abort, or that the steps granted are used up. -/
inductive Halt where
  | abort (cause : Abort)
  | exhausted
deriving DecidableEq, Repr, Inhabited

/-- How a read or a write ends early: by a fault that its caller is told about, or because the
    whole run ends. -/
inductive Stop (ε : Type) where
  | fault (cause : ε)
  | halt (cause : Halt)
deriving DecidableEq, Repr, Inhabited

/-- A stop for another kind of fault. -/
def Stop.mapFault {ε δ : Type} (f : ε → δ) : Stop ε → Stop δ
  | .fault cause => .fault (f cause)
  | .halt cause => .halt cause

/-- An error that an input keeps instead of ending the read. -/
structure ErrorRecord where
  /-- The token that was current. -/
  token : Token
  /-- The place, for inputs that track places. -/
  location : Option Location
  message : String
deriving DecidableEq, Repr, Inhabited

/-- A recursive pattern was given a second definition. -/
inductive Redefined where
  | alreadyDefined
deriving DecidableEq, Repr, Inhabited

/-- The wording of a refused definition. -/
def Redefined.message : Redefined → String
  | .alreadyDefined => "recursive pattern is already defined"

/-- A fold refuses an item. -/
inductive FoldFault where
  /-- The integer gathered so far has no room for another digit. -/
  | overflow (sofar : Int64)
  /-- The fraction has more digits than can be gathered. -/
  | fractionTooLong
deriving DecidableEq, Repr, Inhabited

/-- The wording of a refusal. -/
def FoldFault.message : FoldFault → String
  | .overflow n => "integer overflow after " ++ toString n.toInt
  | .fractionTooLong => "too many fraction digits"

/-- Why a fold does not take an item: it refuses it, or the whole run ends. -/
inductive FoldStop where
  | refused (cause : FoldFault)
  | abort (cause : Abort)
deriving DecidableEq, Repr, Inhabited

end Duplex
