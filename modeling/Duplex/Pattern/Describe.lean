/-
Module: Duplex.Pattern.Describe
Purpose: What a pattern reads, in words for diagnostics.  A recursive pattern is described in full
  once; where it comes up again inside its own description it is only called a recursion.
Main exports: Pattern.describe
-/
import Duplex.Pattern.Memory

namespace Duplex

/-- A recursive pattern whose description is under way. -/
inductive Visit where
  | name (n : String)
  | cell (n : Nat)
deriving DecidableEq, Repr, Inhabited

namespace Pattern

/-- The description of a trie. -/
def describeTrie (distinct : Nat) (policy : Policy) : String :=
  s!"(trie: {distinct} " ++ policy.name ++ " values)"

/-- The description of repetition limits, behind a repeated item. -/
def describeBounds (bounds : Bounds) (skippable : Bool) : String :=
  if skippable then "?"
  else if bounds = Bounds.some then ""
  else
    s!"({bounds.min}..={bounds.max})" ++ if bounds.greedy then "g" else ""

/-- Number of distinct keys among lookup entries. -/
def keyCount (entries : List (Token × Value)) : Nat :=
  (entries.map Prod.fst).eraseDups.length

/-- Descriptions with a mark between them. -/
def describeAll (mark : String) (each : Pattern → Write Memory String) (ps : List Pattern) :
    Write Memory String := do
  return String.intercalate mark (← ps.mapM each)

/-- The description of a pattern that may be missing. -/
def describeOption (each : Pattern → Write Memory String) : Option Pattern → Write Memory String
  | some p => each p
  | none => return ""

/-- What a pattern reads; `visiting` are the recursive patterns being described around it. -/
def describe (fuel : Nat) (visiting : List Visit) (p : Pattern) : Write Memory String :=
  match fuel with
  | 0 => Write.exhausted
  | fuel + 1 =>
      let inner := describe fuel visiting
      match p with
      | .satisfy c => return c.describe
      | .insist c _ => return c.describe
      | .always v => return "(always: " ++ v.quoted ++ ")"
      | .never => return "(never)"
      | .stickyEnd item value _ =>
          return "(stickyEnd: " ++ (← inner item) ++ ", " ++ value.quoted ++ ")"
      | .peek item => return "&" ++ (← inner item)
      | .lookup entries _ => return s!"(map: {keyCount entries} keys)"
      | .tuple parts => return "(" ++ (← describeAll " " inner parts) ++ ")"
      | .sequence parts => return "(" ++ (← describeAll " " inner parts) ++ ")"
      | .upTo ending _ item => return (← inner item) ++ "~" ++ (← inner ending)
      | .repeated _ item bounds skippable =>
          return "\x7b" ++ (← inner item) ++ "\x7d" ++ describeBounds bounds skippable
      | .choice cases => return "(" ++ (← describeAll "|" inner cases) ++ ")"
      | .convert item _ => inner item
      | .contextual head _ => return (← inner head) ++ "@"
      | .ref name =>
          if visiting.contains (.name name) then return "recurse"
          else do
            match ← Write.definition? name with
            | none => return "(undefined)"
            | some target => describe fuel (.name name :: visiting) target
      | .lazy cell item =>
          if visiting.contains (.cell cell) then return "recurse"
          else do
            Write.supply cell
            describe fuel (.cell cell :: visiting) item
      | .renewed cells item =>
          Write.scoping (Memory.forget cells) (Memory.restore cells) (inner item)
      | .piped item _ => return "(Piped: " ++ (← inner item) ++ ")"
      | .alsoDo item _ => inner item
      | .optional item _ => return (← inner item) ++ "?"
      | .constant item _ => inner item
      | .writtenBy item _ => inner item
      | .named _ name => return name
      | .settle item _ _ _ => inner item
      | .surround left right item => do
          let before ← describeOption inner left
          let body ← inner item
          return before ++ body ++ (← describeOption inner right)
      | .joined sep item _ _ =>
          return "\x7b" ++ (← inner item) ++ "..." ++ (← inner sep) ++ "\x7d"
      | .chain operand operators padding _ => do
          let atom ← inner operand
          let pad ← describeOption inner padding
          return "InfixChain(" ++ atom ++ ", " ++ pad ++ describeTrie operators.size .exact
            ++ pad ++ ")"
      | .outline item tail layout _ _ _ _ =>
          return "(Layout: " ++ (← inner item) ++ ", " ++ (← inner tail) ++ ", "
            ++ (← inner layout) ++ ")"
      | .trie cell initial policy =>
          return describeTrie (← Write.trieAt cell initial).size policy
      | .dictionary cell initial =>
          return "dict" ++ describeTrie (← Write.trieAt cell initial).size .exact
      | .matched item regex _ _ => return (← inner item) ++ "/" ++ regex.source ++ "/"
      | .openBracket pair => return Text.quotedChar pair.1
      | .closeBracket pair => return Text.quotedChar pair.2

end Pattern

end Duplex
