/-
Module: Duplex.Condition
Purpose: Conditions on one token, which combine by and, or and not.  A condition describes itself,
  and may know the one token that meets it.
Main exports: Condition, Condition.holds, Condition.describe, Condition.constant?
-/
import Duplex.Token

namespace Duplex

/-- A condition on a token. -/
inductive Condition where
  | any
  | equal (t : Token)
  | oneOf (ts : List Token)
  | range (low high : Token)
  | ranges (rs : List (Token × Token))
  | test (name : String) (holds : Token → Bool)
  | both (a b : Condition)
  | either (a b : Condition)
  | negate (a : Condition)
  /-- The condition, described by another text. -/
  | label (text : String) (a : Condition)
deriving Inhabited

namespace Condition

/-- Whether a token meets the condition. -/
def holds : Condition → Token → Bool
  | .any, _ => true
  | .equal u, t => t == u
  | .oneOf ts, t => ts.contains t
  | .range low high, t => low.le t && t.le high
  | .ranges rs, t => rs.any fun (low, high) => low.le t && t.le high
  | .test _ f, t => f t
  | .both a b, t => a.holds t && b.holds t
  | .either a b, t => a.holds t || b.holds t
  | .negate a, t => !a.holds t
  | .label _ a, t => a.holds t

/-- What the condition asks for. -/
def describe : Condition → String
  | .any => "anyItem"
  | .equal t => t.quoted
  | .oneOf ts => "(" ++ String.intercalate "|" (ts.map Token.quoted) ++ ")"
  | .range low high => "(" ++ low.quoted ++ "..=" ++ high.quoted ++ ")"
  | .ranges rs =>
      "[" ++ String.join (rs.map fun (low, high) => low.quoted ++ "-" ++ high.quoted) ++ "]"
  | .test name _ => "(" ++ name ++ ")"
  | .both a b => "(" ++ a.describe ++ "&" ++ b.describe ++ ")"
  | .either a b => "(" ++ a.describe ++ "|" ++ b.describe ++ ")"
  | .negate a => "!" ++ a.describe
  | .label text _ => text

/-- The one token that meets the condition, if it is known. -/
def constant? : Condition → Option Token
  | .equal t => some t
  | .label _ a => a.constant?
  | _ => none

end Condition

end Duplex
