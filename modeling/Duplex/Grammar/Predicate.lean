/-
Module: Duplex.Grammar.Predicate
Purpose: Named tests on tokens.  Character tests know ASCII letters and digits only; on words they
  ask the same of every character of a word that is not empty.
Main exports: Predicate, Predicate.holdsChar, Predicate.holds
-/
import Duplex.Token

namespace Duplex

/-- A named test. -/
inductive Predicate where
  | alpha
  | alnum
  | digit
  | upper
  | lower
  | space
  | nonAscii
  | even
  | negative
  | empty
  | always
  | never
deriving DecidableEq, Repr, Inhabited

namespace Predicate

/-- Whether a character passes the test; tests of numbers and words fail. -/
def holdsChar (p : Predicate) (c : Char) : Bool :=
  match p with
  | .alpha => c.isAlpha
  | .alnum => c.isAlphanum
  | .digit => c.isDigit
  | .upper => c.isUpper
  | .lower => c.isLower
  | .space => c == ' '
  | .nonAscii => decide (0x80 ≤ c.toNat)
  | .always => true
  | _ => false

/-- Whether a token passes the test. -/
def holds (p : Predicate) (t : Token) : Bool :=
  match p, t with
  | .always, _ => true
  | .never, _ => false
  | .even, .int n => n.toInt % 2 == 0
  | .negative, .int n => decide (n < 0)
  | .empty, .word s => s.isEmpty
  | p, .char c => p.holdsChar c
  | p, .word s => !s.isEmpty && s.toList.all p.holdsChar
  | _, .int _ => false

end Predicate

end Duplex
