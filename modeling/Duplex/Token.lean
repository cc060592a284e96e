/-
Module: Duplex.Token
Purpose: The tokens that grammars read and write: characters, machine integers or whole words.  A
  feed holds tokens of one kind; ranges compare tokens of one kind only.
Main exports: Token, Token.le, Token.quoted, Token.spell
-/
import Duplex.Text.Quoted

namespace Duplex

/-- One token of an input. -/
inductive Token where
  | char (c : Char)
  | int (n : Int64)
  | word (s : String)
deriving DecidableEq, Repr, Inhabited

namespace Token

/-- The order that ranges use: characters and words by code point, integers by value.  Tokens of
    different kinds are not ordered. -/
def le : Token → Token → Bool
  | .char a, .char b => decide (a.toNat ≤ b.toNat)
  | .int a, .int b => decide (a.toInt ≤ b.toInt)
  | .word a, .word b => !decide (b < a)
  | _, _ => false

/-- A token the way diagnostics name it. -/
def quoted : Token → String
  | .char c => Text.quotedChar c
  | .int n => toString n.toInt
  | .word s => Text.quotedText s

/-- The text that a run of tokens spells; integers spell nothing. -/
def spell (ts : List Token) : String :=
  String.join (ts.map fun t =>
    match t with
    | .char c => c.toString
    | .word s => s
    | .int _ => "")

/-- The tokens of a text, one per character. -/
def ofText (s : String) : List Token :=
  s.toList.map .char

/-- Whether a token is a character that passes `test`. -/
def isCharWith (test : Char → Bool) : Token → Bool
  | .char c => test c
  | _ => false

end Token

end Duplex
