/-
Module: Duplex.Grammar.Lexical
Purpose: Frequently used patterns of characters: digits, texts, white space, quoted and separated
  items, brackets with recovery, and lines with their indentation.
Main exports: Pattern.digitBetween, Pattern.digit, Pattern.hexDigit, Pattern.textOf,
  Pattern.quoted, Pattern.optionalSpace, Pattern.requiredSpace, Pattern.sign, Pattern.padded,
  Pattern.spaced, Pattern.separated, Pattern.headed, Pattern.ended, Pattern.line,
  Pattern.indentation, Pattern.exactly, Pattern.again, Pattern.bracketed
-/
import Duplex.Grammar.Conversion
import Duplex.Text.Case

namespace Duplex.Pattern

/-- Exactly one token. -/
def token (t : Token) : Pattern :=
  .satisfy (.equal t)

/-- Exactly one character. -/
def char (c : Char) : Pattern :=
  token (.char c)

/-- One of several characters. -/
def oneOf (cs : List Char) : Pattern :=
  .satisfy (.oneOf (cs.map .char))

/-! ### Digits -/

/-- A character between `low` and `high` as number, counting `pad` for `zero`. -/
def digitBetween (low high zero : Char) (pad : Nat) : Pattern :=
  .convert (.satisfy (.range (.char low) (.char high))) (.digitFrom zero pad)

/-- A decimal digit as number. -/
def digit : Pattern :=
  digitBetween '0' '9' '0' 0

/-- A hexadecimal digit of either case as number; it is written in upper case. -/
def hexDigit : Pattern :=
  .convert (.choice [digit, digitBetween 'A' 'F' 'A' 10, digitBetween 'a' 'f' 'a' 10])
    (.keepSecond fun v => some (.ofCount (if v.digit < 10 then 0 else 1)))

/-! ### Texts -/

/-- Characters into a text. -/
def asText : Folding :=
  { fold := .text }

/-- Any number of characters as text. -/
def textOf (c : Pattern) : Pattern :=
  .repeated asText c .many true

/-- Characters up to the first token that `ending` reads, as text. -/
def textUpTo (c ending : Pattern) : Pattern :=
  .upTo ending asText c

/-- Characters between two brackets, as text. -/
def quoted (opening closing : Char) (c : Pattern) : Pattern :=
  .surround (some (char opening)) (some (char closing)) (textUpTo c (char closing))

/-- A character as text of its own. -/
def charText (c : Pattern) : Pattern :=
  .convert c .charText

/-- A character in either case; as bracket it is written as given. -/
def nocase (c : Char) : Pattern :=
  .constant (oneOf (Text.caseSet c)) (.char c)

/-- A character and the text behind it, as one text. -/
def headed (head rest : Pattern) : Pattern :=
  .convert (.tuple [head, rest]) .consText

/-- Characters up to and with the first that `tail` reads, as one text. -/
def ended (tail c : Pattern) : Pattern :=
  .convert (.tuple [textUpTo c tail, tail]) .snocText

/-! ### White space -/

/-- One white space character. -/
def white : Pattern :=
  .named (oneOf [' ', '\t', '\n', '\r']) "white"

/-- Optional white space; as bracket it is written as nothing. -/
def optionalSpace : Pattern :=
  .constant (textOf white) (.text "")

/-- Required white space; as bracket it is written as one blank. -/
def requiredSpace : Pattern :=
  .constant (.repeated asText white .some false) (.text " ")

/-- A pattern with optional white space around it. -/
def padded (p : Pattern) : Pattern :=
  .surround (some optionalSpace) (some optionalSpace) p

/-- A pattern with optional white space before it and required white space behind it. -/
def spaced (p : Pattern) : Pattern :=
  .surround (some optionalSpace) (some requiredSpace) p

/-! ### Signs and lists -/

/-- How a sign is written: a minus for true, nothing for false. -/
def writeSign : Value → Except WriteFault (List Token)
  | .bool true => .ok [.char '-']
  | _ => .ok []

/-- An optional sign: whether it is a minus. -/
def sign : Pattern :=
  .writtenBy (.convert (.optional (oneOf ['+', '-']) (.char '+')) .isMinus) writeSign

/-- Any number of items with a character between them and white space around each; written
    without white space. -/
def separated (sep : Char) (p : Pattern) : Pattern :=
  padded (.optional
    (.convert (.joined (padded (char sep)) p none false) (.itemsOnly (.char sep)))
    (.list []))

/-! ### Lines -/

/-- A line break character. -/
def lineBreak : Pattern :=
  .satisfy (.label "newline" (.oneOf [.char '\r', .char '\n']))

/-- The rest of a line with its line break; a last line without one is not read. -/
def line : Pattern :=
  ended lineBreak (.satisfy .any)

/-- A line break and the blanks behind it: how many. -/
def indentation : Pattern :=
  let blanks := Folding.withUnfold .count (.copies (.char ' '))
  .convert (.tuple [char '\n', .repeated blanks (char ' ') .many true])
    (.keepSecond fun _ => some (.char '\n'))

/-! ### Bodies that depend on a head -/

/-- Exactly `count` items. -/
def exactly (count : Nat) (folding : Folding) (item : Pattern) : Pattern :=
  .repeated folding item ⟨count, count, true⟩ false

/-- The token that a value is, once more. -/
def again (v : Value) : Pattern :=
  match v.toToken? with
  | some t => .convert (token t) .identity
  | none => .never

/-! ### Brackets -/

/-- A pattern between brackets that remember where they were opened. -/
def bracketed (opening closing : Char) (p : Pattern) : Pattern :=
  .surround (some (.openBracket (opening, closing))) (some (.closeBracket (opening, closing))) p

/-- What is reported where `expecting` was expected. -/
def unexpected (expecting : String) (t : Token) : String :=
  "unexpected " ++ t.quoted ++ ", expecting " ++ expecting

end Duplex.Pattern
