/-
Module: Duplex.Text.Quoted
Purpose: Characters and texts between quotes, the way diagnostics and grammar descriptions name
  them.  A quote is escaped only inside its own kind of quotes, and a character that has no glyph
  of its own is written by its code point: it would be invisible, or would attach to the quote
  before it.
Main exports: escape, quotedChar, quotedText
-/
import Duplex.Text.Glyph

namespace Duplex.Text

/-- Lower case hexadecimal digits of `n`, without leading zeros. -/
def hexDigits (n : Nat) : String :=
  String.ofList (Nat.toDigits 16 n)

/-- One character as it is written between two `quote` characters. -/
def escape (quote c : Char) : String :=
  if c = '\t' then "\\t"
  else if c = '\r' then "\\r"
  else if c = '\n' then "\\n"
  else if c = '\\' then "\\\\"
  else if c = '\x00' then "\\0"
  else if c = quote then String.ofList ['\\', c]
  else if hasGlyph c then c.toString
  else "\\u\x7b" ++ hexDigits c.toNat ++ "\x7d"

/-- A character between single quotes. -/
def quotedChar (c : Char) : String :=
  "'" ++ escape '\'' c ++ "'"

/-- A text between double quotes. -/
def quotedText (s : String) : String :=
  "\"" ++ s.toList.foldl (fun out c => out ++ escape '"' c) "" ++ "\""

end Duplex.Text
