/-
Module: Duplex.Text.Utf8
Purpose: Characters from bytes that arrive in chunks.  A decoder answers with pieces of text, or tells
  why there is none; the characters are those of the pieces up to the first fault.  The decoder for
  UTF-8 takes one byte at a time and remembers the bytes of a character that is not complete yet.  It
  stops at the first bytes that begin no character and names exactly those that were still possible
  together.
Main exports: Decoder, Decoder.step, Decoder.run, ByteFault, Piece, bufferedChars, ByteSource,
  ByteSource.pieces, ByteSource.decode
-/
import Duplex.Text.Quoted

namespace Duplex.Text

/-- An inclusive range of bytes. -/
structure ByteRange where
  low : UInt8
  high : UInt8
deriving DecidableEq, Repr, Inhabited

/-- Whether a byte lies in the range. -/
def ByteRange.holds (r : ByteRange) (b : UInt8) : Bool :=
  r.low ≤ b && b ≤ r.high

/-- Any continuation byte. -/
def ByteRange.tail : ByteRange :=
  ⟨0x80, 0xbf⟩

/-- Between bytes: those of an unfinished character, the code point so far, and what may follow. -/
structure Decoder where
  taken : List UInt8
  code : Nat
  owed : List ByteRange
deriving DecidableEq, Repr, Inhabited

/-- Between two characters. -/
def Decoder.idle : Decoder :=
  ⟨[], 0, []⟩

/-- What a byte does to a decoder. -/
inductive Decoded where
  /-- The character needs more bytes. -/
  | more (next : Decoder)
  /-- A character is complete. -/
  | char (c : Char)
  /-- These bytes begin no character. -/
  | invalid (bytes : List UInt8)
deriving Repr, Inhabited

/-- The bits of a first byte that belong to the code point, and the bytes that have to follow;
    `none` for a byte that starts no character of several bytes.  The second byte is restricted
    where it would spell a character too long, a surrogate, or a number beyond the code points. -/
def Decoder.lead? (b : UInt8) : Option (Nat × List ByteRange) :=
  let n := b.toNat
  if 0xc2 ≤ n ∧ n ≤ 0xdf then some (n - 0xc0, [.tail])
  else if n = 0xe0 then some (0, [⟨0xa0, 0xbf⟩, .tail])
  else if n = 0xed then some (0xd, [⟨0x80, 0x9f⟩, .tail])
  else if 0xe1 ≤ n ∧ n ≤ 0xef then some (n - 0xe0, [.tail, .tail])
  else if n = 0xf0 then some (0, [⟨0x90, 0xbf⟩, .tail, .tail])
  else if 0xf1 ≤ n ∧ n ≤ 0xf3 then some (n - 0xf0, [.tail, .tail, .tail])
  else if n = 0xf4 then some (4, [⟨0x80, 0x8f⟩, .tail, .tail])
  else none

/-- Takes one byte. -/
def Decoder.step (d : Decoder) (b : UInt8) : Decoded :=
  match d.owed with
  | [] =>
      if b < 0x80 then .char (Char.ofNat b.toNat)
      else
        match Decoder.lead? b with
        | some (code, owed) => .more ⟨[b], code, owed⟩
        | none => .invalid [b]
  | range :: owed =>
      if range.holds b then
        let code := d.code * 64 + b.toNat % 64
        if owed.isEmpty then .char (Char.ofNat code) else .more ⟨d.taken ++ [b], code, owed⟩
      else .invalid d.taken

/-- How a run of bytes leaves a decoder. -/
inductive Decoder.Rest where
  | waiting (next : Decoder)
  | refused (bytes : List UInt8)
deriving DecidableEq, Repr, Inhabited

/-- Takes several bytes: the characters they complete, and how they leave the decoder. -/
def Decoder.run (d : Decoder) : List UInt8 → List Char × Decoder.Rest
  | [] => ([], .waiting d)
  | b :: rest =>
      match d.step b with
      | .more next => next.run rest
      | .char c =>
          let (cs, left) := Decoder.idle.run rest
          (c :: cs, left)
      | .invalid bytes => ([], .refused bytes)

/-- Why characters stop before the bytes do. -/
inductive ByteFault where
  /-- These bytes are no part of a text. -/
  | invalid (bytes : List UInt8)
  /-- The bytes cannot be read. -/
  | device (message : String)
deriving DecidableEq, Repr, Inhabited

/-- A byte as two hexadecimal digits. -/
def hexByte (b : UInt8) : String :=
  let h := hexDigits b.toNat
  if h.length < 2 then "0" ++ h else h

/-- How a decoder words a fault. -/
def ByteFault.wording : ByteFault → String
  | .invalid bytes =>
      "invalid byte sequence: [" ++ String.intercalate ", " (bytes.map hexByte) ++ "]"
  | .device m => "underlying bytestream error: " ++ m

/-- The wording of a byte fault, with who met it. -/
def ByteFault.message (f : ByteFault) : String :=
  "buffered_chars: " ++ f.wording

/-- What a decoder answers when it is asked for more: a piece of text, or why it has none. -/
inductive Piece where
  | text (chars : List Char)
  | fault (cause : ByteFault)
deriving DecidableEq, Repr, Inhabited

/-- The characters of a decoder's answers, which is asked until it has no more, and the fault that
    comes behind them.  It is not asked again behind a fault, whatever it would answer. -/
def bufferedChars : List Piece → List Char × Option ByteFault
  | [] => ([], none)
  | .text chars :: pieces =>
      let (more, fault) := bufferedChars pieces
      (chars ++ more, fault)
  | .fault cause :: _ => ([], some cause)

/-- What comes after the last chunk of a byte source. -/
inductive Closing where
  | finished
  | broken (message : String)
deriving DecidableEq, Repr, Inhabited

/-- Bytes in the chunks they arrive in. -/
structure ByteSource where
  chunks : List (List UInt8)
  closing : Closing
deriving Repr, Inhabited

/-- Characters as a piece of text; no characters are none. -/
def Piece.ofChars (chars : List Char) : List Piece :=
  if chars.isEmpty then [] else [.text chars]

/-- The answers of a decoder that takes one chunk after the other and may hold an unfinished
    character.  Bytes that cannot be read hide an unfinished character before them. -/
def ByteSource.piecesFrom (d : Decoder) (closing : Closing) : List (List UInt8) → List Piece
  | [] =>
      match closing with
      | .broken m => [.fault (.device m)]
      | .finished => if d.taken.isEmpty then [] else [.fault (.invalid d.taken)]
  | chunk :: rest =>
      match d.run chunk with
      | (cs, .waiting next) => Piece.ofChars cs ++ piecesFrom next closing rest
      | (cs, .refused bytes) => Piece.ofChars cs ++ [.fault (.invalid bytes)]

/-- The answers of a decoder to the bytes of a source. -/
def ByteSource.pieces (s : ByteSource) : List Piece :=
  ByteSource.piecesFrom .idle s.closing s.chunks

/-- The characters of a byte source, and why they end before it does. -/
def ByteSource.decode (s : ByteSource) : List Char × Option ByteFault :=
  bufferedChars s.pieces

/-- Bytes cut into runs of `size`, the last one perhaps shorter; runs of no bytes carry none. -/
def chunked (size : Nat) : List UInt8 → List (List UInt8)
  | [] => []
  | b :: rest =>
      if size = 0 then []
      else (b :: rest.take (size - 1)) :: chunked size (rest.drop (size - 1))
termination_by bytes => bytes.length
decreasing_by
  simp only [List.length_drop, List.length_cons]
  omega

/-- Bytes that arrive in chunks of `size`; given `failAt`, reading fails with `message` once that
    many bytes have arrived.  A chunk of no bytes looks like the end, so of chunks of size zero
    nothing ever arrives. -/
def ByteSource.ofBytes (bytes : List UInt8) (size : Nat) (failAt : Option Nat) (message : String) :
    ByteSource :=
  let arriving := if size = 0 then [] else bytes
  match failAt with
  | some n =>
      if n ≤ arriving.length then ⟨chunked size (arriving.take n), .broken message⟩
      else ⟨chunked size arriving, .finished⟩
  | none => ⟨chunked size arriving, .finished⟩

end Duplex.Text
