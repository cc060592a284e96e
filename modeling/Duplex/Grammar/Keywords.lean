/-
Module: Duplex.Grammar.Keywords
Purpose: Tries of keywords inside a grammar, looked at and extended from outside while the grammar
  is in use, and dictionaries, which are two tries for the two directions.
Main exports: Keywords, Keywords.insert, Keywords.insertNocase, Keywords.keys, Dictionary,
  Dictionary.insert, Dictionary.meaning?, Dictionary.word?, Classifier
-/
import Duplex.Pattern.Memory
import Duplex.Text.Case

namespace Duplex

/-- The spellings of a token: a character in either case, any other token as it is. -/
def Token.spellings : Token → List Token
  | .char c => (Text.spellings c).map .char
  | t => [t]

/-- Order of token sequences: by the first token in which they differ, and a beginning before what
    it is the beginning of. -/
def Token.leAll : List Token → List Token → Bool
  | [], _ => true
  | _ :: _, [] => false
  | a :: as, b :: bs => if a = b then leAll as bs else a.le b

/-! ### Keyword tries -/

/-- A trie in a cell of the memory. -/
structure Keywords where
  cell : Nat
  initial : Registry Token Value

namespace Keywords

/-- What the trie holds now. -/
def contents (k : Keywords) (m : Memory) : Registry Token Value :=
  m.trieAt k.cell k.initial

/-- The memory with the trie changed. -/
def update (k : Keywords) (m : Memory) (f : Registry Token Value → Registry Token Value) : Memory :=
  m.setTrie k.cell (f (k.contents m))

/-- Registers a value. -/
def insert (k : Keywords) (path : List Token) (v : Value) (m : Memory) : Memory :=
  k.update m fun r => r.insert path v

/-- Registers a value under all spellings of a path. -/
def insertNocase (k : Keywords) (path : List Token) (v : Value) (m : Memory) : Memory :=
  k.update m fun r => r.insertSpelled Token.spellings path v

/-- Registers values in order. -/
def insertAll (k : Keywords) (entries : List (List Token × Value)) (m : Memory) : Memory :=
  k.update m fun r => r.insertAll entries

/-- The value at a path. -/
def get? (k : Keywords) (m : Memory) (path : List Token) : Option Value :=
  (k.contents m).get? path

/-- The path that a value is written as. -/
def pathOf? (k : Keywords) (m : Memory) (v : Value) : Option (List Token) :=
  (k.contents m).pathOf? v

/-- The paths of all values, sorted. -/
def keys (k : Keywords) (m : Memory) : List (List Token) :=
  (k.contents m).trie.keys.mergeSort Token.leAll

/-- What a trie starts with: entries in order, then entries under all their spellings. -/
def initially (entries nocase : List (List Token × Value)) : Registry Token Value :=
  nocase.foldl (fun r (path, v) => r.insertSpelled Token.spellings path v)
    (Registry.empty.insertAll entries)

end Keywords

/-! ### Dictionaries -/

/-- Words and their meanings, readable both ways. -/
structure Dictionary where
  forward : Keywords
  back : Keywords

namespace Dictionary

/-- The contents of both directions after entries were made in order. -/
def initially (entries : List (String × String)) : Registry Token Value × Registry Token Value :=
  entries.foldl
    (fun (forward, back) (key, value) =>
      (forward.insert (Token.ofText key) (.text value),
        back.insert (Token.ofText value) (.text key)))
    (.empty, .empty)

/-- Enters a word and its meaning. -/
def insert (d : Dictionary) (key value : String) (m : Memory) : Memory :=
  d.back.insert (Token.ofText value) (.text key)
    (d.forward.insert (Token.ofText key) (.text value) m)

/-- The meaning of a word, as it is written. -/
def meaning? (d : Dictionary) (m : Memory) (key : String) : Option (List Token) :=
  d.back.pathOf? m (.text key)

/-- The word that a meaning belongs to. -/
def word? (d : Dictionary) (m : Memory) (value : String) : Option Value :=
  d.back.get? m (Token.ofText value)

end Dictionary

/-! ### Classifying unknown words -/

/-- What an unknown word is taken for. -/
inductive Classifier where
  /-- The word in upper case, as far as it is ASCII. -/
  | upper
  /-- Its number of characters. -/
  | length
  /-- The word itself, if it has at least so many characters. -/
  | atLeast (count : Nat)
  | constant (v : Value)
deriving Repr, Inhabited

/-- Classifies a word. -/
def Classifier.run (c : Classifier) (word : String) : Option Value :=
  match c with
  | .upper => some (.text (String.ofList (word.toList.map Char.toUpper)))
  | .length => some (.ofCount word.length)
  | .atLeast count => if count ≤ word.length then some (.text word) else none
  | .constant v => some v

end Duplex
