/-
Module: Duplex.Text.Regex
Purpose: Regular expressions with capture groups.  An expression lists all its matches at a place
  in order of preference: the earlier alternative first, the longer repetition first.  A search
  takes the preferred match at the leftmost place that has one.
Main exports: Regex, Regex.parse?, Regex.Match, Regex.search
-/
import Duplex.Text.CharClass

namespace Duplex.Text

/-- One place in a class of characters. -/
inductive ClassItem where
  | range (low high : Char)
  | digit
  | word
  | space
deriving DecidableEq, Repr, Inhabited

/-- Whether a character is meant by a class item. -/
def ClassItem.holds (i : ClassItem) (c : Char) : Bool :=
  match i with
  | .range low high => decide (low.toNat ≤ c.toNat) && decide (c.toNat ≤ high.toNat)
  | .digit => isDigit c
  | .word => isWord c
  | .space => isSpace c

/-- The structure of a regular expression. -/
inductive RegexNode where
  | empty
  /-- Any character but a line feed. -/
  | dot
  | among (items : List ClassItem) (negated : Bool)
  | sequence (a b : RegexNode)
  | either (a b : RegexNode)
  | star (a : RegexNode)
  | group (index : Nat) (a : RegexNode)
  /-- The start of the text. -/
  | start
  /-- The end of the text. -/
  | finish
deriving DecidableEq, Repr, Inhabited

/-- A regular expression with its text and its number of groups. -/
structure Regex where
  source : String
  node : RegexNode
  groups : Nat
deriving DecidableEq, Repr, Inhabited

namespace Regex

/-! ### Reading the text of an expression -/

/-- The class item behind a backslash: a class letter, or the character itself. -/
def escaped (c : Char) : ClassItem :=
  if c = 'd' then .digit
  else if c = 'w' then .word
  else if c = 's' then .space
  else if c = 'n' then .range '\n' '\n'
  else if c = 't' then .range '\t' '\t'
  else if c = 'r' then .range '\r' '\r'
  else .range c c

/-- The items of a class up to its closing bracket, and what follows that. -/
def classItems : List Char → Option (List ClassItem × List Char)
  | [] => none
  | ']' :: rest => some ([], rest)
  | '\\' :: c :: rest => (classItems rest).map fun (items, after) => (escaped c :: items, after)
  | low :: '-' :: high :: rest =>
      if high = ']' then
        some ([.range low low, .range '-' '-'], rest)
      else (classItems rest).map fun (items, after) => (.range low high :: items, after)
  | c :: rest => (classItems rest).map fun (items, after) => (.range c c :: items, after)

/-- A repetition mark behind an expression, if there is one. -/
def quantified (a : RegexNode) : List Char → RegexNode × List Char
  | '*' :: rest => (.star a, rest)
  | '+' :: rest => (.sequence a (.star a), rest)
  | '?' :: rest => (.either a .empty, rest)
  | rest => (a, rest)

/-- What remains to be read of an expression, and the number of groups opened. -/
structure Unread where
  chars : List Char
  groups : Nat
deriving Repr, Inhabited

mutual

/-- Alternatives up to a closing parenthesis or the end. -/
def alternatives : Nat → Unread → Option (RegexNode × Unread)
  | 0, _ => none
  | fuel + 1, u => do
      let (first, after) ← pieces fuel u
      match after.chars with
      | '|' :: rest =>
          let (others, after) ← alternatives fuel { after with chars := rest }
          return (.either first others, after)
      | _ => return (first, after)

/-- Pieces one after the other. -/
def pieces : Nat → Unread → Option (RegexNode × Unread)
  | 0, _ => none
  | fuel + 1, u =>
      match u.chars with
      | [] => some (.empty, u)
      | '|' :: _ => some (.empty, u)
      | ')' :: _ => some (.empty, u)
      | _ => do
          let (first, after) ← piece fuel u
          let (first, rest) := quantified first after.chars
          let (others, after) ← pieces fuel { after with chars := rest }
          return (.sequence first others, after)

/-- One piece, without its repetition mark. -/
def piece : Nat → Unread → Option (RegexNode × Unread)
  | 0, _ => none
  | fuel + 1, u =>
      match u.chars with
      | '(' :: rest => do
          let index := u.groups + 1
          let (inner, after) ← alternatives fuel ⟨rest, index⟩
          match after.chars with
          | ')' :: rest => return (.group index inner, { after with chars := rest })
          | _ => none
      | '[' :: '^' :: rest => do
          let (items, after) ← classItems rest
          return (.among items true, { u with chars := after })
      | '[' :: rest => do
          let (items, after) ← classItems rest
          return (.among items false, { u with chars := after })
      | '\\' :: c :: rest => some (.among [escaped c] false, { u with chars := rest })
      | '.' :: rest => some (.dot, { u with chars := rest })
      | '^' :: rest => some (.start, { u with chars := rest })
      | '$' :: rest => some (.finish, { u with chars := rest })
      | c :: rest => some (.among [.range c c] false, { u with chars := rest })
      | [] => none

end

/-- The expression that a text denotes. -/
def parse? (source : String) : Option Regex := do
  let chars := source.toList
  let (node, after) ← alternatives (3 * chars.length + 3) ⟨chars, 0⟩
  if after.chars.isEmpty then return ⟨source, node, after.groups⟩ else none

/-! ### Matching -/

/-- A place in a text, and the groups matched on the way to it by their ends, latest first. -/
structure Cursor where
  position : Nat
  rest : List Char
  groups : List (Nat × Nat × Nat)
deriving Repr, Inhabited

/-- Past one character that passes `test`. -/
def Cursor.past (c : Cursor) (test : Char → Bool) : List Cursor :=
  match c.rest with
  | [] => []
  | x :: rest => if test x then [{ c with position := c.position + 1, rest := rest }] else []

/-- As many steps as possible first, each of which has to move on, at most `count`; and `others`
    after all of these. -/
def repeatedly (step : Cursor → List Cursor) :
    Nat → Cursor → List Cursor → List Cursor
  | 0, c, others => c :: others
  | count + 1, c, others =>
      ((step c).filter fun d => decide (c.position < d.position)).foldr
        (repeatedly step count) (c :: others)

/-- The places where a match that starts at `c` can end, the preferred one first. -/
def ends : RegexNode → Cursor → List Cursor
  | .empty, c => [c]
  | .dot, c => c.past (· != '\n')
  | .among items negated, c => c.past fun x => (items.any fun i => i.holds x) != negated
  | .sequence a b, c => (ends a c).flatMap (ends b)
  | .either a b, c => ends a c ++ ends b c
  | .star a, c => repeatedly (ends a) c.rest.length c []
  | .group index a, c =>
      (ends a c).map fun d => { d with groups := (index, c.position, d.position) :: d.groups }
  | .start, c => if c.position = 0 then [c] else []
  | .finish, c => if c.rest.isEmpty then [c] else []

/-- A match: its text, and the text of each group from the first on that took part in it. -/
structure Match where
  text : String
  groups : List (Option String)
deriving DecidableEq, Repr, Inhabited

/-- The characters of `chars` from position `first` to before `last`. -/
def excerpt (chars : List Char) (first last : Nat) : String :=
  String.ofList ((chars.drop first).take (last - first))

/-- The preferred match at the leftmost place from `rest` on. -/
def searchFrom (r : Regex) (chars : List Char) (position : Nat) (rest : List Char) :
    Option Match :=
  match (ends r.node ⟨position, rest, []⟩).head? with
  | some stop =>
      let group := fun (i : Nat) =>
        (stop.groups.lookup (i + 1)).map fun (first, last) => excerpt chars first last
      some ⟨excerpt chars position stop.position, (List.range r.groups).map group⟩
  | none =>
      match rest with
      | [] => none
      | _ :: rest => searchFrom r chars (position + 1) rest

/-- The preferred match at the leftmost place in a text. -/
def search (r : Regex) (text : String) : Option Match :=
  r.searchFrom text.toList 0 text.toList

end Regex

end Duplex.Text
