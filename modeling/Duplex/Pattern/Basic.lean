/-
Module: Duplex.Pattern.Basic
Purpose: Grammars as data.  A pattern both reads values from tokens and writes them back; what each
  constructor does in either direction is said by the reading, writing and describing modules.
  Patterns that remember something name a cell of the memory for it, and hold what the cell starts
  with.
Main exports: Recovery, Conversion, Pipe, Effect, Pattern
-/
import Duplex.Combinator.Chain
import Duplex.Combinator.Repeat
import Duplex.Condition
import Duplex.Fold
import Duplex.Text.Regex
import Duplex.Trie.Registry
import Duplex.Trie.Descent

namespace Duplex

/-- What becomes of a token that a recovery takes. -/
inductive Taking where
  | discard
  /-- The token is the result. -/
  | keep
deriving DecidableEq, Repr, Inhabited

/-- What to do where a pattern has nothing to read: report a message, take a token, and give a
    result, in this order and each of them only if asked for. -/
structure Recovery where
  message : Option String := none
  taking : Option Taking := none
  result : Option Value := none
deriving Repr, Inhabited

/-- A change of values on the way in, and back on the way out where that is possible. -/
structure Conversion where
  forward : Value → Except Abort Value
  back : Value → Except Abort (Option Value)

/-- What happens to the result of a pattern: a rejected value, nothing at all, or any other value
    is left to a recovery.  What no recovery is given for stays. -/
structure Pipe where
  reject : Option (Value × Recovery) := none
  onNone : Option Recovery := none
  onSome : Option Recovery := none
deriving Inhabited

/-- What is done besides reading a value. -/
inductive Effect where
  /-- The tally that the input carries is raised by one. -/
  | bump
  /-- A token is dropped. -/
  | skip
  /-- The value and the current token are noted. -/
  | observe
deriving DecidableEq, Repr, Inhabited

/-- The item supplied for a separator that none follows. -/
inductive JoinRescue where
  /-- The last item once more. -/
  | last
  | recover (r : Recovery)
deriving Inhabited

/-- The operand supplied for an operator that none follows. -/
inductive ChainRescue where
  /-- The left operand once more. -/
  | keepLeft
  | recover (r : Recovery)
deriving Inhabited

/-- A two-way grammar. -/
inductive Pattern where
  /-- A token that meets a condition. -/
  | satisfy (c : Condition)
  /-- A token that meets a condition; where it does not, a report about the current token and the
      next token that does. -/
  | insist (c : Condition) (message : Token → String)
  /-- A value, without reading anything. -/
  | always (v : Value)
  /-- Nothing. -/
  | never
  /-- A value at the end of the tokens, if the last one is read by `item`. -/
  | stickyEnd (item : Pattern) (value : Value) (otherwise : Option Recovery)
  /-- What `item` would read at the current token. -/
  | peek (item : Pattern)
  /-- A token looked up among entries. -/
  | lookup (entries : List (Token × Value)) (absent : Option Recovery)
  /-- Patterns one after the other, into a tuple. -/
  | tuple (parts : List Pattern)
  /-- Patterns one after the other, into a list. -/
  | sequence (parts : List Pattern)
  /-- Items up to a token that `ending` reads. -/
  | upTo (ending : Pattern) (folding : Folding) (item : Pattern)
  /-- Items repeated; a skippable repetition has the fold of nothing for its default. -/
  | repeated (folding : Folding) (item : Pattern) (bounds : Bounds) (skippable : Bool)
  /-- The first case that reads, into a pair of its number and its value. -/
  | choice (cases : List Pattern)
  /-- Values changed on the way. -/
  | convert (item : Pattern) (conversion : Conversion)
  /-- A head, and a body that depends on it, into a pair. -/
  | contextual (head : Pattern) (body : Value → Pattern)
  /-- A pattern defined elsewhere. -/
  | ref (name : String)
  /-- A pattern made on first use, which is remembered in a cell. -/
  | lazy (cell : Nat) (item : Pattern)
  /-- A pattern made anew for each use: the cells of its parts are its own for that use. -/
  | renewed (cells : List Nat) (item : Pattern)
  /-- A result changed with the feed at hand. -/
  | piped (item : Pattern) (pipe : Pipe)
  /-- A side effect of every value read. -/
  | alsoDo (item : Pattern) (effect : Effect)
  /-- A default where `item` does not read. -/
  | optional (item : Pattern) (value : Value)
  /-- A pattern that writes `value` where it is used as bracket. -/
  | constant (item : Pattern) (value : Value)
  /-- A pattern with a writer of its own. -/
  | writtenBy (item : Pattern) (write : Value → Except WriteFault (List Token))
  /-- A pattern described by a name. -/
  | named (item : Pattern) (name : String)
  /-- A pattern that, where it does not read, reports, skips, and settles for a default. -/
  | settle (item skip : Pattern) (value : Value) (message : Token → String)
  /-- A pattern between brackets, either of which may be missing. -/
  | surround (left right : Option Pattern) (item : Pattern)
  /-- Items with separators between them, into a pair of two lists. -/
  | joined (sep item : Pattern) (rescue : Option JoinRescue) (noted : Bool)
  /-- Operands with operators between them, joined; `padding` may surround each operator. -/
  | chain (operand : Pattern) (operators : Registry Token (Operator Value))
      (padding : Option Pattern) (rescue : Option ChainRescue)
  /-- A tree laid out by indentation; `block` may choose the items of a block by what opens it. -/
  | outline (item tail layout : Pattern) (base step : Nat) (rescue : Option Recovery)
      (block : Option (Value → Value → Option Pattern))
  /-- A key of a trie. -/
  | trie (cell : Nat) (initial : Registry Token Value) (policy : Policy)
  /-- A word of a dictionary. -/
  | dictionary (cell : Nat) (initial : Registry Token Value)
  /-- A text that an expression matches, into what is made of the match. -/
  | matched (item : Pattern) (regex : Text.Regex) (make : Text.Regex.Match → Option Value)
      (unmake : Option (Value → Option String))
  /-- An opening bracket that remembers where it was read. -/
  | openBracket (pair : Char × Char)
  /-- The closing bracket to it; where it is missing, a report says what was opened where. -/
  | closeBracket (pair : Char × Char)

namespace Pattern

instance : Inhabited Pattern := ⟨.never⟩

/-- The value of a pattern that stands for nothing read, if it has one. -/
def default? : Pattern → Option Value
  | .repeated folding _ _ skippable => if skippable then some folding.nothing else none
  | .optional _ value => some value
  | .settle _ _ value _ => some value
  | .constant item _ => item.default?
  | .writtenBy item _ => item.default?
  | .named item _ => item.default?
  | .alsoDo item _ => item.default?
  | .renewed _ item => item.default?
  | _ => none

/-- The one value that a pattern writes as bracket, if it has one. -/
def constant? : Pattern → Option Value
  | .satisfy c => c.constant?.map Token.toValue
  | .insist c _ => c.constant?.map Token.toValue
  | .always v => some v
  | .constant _ value => some value
  | .optional item _ => item.constant?
  | .named item _ => item.constant?
  | .alsoDo item _ => item.constant?
  | .renewed _ item => item.constant?
  | .openBracket pair => some (.char pair.1)
  | .closeBracket pair => some (.char pair.2)
  | _ => none

end Pattern

end Duplex
