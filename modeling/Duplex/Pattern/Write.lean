/-
Module: Duplex.Pattern.Write
Purpose: The tokens of a value by a pattern.  Patterns that look but do not take write nothing;
  brackets write their constant; a value that a pattern cannot have read is a fault.
Main exports: Outline.ofValue, Outline.toValue, Outline.eq_of_toValue, Pattern.write
-/
import Duplex.Combinator.Join
import Duplex.Combinator.Outline
import Duplex.Combinator.Sequence
import Duplex.Pattern.Memory

namespace Duplex

/-! ### Outlines as values -/

mutual

/-- An outline as value. -/
def Outline.toValue : Outline Value Value → Value
  | .root nodes => .root (Outline.toValues nodes)
  | .nest item tail children => .nest item tail (Outline.toValues children)
  | .term item => .term item

/-- Several outlines as values. -/
def Outline.toValues : List (Outline Value Value) → List Value
  | [] => []
  | node :: rest => node.toValue :: Outline.toValues rest

end

mutual

/-- The outline that a value is; a value that is none counts as a single item. -/
def Outline.ofValue : Value → Outline Value Value
  | .root nodes => .root (Outline.ofValues nodes)
  | .nest item tail children => .nest item tail (Outline.ofValues children)
  | .term item => .term item
  | v => .term v

/-- The outlines that values are. -/
def Outline.ofValues : List Value → List (Outline Value Value)
  | [] => []
  | v :: rest => Outline.ofValue v :: Outline.ofValues rest

end

mutual

/-- No outline is lost in its value. -/
theorem Outline.ofValue_toValue : (o : Outline Value Value) → Outline.ofValue o.toValue = o
  | .root nodes => by rw [toValue, ofValue, ofValues_toValues nodes]
  | .nest item tail children => by rw [toValue, ofValue, ofValues_toValues children]
  | .term item => by rw [toValue, ofValue]

theorem Outline.ofValues_toValues :
    (ns : List (Outline Value Value)) → Outline.ofValues (Outline.toValues ns) = ns
  | [] => by rw [toValues, ofValues]
  | n :: ns => by rw [toValues, ofValues, ofValue_toValue n, ofValues_toValues ns]

end

/-- Values tell outlines apart. -/
theorem Outline.eq_of_toValue {o p : Outline Value Value} (same : o.toValue = p.toValue) :
    o = p := by
  rw [← ofValue_toValue o, same, ofValue_toValue]

namespace Write

/-- The token that a value is. -/
def token {μ : Type} (v : Value) : Write μ (List Token) :=
  return v.toToken?.toList

/-- A computation that may fail, as part of a write. -/
def ofExcept {μ α : Type} (result : Except (Stop WriteFault) α) : Write μ α :=
  match result with
  | .ok a => return a
  | .error stop => throw stop

/-- The path registered for a value, or what the policy writes for a value without one. -/
def registered {μ : Type} (r : Registry Token Value) (policy : Policy) (v : Value) :
    Write μ (List Token) :=
  match r.pathOf? v, policy, v with
  | some path, _, _ => return path
  | none, .greedy _, .text s => return Token.ofText s
  | none, _, _ => fault .notRegistered

end Write

namespace Pattern

/-- Writes a bracket: its constant. -/
def writeBracket (write : Pattern → Writer Memory Value) (p : Pattern) :
    Write Memory (List Token) :=
  match p.constant? with
  | some c => write p c
  | none => Write.fault .noConstant

/-- Writes a bracket that may be missing. -/
def writeBracketOption (write : Pattern → Writer Memory Value) :
    Option Pattern → Write Memory (List Token)
  | some p => writeBracket write p
  | none => return []

/-- The tokens of a value. -/
def write (fuel : Nat) (p : Pattern) (v : Value) : Write Memory (List Token) :=
  match fuel with
  | 0 => Write.exhausted
  | fuel + 1 =>
      let inner := write fuel
      match p with
      | .satisfy _ => Write.token v
      | .insist _ _ => Write.token v
      | .always _ => return []
      | .never => return []
      | .stickyEnd _ _ _ => return []
      | .peek _ => return []
      | .lookup entries _ =>
          match entries.find? (fun entry => entry.2 == v) with
          | some (key, _) => return [key]
          | none => Write.fault .notRegistered
      | .tuple parts => Write.inTurn (parts.map inner) (v.parts?.getD [])
      | .sequence parts =>
          let items := v.items?.getD []
          if items.length = parts.length then Write.inTurn (parts.map inner) items
          else Write.fault (.tupleSize parts.length items.length)
      | .upTo _ folding item => do
          Write.each (inner item) (← Write.ofExcept (folding.items v))
      | .repeated folding item bounds _ => do
          let items ← Write.ofExcept (folding.items v)
          if bounds.allows items.length then Write.each (inner item) items
          else Write.fault (.repeatCount items.length bounds.min bounds.max)
      | .choice cases =>
          match v with
          | .tuple [index, w] =>
              match cases[index.toCount]? with
              | some p => inner p w
              | none => Write.fault (.badCase index.toCount cases.length)
          | _ => return []
      | .convert item conversion => do
          match ← Write.ofExcept ((conversion.back v).mapError (.halt ∘ .abort)) with
          | some w => inner item w
          | none => Write.fault (.unsupported "convert back")
      | .contextual head body =>
          match v with
          | .tuple [context, rest] => do
              let first ← inner head context
              return first ++ (← inner (body context) rest)
          | _ => return []
      | .ref name => do
          match ← Write.definition? name with
          | some target => inner target v
          | none => Write.fault .undefined
      | .lazy cell item => do
          Write.supply cell
          inner item v
      | .renewed cells item =>
          Write.scoping (Memory.forget cells) (Memory.restore cells) (inner item v)
      | .piped item _ => inner item v
      | .alsoDo item _ => inner item v
      | .optional item _ => inner item v
      | .constant item _ => inner item v
      | .writtenBy _ writer => Write.ofExcept ((writer v).mapError .fault)
      | .named item _ => inner item v
      | .settle item _ _ _ => inner item v
      | .surround left right item => do
          let before ← writeBracketOption inner left
          let body ← inner item v
          return before ++ body ++ (← writeBracketOption inner right)
      | .joined sep item _ _ =>
          match v with
          | .tuple [.list items, .list seps] => Write.joined (inner sep) (inner item) items seps
          | _ => return []
      | .chain _ _ _ _ => Write.fault (.unsupported "infix show")
      | .outline item tail layout base step _ _ =>
          Write.outline (inner item) (inner tail) (fun n => inner layout (.ofCount n)) base step
            (Outline.ofValue v)
      | .trie cell initial policy => do
          Write.registered (← Write.trieAt cell initial) policy v
      | .dictionary cell initial => do
          Write.registered (← Write.trieAt cell initial) .exact v
      | .matched item _ _ unmake =>
          match unmake with
          | none => Write.fault (.unsupported "text pattern without unparse")
          | some unmake =>
              match unmake v with
              | some s => inner item (.text s)
              | none => Write.fault (.unsupported "unparse")
      | .openBracket _ => Write.token v
      | .closeBracket _ => Write.token v

end Pattern

end Duplex
