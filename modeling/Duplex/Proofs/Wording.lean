/-
Module: Duplex.Proofs.Wording
Purpose: What a description consists of.  Most patterns are described by the descriptions of some of
  their parts, with text around them; the others by what a trie holds, by what a recursive pattern is
  resolved to, or with cells of their own.  What holds of all descriptions is proved for these kinds
  alone, as each step of a description is one of them.
Main exports: Pattern.Wording, Pattern.wording, Pattern.describe_of_parts
-/
import Duplex.Pattern.Describe

namespace Duplex

/-! ### What a description consists of -/

namespace Pattern

/-- What the description of a pattern consists of. -/
inductive Wording where
  /-- The descriptions of some patterns, in turn, with text around them. -/
  | parts (ps : List Pattern) (text : List String → String)
  /-- Text about the contents of a trie cell. -/
  | registry (cell : Nat) (initial : Registry Token Value) (text : Registry Token Value → String)
  /-- The description of what a name is defined as. -/
  | defined (name : String)
  /-- The description of a pattern that is made on first use. -/
  | supplied (cell : Nat) (item : Pattern)
  /-- The description of a pattern whose cells are as they start. -/
  | renewed (cells : List Nat) (item : Pattern)

/-- What the description of a pattern consists of. -/
def wording : Pattern → Wording
  | .satisfy c => .parts [] fun _ => c.describe
  | .insist c _ => .parts [] fun _ => c.describe
  | .always v => .parts [] fun _ => "(always: " ++ v.quoted ++ ")"
  | .never => .parts [] fun _ => "(never)"
  | .stickyEnd item value _ =>
      .parts [item] fun texts => "(stickyEnd: " ++ String.join texts ++ ", " ++ value.quoted ++ ")"
  | .peek item => .parts [item] fun texts => "&" ++ String.join texts
  | .lookup entries _ => .parts [] fun _ => s!"(map: {keyCount entries} keys)"
  | .tuple ps => .parts ps fun texts => "(" ++ String.intercalate " " texts ++ ")"
  | .sequence ps => .parts ps fun texts => "(" ++ String.intercalate " " texts ++ ")"
  | .upTo ending _ item => .parts [item, ending] (String.intercalate "~")
  | .repeated _ item bounds skippable =>
      .parts [item] fun texts =>
        "\x7b" ++ String.join texts ++ "\x7d" ++ describeBounds bounds skippable
  | .choice cases => .parts cases fun texts => "(" ++ String.intercalate "|" texts ++ ")"
  | .convert item _ => .parts [item] String.join
  | .contextual head _ => .parts [head] fun texts => String.join texts ++ "@"
  | .ref name => .defined name
  | .lazy cell item => .supplied cell item
  | .renewed cells item => .renewed cells item
  | .piped item _ => .parts [item] fun texts => "(Piped: " ++ String.join texts ++ ")"
  | .alsoDo item _ => .parts [item] String.join
  | .optional item _ => .parts [item] fun texts => String.join texts ++ "?"
  | .constant item _ => .parts [item] String.join
  | .writtenBy item _ => .parts [item] String.join
  | .named _ name => .parts [] fun _ => name
  | .settle item _ _ _ => .parts [item] String.join
  | .surround left right item => .parts (left.toList ++ item :: right.toList) String.join
  | .joined sep item _ _ =>
      .parts [item, sep] fun texts => "\x7b" ++ String.intercalate "..." texts ++ "\x7d"
  | .chain operand operators padding _ =>
      -- the padding is described once, but stands on both sides of the operators
      .parts (operand :: padding.toList) fun texts =>
        "InfixChain(" ++ texts.headD "" ++ ", " ++ String.join texts.tail
          ++ describeTrie operators.size .exact ++ String.join texts.tail ++ ")"
  | .outline item tail layout _ _ _ _ =>
      .parts [item, tail, layout] fun texts => "(Layout: " ++ String.intercalate ", " texts ++ ")"
  | .trie cell initial policy => .registry cell initial fun r => describeTrie r.size policy
  | .dictionary cell initial => .registry cell initial fun r => "dict" ++ describeTrie r.size .exact
  | .matched item regex _ _ =>
      .parts [item] fun texts => String.join texts ++ "/" ++ regex.source ++ "/"
  | .openBracket pair => .parts [] fun _ => Text.quotedChar pair.1
  | .closeBracket pair => .parts [] fun _ => Text.quotedChar pair.2

theorem eq_of_defined {p : Pattern} {name : String} (made : p.wording = .defined name) :
    p = .ref name := by
  cases p <;> cases made
  rfl

theorem eq_of_supplied {p item : Pattern} {cell : Nat} (made : p.wording = .supplied cell item) :
    p = .lazy cell item := by
  cases p <;> cases made
  rfl

theorem eq_of_renewed {p item : Pattern} {cells : List Nat}
    (made : p.wording = .renewed cells item) : p = .renewed cells item := by
  cases p <;> cases made
  rfl

/-! ### One step of a description -/

section Step

variable {p : Pattern} (fuel : Nat) (visiting : List Visit)

/-- Parts are described in turn, and the text is put around them. -/
theorem describe_of_parts {ps : List Pattern} {text : List String → String}
    (made : p.wording = .parts ps text) :
    describe (fuel + 1) visiting p = do return text (← ps.mapM (describe fuel visiting)) := by
  cases p <;> cases made
  case surround left right item =>
    cases left <;> cases right <;>
      simp [describe, describeOption, String.append_assoc, -bind_pure_comp]
  case chain operand operators padding rescue =>
    cases padding <;> simp [describe, describeOption, String.append_assoc]
  all_goals simp [describe, describeAll, String.append_assoc]

theorem describe_of_registry {cell : Nat} {initial : Registry Token Value}
    {text : Registry Token Value → String} (made : p.wording = .registry cell initial text) :
    describe (fuel + 1) visiting p = do return text (← Write.trieAt cell initial) := by
  cases p <;> cases made <;> rfl

variable {visiting}

theorem describe_of_recursion {name : String} (within : .name name ∈ visiting) :
    describe (fuel + 1) visiting (.ref name) = pure "recurse" :=
  if_pos (List.contains_iff_mem.mpr within)

theorem describe_of_defined {name : String} (outside : .name name ∉ visiting) :
    describe (fuel + 1) visiting (.ref name) =
      Write.definition? name >>= fun found =>
        found.elim (pure "(undefined)") (describe fuel (.name name :: visiting)) := by
  refine (if_neg (mt List.contains_iff_mem.mp outside)).trans (bind_congr fun found => ?_)
  cases found <;> rfl

theorem describe_of_remade {cell : Nat} {item : Pattern} (within : .cell cell ∈ visiting) :
    describe (fuel + 1) visiting (.lazy cell item) = pure "recurse" :=
  if_pos (List.contains_iff_mem.mpr within)

theorem describe_of_supplied {cell : Nat} {item : Pattern} (outside : .cell cell ∉ visiting) :
    describe (fuel + 1) visiting (.lazy cell item) =
      Write.supply cell >>= fun _ => describe fuel (.cell cell :: visiting) item :=
  if_neg (mt List.contains_iff_mem.mp outside)

end Step

end Pattern

end Duplex
