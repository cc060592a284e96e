/-
Module: Duplex.Proofs.Terminators
Purpose: Items up to a terminator.  The check looks at the current token, which behind the last one is
  what the feed then shows, so that a missing terminator is told from a present one by the item that
  finds nothing to take.  Quoted texts and lines are read up to and with their terminator, and a text
  is cut into its lines.
Main exports: Read.upTo_items, Pattern.UpTo, Pattern.upTo_of_tokens, Pattern.quoted_comesTo,
  Text.Lined, Pattern.lines_comesTo, Pattern.upTo_stops_before
-/
import Duplex.Proofs.Bounds
import Duplex.Proofs.LineBreaks
import Duplex.Proofs.Lookahead
import Duplex.Proofs.Spacing

namespace Duplex

namespace Read

/-! ### The loop -/

section Loop

variable {σ τ : Type} [Feed σ] {last : Token} {P : List Token → σ → Prop} (follows : Follows last P)
  {accept : τ → Value → Except FoldStop τ} {c terminator : Condition} {sofar gathered : τ}
  {s : Session Memory σ} {ts us rest later : List Token} {result : Option τ} {fuel turns : Nat}

variable (c fuel) in
/-- Looking ahead by a condition tells whether the current token meets it, and does nothing else. -/
theorem perform_testPeek_satisfy (s : Session Memory σ) :
    (testPeek ((Pattern.satisfy c).read (fuel + 1))).perform s =
      (.ok (c.holds (Feed.peek s.feed)), s) := by
  obtain ⟨seen, look⟩ : ∃ seen, ((Pattern.satisfy c).read (fuel + 1)).perform
      { s with feed := Lookahead.of s.feed } =
        (.ok (if c.holds (Feed.peek s.feed) then some (Feed.peek s.feed).toValue else none),
          { s with feed := ⟨seen, s.feed⟩ }) := by
    have tried : (consumeIf c.holds).perform { s with feed := Lookahead.of s.feed } =
        if c.holds (Feed.peek s.feed) then consume.perform { s with feed := Lookahead.of s.feed }
        else (.ok none, { s with feed := Lookahead.of s.feed }) := perform_consumeIf c.holds _
    split at tried
    · rename_i passes
      refine ⟨(Feed.consume (Single.of (Feed.peek s.feed))).feed, (perform_bind_ok tried _).trans ?_⟩
      rw [if_pos passes]
      rfl
    · rename_i fails
      refine ⟨.of (Feed.peek s.feed), (perform_bind_ok tried _).trans ?_⟩
      rw [if_neg fails]
      rfl
  rw [perform_testPeek, peeking, perform_inside, look]
  cases c.holds (Feed.peek s.feed) <;> rfl

include follows

/-- The loop stops before a token that meets the terminator, and so it does behind the last token if the
    feed shows such a one there. -/
theorem upTo_stop (holds : P ts s.feed) (shown : terminator.holds (ts.headD last) = true) :
    (upTo accept ((Pattern.satisfy terminator).read (fuel + 1)) ((Pattern.satisfy c).read (fuel + 1))
      (turns + 1) sofar).ComesTo P s (some sofar) ts := by
  have test := perform_testPeek_satisfy terminator fuel s
  rw [follows.peek holds, shown] at test
  exact ⟨s, by rw [upTo_succ, perform_bind_ok test]; rfl, holds, rfl⟩

/-- Where nothing ends it, the loop goes on with an item. -/
theorem upTo_turn (holds : P ts s.feed) (shown : terminator.holds (ts.headD last) = false)
    (goesOn : (turn accept ((Pattern.satisfy c).read (fuel + 1))
      (upTo accept ((Pattern.satisfy terminator).read (fuel + 1))
        ((Pattern.satisfy c).read (fuel + 1)) turns) sofar).ComesTo P s result later) :
    (upTo accept ((Pattern.satisfy terminator).read (fuel + 1)) ((Pattern.satisfy c).read (fuel + 1))
      (turns + 1) sofar).ComesTo P s result later := by
  have test := perform_testPeek_satisfy terminator fuel s
  rw [follows.peek holds, shown] at test
  obtain ⟨after, run, left, kept⟩ := goesOn
  exact ⟨after, by rw [upTo_succ, perform_bind_ok test]; exact run, left, kept⟩

variable (unhalted : ∀ {ahead s}, P ahead s → (Feed.consume s).halt = none)

include unhalted

/-- It is given up where the item does not pass, or where there is none. -/
theorem upTo_refuse (holds : P ts s.feed) (shown : terminator.holds (ts.headD last) = false)
    (fails : ∀ t ∈ ts.head?, c.holds t = false) :
    (upTo accept ((Pattern.satisfy terminator).read (fuel + 1)) ((Pattern.satisfy c).read (fuel + 1))
      (turns + 1) sofar).ComesTo P s none ts := by
  refine upTo_turn follows holds shown ?_
  have refused := comesTo_satisfy_none follows unhalted fuel holds fails
  exact refused.bind fun _ left _ => comesTo_pure left

variable (fuel) in
/-- It goes on behind the items that pass and are no terminators. -/
theorem upTo_items (inside : ∀ t ∈ us, terminator.holds t = false ∧ c.holds t = true)
    (folded : (us.map Token.toValue).foldlM accept sofar = .ok gathered)
    (holds : P (us ++ rest) s.feed)
    (goesOn : ∀ t : Session Memory σ, P rest t.feed →
      (upTo accept ((Pattern.satisfy terminator).read (fuel + 1)) ((Pattern.satisfy c).read (fuel + 1))
        turns gathered).ComesTo P t result later) :
    (upTo accept ((Pattern.satisfy terminator).read (fuel + 1)) ((Pattern.satisfy c).read (fuel + 1))
      (turns + us.length) sofar).ComesTo P s result later := by
  induction us generalizing s sofar with
  | nil =>
      cases folded
      exact goesOn s holds
  | cons t us ih =>
      obtain ⟨⟨inner, passes⟩, others⟩ := List.forall_mem_cons.mp inside
      rw [List.map_cons, List.foldlM_cons] at folded
      cases accepts : accept sofar t.toValue with
      | error refusal =>
          rw [accepts] at folded
          cases folded
      | ok next =>
          rw [accepts] at folded
          have gathers : (gather accept sofar t.toValue : Read Memory σ _) = pure (some next) := by
            rw [gather, accepts]
          have first := comesTo_satisfy follows unhalted fuel holds passes
          refine upTo_turn follows holds inner (first.bind fun u left _ => ?_)
          dsimp only
          rw [gathers, pure_bind]
          exact ih others folded left

end Loop

end Read

/-! ### Items up to a token -/

namespace Pattern

section UpTo

variable {σ : Type} [Feed σ]

/-- Tokens over which items up to a terminator go on: none is a terminator, and all pass. -/
def Inside (terminator c : Condition) (ts : List Token) : Prop :=
  ∀ t ∈ ts, terminator.holds t = false ∧ c.holds t = true

/-- What items up to a terminator make of the tokens `ts`.  If all tokens before the first terminator
    pass, they are read, and the terminator stays to be taken.  If one of them does not pass, nothing is
    read, and it stays to be taken.  If all tokens pass and none is a terminator, nothing is read and
    all of them are gone.  Only a token that is shown behind them without being one of them can end them
    as a terminator, and then they are read. -/
structure UpTo (P : List Token → σ → Prop) (last : Token) (terminator c : Condition) (ts : List Token)
    (r : Read Memory σ (Option Value)) (s : Session Memory σ) : Prop where
  found : ∀ before t behind, ts = before ++ t :: behind → Inside terminator c before →
    terminator.holds t = true → r.ComesTo P s (some (.list (before.map Token.toValue))) (t :: behind)
  refused : ∀ before t behind, ts = before ++ t :: behind → Inside terminator c before →
    terminator.holds t = false → c.holds t = false → r.ComesTo P s none (t :: behind)
  missing : Inside terminator c ts → last ∈ ts ∨ terminator.holds last = false →
    r.ComesTo P s none []
  shown : Inside terminator c ts → terminator.holds last = true →
    r.ComesTo P s (some (.list (ts.map Token.toValue))) []

variable {last : Token} {P : List Token → σ → Prop} (follows : Follows last P)
  (unhalted : ∀ {ahead s}, P ahead s → (Feed.consume s).halt = none)

include follows unhalted

/-- The tokens over which it goes on are gathered, and what stands behind them ends it. -/
theorem upTo_comesTo {terminator c : Condition} (folding : Folding) {s : Session Memory σ}
    {us rest : List Token} {gathered : Tally} (inside : Inside terminator c us)
    (folded : (us.map Token.toValue).foldlM Tally.accept folding.fold.start = .ok gathered)
    (holds : P (us ++ rest) s.feed) {fuel : Nat} (enough : us.length < fuel) :
    let r := (Pattern.upTo (.satisfy terminator) folding (.satisfy c)).read (fuel + 1)
    (terminator.holds (rest.headD last) = true → r.ComesTo P s (some gathered.finish) rest) ∧
    (terminator.holds (rest.headD last) = false → (∀ t ∈ rest.head?, c.holds t = false) →
      r.ComesTo P s none rest) := by
  intro r
  obtain ⟨turns, split⟩ : ∃ turns, fuel = turns + 1 + us.length := ⟨fuel - us.length - 1, by omega⟩
  obtain ⟨depth, rfl⟩ : ∃ k, fuel = k + 1 := ⟨fuel - 1, by omega⟩
  have loop : ∀ {result : Option Tally} {later : List Token},
      (∀ t : Session Memory σ, P rest t.feed →
        (Read.upTo Tally.accept ((Pattern.satisfy terminator).read (depth + 1))
          ((Pattern.satisfy c).read (depth + 1)) (turns + 1) gathered).ComesTo P t result later) →
      r.ComesTo P s (result.map Tally.finish) later := by
    intro result later goesOn
    have run := Read.upTo_items follows depth unhalted inside folded holds goesOn
    rw [← split] at run
    exact run.map (Option.map Tally.finish)
  constructor
  · intro shown
    exact loop fun t left => Read.upTo_stop follows left shown
  · intro shown fails
    exact loop fun t left => Read.upTo_refuse follows unhalted left shown fails

theorem upTo_of_tokens (terminator c : Condition) {s : Session Memory σ} {ts : List Token}
    (holds : P ts s.feed) {fuel : Nat} (enough : ts.length < fuel) :
    UpTo P last terminator c ts
      ((Pattern.upTo (.satisfy terminator) { fold := .list } (.satisfy c)).read (fuel + 1)) s := by
  have read : ∀ us rest : List Token, Inside terminator c us → P (us ++ rest) s.feed →
      us.length < fuel → let r := (Pattern.upTo (.satisfy terminator) { fold := .list }
        (.satisfy c)).read (fuel + 1)
      (terminator.holds (rest.headD last) = true →
        r.ComesTo P s (some (.list (us.map Token.toValue))) rest) ∧
      (terminator.holds (rest.headD last) = false → (∀ t ∈ rest.head?, c.holds t = false) →
        r.ComesTo P s none rest) := by
    intro us rest inside left enough
    have folded := foldlM_accept_list (us.map Token.toValue) []
    have run := upTo_comesTo follows unhalted { fold := .list } inside folded left enough
    rwa [Tally.finish, List.append_nil, List.reverse_reverse] at run
  refine ⟨?_, ?_, ?_, ?_⟩
  · rintro before t behind rfl inside ends
    rw [List.length_append] at enough
    exact (read before (t :: behind) inside holds (by omega)).1 ends
  · rintro before t behind rfl inside goesOn fails
    rw [List.length_append] at enough
    refine (read before (t :: behind) inside holds (by omega)).2 goesOn ?_
    rintro _ ⟨rfl⟩
    exact fails
  · intro inside different
    have goesOn : terminator.holds last = false := different.elim (fun mem => (inside last mem).1) id
    exact (read ts [] inside (by rwa [List.append_nil]) enough).2 goesOn (by simp)
  · intro inside ends
    exact (read ts [] inside (by rwa [List.append_nil]) enough).1 ends

/-- So are characters, into a text. -/
theorem textUpTo_comesTo {terminator c : Condition} {s : Session Memory σ} {w : List Char}
    {rest : List Token} (inside : Inside terminator c (w.map .char))
    (holds : P (w.map .char ++ rest) s.feed) {fuel : Nat} (enough : w.length < fuel) :
    let r := (textUpTo (.satisfy c) (.satisfy terminator)).read (fuel + 1)
    (terminator.holds (rest.headD last) = true →
      r.ComesTo P s (some (.text (String.ofList w))) rest) ∧
    (terminator.holds (rest.headD last) = false → (∀ t ∈ rest.head?, c.holds t = false) →
      r.ComesTo P s none rest) := by
  have folded : ((w.map Token.char).map Token.toValue).foldlM Tally.accept asText.fold.start =
      .ok (.text (String.ofList w)) := by
    have gathered := foldlM_accept_text w ""
    rw [String.empty_append] at gathered
    rw [List.map_map]
    exact gathered
  exact upTo_comesTo follows unhalted asText inside folded holds (by rwa [List.length_map])

end UpTo

/-! ### Texts between brackets -/

section Rules

variable {σ : Type} {P : List Token → σ → Prop} {s : Session Memory σ} {us vs rest : List Token}
  {v w : Value} {fuel : Nat}

theorem comesTo_char [Feed σ] {last : Token} (follows : Follows last P)
    (unhalted : ∀ {ahead s}, P ahead s → (Feed.consume s).halt = none) {c : Char}
    (holds : P (.char c :: rest) s.feed) :
    ((char c).read (fuel + 1)).ComesTo P s (some (.char c)) rest :=
  Read.comesTo_satisfy follows unhalted fuel holds (beq_self_eq_true _)

theorem comesTo_between [Feed σ] {left right item : Pattern} {l r : Value}
    (opening : (left.read fuel).ComesTo P s (some l) us)
    (inner : ∀ t : Session Memory σ, P us t.feed → (item.read fuel).ComesTo P t (some v) vs)
    (closing : ∀ t : Session Memory σ, P vs t.feed → (right.read fuel).ComesTo P t (some r) rest) :
    ((Pattern.surround (some left) (some right) item).read (fuel + 1)).ComesTo P s (some v) rest := by
  refine (opening.map Option.isSome).bind fun t left _ => ?_
  refine (inner t left).bind fun u left _ => ?_
  exact ((closing u left).map Option.isSome).bind fun _ left _ => Read.comesTo_pure left

theorem comesTo_sequence {r : Read Memory σ (Option Value)} {rs : List (Read Memory σ (Option Value))}
    (result : Option (List Value)) (first : r.ComesTo P s (some v) us)
    (others : ∀ t : Session Memory σ, P us t.feed → (Read.sequence rs).ComesTo P t result rest) :
    (Read.sequence (r :: rs)).ComesTo P s (result.map (v :: ·)) rest := by
  refine first.bind fun t left _ => ?_
  refine (others t left).bind fun u left _ => ?_
  cases result <;> exact Read.comesTo_pure left

theorem comesTo_sequence_none {r : Read Memory σ (Option Value)}
    (rs : List (Read Memory σ (Option Value))) (first : r.ComesTo P s none rest) :
    (Read.sequence (r :: rs)).ComesTo P s none rest :=
  first.bind fun _ left _ => Read.comesTo_pure left

/-- Two parts are read one after the other. -/
theorem comesTo_pair [Feed σ] {p q : Pattern} (first : (p.read fuel).ComesTo P s (some v) us)
    (second : ∀ t : Session Memory σ, P us t.feed → (q.read fuel).ComesTo P t (some w) rest) :
    ((Pattern.tuple [p, q]).read (fuel + 1)).ComesTo P s (some (.pair v w)) rest := by
  have parts : (Read.sequence [p.read fuel, q.read fuel]).ComesTo P s (some [v, w]) rest :=
    comesTo_sequence (some [w]) first fun t left =>
      comesTo_sequence (some []) (second t left) fun _ left => Read.comesTo_pure left
  exact parts.map (Option.map Value.tuple)

theorem comesTo_pair_none [Feed σ] {p : Pattern} (q : Pattern)
    (first : (p.read fuel).ComesTo P s none rest) :
    ((Pattern.tuple [p, q]).read (fuel + 1)).ComesTo P s none rest := by
  have parts : (Read.sequence [p.read fuel, q.read fuel]).ComesTo P s none rest :=
    comesTo_sequence_none _ first
  exact parts.map (Option.map Value.tuple)

/-- A second part that is not read takes the first one with it. -/
theorem comesTo_pair_cut [Feed σ] {p q : Pattern} (first : (p.read fuel).ComesTo P s (some v) us)
    (second : ∀ t : Session Memory σ, P us t.feed → (q.read fuel).ComesTo P t none rest) :
    ((Pattern.tuple [p, q]).read (fuel + 1)).ComesTo P s none rest := by
  have parts : (Read.sequence [p.read fuel, q.read fuel]).ComesTo P s none rest :=
    comesTo_sequence none first fun t left => comesTo_sequence_none _ (second t left)
  exact parts.map (Option.map Value.tuple)

theorem comesTo_convert [Feed σ] {item : Pattern} {conversion : Conversion}
    (inner : (item.read fuel).ComesTo P s (some v) rest) (forward : conversion.forward v = .ok w) :
    ((Pattern.convert item conversion).read (fuel + 1)).ComesTo P s (some w) rest := by
  refine inner.bind fun t left _ => ?_
  dsimp only
  rw [forward]
  exact Read.comesTo_pure left

theorem comesTo_convert_none [Feed σ] {item : Pattern} (conversion : Conversion)
    (inner : (item.read fuel).ComesTo P s none rest) :
    ((Pattern.convert item conversion).read (fuel + 1)).ComesTo P s none rest :=
  inner.bind fun _ left _ => Read.comesTo_pure left

end Rules

section Quoted

variable {σ : Type} [Feed σ] {last : Token} {P : List Token → σ → Prop} {opening closing : Char}
  {w : List Char} {fuel : Nat}

/-- Characters between brackets are read as text. -/
theorem quoted_comesTo (follows : Follows last P)
    (unhalted : ∀ {ahead s}, P ahead s → (Feed.consume s).halt = none) {rest : List Token}
    {s : Session Memory σ} (free : closing ∉ w)
    (holds : P (.char opening :: (w.map .char ++ .char closing :: rest)) s.feed)
    (enough : w.length < fuel) :
    ((quoted opening closing (.satisfy .any)).read (fuel + 2)).ComesTo P s
      (some (.text (String.ofList w))) rest := by
  have inside : Inside (.equal (.char closing)) .any (w.map .char) := by
    intro t mem
    obtain ⟨c, among, rfl⟩ := List.mem_map.mp mem
    refine ⟨?_, rfl⟩
    have different : c ≠ closing := fun same => free (same ▸ among)
    simpa [Condition.holds] using different
  refine comesTo_between (comesTo_char follows unhalted holds) (fun t left => ?_)
    fun t left => comesTo_char follows unhalted left
  exact (textUpTo_comesTo follows unhalted inside left enough).1 (beq_self_eq_true _)

/-- They are written back between them. -/
theorem quoted_gives :
    ((quoted opening closing (.satisfy .any)).write (fuel + 3) (.text (String.ofList w))).Gives
      (.char opening :: (w.map .char ++ [.char closing])) := by
  have listed : asText.items (.text (String.ofList w)) = .ok (w.map .char) := by
    show Except.ok ((String.ofList w).toList.map Value.char) = _
    rw [String.toList_ofList]
  have items : (Write.ofExcept (asText.items (.text (String.ofList w))) : Write Memory _).Gives
      (w.map .char) := by
    rw [listed]
    exact Write.gives_pure _
  have text : ((textUpTo (.satisfy .any) (char closing)).write (fuel + 2)
      (.text (String.ofList w))).Gives (w.map .char) :=
    items.bind (gives_chars fun _ _ => Write.gives_pure _)
  have before : (writeBracket (write (fuel + 2)) (char opening)).Gives [.char opening] :=
    gives_bracket (some (.char opening)) (fuel + 1)
  have behind : (writeBracket (write (fuel + 2)) (char closing)).Gives [.char closing] :=
    gives_bracket (some (.char closing)) (fuel + 1)
  exact gives_between before text behind

end Quoted

/-! ### Lines -/

end Pattern

/-- Whether a character ends a line. -/
def Text.isBreak (c : Char) : Bool :=
  c == '\r' || c == '\n'

/-- The line ends with a line break, and has no other one. -/
def Text.IsLine (line : List Char) : Prop :=
  ∃ body c, line = body ++ [c] ∧ isBreak c = true ∧ ∀ d ∈ body, isBreak d = false

/-- The lines of a text, up to its last line break, and what comes behind that. -/
structure Text.Lined (text : List Char) (lines : List (List Char)) (tail : List Char) : Prop where
  whole : text = lines.flatten ++ tail
  each : ∀ line ∈ lines, IsLine line
  free : ∀ c ∈ tail, isBreak c = false

/-- Every text is made of lines. -/
theorem Text.exists_lined (text : List Char) : ∃ lines tail, Lined text lines tail := by
  induction text with
  | nil => exact ⟨[], [], rfl, by simp, by simp⟩
  | cons c text ih =>
      obtain ⟨lines, tail, rfl, each, free⟩ := ih
      cases ends : isBreak c with
      | true =>
          have first : IsLine [c] := ⟨[], c, rfl, ends, by simp⟩
          exact ⟨[c] :: lines, tail, rfl, List.forall_mem_cons.mpr ⟨first, each⟩, free⟩
      | false =>
          cases lines with
          | nil => exact ⟨[], c :: tail, rfl, by simp, List.forall_mem_cons.mpr ⟨ends, free⟩⟩
          | cons line lines =>
              obtain ⟨⟨body, d, rfl, breaks, none⟩, others⟩ := List.forall_mem_cons.mp each
              have longer : IsLine (c :: (body ++ [d])) :=
                ⟨c :: body, d, rfl, breaks, List.forall_mem_cons.mpr ⟨ends, none⟩⟩
              exact ⟨(c :: (body ++ [d])) :: lines, tail, rfl,
                List.forall_mem_cons.mpr ⟨longer, others⟩, free⟩

theorem Text.length_le_of_lines {lines : List (List Char)} (each : ∀ line ∈ lines, IsLine line) :
    lines.length ≤ lines.flatten.length := by
  rw [List.length_flatten, ← List.length_map List.length]
  apply List.length_le_sum_of_one_le
  intro n mem
  obtain ⟨line, among, rfl⟩ := List.mem_map.mp mem
  obtain ⟨body, c, rfl, _⟩ := each line among
  simp

namespace Pattern

/-- The condition that line breaks meet. -/
def breaks : Condition :=
  .label "newline" (.oneOf [.char '\r', .char '\n'])

theorem holds_breaks (c : Char) : breaks.holds (.char c) = Text.isBreak c := by
  simp only [breaks, Condition.holds, Text.isBreak, List.contains_cons, List.contains_nil,
    Bool.or_false, beq_eq_decide, Token.char.injEq]

section Lines

variable {σ : Type} [Feed σ] {last : Token} {P : List Token → σ → Prop} (follows : Follows last P)
  (unhalted : ∀ {ahead s}, P ahead s → (Feed.consume s).halt = none)
  {s : Session Memory σ} {body : List Char} {fuel : Nat}

theorem inside_breaks (free : ∀ c ∈ body, Text.isBreak c = false) :
    Inside breaks .any (body.map .char) := by
  intro t mem
  obtain ⟨c, among, rfl⟩ := List.mem_map.mp mem
  exact ⟨(holds_breaks c).trans (free c among), rfl⟩

include follows unhalted

/-- A line is read with its line break. -/
theorem line_comesTo {line : List Char} {rest : List Token} (isLine : Text.IsLine line)
    (holds : P (line.map .char ++ rest) s.feed) (enough : line.length < fuel) :
    (Pattern.line.read (fuel + 3)).ComesTo P s (some (.text (String.ofList line))) rest := by
  obtain ⟨body, c, rfl, ends, free⟩ := isLine
  have shorter : body.length < fuel := by
    rw [List.length_append] at enough
    omega
  rw [List.map_append, List.append_assoc] at holds
  have meets : breaks.holds (.char c) = true := (holds_breaks c).trans ends
  have before := (textUpTo_comesTo follows unhalted (inside_breaks free) holds shorter).1 meets
  have behind : ∀ t : Session Memory σ, P (.char c :: rest) t.feed →
      (lineBreak.read (fuel + 1)).ComesTo P t (some (.char c)) rest := fun t left =>
    Read.comesTo_satisfy follows unhalted fuel left meets
  have both := comesTo_pair before behind
  refine comesTo_convert both ?_
  show Except.ok (Value.text ((String.ofList body).push c)) = _
  congr 2
  apply String.toList_injective
  simp

/-- What has no line break behind it is taken, but not read, even if one is shown behind the end. -/
theorem line_comesTo_none (free : ∀ c ∈ body, Text.isBreak c = false)
    (holds : P (body.map .char) s.feed) (enough : body.length < fuel) :
    (Pattern.line.read (fuel + 3)).ComesTo P s none [] := by
  rw [← List.append_nil (body.map _)] at holds
  have whole := textUpTo_comesTo follows unhalted (inside_breaks free) holds enough
  refine comesTo_convert_none _ ?_
  cases shown : breaks.holds last with
  | true =>
      refine comesTo_pair_cut (whole.1 shown) fun t left => ?_
      exact Read.comesTo_satisfy_none follows unhalted (fuel + 1) left (by simp)
  | false => exact comesTo_pair_none _ (whole.2 shown (by simp))

variable (fuel) in
/-- Lines are read one after the other. -/
theorem repeats_lines {lines : List (List Char)} {rest : List Token}
    (each : ∀ line ∈ lines, Text.IsLine line) (holds : P (lines.flatten.map .char ++ rest) s.feed)
    (enough : lines.flatten.length < fuel) :
    ∃ t, Read.Repeats (Pattern.line.read (fuel + 3)) s
        (lines.map fun line => .text (String.ofList line)) t ∧
      P rest t.feed ∧ t.memory = s.memory := by
  let pieces : List (List Token × Value) :=
    lines.map fun line => (line.map .char, .text (String.ofList line))
  have tokens : pieces.flatMap Prod.fst = lines.flatten.map .char := by
    rw [List.map_flatten, List.flatMap_map]
    rfl
  have values : pieces.map Prod.snd = lines.map fun line => .text (String.ofList line) := by
    rw [List.map_map]
    rfl
  rw [← values]
  refine Read.repeats_pieces ?_ (by rwa [tokens])
  intro piece mem t rest left
  obtain ⟨line, among, rfl⟩ := List.mem_map.mp mem
  have short := (List.sublist_flatten_of_mem among).length_le
  exact line_comesTo follows unhalted (each line among) left (by omega)

variable (fuel) in
/-- The lines of a text are read one after the other, and the rest of it is taken. -/
theorem lines_comesTo {text tail : List Char} {lines : List (List Char)}
    (lined : Text.Lined text lines tail) (holds : P (text.map .char) s.feed)
    (few : text.length ≤ Bounds.unlimited) (enough : text.length < fuel) :
    ((Pattern.repeated { fold := .list } Pattern.line .many true).read (fuel + 4)).ComesTo P s
      (some (.list (lines.map fun line => .text (String.ofList line)))) [] := by
  obtain ⟨rfl, each, free⟩ := lined
  let values : List Value := lines.map fun line => .text (String.ofList line)
  have size : values.length = lines.length := List.length_map _
  have count := Text.length_le_of_lines each
  rw [List.map_append] at holds
  rw [List.length_append] at few enough
  have brief : tail.length < fuel := by omega
  obtain ⟨t, repeats, left, kept⟩ : ∃ t, Read.Repeats _ s values t ∧ _ :=
    repeats_lines follows unhalted fuel each holds (by omega)
  have folded := foldlM_accept_list values []
  obtain ⟨turns, split⟩ : ∃ turns, fuel + 3 = turns + 1 + values.length :=
    ⟨fuel + 2 - values.length, by omega⟩
  have most : Bounds.many.keep values.length (Tally.list (values.reverse ++ [])) =
      some (.list (values.reverse ++ [])) :=
    if_pos ⟨Nat.zero_le _, show values.length ≤ Bounds.unlimited by omega⟩
  have loop : (Read.repeated (fuel + 3) Tally.accept (.list []) .many
      (Pattern.line.read (fuel + 3))).ComesTo P s (some (.list (values.reverse ++ []))) [] := by
    rcases (show values.length ≤ Bounds.unlimited by omega).lt_or_eq with short | full
    · obtain ⟨u, last, gone, same⟩ := line_comesTo_none follows unhalted free left brief
      have run := repeats.perform_short .many turns folded short last
      rw [← split, most] at run
      exact ⟨u, run, gone, same.trans kept⟩
    · -- as many lines as can be counted: each is a line break, and nothing comes behind them
      obtain rfl : tail = [] := List.eq_nil_of_length_eq_zero (by omega)
      have run := repeats.perform_full .many turns folded full
      rw [← split, most] at run
      exact ⟨t, run, left, kept⟩
  have whole := loop.map (Option.map Tally.finish)
  rwa [Option.map_some, Tally.finish, List.append_nil, List.reverse_reverse] at whole

end Lines

end Pattern

/-- The lines of a text are what a grammar of lines reads from it. -/
theorem Grammar.readText_lines {text tail : List Char} {lines : List (List Char)}
    (lined : Text.Lined text lines tail) (ne : text ≠ []) (few : text.length ≤ Bounds.unlimited)
    (memory : Memory) {fuel : Nat} (enough : text.length < fuel) :
    (Grammar.readText ⟨.repeated { fold := .list } Pattern.line .many true, memory, fuel + 4⟩
      (String.ofList text)).result =
        .ok (some (.list (lines.map fun line => .text (String.ofList line)))) := by
  obtain ⟨s, made, _, left⟩ := Input.ofText_chars ne stringFile
  obtain ⟨last, raw, stands⟩ := Input.exists_stands (s := s) (by simpa [left] using ne)
  obtain ⟨after, run, _⟩ := Pattern.lines_comesTo Input.follows
    (fun standing => Input.unhalted standing.1) fuel lined (s := { feed := s, memory := memory })
    ⟨left, raw, stands⟩ few enough
  rw [Grammar.readText, made]
  exact congrArg Prod.fst run

namespace Pattern

/-- Items up to a terminator stop right before the first one.  On every feed that hands out the tokens
    `ts`, and shows `last` behind them, items of one condition up to another are read, refused or
    missing as `UpTo` says.  So a text between two brackets that does not have the closing one inside
    is read up to it, with whatever comes behind, and is written back between them; and every text is
    made of lines, which are what is read from it line by line, while what comes behind the last line
    break is gone. -/
theorem upTo_stops_before :
    (∀ {σ : Type} [Feed σ] {last : Token} {P : List Token → σ → Prop}, Follows last P →
      (∀ {ahead s}, P ahead s → (Feed.consume s).halt = none) →
      ∀ (terminator c : Condition) (s : Session Memory σ) (ts : List Token) (fuel : Nat), P ts s.feed →
        ts.length < fuel → UpTo P last terminator c ts
          ((Pattern.upTo (.satisfy terminator) { fold := .list } (.satisfy c)).read (fuel + 1)) s) ∧
    (∀ (opening closing : Char) (w : List Char), closing ∉ w →
      (∀ {σ : Type} [Feed σ] {last : Token} {P : List Token → σ → Prop}, Follows last P →
        (∀ {ahead s}, P ahead s → (Feed.consume s).halt = none) →
        ∀ (s : Session Memory σ) (rest : List Token) (fuel : Nat),
          P (.char opening :: (w.map .char ++ .char closing :: rest)) s.feed → w.length < fuel →
          ((quoted opening closing (.satisfy .any)).read (fuel + 2)).ComesTo P s
            (some (.text (String.ofList w))) rest) ∧
      ∀ fuel, ((quoted opening closing (.satisfy .any)).write (fuel + 3)
        (.text (String.ofList w))).Gives (.char opening :: (w.map .char ++ [.char closing]))) ∧
    (∀ text, ∃ lines tail, Text.Lined text lines tail) ∧
    ∀ (text : List Char) (lines : List (List Char)) (tail : List Char), Text.Lined text lines tail →
      text.length < UInt64.size →
      let p : Pattern := .repeated { fold := .list } line .many true
      let v : Value := .list (lines.map fun line => .text (String.ofList line))
      (∀ {σ : Type} [Feed σ] {last : Token} {P : List Token → σ → Prop}, Follows last P →
        (∀ {ahead s}, P ahead s → (Feed.consume s).halt = none) →
        ∀ (s : Session Memory σ) (fuel : Nat), P (text.map .char) s.feed → text.length < fuel →
          (p.read (fuel + 4)).ComesTo P s (some v) []) ∧
      ∀ (memory : Memory) (fuel : Nat), text ≠ [] → text.length < fuel →
        (Grammar.readText ⟨p, memory, fuel + 4⟩ (String.ofList text)).result = .ok (some v) := by
  refine ⟨?_, ?_, Text.exists_lined, ?_⟩
  · intro σ _ last P follows unhalted terminator c s ts fuel holds enough
    exact upTo_of_tokens follows unhalted terminator c holds enough
  · intro opening closing w free
    refine ⟨?_, fun _ => quoted_gives⟩
    intro σ _ last P follows unhalted s rest fuel holds enough
    exact quoted_comesTo follows unhalted free holds enough
  · intro text lines tail lined size p v
    have few : text.length ≤ Bounds.unlimited := Nat.le_pred_of_lt size
    refine ⟨?_, ?_⟩
    · intro σ _ last P follows unhalted s fuel holds enough
      exact lines_comesTo follows unhalted fuel lined holds few enough
    · intro memory fuel ne enough
      exact Grammar.readText_lines lined ne few memory enough

/-- A field is read up to the semicolon behind it, and missed where there is none; a quoted word is read
    from within its quotes; and of three lines the last one has no line break. -/
theorem upTo_stops_before_field :
    let field : Pattern := .upTo (char ';') { fold := .list } (.satisfy .any)
    let abc : Value := .list [.char 'a', .char 'b', .char 'c']
    (field.read 7).ComesTo (Stands (.char 'd'))
      { feed := (⟨Token.ofText "bc;d", .char 'a', false⟩ : Pulled), memory := .empty } (some abc)
        (Token.ofText ";d") ∧
    (field.read 5).ComesTo (Stands (.char 'c'))
      { feed := (⟨Token.ofText "bc", .char 'a', false⟩ : Pulled), memory := .empty } none [] ∧
    ((quoted '<' '>' (.satisfy .any)).read 5).ComesTo (Stands (.char '!'))
      { feed := (⟨Token.ofText "hi>!", .char '<', false⟩ : Pulled), memory := .empty }
      (some (.text "hi")) [.char '!'] ∧
    ((quoted '<' '>' (.satisfy .any)).write 3 (.text "hi")).Gives (Token.ofText "<hi>") ∧
    (Grammar.readText ⟨.repeated { fold := .list } line .many true, .empty, 9⟩
      "a\n\nb").result = .ok (some (.list [.text "a\n", .text "\n"])) := by
  intro field abc
  have free : ∀ t ∈ Token.ofText "abc",
      (Condition.equal (.char ';')).holds t = false ∧ Condition.any.holds t = true := by decide
  refine ⟨?_, ?_, ?_, ?_, ?_⟩
  · have holds : Stands (.char 'd') (Token.ofText "abc;d")
        (⟨Token.ofText "bc;d", .char 'a', false⟩ : Pulled) := ⟨rfl, by decide, by decide⟩
    have read := upTo_stops_before.1 Stands.follows Stands.unhalted (.equal (.char ';')) .any
      { feed := _, memory := .empty } _ 6 holds (by decide)
    exact read.found (Token.ofText "abc") (.char ';') [.char 'd'] rfl free (by decide)
  · have holds : Stands (.char 'c') (Token.ofText "abc")
        (⟨Token.ofText "bc", .char 'a', false⟩ : Pulled) := ⟨rfl, by decide, by decide⟩
    have read := upTo_stops_before.1 Stands.follows Stands.unhalted (.equal (.char ';')) .any
      { feed := _, memory := .empty } _ 4 holds (by decide)
    exact read.missing free (.inl (by decide))
  · have holds : Stands (.char '!') (Token.ofText "<hi>!")
        (⟨Token.ofText "hi>!", .char '<', false⟩ : Pulled) := ⟨rfl, by decide, by decide⟩
    exact (upTo_stops_before.2.1 '<' '>' ['h', 'i'] (by decide)).1 Stands.follows Stands.unhalted
      { feed := _, memory := .empty } [.char '!'] 3 holds (by decide)
  · exact (upTo_stops_before.2.1 '<' '>' ['h', 'i'] (by decide)).2 0
  · have lined : Text.Lined ['a', '\n', '\n', 'b'] [['a', '\n'], ['\n']] ['b'] := by
      refine ⟨rfl, ?_, by simp [Text.isBreak]⟩
      intro line mem
      rcases List.mem_pair.mp mem with rfl | rfl
      · exact ⟨['a'], '\n', rfl, rfl, by simp [Text.isBreak]⟩
      · exact ⟨[], '\n', rfl, rfl, by simp⟩
    exact (upTo_stops_before.2.2.2 _ _ _ lined (by decide)).2 .empty 5 (by simp) (by decide)

/-- A lexer hands out two letters and shows a dot behind them, which is none of its tokens.  Up to a dot
    both letters are read, though there is no dot to be taken. -/
theorem upTo_ended_by_lexer :
    let letter : Pattern := .satisfy (.range (.char 'a') (.char 'z'))
    let chars (n : Nat) : Input Slice := .ofFeed ⟨#[.char 'a', .char 'b'], n, by decide⟩ none
    let l : Lexer (Input Slice) :=
      ⟨chars 1, letter, 1, .empty, some (.char 'a'), .char '.', none⟩
    (Lexer.ofFeed 1 (chars 0) letter .empty (.char '.')).1 = .ok l ∧
      ((Read.takeWhile 3 fun _ => true).perform { feed := l, memory := Memory.empty }).1 =
        .ok [.char 'a', .char 'b'] ∧
      (((Pattern.upTo (char '.') { fold := .list } (.satisfy .any)).read 4).perform
        { feed := l, memory := .empty }).1 = .ok (some (.list [.char 'a', .char 'b'])) := by
  refine ⟨?_, ?_, ?_⟩ <;> rfl

end Pattern

end Duplex
