/-
Module: Duplex.Proofs.CaseBlind
Purpose: Two ways of matching a key in any case, for any mapping of characters to upper and lower case.
  Patterns in a row, one for each character, take every character that a mapping of it consists of;
  a trie holds the key at the spellings by mappings of one character alone.  Both accept the same
  texts unless a mapping of several characters brings in one that does not spell the character.
Main exports: Text.CaseMapping, CaseMapping.nocase, CaseMapping.Covers, CaseMapping.Spells,
  CaseMapping.Plain, Read.TakesAll, CaseMapping.nocase_agrees
-/
import Duplex.Grammar.Lexical
import Duplex.Proofs.Running
import Duplex.Proofs.Trie.FiniteMap

namespace Duplex

/-! ### Case mappings -/

namespace Text

/-- The lower and the upper case of each character, either of which may be several characters. -/
structure CaseMapping where
  lower : Char → List Char
  upper : Char → List Char

namespace CaseMapping

/-- The case of single characters in Unicode. -/
def unicode : CaseMapping :=
  ⟨lowerCase, upperCase⟩

variable (m : CaseMapping) {c x : Char} {key w : List Char}

/-- Every character that one case-blind occurrence of `c` may be written with. -/
def caseSet (c : Char) : List Char :=
  c :: (m.upper c ++ m.lower c).filter (· != c)

/-- Spellings with one more, if that is a single character and new. -/
def addSpelling (known mapped : List Char) : List Char :=
  if mapped.length = 1 then known ++ mapped.filter (!known.contains ·) else known

/-- The single characters that spell `c` in some case, `c` first and none twice. -/
def spellings (c : Char) : List Char :=
  [m.lower c, m.upper c].foldl addSpelling [c]

/-- A character in either case; as bracket it is written as given. -/
def nocase (c : Char) : Pattern :=
  .constant (.oneOf (m.caseSet c)) (.char c)

theorem nocase_unicode (c : Char) : unicode.nocase c = Pattern.nocase c :=
  rfl

theorem spellings_unicode : unicode.spellings = Text.spellings := by
  funext c
  rw [spellings, Text.spellings]
  congr 1
  funext known mapped
  rcases mapped with _ | ⟨v, _ | ⟨u, mapped⟩⟩
  · rfl
  · by_cases among : v ∈ known <;> simp [addSpelling, among]
  · simp [addSpelling]

/-! ### Accepted characters -/

/-- A character that a mapping of `c` consists of, or `c` itself. -/
def Offers (c x : Char) : Prop :=
  x = c ∨ x ∈ m.upper c ∨ x ∈ m.lower c

/-- A character that is a whole mapping of `c`, or `c` itself. -/
def IsSpelling (c x : Char) : Prop :=
  x = c ∨ m.upper c = [x] ∨ m.lower c = [x]

/-- Text of the same length as the key, character by character out of the mappings of the key. -/
abbrev Covers : List Char → List Char → Prop :=
  List.Forall₂ m.Offers

/-- Text of the same length as the key, which spells it character by character. -/
abbrev Spells : List Char → List Char → Prop :=
  List.Forall₂ m.IsSpelling

/-- A character with no mapping of several characters, unless all of these spell it anyway. -/
def Plain (c : Char) : Prop :=
  ∀ x, x ∈ m.upper c ∨ x ∈ m.lower c → m.IsSpelling c x

variable {m}

theorem mem_caseSet : x ∈ m.caseSet c ↔ m.Offers c x := by
  rw [caseSet, List.mem_cons, List.mem_filter, List.mem_append, bne_iff_ne]
  by_cases same : x = c <;> simp [Offers, same]

theorem mem_addSpelling {known mapped : List Char} :
    x ∈ addSpelling known mapped ↔ x ∈ known ∨ mapped = [x] := by
  rcases mapped with _ | ⟨v, _ | ⟨u, mapped⟩⟩
  · simp [addSpelling]
  · by_cases among : v ∈ known
    · have only : v = x → x ∈ known := fun same => same ▸ among
      simpa [addSpelling, among] using only
    · simp [addSpelling, among, eq_comm]
  · simp [addSpelling]

theorem mem_spellings : x ∈ m.spellings c ↔ m.IsSpelling c x := by
  rw [spellings, List.foldl_cons, List.foldl_cons, List.foldl_nil, mem_addSpelling, mem_addSpelling,
    List.mem_singleton, IsSpelling, or_assoc, or_comm (a := m.lower c = [x])]

theorem IsSpelling.covers (spells : m.IsSpelling c x) : m.Offers c x := by
  rcases spells with same | upper | lower
  · exact .inl same
  · exact .inr (.inl (upper ▸ List.mem_singleton_self x))
  · exact .inr (.inr (lower ▸ List.mem_singleton_self x))

/-- A character that is mapped to one character at a time is plain. -/
theorem plain_of_single {u l : Char} (upper : m.upper c = [u]) (lower : m.lower c = [l]) :
    m.Plain c := by
  rintro x (mem | mem)
  · rw [upper, List.mem_singleton] at mem
    exact .inr (.inl (mem ▸ upper))
  · rw [lower, List.mem_singleton] at mem
    exact .inr (.inr (mem ▸ lower))

theorem Plain.spells (plain : m.Plain c) (covers : m.Offers c x) : m.IsSpelling c x :=
  covers.elim .inl (plain x)

/-- Whatever spells a key is covered by it. -/
theorem Spells.covers (spells : m.Spells key w) : m.Covers key w :=
  spells.imp fun _ _ => IsSpelling.covers

/-- Everything that a key covers spells it exactly if its characters are plain: any other character
    can be put for the one it does not spell. -/
theorem covers_spells_iff :
    (∀ w, m.Covers key w → m.Spells key w) ↔ ∀ c ∈ key, m.Plain c := by
  constructor
  · intro spells c mem x mapped
    obtain ⟨front, rest, rfl⟩ := List.append_of_mem mem
    have own : ∀ cs : List Char, m.Covers cs cs := fun cs =>
      List.forall₂_same.mpr fun _ _ => .inl rfl
    have covers : m.Covers (front ++ c :: rest) (front ++ x :: rest) :=
      List.rel_append (own front) (.cons (.inr mapped) (own rest))
    have here := (List.forall₂_iff_get.mp (spells _ covers)).2 front.length (by simp) (by simp)
    simpa using here
  · intro plain w covers
    induction covers with
    | nil => exact .nil
    | cons first _ ih =>
        obtain ⟨here, others⟩ := List.forall_mem_cons.mp plain
        exact .cons (here.spells first) (ih others)

end CaseMapping

end Text

/-! ### Patterns in a row -/

/-- The read goes through with a value, and takes all tokens that are left. -/
def Read.TakesAll {σ : Type} [Feed σ] [LawfulFeed σ] (r : Read Memory σ (Option Value))
    (s : Session Memory σ) : Prop :=
  ∃ v t, r.perform s = (.ok (some v), t) ∧ remaining t.feed = []

/-- What is known to be taken and given tells whether all tokens are taken with a value. -/
theorem Read.Reads.takesAll_iff {σ : Type} [Feed σ] [LawfulFeed σ]
    {r : Read Memory σ (Option Value)} {s : Session Memory σ} {ts rest : List Token}
    {result : Option Value} (reads : r.Reads ts rest result) (left : remaining s.feed = ts ++ rest) :
    r.TakesAll s ↔ result.isSome ∧ rest = [] := by
  obtain ⟨t, run, feed, _⟩ := reads s left
  have behind : remaining t.feed = rest := by
    rw [feed]
    exact LawfulFeed.remaining_advance left
  constructor
  · rintro ⟨v, t', run', empty⟩
    rw [run, Prod.mk.injEq, Except.ok.injEq] at run'
    obtain ⟨rfl, rfl⟩ := run'
    exact ⟨rfl, behind.symm.trans empty⟩
  · rintro ⟨some, rfl⟩
    obtain ⟨v, rfl⟩ := Option.isSome_iff_exists.mp some
    exact ⟨v, t, run, behind⟩

namespace Text.CaseMapping

variable {m : CaseMapping} {c x : Char} {key w : List Char}

section Reading

variable {σ : Type} [Feed σ] [LawfulFeed σ]

theorem holds_caseSet :
    (Condition.oneOf ((m.caseSet c).map .char)).holds (.char x) = true ↔ m.Offers c x := by
  rw [← mem_caseSet]
  simp [Condition.holds]

theorem reads_nocase (covers : m.Offers c x) (fuel : Nat) (rest : List Token) :
    ((m.nocase c).read (fuel + 2) (σ := σ)).Reads [.char x] rest (some (.char x)) :=
  (Read.reads_consumeIf (holds_caseSet.mpr covers) rest).map (Option.map Token.toValue)

theorem reads_nocase_none (fuel : Nat) (uncovered : ∀ x ∈ w.head?, ¬ m.Offers c x) :
    ((m.nocase c).read (fuel + 2) (σ := σ)).Reads [] (w.map .char) none := by
  refine (Read.reads_consumeIf_none fun t first => ?_).map (Option.map Token.toValue)
  rw [List.head?_map] at first
  obtain ⟨x, is, rfl⟩ := Option.map_eq_some_iff.mp first
  exact Bool.eq_false_iff.mpr fun holds => uncovered x is (holds_caseSet.mp holds)

/-- The patterns of a key in a row read on as long as the text is covered by it. -/
theorem exists_reads_sequence (m : CaseMapping) (key w : List Char) (fuel : Nat) :
    ∃ ts rest result, w.map Token.char = ts ++ rest ∧
      (Read.sequence ((key.map m.nocase).map fun p => p.read (fuel + 2) (σ := σ))).Reads ts rest
        result ∧
      (result.isSome ∧ rest = [] ↔ m.Covers key w) := by
  induction key generalizing w with
  | nil =>
      refine ⟨[], w.map .char, some [], rfl, Read.reads_sequence_nil _, ?_⟩
      calc (some ([] : List Value)).isSome = true ∧ w.map Token.char = []
        _ ↔ w.map Token.char = [] := and_iff_right rfl
        _ ↔ w = [] := List.map_eq_nil_iff
        _ ↔ m.Covers [] w := List.forall₂_nil_left_iff.symm
  | cons c key ih =>
      cases w with
      | nil =>
          refine ⟨[], [], none, rfl,
            Read.reads_sequence_none _ (reads_nocase_none (w := []) fuel (by simp)), ?_⟩
          simp
      | cons x w =>
          by_cases covers : m.Offers c x
          · obtain ⟨ts, rest, result, split, reads, iff⟩ := ih w
            refine ⟨.char x :: ts, rest, result.map (.char x :: ·), congrArg (_ :: ·) split,
              Read.reads_sequence_cons (reads_nocase covers fuel _) reads, ?_⟩
            rw [Option.isSome_map, iff]
            exact ((and_iff_right covers).symm.trans List.forall₂_cons.symm)
          · refine ⟨[], (x :: w).map .char, none, rfl,
              Read.reads_sequence_none _ (reads_nocase_none fuel ?_), ?_⟩
            · rintro _ ⟨rfl⟩
              exact covers
            · simp [covers]

/-- The patterns of a key in a row take exactly the texts that it covers. -/
theorem takesAll_iff (fuel : Nat) {s : Session Memory σ} (left : remaining s.feed = w.map .char) :
    ((Pattern.sequence (key.map m.nocase)).read (fuel + 3)).TakesAll s ↔ m.Covers key w := by
  obtain ⟨ts, rest, result, split, reads, iff⟩ := exists_reads_sequence (σ := σ) m key w fuel
  have whole : ((Pattern.sequence (key.map m.nocase)).read (fuel + 3) (σ := σ)).Reads ts rest
      (result.map .list) := reads.map (Option.map Value.list)
  rw [whole.takesAll_iff (left.trans split), Option.isSome_map, iff]

end Reading

/-! ### Tries -/

/-- A trie holds a value at the texts that spell its key, and elsewhere what it held before. -/
theorem get?_insertSpelled {ν : Type} (m : CaseMapping) (key : List Char) (t : Trie Char ν) (v : ν)
    (w : List Char) :
    (m.Spells key w → (t.insertSpelled m.spellings key v).1.get? w = some v) ∧
      (¬ m.Spells key w → (t.insertSpelled m.spellings key v).1.get? w = t.get? w) := by
  have own : ∀ c, c ∈ m.spellings c := fun c => mem_spellings.mpr (.inl rfl)
  have iff : w ∈ Trie.spelled m.spellings key ↔ m.Spells key w := by
    rw [Trie.mem_spelled]
    simp only [mem_spellings]
  rw [Trie.insertSpelled_eq own, Trie.get?_insertPaths]
  exact ⟨fun spells => if_pos (iff.mpr spells), fun other => if_neg fun mem => other (iff.mp mem)⟩

/-! ### Agreement -/

/-- The two matchers of a key, for any case mapping, that of Unicode among them.  Patterns in a row
    take exactly the texts that are made of the mappings of the characters, one character for each; a
    trie holds the value exactly at those texts where each character is a whole mapping.  So what the
    trie holds is always taken in a row, and both accept the same texts exactly if all characters of
    the key are plain. -/
theorem nocase_agrees (m : CaseMapping) (key : List Char) :
    (∀ c, unicode.nocase c = Pattern.nocase c) ∧ unicode.spellings = Text.spellings ∧
    (∀ {σ : Type} [Feed σ] [LawfulFeed σ] (s : Session Memory σ) (w : List Char) (fuel : Nat),
      remaining s.feed = w.map .char →
        (((Pattern.sequence (key.map m.nocase)).read (fuel + 3)).TakesAll s ↔ m.Covers key w) ∧
        ∀ {ν : Type} (t : Trie Char ν) (v : ν),
          let holds := (t.insertSpelled m.spellings key v).1.get? w
          (m.Spells key w → holds = some v) ∧ (¬ m.Spells key w → holds = t.get? w) ∧
          (holds = some v → t.get? w ≠ some v →
            ((Pattern.sequence (key.map m.nocase)).read (fuel + 3)).TakesAll s) ∧
          ((∀ c ∈ key, m.Plain c) → t.get? w ≠ some v →
            (((Pattern.sequence (key.map m.nocase)).read (fuel + 3)).TakesAll s ↔
              holds = some v))) ∧
    ((∀ w, m.Covers key w → m.Spells key w) ↔ ∀ c ∈ key, m.Plain c) := by
  refine ⟨nocase_unicode, spellings_unicode, ?_, covers_spells_iff⟩
  intro σ _ _ s w fuel left
  have takes : ((Pattern.sequence (key.map m.nocase)).read (fuel + 3)).TakesAll s ↔ m.Covers key w :=
    takesAll_iff fuel left
  refine ⟨takes, fun {ν} t v => ?_⟩
  obtain ⟨spelled, other⟩ := get?_insertSpelled m key t v w
  have spells : (t.insertSpelled m.spellings key v).1.get? w = some v → t.get? w ≠ some v →
      m.Spells key w := by
    intro held fresh
    by_contra unspelled
    exact fresh ((other unspelled).symm.trans held)
  refine ⟨spelled, other, fun held fresh => takes.mpr (spells held fresh).covers, ?_⟩
  intro plain fresh
  rw [takes]
  exact ⟨fun covers => spelled (covers_spells_iff.mpr plain w covers),
    fun held => (spells held fresh).covers⟩

/-- The letters of a key in another case. -/
theorem nocase_agrees_letters :
    (∀ c ∈ ['O', 'r'], unicode.Plain c) ∧
    (((Pattern.sequence (['O', 'r'].map unicode.nocase)).read 3).TakesAll
      ({ feed := ⟨[.char 'R'], .char 'o', false⟩, memory := .empty } : Session Memory Pulled) ↔
      ((Trie.empty : Trie Char Nat).insertSpelled unicode.spellings ['O', 'r'] 1).1.get?
        ['o', 'R'] = some 1) := by
  have plain : ∀ c ∈ ['O', 'r'], unicode.Plain c :=
    List.forall_mem_cons.mpr ⟨plain_of_single (u := 'O') (l := 'o') (by decide) (by decide),
      List.forall_mem_singleton.mpr (plain_of_single (u := 'R') (l := 'r') (by decide) (by decide))⟩
  refine ⟨plain, ?_⟩
  obtain ⟨_, _, agrees, _⟩ := nocase_agrees unicode ['O', 'r']
  let s : Session Memory Pulled := { feed := ⟨[.char 'R'], .char 'o', false⟩, memory := .empty }
  exact ((agrees s ['o', 'R'] 0 rfl).2 Trie.empty 1).2.2.2 plain (by decide)

/-- The upper case of a sharp s is two letters.  Either of them is taken for it in a row, but the trie
    holds nothing at one of them. -/
theorem sharpS_disagrees :
    ((Pattern.sequence (['ß'].map Pattern.nocase)).read 3).TakesAll
      ({ feed := ⟨[], .char 'S', false⟩, memory := .empty } : Session Memory Pulled) ∧
    ((Trie.empty : Trie Char Nat).insertSpelled Text.spellings ['ß'] 1).1.get? ['S'] = none :=
  ⟨⟨.list [.char 'S'], _, rfl, rfl⟩, by decide⟩

end Text.CaseMapping

end Duplex
