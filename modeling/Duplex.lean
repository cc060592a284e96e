import Duplex.Combinator.Chain
import Duplex.Combinator.Join
import Duplex.Combinator.Outline
import Duplex.Combinator.Recovery
import Duplex.Combinator.Repeat
import Duplex.Combinator.Sequence
import Duplex.Condition
import Duplex.Decimal.Double
import Duplex.Decimal.Parse
import Duplex.Decimal.Radix
import Duplex.Decimal.Shortest
import Duplex.Fault
import Duplex.Feed.Any
import Duplex.Feed.Basic
import Duplex.Feed.Input
import Duplex.Feed.Lexer
import Duplex.Feed.Nested
import Duplex.Feed.Source
import Duplex.Fold
import Duplex.Grammar.Conversion
import Duplex.Grammar.Keywords
import Duplex.Grammar.Lexical
import Duplex.Grammar.Matched
import Duplex.Grammar.Operators
import Duplex.Grammar.Predicate
import Duplex.Journal
import Duplex.Location
import Duplex.Pattern.Basic
import Duplex.Pattern.Describe
import Duplex.Pattern.Memory
import Duplex.Pattern.Read
import Duplex.Pattern.Write
import Duplex.Read
import Duplex.Report
import Duplex.Run
import Duplex.State
import Duplex.Text.Case
import Duplex.Text.CharClass
import Duplex.Text.CodeRanges
import Duplex.Text.Glyph
import Duplex.Text.Quoted
import Duplex.Text.Regex
import Duplex.Text.Utf8
import Duplex.Token
import Duplex.Trie.Basic
import Duplex.Trie.Descent
import Duplex.Trie.Registry
import Duplex.Value.Basic
import Duplex.Value.Table
import Duplex.Value.Text
import Duplex.Write
import Duplex.Proofs.Likeness.Basic
import Duplex.Proofs.Likeness.Combinator
import Duplex.Proofs.Likeness.Pattern
import Duplex.Proofs.ErrorModes
import Duplex.Proofs.Cursor
import Duplex.Proofs.Precedence
import Duplex.Proofs.Predictive
import Duplex.Proofs.RoundTrip
import Duplex.Proofs.Outline.Lines
import Duplex.Proofs.Outline.Layers
import Duplex.Proofs.Outline.Shape
import Duplex.Proofs.Outline.RoundTrip
import Duplex.Proofs.Equality
import Duplex.Proofs.Trie.Paths
import Duplex.Proofs.Trie.FiniteMap
import Duplex.Proofs.Trie.Index
import Duplex.Proofs.Trie.History
import Duplex.Proofs.Trie.RoundTrip
import Duplex.Proofs.Outline.Rows
import Duplex.Proofs.Outline.Offside
import Duplex.Proofs.Watching
import Duplex.Proofs.Lookahead
import Duplex.Proofs.Conservation
import Duplex.Proofs.Showable
import Duplex.Proofs.Trie.Spellings
import Duplex.Proofs.Trie.Learning
import Duplex.Proofs.Calls
import Duplex.Proofs.LineBreaks
import Duplex.Proofs.Lexing
import Duplex.Proofs.Bytes
import Duplex.Proofs.Pieces
import Duplex.Proofs.Termination.Basic
import Duplex.Proofs.Termination.Combinator
import Duplex.Proofs.Termination.Parts
import Duplex.Proofs.Termination.Pattern
import Duplex.Proofs.Outline.Items
import Duplex.Proofs.Trie.Walk
import Duplex.Proofs.Places
import Duplex.Proofs.MissingOperand
import Duplex.Proofs.Recovery.Insist
import Duplex.Proofs.Recovery.Settle
import Duplex.Proofs.Recovery.Stacks
import Duplex.Proofs.Recovery.Brackets
import Duplex.Proofs.Repeating
import Duplex.Proofs.Numbers.Overflow
import Duplex.Proofs.Numbers.Literals
import Duplex.Proofs.Joining
import Duplex.Proofs.Reporting
import Duplex.Proofs.Spacing
import Duplex.Proofs.Bounds
import Duplex.Proofs.Terminators
import Duplex.Proofs.Lookup
import Duplex.Proofs.Trie.Dictionary
import Duplex.Proofs.Wording
import Duplex.Proofs.CaseBlind
import Duplex.Proofs.ByteFaults
import Duplex.Proofs.Describing
import Duplex.Proofs.DepthCounters
import Duplex.Proofs.Unfolding
