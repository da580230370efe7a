import ShiftReduce.Analysis.Basic
import ShiftReduce.Analysis.First
import ShiftReduce.Analysis.Follow
import ShiftReduce.Analysis.Saturation
import ShiftReduce.Analysis.SymbolSet
import ShiftReduce.Automaton.Basic
import ShiftReduce.Automaton.Dot
import ShiftReduce.Bisection
import ShiftReduce.CommandLine.Arguments
import ShiftReduce.CommandLine.Manual
import ShiftReduce.CommandLine.Run
import ShiftReduce.Compilation
import ShiftReduce.Digest.Md5
import ShiftReduce.Display.Columns
import ShiftReduce.Display.Markup
import ShiftReduce.Display.Outline
import ShiftReduce.Display.Report
import ShiftReduce.Display.Width
import ShiftReduce.Files
import ShiftReduce.Grammar.Augment
import ShiftReduce.Grammar.Basic
import ShiftReduce.Grammar.Bnf
import ShiftReduce.Grammar.Builder
import ShiftReduce.Grammar.Error
import ShiftReduce.Grammar.Fingerprint
import ShiftReduce.Grammar.Production
import ShiftReduce.GrowingSet
import ShiftReduce.GrowingSet.Registry
import ShiftReduce.Item.Basic
import ShiftReduce.Item.Closure
import ShiftReduce.Main
import ShiftReduce.NestedText.Document
import ShiftReduce.NestedText.Line
import ShiftReduce.Overwriting
import ShiftReduce.Proofs.Analysis.Augmentation
import ShiftReduce.Proofs.Analysis.First
import ShiftReduce.Proofs.Analysis.FirstExact
import ShiftReduce.Proofs.Analysis.Follow
import ShiftReduce.Proofs.Analysis.FollowExact
import ShiftReduce.Proofs.Analysis.Overlap
import ShiftReduce.Proofs.Analysis.Renumbering
import ShiftReduce.Proofs.Analysis.SymbolSet
import ShiftReduce.Proofs.Automaton.Canonical
import ShiftReduce.Proofs.Automaton.Entrance
import ShiftReduce.Proofs.Automaton.Labels
import ShiftReduce.Proofs.Automaton.Numbering
import ShiftReduce.Proofs.Automaton.Origins
import ShiftReduce.Proofs.Automaton.Renumbering
import ShiftReduce.Proofs.Automaton.Survey
import ShiftReduce.Proofs.Automaton.ValidItems
import ShiftReduce.Proofs.Automaton.Worklist
import ShiftReduce.Proofs.Compilation.Cache
import ShiftReduce.Proofs.Compilation.Naming
import ShiftReduce.Proofs.Compilation.RuleOrder
import ShiftReduce.Proofs.Grammar.Arrangement
import ShiftReduce.Proofs.Grammar.Assembly
import ShiftReduce.Proofs.Grammar.Building
import ShiftReduce.Proofs.Grammar.Derivation
import ShiftReduce.Proofs.Grammar.Instructions
import ShiftReduce.Proofs.Grammar.Layout
import ShiftReduce.Proofs.Grammar.Offers
import ShiftReduce.Proofs.Grammar.Reading
import ShiftReduce.Proofs.Grammar.Renumbering
import ShiftReduce.Proofs.Grammar.Signature
import ShiftReduce.Proofs.Grammar.WellFormed
import ShiftReduce.Proofs.GrowingSet.Coherence
import ShiftReduce.Proofs.GrowingSet.Draining
import ShiftReduce.Proofs.GrowingSet.Registry
import ShiftReduce.Proofs.GrowingSet.Visiting
import ShiftReduce.Proofs.Item.Closure
import ShiftReduce.Proofs.Item.LeastClosure
import ShiftReduce.Proofs.Parser.Acceptance
import ShiftReduce.Proofs.Parser.Completeness
import ShiftReduce.Proofs.Parser.ErrorLocation
import ShiftReduce.Proofs.Parser.ExactForest
import ShiftReduce.Proofs.Parser.Outcome
import ShiftReduce.Proofs.Parser.Resumption
import ShiftReduce.Proofs.Parser.RightDerivation
import ShiftReduce.Proofs.Parser.Soundness
import ShiftReduce.Proofs.Parser.Splicing
import ShiftReduce.Proofs.Parser.StackInvariant
import ShiftReduce.Proofs.Parser.Termination
import ShiftReduce.Proofs.Session.Consistency
import ShiftReduce.Proofs.Session.Soundness
import ShiftReduce.Proofs.Simulator.Effect
import ShiftReduce.Proofs.Simulator.Growth
import ShiftReduce.Proofs.Simulator.Invariant
import ShiftReduce.Proofs.Simulator.Lockstep
import ShiftReduce.Proofs.Simulator.Resume
import ShiftReduce.Proofs.Simulator.Rounds
import ShiftReduce.Proofs.Simulator.Trace
import ShiftReduce.Proofs.Simulator.TreeRuns
import ShiftReduce.Proofs.SparseMatrix.Cells
import ShiftReduce.Proofs.SparseMatrix.FiniteMap
import ShiftReduce.Proofs.Table.Cells
import ShiftReduce.Proofs.Table.Contents
import ShiftReduce.Proofs.Table.Encoding
import ShiftReduce.Proofs.Table.Entries
import ShiftReduce.Proofs.Table.Renumbering
import ShiftReduce.Proofs.Table.Rows
import ShiftReduce.Proofs.Table.Writing
import ShiftReduce.Proofs.Text.ByteOrder
import ShiftReduce.Proofs.Text.Keeping
import ShiftReduce.Proofs.Text.Rune
import ShiftReduce.Proofs.Text.Words
import ShiftReduce.Proofs.Token.Partition
import ShiftReduce.Proofs.Token.Rejoining
import ShiftReduce.Proofs.Tree.Derivation
import ShiftReduce.Proofs.Tree.Positions
import ShiftReduce.Proofs.Tree.Walking
import ShiftReduce.Session.Basic
import ShiftReduce.Session.Command
import ShiftReduce.Session.Typing
import ShiftReduce.Settings
import ShiftReduce.Simulator.Configuration
import ShiftReduce.Simulator.Move
import ShiftReduce.Simulator.Run
import ShiftReduce.Sorting
import ShiftReduce.SparseMatrix
import ShiftReduce.Symbol
import ShiftReduce.Table.Action
import ShiftReduce.Table.Basic
import ShiftReduce.Table.Build
import ShiftReduce.Table.Conflict
import ShiftReduce.Table.Html
import ShiftReduce.Text.Blank
import ShiftReduce.Text.BreakClass
import ShiftReduce.Text.Bytes
import ShiftReduce.Text.CharRanges
import ShiftReduce.Text.Cluster
import ShiftReduce.Text.Fraction
import ShiftReduce.Text.LetterCase
import ShiftReduce.Text.Numeral
import ShiftReduce.Text.Printable
import ShiftReduce.Text.Quoted
import ShiftReduce.Text.Switch
import ShiftReduce.Token.Basic
import ShiftReduce.Token.Lexer
import ShiftReduce.Token.Span
import ShiftReduce.Tree.Builder
import ShiftReduce.Tree.Node
import ShiftReduce.Tree.Walk
import ShiftReduce.Word
