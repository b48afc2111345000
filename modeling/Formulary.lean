import Formulary.CommandLine.Arguments
import Formulary.CommandLine.Options
import Formulary.CommandLine.Run
import Formulary.Editor
import Formulary.Formula.Basic
import Formulary.Formula.Placed
import Formulary.Formula.Snapshot
import Formulary.Grammar
import Formulary.Layout.Formula
import Formulary.Layout.Literal
import Formulary.Main
import Formulary.Number.Binary64
import Formulary.Number.Decimal
import Formulary.Number.Shortest
import Formulary.Number.Written
import Formulary.Operator
import Formulary.Outline.Basic
import Formulary.Outline.Formula
import Formulary.Outline.Token
import Formulary.Parsing.Combinators
import Formulary.Parsing.Cursor
import Formulary.Parsing.Failure
import Formulary.Parsing.Pattern
import Formulary.Parsing.Rule
import Formulary.Proofs.Data.Distinct
import Formulary.Proofs.Data.Lists
import Formulary.Proofs.Data.Results
import Formulary.Proofs.Formula.Bare
import Formulary.Proofs.Formula.Children
import Formulary.Proofs.Formula.Cut
import Formulary.Proofs.Formula.Faithful
import Formulary.Proofs.Formula.Marks
import Formulary.Proofs.Formula.Normal
import Formulary.Proofs.Formula.Related
import Formulary.Proofs.Formula.Reread
import Formulary.Proofs.Grammar.Accounts
import Formulary.Proofs.Grammar.Balance
import Formulary.Proofs.Grammar.Chains
import Formulary.Proofs.Grammar.Conservation
import Formulary.Proofs.Grammar.Failures
import Formulary.Proofs.Grammar.Lines
import Formulary.Proofs.Grammar.Normal
import Formulary.Proofs.Grammar.Operands
import Formulary.Proofs.Grammar.Primaries
import Formulary.Proofs.Grammar.Program
import Formulary.Proofs.Grammar.Recursion
import Formulary.Proofs.Grammar.Tokens
import Formulary.Proofs.Layout.Fixed
import Formulary.Proofs.Layout.Pieces
import Formulary.Proofs.Layout.Program
import Formulary.Proofs.Layout.Restored
import Formulary.Proofs.Layout.Same
import Formulary.Proofs.Layout.Words
import Formulary.Proofs.Number.Nearest
import Formulary.Proofs.Number.Shortest
import Formulary.Proofs.Number.Written
import Formulary.Proofs.Operator.Climbing
import Formulary.Proofs.Operator.Folding
import Formulary.Proofs.Parsing.Acceptance
import Formulary.Proofs.Parsing.Characters
import Formulary.Proofs.Parsing.Failures
import Formulary.Proofs.Parsing.Reads
import Formulary.Proofs.Parsing.Recursion
import Formulary.Proofs.Parsing.Repetition
import Formulary.Proofs.Parsing.Results
import Formulary.Proofs.Store.Acyclic
import Formulary.Proofs.Store.Contents
import Formulary.Proofs.Store.Effects
import Formulary.Proofs.Store.Growth
import Formulary.Proofs.Store.Loading
import Formulary.Proofs.Store.Nesting
import Formulary.Proofs.Store.Ownership
import Formulary.Proofs.Store.Primitives
import Formulary.Proofs.Store.Request
import Formulary.Proofs.Store.RoundTrip
import Formulary.Proofs.Store.Slots
import Formulary.Proofs.Store.Ties
import Formulary.Proofs.Store.Viewing
import Formulary.Proofs.Store.Writing
import Formulary.Proofs.Token.Bare
import Formulary.Proofs.Token.Classes
import Formulary.Proofs.Token.Emission
import Formulary.Proofs.Token.Lossless
import Formulary.Proofs.Token.Recursion
import Formulary.Proofs.Token.Row
import Formulary.Proofs.Token.Single
import Formulary.Proofs.Token.Spelling
import Formulary.Store.Basic
import Formulary.Store.Edit
import Formulary.Store.Load
import Formulary.Store.Slots
import Formulary.Store.Text
import Formulary.Store.View
import Formulary.Text.Alphabetic
import Formulary.Text.Extender
import Formulary.Text.LineBreak
import Formulary.Text.Position
import Formulary.Text.Printable
import Formulary.Text.Quoted
import Formulary.Text.Ranges
import Formulary.Token.Basic
import Formulary.Token.Reading
import Formulary.Word
import Formulary.Proofs.Formula.Moved
import Formulary.Proofs.Grammar.Abreast
import Formulary.Proofs.Grammar.Composition
import Formulary.Proofs.Token.Continued
import Formulary.Proofs.Parsing.Onward
import Formulary.Proofs.Parsing.Runs
import Formulary.Proofs.Store.Refusal
import Formulary.Proofs.Store.Traversal
import Formulary.Proofs.Store.Joined
import Formulary.Proofs.Formula.Nested
import Formulary.Proofs.Grammar.Extents
import Formulary.Proofs.Grammar.Nesting
import Formulary.Proofs.Layout.Quotes
import Formulary.Proofs.CommandLine.Passes
import Formulary.Proofs.CommandLine.FileWise
import Formulary.Proofs.Token.Failures
import Formulary.Proofs.Grammar.Blame
import Formulary.Proofs.Store.Layout
import Formulary.Proofs.Editor.Offsets
import Formulary.Proofs.Layout.Names
import Formulary.Proofs.Token.Minus
import Formulary.Proofs.Formula.Notes
import Formulary.Proofs.Formula.Sorted
import Formulary.Proofs.Store.Changes
import Formulary.Proofs.Store.Frame
import Formulary.Proofs.Store.Program
import Formulary.Proofs.Store.NormalForm
import Formulary.Proofs.Text.Parentheses
import Formulary.Proofs.Layout.Infix
import Formulary.Proofs.Token.Undivided
import Formulary.Proofs.Formula.Ranking
import Formulary.Proofs.Formula.Structure
import Formulary.Proofs.Store.Snapshots
import Formulary.Proofs.Parsing.Fatal
import Formulary.Proofs.Checked.FrontEnd
import Formulary.Proofs.Parsing.Furthest
import Formulary.Proofs.Text.Pairs
import Formulary.Proofs.Layout.Pairs
import Formulary.Proofs.CommandLine.Unified
import Formulary.Proofs.Parsing.Messages
import Formulary.Proofs.Parsing.Failing
import Formulary.Proofs.Token.Names
import Formulary.Proofs.Token.Reasons
import Formulary.Proofs.Grammar.Messages
