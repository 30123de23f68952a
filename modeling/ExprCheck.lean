import ExprCheck.Verdict
import ExprCheck.Main
import ExprCheck.Proofs.Analysis
import ExprCheck.Proofs.Analyzer.Composed
import ExprCheck.Proofs.Chain
import ExprCheck.Proofs.Analyzer.Reports
import ExprCheck.Proofs.Atom
import ExprCheck.Proofs.ValueRun
import ExprCheck.Proofs.Verdict
import ExprCheck.Proofs.Analyzer.Builds
import ExprCheck.Proofs.Analyzer.Typed
import ExprCheck.Proofs.Analyzer.Values
import ExprCheck.Proofs.Analyzer.Assembly
import ExprCheck.Proofs.Analyzer.Determined
import ExprCheck.Proofs.Grammar
import ExprCheck.Proofs.Lexeme.Cut
import ExprCheck.Proofs.Lexeme.Feed
import ExprCheck.Proofs.Lexeme.Alone
import ExprCheck.Proofs.Lexeme.Spaced
import ExprCheck.Proofs.Places
import ExprCheck.Proofs.Token.Relocation
import ExprCheck.Proofs.Token.Lines
import ExprCheck.Proofs.Token.Levels
import ExprCheck.Proofs.Token.Joined
import ExprCheck.Proofs.Analyzer.Places
import ExprCheck.Proofs.Program.Lines
import ExprCheck.Proofs.Token.Grouping
import ExprCheck.Proofs.Token.Balance
import ExprCheck.Proofs.Token.Flat
import ExprCheck.Proofs.Dotted
import ExprCheck.Proofs.Declaration.Spelling
import ExprCheck.Proofs.Declaration.Reading
import ExprCheck.Proofs.Prelude.Types
import ExprCheck.Proofs.Prelude.WellFormed
import ExprCheck.Proofs.Prelude.Symbols
import ExprCheck.Proofs.Prelude.References
import ExprCheck.Proofs.Prelude.Passes
import ExprCheck.Proofs.Form.Regular
import ExprCheck.Proofs.Analyzer.Printable
import ExprCheck.Proofs.Print
import ExprCheck.Proofs.Token.Display
import ExprCheck.Proofs.Analyzer.Print
import ExprCheck.Proofs.Analyzer.Shape
import ExprCheck.Proofs.Program.Spaced
import ExprCheck.Proofs.Analyzer.Marks
import ExprCheck.Proofs.Analyzer.Effects
import ExprCheck.Proofs.Analyzer.Warnings
import ExprCheck.Proofs.Lexeme.Layout
import ExprCheck.Proofs.Token.Positions
import ExprCheck.Proofs.Scope.Stack
import ExprCheck.Proofs.Prelude.Lookup
import ExprCheck.Proofs.Prelude.Order
import ExprCheck.Proofs.Prelude.Extension
import ExprCheck.Proofs.Analyzer.Extension
import ExprCheck.Proofs.Declaration.Completion
import ExprCheck.Proofs.Analyzer.Names
import ExprCheck.Proofs.Prelude.TypeNames
import ExprCheck.Proofs.Lexeme.Lossless
import ExprCheck.Proofs.Token.Nesting
import ExprCheck.Proofs.Program.Spans
import ExprCheck.Proofs.Prelude.Faults
import ExprCheck.Proofs.Program.Faults
import ExprCheck.Proofs.Form.Located
import ExprCheck.Proofs.Analyzer.Located
import ExprCheck.Proofs.Program.Blocks
import ExprCheck.Proofs.Analyzer.Arity
import ExprCheck.Proofs.CommandLine
import ExprCheck.Proofs.Report.Snippet
import ExprCheck.Proofs.Token.Shape
import ExprCheck.Proofs.Token.Stretch
import ExprCheck.Proofs.Scope.Bindings
import ExprCheck.Proofs.Verdict.Judging
import ExprCheck.Proofs.Verdict.Findings
import ExprCheck.Proofs.Verdict.Looks
import ExprCheck.Proofs.Verdict.Notes
import ExprCheck.Proofs.Analyzer.Mismatches
import ExprCheck.Proofs.Form.Calls
import ExprCheck.Proofs.Analyzer.Cascade
import ExprCheck.Proofs.Literal.Number
import ExprCheck.Proofs.Literal.Quotation
import ExprCheck.Proofs.Lexeme.Longest
import ExprCheck.Proofs.Prelude.Defaults
import ExprCheck.Proofs.Scope.Numbers
import ExprCheck.Proofs.Chain.Decomposition
import ExprCheck.Proofs.Checked
import ExprCheck.Proofs.Checked.Cut
import ExprCheck.Proofs.Checked.Climb
import ExprCheck.Proofs.Analyzer.Runs
import ExprCheck.Proofs.Checked.Tasks
import ExprCheck.Proofs.Checked.Calls
import ExprCheck.Proofs.Checked.Verdict
