import TwigToLatte.CommandLine
import TwigToLatte.Config
import TwigToLatte.Conversion
import TwigToLatte.Decimal.Nearest
import TwigToLatte.Decimal.Shortest
import TwigToLatte.Decimal.Style
import TwigToLatte.Dialect
import TwigToLatte.Dialect.Core
import TwigToLatte.Disk
import TwigToLatte.Expr
import TwigToLatte.Expr.Grammar
import TwigToLatte.Fault
import TwigToLatte.Latte.ClassAttribute
import TwigToLatte.Latte.Expression
import TwigToLatte.Latte.Literal
import TwigToLatte.Latte.Output
import TwigToLatte.Latte.Rendered
import TwigToLatte.Latte.Statement
import TwigToLatte.Log
import TwigToLatte.Main
import TwigToLatte.Parse
import TwigToLatte.Pass
import TwigToLatte.Pass.LatteIdiom
import TwigToLatte.Pass.LoopContext
import TwigToLatte.Pass.Pipeline
import TwigToLatte.Pass.SelfCall
import TwigToLatte.Path
import TwigToLatte.Registry
import TwigToLatte.Run
import TwigToLatte.Signature
import TwigToLatte.Source
import TwigToLatte.Suggestion
import TwigToLatte.Template
import TwigToLatte.Template.Child
import TwigToLatte.Template.Grammar
import TwigToLatte.Text.Blank
import TwigToLatte.Text.Escape
import TwigToLatte.Text.Replace
import TwigToLatte.Text.Word
import TwigToLatte.Text.WordTable
import TwigToLatte.Token
import TwigToLatte.Token.Cursor
import TwigToLatte.Token.Lexer
import TwigToLatte.Token.Pattern
import TwigToLatte.Toml
import TwigToLatte.Toml.DateTime
import TwigToLatte.Toml.Number
import TwigToLatte.Toml.Reader
import TwigToLatte.Value
import TwigToLatte.Proofs.Lexer.Step
import TwigToLatte.Proofs.Lexer.Nesting
import TwigToLatte.Proofs.Lexer.Coverage
import TwigToLatte.Proofs.Expr.InfixChain
import TwigToLatte.Proofs.Parse.Progress
import TwigToLatte.Proofs.Expr.Progress
import TwigToLatte.Proofs.Template.Places
import TwigToLatte.Proofs.Template.Effect
import TwigToLatte.Proofs.Template.Progress
import TwigToLatte.Proofs.Template.Balance
import TwigToLatte.Proofs.Latte.ClassAttribute
import TwigToLatte.Proofs.Latte.Script
import TwigToLatte.Proofs.Latte.Capture
import TwigToLatte.Proofs.Latte.LineMap
import TwigToLatte.Proofs.Latte.Inlining
import TwigToLatte.Proofs.Latte.Errors
import TwigToLatte.Proofs.Latte.Existence
import TwigToLatte.Proofs.Latte.Weaving
import TwigToLatte.Proofs.Latte.Blocks
import TwigToLatte.Proofs.Template.Expressions
import TwigToLatte.Proofs.Pass.Stateless
import TwigToLatte.Proofs.Pass.Idiom
import TwigToLatte.Proofs.Pass.Plain
import TwigToLatte.Proofs.Latte.Agreement
import TwigToLatte.Proofs.Pass.Reprint
import TwigToLatte.Proofs.Pass.Escape
import TwigToLatte.Proofs.Template.Agreement
import TwigToLatte.Proofs.Conversion.Options
import TwigToLatte.Proofs.Latte.Positions
import TwigToLatte.Proofs.Latte.Fragments
import TwigToLatte.Proofs.Pass.LoopMarks
import TwigToLatte.Proofs.Pass.LoopIterator
import TwigToLatte.Proofs.Latte.Spelling
import TwigToLatte.Proofs.Latte.InfixGrouping
import TwigToLatte.Proofs.Latte.PrefixGrouping
import TwigToLatte.Proofs.Latte.Binders
import TwigToLatte.Proofs.Parse.Positions
import TwigToLatte.Proofs.Expr.Calls
import TwigToLatte.Proofs.Expr.Yield
import TwigToLatte.Proofs.Expr.TestArguments
import TwigToLatte.Proofs.Template.Derivation
import TwigToLatte.Proofs.Template.Derived
import TwigToLatte.Proofs.Template.Heads
import TwigToLatte.Proofs.Template.Content
import TwigToLatte.Proofs.Template.Origin
import TwigToLatte.Proofs.Latte.Causes
import TwigToLatte.Proofs.Lexer.Symbols
import TwigToLatte.Proofs.Pass.Parts
import TwigToLatte.Proofs.Conversion.TestArguments
import TwigToLatte.Proofs.Conversion.AppliedFilters
import TwigToLatte.Proofs.Conversion.Declarations
import TwigToLatte.Proofs.Latte.Quoting
import TwigToLatte.Proofs.Lexer.Operators
import TwigToLatte.Proofs.Lexer.Termination
import TwigToLatte.Proofs.Lexer.DoubleQuoted
import TwigToLatte.Proofs.Lexer.Reads
import TwigToLatte.Proofs.Lexer.Displaced
import TwigToLatte.Proofs.Lexer.Lookahead
import TwigToLatte.Proofs.Lexer.Grafting
import TwigToLatte.Proofs.Lexer.TrimMarkers
import TwigToLatte.Proofs.Latte.LiteralTokens
import TwigToLatte.Proofs.Expr.Literals
import TwigToLatte.Proofs.Template.LiteralRoundTrip
import TwigToLatte.Proofs.Template.ChildBody
import TwigToLatte.Proofs.Lexer.Lines
import TwigToLatte.Proofs.Pass.Steps
import TwigToLatte.Proofs.Conversion.Lines
import TwigToLatte.Proofs.Template.Tracking
import TwigToLatte.Proofs.Template.Inheritance
import TwigToLatte.Proofs.Conversion.Inheritance
import TwigToLatte.Proofs.Template.ParentCalls
import TwigToLatte.Proofs.Conversion.ParentCalls
import TwigToLatte.Proofs.Pass.Repetition
import TwigToLatte.Proofs.Text.Replace
import TwigToLatte.Proofs.Pass.Tally
import TwigToLatte.Proofs.Pass.Succession
import TwigToLatte.Proofs.Pass.SelfImport
import TwigToLatte.Proofs.Latte.References
import TwigToLatte.Proofs.Disk.Files
import TwigToLatte.Proofs.Disk.Ways
import TwigToLatte.Proofs.Disk.Replacement
import TwigToLatte.Proofs.Run.Outcome
import TwigToLatte.Proofs.Run.Input
import TwigToLatte.Proofs.Expr.Binding
import TwigToLatte.Proofs.Latte.ArrayKeys
import TwigToLatte.Proofs.Disk.Laws
import TwigToLatte.Proofs.Run.Files
import TwigToLatte.Proofs.Parse.Ensures
import TwigToLatte.Proofs.Template.Checks
import TwigToLatte.Proofs.Template.Linking
import TwigToLatte.Proofs.Latte.Regions
import TwigToLatte.Proofs.Parse.Operations
import TwigToLatte.Proofs.Pass.Traversal
