import ExprLang.Arguments
import ExprLang.Builtin
import ExprLang.Builtin.Conversion
import ExprLang.Builtin.Function
import ExprLang.Builtin.Method
import ExprLang.CommandLine.Command
import ExprLang.CommandLine.Files
import ExprLang.CommandLine.Options
import ExprLang.CommandLine.Prompt
import ExprLang.Decimal.Binary
import ExprLang.Decimal.Double
import ExprLang.Decimal.HalfEven
import ExprLang.Decimal.Notation
import ExprLang.Decimal.Reading
import ExprLang.Decimal.Rounding
import ExprLang.Decimal.Shortest
import ExprLang.Error
import ExprLang.Error.Runtime
import ExprLang.Error.Syntax
import ExprLang.Evaluator
import ExprLang.Expr
import ExprLang.Expr.Parser
import ExprLang.Expr.Printer
import ExprLang.Fragments
import ExprLang.Main
import ExprLang.Number
import ExprLang.Number.Floating
import ExprLang.Number.Integer
import ExprLang.Number.Reading
import ExprLang.Number.Rounding
import ExprLang.Proofs.Building.Actions
import ExprLang.Proofs.Building.Adequacy
import ExprLang.Proofs.Building.Compiling
import ExprLang.Proofs.Building.Headers
import ExprLang.Proofs.Building.Naming
import ExprLang.Proofs.Building.Registration
import ExprLang.Proofs.Building.Registry
import ExprLang.Proofs.Building.Terms
import ExprLang.Proofs.Evaluating.Binding
import ExprLang.Proofs.Evaluating.Builtins
import ExprLang.Proofs.Evaluating.Calls
import ExprLang.Proofs.Evaluating.Code
import ExprLang.Proofs.Evaluating.Entering
import ExprLang.Proofs.Evaluating.Expressions
import ExprLang.Proofs.Evaluating.Frame
import ExprLang.Proofs.Evaluating.Interrupts
import ExprLang.Proofs.Evaluating.Invariants
import ExprLang.Proofs.Evaluating.Keys
import ExprLang.Proofs.Evaluating.Limits
import ExprLang.Proofs.Evaluating.Lines
import ExprLang.Proofs.Evaluating.Mirrors
import ExprLang.Proofs.Evaluating.Outside
import ExprLang.Proofs.Evaluating.Panics
import ExprLang.Proofs.Evaluating.Parameters
import ExprLang.Proofs.Evaluating.Parts
import ExprLang.Proofs.Evaluating.Results
import ExprLang.Proofs.Evaluating.Runs
import ExprLang.Proofs.Evaluating.Sessions
import ExprLang.Proofs.Evaluating.Slots
import ExprLang.Proofs.Evaluating.Termination
import ExprLang.Proofs.Evaluating.Unmentioned
import ExprLang.Proofs.Loading.Composition
import ExprLang.Proofs.Loading.Prompting
import ExprLang.Proofs.Numbers.Arithmetic
import ExprLang.Proofs.Numbers.DigitRuns
import ExprLang.Proofs.Numbers.Doubles
import ExprLang.Proofs.Numbers.IntegerParts
import ExprLang.Proofs.Numbers.IntegerTexts
import ExprLang.Proofs.Numbers.Nearest
import ExprLang.Proofs.Numbers.Places
import ExprLang.Proofs.Numbers.Precision
import ExprLang.Proofs.Numbers.Residues
import ExprLang.Proofs.Numbers.Tens
import ExprLang.Proofs.Parsing.Agreement
import ExprLang.Proofs.Parsing.Bounds
import ExprLang.Proofs.Parsing.Completeness
import ExprLang.Proofs.Parsing.Definitions
import ExprLang.Proofs.Parsing.Depth
import ExprLang.Proofs.Parsing.Exactness
import ExprLang.Proofs.Parsing.Following
import ExprLang.Proofs.Parsing.Functions
import ExprLang.Proofs.Parsing.Grammar
import ExprLang.Proofs.Parsing.Reading
import ExprLang.Proofs.Parsing.Soundness
import ExprLang.Proofs.Parsing.Steps
import ExprLang.Proofs.Parsing.Subexpressions
import ExprLang.Proofs.Parsing.Trailers
import ExprLang.Proofs.Parsing.Walk
import ExprLang.Proofs.Printing.Integers
import ExprLang.Proofs.Printing.Joining
import ExprLang.Proofs.Printing.Lexing
import ExprLang.Proofs.Printing.NumberTexts
import ExprLang.Proofs.Printing.Numerals
import ExprLang.Proofs.Printing.Parts
import ExprLang.Proofs.Printing.Pieces
import ExprLang.Proofs.Printing.Proper
import ExprLang.Proofs.Printing.RoundTrip
import ExprLang.Proofs.Printing.Texts
import ExprLang.Proofs.Printing.Values
import ExprLang.Proofs.Printing.Written
import ExprLang.Proofs.Running
import ExprLang.Proofs.Tokens.Appending
import ExprLang.Proofs.Tokens.Decimals
import ExprLang.Proofs.Tokens.Display
import ExprLang.Proofs.Tokens.Identifiers
import ExprLang.Proofs.Tokens.Quoting
import ExprLang.Proofs.Tokens.Tiling
import ExprLang.Proofs.Values.Equivalence
import ExprLang.Proofs.Values.Extremes
import ExprLang.Proofs.Values.Forms
import ExprLang.Proofs.Values.Identity
import ExprLang.Proofs.Values.Mapping
import ExprLang.Proofs.Values.Merging
import ExprLang.Proofs.Values.Ordering
import ExprLang.Proofs.Values.Searching
import ExprLang.Proofs.Values.Slicing
import ExprLang.Proofs.Values.Sorting
import ExprLang.Proofs.Values.Words
import ExprLang.Session
import ExprLang.SipHash
import ExprLang.Source
import ExprLang.Store
import ExprLang.Text.Blank
import ExprLang.Text.CaseTable
import ExprLang.Text.Casing
import ExprLang.Text.Letter
import ExprLang.Text.Lines
import ExprLang.Text.Names
import ExprLang.Text.Quoted
import ExprLang.Text.Search
import ExprLang.Token
import ExprLang.Token.Lexer
import ExprLang.TypeName
import ExprLang.Value
import ExprLang.Value.Equality
import ExprLang.Value.Operator
import ExprLang.Value.Order
import ExprLang.Value.Printer
import ExprLang.Value.Sequence
import ExprLang.Value.Sorting
import ExprLang.Workbench
import ExprLang.Proofs.Parsing.Following
