import PipelineScript.CommandLine
import PipelineScript.CommandLine.Arguments
import PipelineScript.CommandLine.Help
import PipelineScript.Context
import PipelineScript.Diagnostic
import PipelineScript.Digest
import PipelineScript.Engine
import PipelineScript.Engine.Cache
import PipelineScript.Engine.Registry
import PipelineScript.Evaluation
import PipelineScript.Evaluation.Builtins
import PipelineScript.Evaluation.Fault
import PipelineScript.Evaluation.Memo
import PipelineScript.Evaluation.Operators
import PipelineScript.Expression
import PipelineScript.Expression.Reader
import PipelineScript.Finding
import PipelineScript.Finding.Rules
import PipelineScript.Instant
import PipelineScript.Json
import PipelineScript.Json.Reader
import PipelineScript.Main
import PipelineScript.Monitor
import PipelineScript.Numeral.Binary64
import PipelineScript.Numeral.Decimal
import PipelineScript.Numeral.Integer
import PipelineScript.Numeral.Reading
import PipelineScript.Proofs.Context.Agreement
import PipelineScript.Proofs.Context.Arena
import PipelineScript.Proofs.Context.Assignment
import PipelineScript.Proofs.Context.Bindings
import PipelineScript.Proofs.Context.DeclaredTypes
import PipelineScript.Proofs.Context.Functions
import PipelineScript.Proofs.Context.Scopes
import PipelineScript.Proofs.Context.Stack
import PipelineScript.Proofs.Context.SystemNames
import PipelineScript.Proofs.Context.Views
import PipelineScript.Proofs.Engine.History
import PipelineScript.Proofs.Engine.Store
import PipelineScript.Proofs.Evaluation.Arithmetic
import PipelineScript.Proofs.Evaluation.Memo
import PipelineScript.Proofs.Evaluation.OrderedMaps
import PipelineScript.Proofs.Evaluation.Trees
import PipelineScript.Proofs.Expression.Calls
import PipelineScript.Proofs.Expression.Climbing
import PipelineScript.Proofs.Expression.Grammar
import PipelineScript.Proofs.Expression.Variables
import PipelineScript.Proofs.Finding.Children
import PipelineScript.Proofs.Finding.ReadTrees
import PipelineScript.Proofs.Finding.Views
import PipelineScript.Proofs.Finding.WellFormed
import PipelineScript.Proofs.Guarded.Climbing
import PipelineScript.Proofs.Guarded.Compile
import PipelineScript.Proofs.Guarded.Following
import PipelineScript.Proofs.Guarded.Numbers
import PipelineScript.Proofs.Guarded.Parser
import PipelineScript.Proofs.Guarded.Rules
import PipelineScript.Proofs.Guarded.Scanner
import PipelineScript.Proofs.Guarded.Scanning
import PipelineScript.Proofs.Guarded.Spans
import PipelineScript.Proofs.Guarded.Strings
import PipelineScript.Proofs.Guarded.Tokens
import PipelineScript.Proofs.Guarded.Trap
import PipelineScript.Proofs.Json.Alike
import PipelineScript.Proofs.Json.Text
import PipelineScript.Proofs.Monitor.Recorders
import PipelineScript.Proofs.Monitor.Reports
import PipelineScript.Proofs.Monitor.Timings
import PipelineScript.Proofs.Run.Alike
import PipelineScript.Proofs.Run.CallDepth
import PipelineScript.Proofs.Run.ControlFlow
import PipelineScript.Proofs.Run.DeclaredTypes
import PipelineScript.Proofs.Run.Discipline
import PipelineScript.Proofs.Run.ForLoops
import PipelineScript.Proofs.Run.Frame
import PipelineScript.Proofs.Run.Hoisting
import PipelineScript.Proofs.Run.Layout
import PipelineScript.Proofs.Run.Lockstep
import PipelineScript.Proofs.Run.Mentioned
import PipelineScript.Proofs.Run.OrderedMaps
import PipelineScript.Proofs.Run.Pairing
import PipelineScript.Proofs.Run.Quiet
import PipelineScript.Proofs.Run.SystemNames
import PipelineScript.Proofs.Run.TaskBlocks
import PipelineScript.Proofs.Run.Termination
import PipelineScript.Proofs.Run.Views
import PipelineScript.Proofs.Run.Watching
import PipelineScript.Proofs.Statement.Arguments
import PipelineScript.Proofs.Statement.BareCalls
import PipelineScript.Proofs.Statement.Binders
import PipelineScript.Proofs.Statement.Blanks
import PipelineScript.Proofs.Statement.Cells
import PipelineScript.Proofs.Statement.Comments
import PipelineScript.Proofs.Statement.Concatenation
import PipelineScript.Proofs.Statement.Cuts
import PipelineScript.Proofs.Statement.Expressions
import PipelineScript.Proofs.Statement.Fillings
import PipelineScript.Proofs.Statement.Following
import PipelineScript.Proofs.Statement.Holes
import PipelineScript.Proofs.Statement.Interchange
import PipelineScript.Proofs.Statement.Json
import PipelineScript.Proofs.Statement.Layout
import PipelineScript.Proofs.Statement.Mirrors
import PipelineScript.Proofs.Statement.Names
import PipelineScript.Proofs.Statement.Occurrences
import PipelineScript.Proofs.Statement.Outside
import PipelineScript.Proofs.Statement.Places
import PipelineScript.Proofs.Statement.Printable
import PipelineScript.Proofs.Statement.Printed
import PipelineScript.Proofs.Statement.PrintedLines
import PipelineScript.Proofs.Statement.Printer
import PipelineScript.Proofs.Statement.Quotes
import PipelineScript.Proofs.Statement.ReadPrintable
import PipelineScript.Proofs.Statement.Reading
import PipelineScript.Proofs.Statement.Rereading
import PipelineScript.Proofs.Statement.RoundTrip
import PipelineScript.Proofs.Statement.Slices
import PipelineScript.Proofs.Statement.Spelling
import PipelineScript.Proofs.Statement.Views
import PipelineScript.Proofs.Table
import PipelineScript.Proofs.Task.OrderedMaps
import PipelineScript.Proofs.Token.Alphabet
import PipelineScript.Proofs.Token.Brackets
import PipelineScript.Proofs.Token.Escapes
import PipelineScript.Proofs.Token.Integers
import PipelineScript.Proofs.Token.Joins
import PipelineScript.Proofs.Token.Literals
import PipelineScript.Proofs.Token.Nesting
import PipelineScript.Proofs.Token.Pieces
import PipelineScript.Proofs.Token.Slices
import PipelineScript.Proofs.Token.Strings
import PipelineScript.Proofs.Token.Tiling
import PipelineScript.Proofs.Token.Words
import PipelineScript.Proofs.Value.Json
import PipelineScript.Run
import PipelineScript.Run.Halt
import PipelineScript.Run.Items
import PipelineScript.Run.Machine
import PipelineScript.Run.Tasks
import PipelineScript.Script
import PipelineScript.Settings
import PipelineScript.Settings.Decode
import PipelineScript.Settings.EnvFile
import PipelineScript.Settings.Layers
import PipelineScript.Settings.Load
import PipelineScript.Statement
import PipelineScript.Statement.Cursor
import PipelineScript.Statement.Fault
import PipelineScript.Statement.Json
import PipelineScript.Statement.Reader
import PipelineScript.Table
import PipelineScript.Task
import PipelineScript.Task.Pool
import PipelineScript.Task.Standard
import PipelineScript.Text.Alphabetic
import PipelineScript.Text.CharClass
import PipelineScript.Text.LetterCase
import PipelineScript.Text.LetterCaseTable
import PipelineScript.Text.Quoted
import PipelineScript.Text.Slice
import PipelineScript.Text.Unprintable
import PipelineScript.Token
import PipelineScript.Token.Balance
import PipelineScript.Token.Fault
import PipelineScript.Token.Lexer
import PipelineScript.Token.Literal
import PipelineScript.Toml
import PipelineScript.Toml.Reader
import PipelineScript.Toml.Word
import PipelineScript.Value
import PipelineScript.Value.Json
import PipelineScript.Value.Text
import PipelineScript.World
