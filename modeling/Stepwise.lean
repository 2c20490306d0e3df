import Stepwise.Code.Emission
import Stepwise.Code.Emitter
import Stepwise.Code.Export
import Stepwise.Code.Instruction
import Stepwise.Code.Listing
import Stepwise.Code.Module
import Stepwise.Compile
import Stepwise.Console.Host
import Stepwise.Console.Invocation
import Stepwise.Console.Session
import Stepwise.Decimal.Layout
import Stepwise.Decimal.Read
import Stepwise.Decimal.Shortest
import Stepwise.Diagnostic
import Stepwise.Files.Fault
import Stepwise.Files.Path
import Stepwise.Files.Tree
import Stepwise.Host.Function
import Stepwise.Host.Standard
import Stepwise.Json.Skip
import Stepwise.Json.Token
import Stepwise.Json.Tree
import Stepwise.Machine.Breakpoints
import Stepwise.Machine.Run
import Stepwise.Machine.State
import Stepwise.Machine.Step
import Stepwise.Main
import Stepwise.Operator
import Stepwise.Program.Parser
import Stepwise.Program.Tree
import Stepwise.Proofs.Bare.Checking
import Stepwise.Proofs.Bare.Compiling
import Stepwise.Proofs.Bare.Making
import Stepwise.Proofs.Bare.Reading
import Stepwise.Proofs.Bare.Trees
import Stepwise.Proofs.Code.Agreement
import Stepwise.Proofs.Code.Beginnings
import Stepwise.Proofs.Code.BehindCalls
import Stepwise.Proofs.Code.BlockEnds
import Stepwise.Proofs.Code.CallSites
import Stepwise.Proofs.Code.Compiled
import Stepwise.Proofs.Code.Extent
import Stepwise.Proofs.Code.Flow
import Stepwise.Proofs.Code.Layout
import Stepwise.Proofs.Code.Numbering
import Stepwise.Proofs.Code.Outright
import Stepwise.Proofs.Code.Parts
import Stepwise.Proofs.Code.Patching
import Stepwise.Proofs.Code.Placeholders
import Stepwise.Proofs.Code.Ranges
import Stepwise.Proofs.Code.Scoping
import Stepwise.Proofs.Code.Shape
import Stepwise.Proofs.Code.Size
import Stepwise.Proofs.Code.Table
import Stepwise.Proofs.Code.WellFormed
import Stepwise.Proofs.Diagnosed
import Stepwise.Proofs.Evaluation.Correctness
import Stepwise.Proofs.Evaluation.Driving
import Stepwise.Proofs.Evaluation.Evaluator
import Stepwise.Proofs.Evaluation.Expressions
import Stepwise.Proofs.Evaluation.Functions
import Stepwise.Proofs.Evaluation.Naming
import Stepwise.Proofs.Evaluation.Pace
import Stepwise.Proofs.Evaluation.Statements
import Stepwise.Proofs.Machine.Arguments
import Stepwise.Proofs.Machine.CallFrames
import Stepwise.Proofs.Machine.Calling
import Stepwise.Proofs.Machine.Discipline
import Stepwise.Proofs.Machine.Drive
import Stepwise.Proofs.Machine.Entering
import Stepwise.Proofs.Machine.Framing
import Stepwise.Proofs.Machine.Given
import Stepwise.Proofs.Machine.LifeCycle
import Stepwise.Proofs.Machine.LineBreakpoints
import Stepwise.Proofs.Machine.Moves
import Stepwise.Proofs.Machine.Passing
import Stepwise.Proofs.Machine.Schedule
import Stepwise.Proofs.Machine.Soundness
import Stepwise.Proofs.Machine.Stepping
import Stepwise.Proofs.Machine.SteppingInto
import Stepwise.Proofs.Machine.SteppingOver
import Stepwise.Proofs.Machine.Stops
import Stepwise.Proofs.Machine.Waiting
import Stepwise.Proofs.Program.Bounds
import Stepwise.Proofs.Program.Derivation
import Stepwise.Proofs.Program.Earliest
import Stepwise.Proofs.Program.Foresight
import Stepwise.Proofs.Program.Grammar
import Stepwise.Proofs.Program.Located
import Stepwise.Proofs.Program.Names
import Stepwise.Proofs.Program.Readers
import Stepwise.Proofs.Program.Reading
import Stepwise.Proofs.Program.Recovery
import Stepwise.Proofs.Program.RoundTrip
import Stepwise.Proofs.Program.Slices
import Stepwise.Proofs.Program.Spans
import Stepwise.Proofs.Program.Targets
import Stepwise.Proofs.Program.Writing
import Stepwise.Proofs.Renaming.Checking
import Stepwise.Proofs.Renaming.Compiling
import Stepwise.Proofs.Renaming.Making
import Stepwise.Proofs.Renaming.Trees
import Stepwise.Proofs.Scopes
import Stepwise.Proofs.Source.Located
import Stepwise.Proofs.Source.Locations
import Stepwise.Proofs.Source.Places
import Stepwise.Proofs.Source.Shown
import Stepwise.Proofs.Token.Lexemes
import Stepwise.Proofs.Token.Slices
import Stepwise.Proofs.Token.Tiling
import Stepwise.Proofs.Types.Signature
import Stepwise.Proofs.Typing.Bodies
import Stepwise.Proofs.Typing.Completion
import Stepwise.Proofs.Typing.Decision
import Stepwise.Proofs.Typing.Declared
import Stepwise.Proofs.Typing.Judgement
import Stepwise.Proofs.Typing.Located
import Stepwise.Proofs.Typing.Parts
import Stepwise.Proofs.Typing.Passes
import Stepwise.Proofs.Typing.Programs
import Stepwise.Proofs.Typing.Rechecking
import Stepwise.Proofs.Typing.Registry
import Stepwise.Proofs.Typing.Resolution
import Stepwise.Proofs.Typing.Rules
import Stepwise.Proofs.Typing.Scoping
import Stepwise.Scopes
import Stepwise.Settings.Basic
import Stepwise.Settings.Store
import Stepwise.Source.Position
import Stepwise.Source.Report
import Stepwise.Text.Alphabetic
import Stepwise.Text.Blank
import Stepwise.Text.CharClass
import Stepwise.Text.Extending
import Stepwise.Text.Ignorable
import Stepwise.Text.Lines
import Stepwise.Text.Numeral
import Stepwise.Text.Quoted
import Stepwise.Text.Ranges
import Stepwise.Text.Unprintable
import Stepwise.Token.Basic
import Stepwise.Token.Lexer
import Stepwise.Token.Terminal
import Stepwise.Types.OrderedTable
import Stepwise.Types.Registry
import Stepwise.Types.Ty
import Stepwise.Typing.Declaration
import Stepwise.Typing.Expr
import Stepwise.Typing.Program
import Stepwise.Typing.Stmt
import Stepwise.Value.Basic
import Stepwise.Value.Display
import Stepwise.Value.Heap
import Stepwise.Value.Operation
