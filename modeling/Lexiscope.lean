import Lexiscope.Capture.Environment
import Lexiscope.Capture.Fault
import Lexiscope.Capture.Instrumented
import Lexiscope.Capture.Options
import Lexiscope.Capture.Probe
import Lexiscope.Capture.Requirements
import Lexiscope.Capture.Stream
import Lexiscope.Capture.View
import Lexiscope.Capture.Wrapped
import Lexiscope.Code.Assembly
import Lexiscope.Code.Basic
import Lexiscope.Code.Builder
import Lexiscope.Code.Draft
import Lexiscope.Code.Generate
import Lexiscope.Code.Instruction
import Lexiscope.Code.Listing
import Lexiscope.Data.Double
import Lexiscope.Data.Names
import Lexiscope.Data.OrderedMap
import Lexiscope.Data.Word
import Lexiscope.Decimal.Binary
import Lexiscope.Decimal.Layout
import Lexiscope.Decimal.Read
import Lexiscope.Decimal.Shortest
import Lexiscope.Grammar.Cursor
import Lexiscope.Grammar.Expression
import Lexiscope.Grammar.Lexer
import Lexiscope.Grammar.Statement
import Lexiscope.Grammar.Token
import Lexiscope.Grammar.Tree
import Lexiscope.Lexical.Block
import Lexiscope.Lexical.Fault
import Lexiscope.Lexical.Scope
import Lexiscope.Machine.Arguments
import Lexiscope.Machine.Attributes
import Lexiscope.Machine.Builtins.Call
import Lexiscope.Machine.Builtins.Conversion
import Lexiscope.Machine.Builtins.Method
import Lexiscope.Machine.Builtins.Sequence
import Lexiscope.Machine.Builtins.Signature
import Lexiscope.Machine.Compare
import Lexiscope.Machine.Exception
import Lexiscope.Machine.Frame
import Lexiscope.Machine.Iteration
import Lexiscope.Machine.Observation
import Lexiscope.Machine.Operators
import Lexiscope.Machine.Program
import Lexiscope.Machine.Range
import Lexiscope.Machine.Render
import Lexiscope.Machine.Run
import Lexiscope.Machine.Step
import Lexiscope.Machine.Store
import Lexiscope.Machine.Value
import Lexiscope.Naming.Interner
import Lexiscope.Text.Alphabetic
import Lexiscope.Text.Blank
import Lexiscope.Text.CaseTable
import Lexiscope.Text.Casing
import Lexiscope.Text.Escaped
import Lexiscope.Text.Lines
import Lexiscope.Text.Printable
import Lexiscope.Text.Quoted
import Lexiscope.Text.Ranges
import Lexiscope.Text.Span
import Lexiscope.Proofs.Machine.Likeness
import Lexiscope.Proofs.Machine.Primitives
import Lexiscope.Proofs.Machine.Reading
import Lexiscope.Proofs.Machine.Operations
import Lexiscope.Proofs.Machine.BuiltinCalls
import Lexiscope.Proofs.Machine.Turn
import Lexiscope.Proofs.Machine.Running
import Lexiscope.Proofs.Machine.Effects
import Lexiscope.Proofs.Machine.Entering
import Lexiscope.Proofs.Machine.Fuel
import Lexiscope.Proofs.Machine.Course
import Lexiscope.Proofs.Capture.Simulation
import Lexiscope.Proofs.Machine.Closed
import Lexiscope.Proofs.Capture.InstrumentedRun
import Lexiscope.Proofs.Capture.Watching
import Lexiscope.Proofs.Capture.Calls
import Lexiscope.Proofs.Capture.Mechanisms
import Lexiscope.Proofs.Code.Sketch
import Lexiscope.Proofs.Code.Emission
import Lexiscope.Proofs.Lexical.Mentions
import Lexiscope.Proofs.Lexical.Resolution
import Lexiscope.Proofs.Code.Expressions
import Lexiscope.Proofs.Code.Definitions
import Lexiscope.Proofs.Code.Finishing
import Lexiscope.Proofs.Code.Statements
import Lexiscope.Proofs.Code.Compiled
import Lexiscope.Proofs.Capture.Agreement
import Lexiscope.Proofs.Machine.Kinds
import Lexiscope.Proofs.Machine.Depths
import Lexiscope.Proofs.Lexical.Sharing
import Lexiscope.Proofs.Machine.Soundness
import Lexiscope.Proofs.Machine.Sessions
import Lexiscope.Proofs.Machine.Rules
import Lexiscope.Proofs.Code.Growth
import Lexiscope.Proofs.Code.Building
import Lexiscope.Proofs.Meaning.Expression
import Lexiscope.Proofs.Meaning.Walk
import Lexiscope.Proofs.Meaning.Instructions
import Lexiscope.Proofs.Meaning.ExpressionCode
import Lexiscope.Proofs.Meaning.Control
import Lexiscope.Proofs.Meaning.Statement
import Lexiscope.Proofs.Meaning.TargetCode
import Lexiscope.Proofs.Meaning.DefinitionCode
import Lexiscope.Proofs.Meaning.LoopCode
import Lexiscope.Proofs.Meaning.StatementCode
import Lexiscope.Proofs.Lexical.Nesting
import Lexiscope.Proofs.Meaning.Addresses
import Lexiscope.Proofs.Capture.Reads
import Lexiscope.Proofs.Machine.Creation
import Lexiscope.Proofs.Capture.Readiness
import Lexiscope.Proofs.Capture.Environments
import Lexiscope.Proofs.Grammar.Precedence
import Lexiscope.Proofs.Grammar.Assignment
import Lexiscope.Proofs.Grammar.Pieces
import Lexiscope.Proofs.Grammar.Tiling
import Lexiscope.Proofs.Grammar.Nesting
import Lexiscope.Proofs.Literal.Loading
import Lexiscope.Proofs.Machine.Balance
import Lexiscope.Proofs.Machine.Paths
import Lexiscope.Proofs.Machine.Recording
import Lexiscope.Proofs.Machine.Runs
import Lexiscope.Proofs.Machine.Stages
import Lexiscope.Proofs.Machine.Hosts
import Lexiscope.Proofs.Machine.Generators
import Lexiscope.Proofs.Machine.Reentry
import Lexiscope.Proofs.Capture.Direct
import Lexiscope.Proofs.Capture.Draining
import Lexiscope.Proofs.Capture.Streams
import Lexiscope.Proofs.Lexical.Faults
import Lexiscope.Proofs.Lexical.Parameters
import Lexiscope.Proofs.Code.Proceeding
import Lexiscope.Proofs.Code.InStep
import Lexiscope.Proofs.Code.Slots
import Lexiscope.Proofs.Machine.Making
import Lexiscope.Proofs.Machine.Growing
import Lexiscope.Proofs.Machine.Sparing
import Lexiscope.Proofs.Machine.Offspring
import Lexiscope.Proofs.Capture.Isolation
import Lexiscope.Proofs.Machine.Progressions
import Lexiscope.Proofs.Capture.Hosted
import Lexiscope.Proofs.Capture.Invisible
import Lexiscope.Proofs.Machine.Signatures
import Lexiscope.Proofs.Meaning.Binding
import Lexiscope.Proofs.Meaning.Apart
import Lexiscope.Proofs.Meaning.Seats
import Lexiscope.Proofs.Meaning.Locals
import Lexiscope.Proofs.Naming.Interning
import Lexiscope.Proofs.Machine.Integers
import Lexiscope.Proofs.Machine.Equality
import Lexiscope.Proofs.Machine.Keys
import Lexiscope.Proofs.Data.Double
import Lexiscope.Proofs.Machine.Sameness
import Lexiscope.Proofs.Machine.Meanings
import Lexiscope.Proofs.Machine.Orders
import Lexiscope.Proofs.Machine.Sorting
import Lexiscope.Proofs.Machine.Advances
import Lexiscope.Proofs.Machine.Holdings
import Lexiscope.Proofs.Machine.Enumerations
import Lexiscope.Proofs.Machine.Exhaustion
import Lexiscope.Proofs.Capture.Views
