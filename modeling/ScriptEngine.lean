import ScriptEngine.Engine.Basic
import ScriptEngine.Engine.Machine
import ScriptEngine.Engine.Report
import ScriptEngine.Engine.Setup
import ScriptEngine.Eval.Access
import ScriptEngine.Eval.Args
import ScriptEngine.Eval.Arithmetic
import ScriptEngine.Eval.Assign
import ScriptEngine.Eval.Call
import ScriptEngine.Eval.Class
import ScriptEngine.Eval.Compare
import ScriptEngine.Eval.Exception
import ScriptEngine.Eval.Expr
import ScriptEngine.Eval.Frame
import ScriptEngine.Eval.Iterate
import ScriptEngine.Eval.Modules
import ScriptEngine.Eval.Operators
import ScriptEngine.Eval.Spawn
import ScriptEngine.Eval.Stmt
import ScriptEngine.Eval.Text
import ScriptEngine.Fault.Cause
import ScriptEngine.Fault.Error
import ScriptEngine.Heap.Basic
import ScriptEngine.Heap.Display
import ScriptEngine.Heap.Equality
import ScriptEngine.Heap.Object
import ScriptEngine.Heap.Retention
import ScriptEngine.Heap.Routine
import ScriptEngine.Heap.Scopes
import ScriptEngine.Heap.Types
import ScriptEngine.Host.Basic
import ScriptEngine.Library.Functions
import ScriptEngine.Library.Methods
import ScriptEngine.Library.Routines
import ScriptEngine.Number.Binary64
import ScriptEngine.Number.Decimal.Basic
import ScriptEngine.Number.Decimal.Text
import ScriptEngine.Number.FloatText
import ScriptEngine.Number.Power
import ScriptEngine.Number.Shortest
import ScriptEngine.Number.Word
import ScriptEngine.Proofs.BoundTypes
import ScriptEngine.Proofs.Cleanup
import ScriptEngine.Proofs.Conduct
import ScriptEngine.Proofs.Contexts
import ScriptEngine.Proofs.Cycles
import ScriptEngine.Proofs.DataComparison
import ScriptEngine.Proofs.DataOrder
import ScriptEngine.Proofs.DecimalOrder
import ScriptEngine.Proofs.Deferred
import ScriptEngine.Proofs.Depth
import ScriptEngine.Proofs.Discipline
import ScriptEngine.Proofs.Endings
import ScriptEngine.Proofs.Fatal
import ScriptEngine.Proofs.Following
import ScriptEngine.Proofs.Frame
import ScriptEngine.Proofs.Frames
import ScriptEngine.Proofs.Guard
import ScriptEngine.Proofs.Imports
import ScriptEngine.Proofs.Joining
import ScriptEngine.Proofs.Located
import ScriptEngine.Proofs.LoopSignals
import ScriptEngine.Proofs.LoopSteps
import ScriptEngine.Proofs.Members
import ScriptEngine.Proofs.ModuleCalls
import ScriptEngine.Proofs.OrderLaws
import ScriptEngine.Proofs.Orderly
import ScriptEngine.Proofs.Parallel.Basic
import ScriptEngine.Proofs.Parallel.Expr
import ScriptEngine.Proofs.Parallel.Library
import ScriptEngine.Proofs.Parallel.Stmt
import ScriptEngine.Proofs.Parallel.Values
import ScriptEngine.Proofs.Regime
import ScriptEngine.Proofs.Run
import ScriptEngine.Proofs.ScopeNames
import ScriptEngine.Proofs.Scopes
import ScriptEngine.Proofs.ScriptedHost
import ScriptEngine.Proofs.Signals
import ScriptEngine.Proofs.Transparency
import ScriptEngine.Proofs.TypeGraph
import ScriptEngine.Proofs.Views
import ScriptEngine.State.Basic
import ScriptEngine.State.Frames
import ScriptEngine.State.Machine
import ScriptEngine.State.Roots
import ScriptEngine.State.Sink
import ScriptEngine.Table
import ScriptEngine.Text.Blank
import ScriptEngine.Text.ByteText
import ScriptEngine.Text.CaseMap
import ScriptEngine.Text.CaseTable
import ScriptEngine.Text.Hidden
import ScriptEngine.Text.Quoted
import ScriptEngine.Text.Split
import ScriptEngine.Tree.Basic
import ScriptEngine.Tree.Build
import ScriptEngine.Tree.Operator
import ScriptEngine.Tree.Position
import ScriptEngine.Tree.Same
import ScriptEngine.Value.Basic
import ScriptEngine.Value.Comparison
import ScriptEngine.Value.Members
import ScriptEngine.Proofs.Attempts
import ScriptEngine.Proofs.Callees
import ScriptEngine.Proofs.Nesting
import ScriptEngine.Proofs.Exports
import ScriptEngine.Proofs.Lasting
import ScriptEngine.Proofs.Tracking
import ScriptEngine.Proofs.Supers
import ScriptEngine.Proofs.Climbing
import ScriptEngine.Proofs.SuperChains
import ScriptEngine.Proofs.Keywords
import ScriptEngine.Proofs.Lookups
import ScriptEngine.Proofs.Natives
import ScriptEngine.Proofs.PartialCalls
import ScriptEngine.Proofs.Increments
import ScriptEngine.Proofs.Words
import ScriptEngine.Proofs.Indexing
import ScriptEngine.Proofs.Slices
import ScriptEngine.Proofs.Visits
import ScriptEngine.Proofs.Ranges
import ScriptEngine.Proofs.Numbers
import ScriptEngine.Proofs.WordArithmetic
import ScriptEngine.Proofs.Rounding
import ScriptEngine.Proofs.Quotients
import ScriptEngine.Proofs.DecimalPowers
import ScriptEngine.Proofs.PlainTexts
import ScriptEngine.Proofs.Sameness
import ScriptEngine.Proofs.Extremes
import ScriptEngine.Proofs.Templates
import ScriptEngine.Proofs.Pieces
import ScriptEngine.Proofs.Interpolation
import ScriptEngine.Proofs.Sessions
import ScriptEngine.Proofs.Bindings
import ScriptEngine.Proofs.ByteTexts
import ScriptEngine.Proofs.Backtraces
import ScriptEngine.Proofs.Objects
import ScriptEngine.Proofs.RangeLoops
import ScriptEngine.Proofs.Interleaving
import ScriptEngine.Proofs.Statements
