import Tsumugi.Lib.Transition
import Tsumugi.Lib.Word
import Tsumugi.Lib.Proc
import Tsumugi.Lang.Error
import Tsumugi.Budget.Types
import Tsumugi.Scheduler.Shared
import Tsumugi.Scheduler.Admission
import Tsumugi.Host.Ticket
import Tsumugi.Host.TicketLaw
import Tsumugi.Engine.Handle
import Tsumugi.Engine.RunTurn
import Tsumugi.Audit.Event
import Tsumugi.Audit.Accumulator
import Tsumugi.Audit.Journal
import Tsumugi.Audit.Recorder
import Tsumugi.Audit.Facade
import Tsumugi.Audit.StreamLaw
import Tsumugi.Audit.Delivery
import Tsumugi.Audit.Backpressure
import Tsumugi.Audit.Transparency
import Tsumugi.Audit.PanicBoundary
import Tsumugi.Audit.FailClosed
import Tsumugi.Budget.LedgerLaw
import Tsumugi.Budget.Conservation
import Tsumugi.Budget.StopOrder
import Tsumugi.Audit.Client
import Tsumugi.Audit.Drive
import Tsumugi.Audit.TerminalStep
import Tsumugi.Audit.Account
import Tsumugi.Audit.Loading
import Tsumugi.Audit.Reconcile
import Tsumugi.Audit.TerminalTruth
import Tsumugi.Lib.Bracket
import Tsumugi.Audit.Brackets
import Tsumugi.Audit.YieldLaw
import Tsumugi.Lib.Codec
import Tsumugi.Lib.OrderedMap
import Tsumugi.Lib.FileTree
import Tsumugi.Lib.HostFs
import Tsumugi.Capability.Path
import Tsumugi.Capability.Set
import Tsumugi.Capability.SetId
import Tsumugi.Engine.Execute
import Tsumugi.Capability.OsHandle
import Tsumugi.Capability.Containment
import Tsumugi.Capability.Dispatch
import Tsumugi.Capability.Authority
import Tsumugi.Capability.Confinement
import Tsumugi.Eval.Runtime
import Tsumugi.Lib.Backpatch
import Tsumugi.Value.Shared
import Tsumugi.Value.Render
import Tsumugi.Value.Equality
import Tsumugi.Value.Mutation
import Tsumugi.Value.DepthRuns
import Tsumugi.Vm.Chunk
import Tsumugi.Vm.Verifier
import Tsumugi.Vm.Compiler
import Tsumugi.Vm.Typing
import Tsumugi.Vm.Built
import Tsumugi.Vm.ExprLaw
import Tsumugi.Vm.CompilerLaw
import Tsumugi.Vm.Totality
import Tsumugi.Vm.OpLaw
import Tsumugi.Vm.DispatchLaw
import Tsumugi.Vm.Termination
import Tsumugi.Vm.Rollback
import Tsumugi.Vm.State
import Tsumugi.Vm.Machine
import Tsumugi.Audit.Aggregate
import Tsumugi.Lang.Closures
import Tsumugi.Lang.ClosureLaw
import Tsumugi.Lib.Comparison
import Tsumugi.Value.Order
import Tsumugi.Lib.Fips180
import Tsumugi.Engine.Hash
import Tsumugi.Engine.HashLaw
import Tsumugi.Audit.QueueMeter
import Tsumugi.Engine.ModuleLoader
import Tsumugi.Engine.ModuleLoaderLaw
import Tsumugi.Engine.ImportGraph
import Tsumugi.Lib.DepthFirst
import Tsumugi.Engine.ImportGraphLaw
import Tsumugi.Capability.PathLaw
import Tsumugi.Engine.Specifier
import Tsumugi.Capability.Projection
import Tsumugi.Capability.Legacy
import Tsumugi.Capability.Rename
import Tsumugi.Capability.Trail
import Tsumugi.Capability.LinkPolicy
import Tsumugi.Lib.Loop
import Tsumugi.Syntax.Token
import Tsumugi.Syntax.Lexer
import Tsumugi.Syntax.LexerLaw
import Tsumugi.Syntax.Parser
import Tsumugi.Syntax.ParserLaw
import Tsumugi.Syntax.Height
import Tsumugi.Syntax.Grammar
import Tsumugi.Syntax.GrammarLaw
import Tsumugi.Syntax.ParserComplete
import Tsumugi.Syntax.ParserStill
import Tsumugi.Syntax.ParserSound
import Tsumugi.Syntax.Printer
import Tsumugi.Syntax.PrinterLaw
import Tsumugi.Syntax.SourceText
import Tsumugi.Syntax.LexerLines
import Tsumugi.Syntax.LineNumbers
import Tsumugi.Syntax.Continuation
import Tsumugi.Syntax.ReplInput
import Tsumugi.Lib.Calendar
import Tsumugi.Lib.Substitution
import Tsumugi.Value.FormatTime
import Tsumugi.Audit.Reentry
import Tsumugi.Audit.ReentryLaw
import Tsumugi.Capability.Output
import Tsumugi.Audit.Redaction
import Tsumugi.Audit.HostCall
import Tsumugi.Audit.HostCallRecord
import Tsumugi.Audit.HostCallRuns
import Tsumugi.Audit.NonInterference
import Tsumugi.Vm.ValueFlow
import Tsumugi.Lang.Literals
import Tsumugi.Vm.Literals
import Tsumugi.Vm.Evaluations
import Tsumugi.Lib.Counter
import Tsumugi.Vm.Identity
import Tsumugi.Eval.Operators
import Tsumugi.Eval.Frames
import Tsumugi.Eval.Calls
import Tsumugi.Eval.Driver
import Tsumugi.Eval.Session
import Tsumugi.Eval.Flow
import Tsumugi.Eval.ValueFlow
import Tsumugi.Eval.FrameFlow
import Tsumugi.Eval.CallFlow
import Tsumugi.Eval.DriverFlow
import Tsumugi.Eval.SessionFlow
import Tsumugi.Eval.Identity
import Tsumugi.Audit.EncodingLaw
