import Tsumugi.Engine.ModuleLoader
import Tsumugi.Lang.Env
import Tsumugi.Value.Equality
import Tsumugi.Vm.State

/-!
# The state of the tree evaluator (`eval.rs`)

The evaluator works on the environment, the ledger and a stack of explicit frames. What
lies behind it is taken from `Runtime`: the allocator, the adapters and the module loader
act on a state `E`, the host functions of the embedder on a state `H`. A value operation
sees the ledger and `E` only, so it cannot reach what the embedder keeps. Dropping the
last handle of an allocation gives heap back between two such operations; that is left to
the allocator, which may answer as it likes.

`born` records the function values that were evaluated, in order. Nothing reads it.
-/

namespace Tsumugi

/-- `Value::Fn`. -/
structure FnValue where
  id : Nat
  defn : FnDef
  captured : List (String × Addr)
  header : Nat
  retain : List Nat

namespace Value

/-- A function value. -/
def ofFn (f : FnValue) : Value := .fn f.id f.defn f.captured f.header f.retain

mutual

/-- Every function value inside has a property. -/
def All (P : FnValue → Prop) : Value → Prop
  | .list _ items => AllItems P items
  | .dict _ entries => AllEntries P entries
  | .fn id defn captured header retain => P ⟨id, defn, captured, header, retain⟩
  | _ => True

def AllItems (P : FnValue → Prop) : List Value → Prop
  | [] => True
  | v :: rest => All P v ∧ AllItems P rest

def AllEntries (P : FnValue → Prop) : List (String × Value) → Prop
  | [] => True
  | (_, v) :: rest => All P v ∧ AllEntries P rest

end

mutual

/-- The value as the operations see it that only read. -/
def view : Value → Shared.Value
  | .int n => .int n
  | .float bits => .float bits
  | .str id s => .str id s
  | .bool b => .bool b
  | .null => .null
  | .list id items => .list id (viewItems items)
  | .dict id entries => .dict id (viewEntries entries)
  | .fn id defn .. => .fn id defn.name defn.params
  | .error errorType message line => .error errorType message line

def viewItems : List Value → List Shared.Value
  | [] => []
  | v :: rest => view v :: viewItems rest

def viewEntries : List (String × Value) → List (String × Shared.Value)
  | [] => []
  | (key, v) :: rest => (key, view v) :: viewEntries rest

end

end Value

namespace Eval

open Budget (BudgetLedger Charge ControlStop BudgetResource)
open Shared (NumericOrdering)

/-- The modules that a link has loaded. -/
abbrev LoadedModules : Type := List (Modules.LoadedModule String)

/-! ## What lies behind the evaluator -/

/-- An operation on values: it sees the ledger, the allocator and the adapters. -/
abbrev Tracked (E α : Type) : Type := Proc (BudgetLedger × E) ControlStop α

/-- A control stop, or an error of the operation. -/
inductive Failure
  | stop (s : ControlStop)
  | error (e : TsumugiError)

/-- An operation on values that also raises errors of its own. -/
abbrev Builtin (E α : Type) : Type := Proc (BudgetLedger × E) Failure α

/-- `AdapterError`: a control stop, or a failure of the host. -/
inductive AdapterError
  | control (stop : ControlStop)
  | other

/-- `HostCallPoll`. The ticket stays with the host. -/
inductive HostCallPoll
  | ready (result : Except AdapterError Value)
  | pending

/-- The operations on `f64`, on bit patterns. -/
structure FloatOps where
  add : UInt64 → UInt64 → UInt64
  sub : UInt64 → UInt64 → UInt64
  mul : UInt64 → UInt64 → UInt64
  div : UInt64 → UInt64 → UInt64
  rem : UInt64 → UInt64 → UInt64
  neg : UInt64 → UInt64
  ofInt : Int → UInt64
  partialCmp : UInt64 → UInt64 → NumericOrdering

/-- The allocator, the adapters, the builtins that need no context, the module loader and the
host functions. `newStr`, `newList` and `newDict` charge a new backing and give its id, `detach`
gives the backing that a change in place writes to and `retrack` charges the difference. The
laws say which function values may come back: a builtin gives those of its arguments, and the
host those that it was handed (`given`). -/
structure Runtime (E H : Type) where
  float : FloatOps
  -- the allocator and the ledger
  renderDisplay : Value → Tracked E String
  newStr : String → Tracked E Nat
  newList : List Value → Tracked E Nat
  newDict : Dict → Tracked E Nat
  newCell : Tracked E Unit
  newJournalEntry : Tracked E Unit
  newFnHeader : Nat → Tracked E Nat
  retainTokensForBody : Block → E → List Nat
  detach : Value → Tracked E Nat
  retrack : Value → Value → Tracked E Unit
  -- builtins without context
  chargeHostCallRequest : String → List Value → Tracked E Unit
  chargeHostCallResponse : String → Value → Tracked E Unit
  dispatch : String → List Value → Nat → Builtin E (Option Value)
  -- capabilities and adapters
  resolvePrint : String → Nat → Proc E TsumugiError Unit
  resolveInput : Nat → Proc E TsumugiError (Option String)
  resolveEnv : String → Nat → E → Except TsumugiError (Option String)
  resolveNow : Nat → Proc E TsumugiError Int
  hasProcessExit : E → Bool
  scriptArgs : E → List String
  grantsHostFunction : String → E → Bool
  -- what audit buffers
  auditQueueExceeded : BudgetLedger → E → Bool
  noteResumed : E → E
  noteYielded : Proc E TsumugiError Unit
  -- the module loader
  link : Program → Proc E TsumugiError (Option Program × LoadedModules)
  chargeLink : Nat → LoadedModules → Program → Proc (BudgetLedger × E) (ControlStop × Nat) Unit
  forget : LoadedModules → E → E
  -- host functions
  containsName : String → Bool
  containsCooperativeName : String → Bool
  acceptsArity : String → Nat → Bool
  call : String → List Value → H → Except String Value × H
  start : String → List Value → BudgetLedger → Bool → Nat → H → HostCallPoll × H
  cancelTicket : Nat → H → H
  tryTakeValue : Nat → H → Option (Except AdapterError Value) × H
  given : H → FnValue → Prop
  dispatch_all : ∀ (P : FnValue → Prop) name args line s v t, (∀ a ∈ args, a.All P) →
    (dispatch name args line).run s = (.ok (some v), t) → v.All P
  call_all : ∀ (P : FnValue → Prop) name args h, (∀ a ∈ args, a.All P) → (∀ f, given h f → P f) →
    (∀ v, (call name args h).1 = .ok v → v.All P) ∧ ∀ f, given (call name args h).2 f → P f
  start_all : ∀ (P : FnValue → Prop) name args l mayYield callId h, (∀ a ∈ args, a.All P) →
    (∀ f, given h f → P f) →
    (∀ v, (start name args l mayYield callId h).1 = .ready (.ok v) → v.All P) ∧
      ∀ f, given (start name args l mayYield callId h).2 f → P f
  cancelTicket_all : ∀ callId h f, given (cancelTicket callId h) f → given h f
  tryTakeValue_all : ∀ (P : FnValue → Prop) callId h, (∀ f, given h f → P f) →
    (∀ v, (tryTakeValue callId h).1 = some (.ok v) → v.All P) ∧
      ∀ f, given (tryTakeValue callId h).2 f → P f

/-- A runtime for runs on fixed inputs without numbers of `f64`: a charge is always granted, there
is no host function and no builtin without context, and a program is linked as it is. -/
def Runtime.free : Runtime Unit Unit where
  float :=
    { add := fun a _ => a, sub := fun a _ => a, mul := fun a _ => a, div := fun a _ => a,
      rem := fun a _ => a, neg := fun a => a, ofInt := fun _ => 0,
      partialCmp := fun _ _ => .unorderedNaN }
  renderDisplay _ := pure ""
  newStr _ := pure 1
  newList _ := pure 1
  newDict _ := pure 1
  newCell := pure ()
  newJournalEntry := pure ()
  newFnHeader _ := pure 1
  retainTokensForBody _ _ := []
  detach _ := pure 1
  retrack _ _ := pure ()
  chargeHostCallRequest _ _ := pure ()
  chargeHostCallResponse _ _ := pure ()
  dispatch _ _ _ := pure none
  resolvePrint _ _ := pure ()
  resolveInput _ := pure none
  resolveEnv _ _ _ := .ok none
  resolveNow _ := pure 0
  hasProcessExit _ := false
  scriptArgs _ := []
  grantsHostFunction _ _ := false
  auditQueueExceeded _ _ := false
  noteResumed e := e
  noteYielded := pure ()
  link _ := pure (none, [])
  chargeLink _ _ _ := pure ()
  forget _ e := e
  containsName _ := false
  containsCooperativeName _ := false
  acceptsArity _ _ := false
  call _ _ h := (.error "", h)
  start _ _ _ _ _ h := (.pending, h)
  cancelTicket _ h := h
  tryTakeValue _ h := (none, h)
  given _ _ := False
  dispatch_all _ _ _ _ _ _ _ _ h := by cases h
  call_all _ _ _ _ _ hgiven := ⟨nofun, hgiven⟩
  start_all _ _ _ _ _ _ _ _ hgiven := ⟨nofun, hgiven⟩
  cancelTicket_all _ _ _ h := h
  tryTakeValue_all _ _ _ hgiven := ⟨nofun, hgiven⟩

/-! ## Frames -/

/-- `LoopSite`: the loop statement, by the block that has it. -/
structure LoopSite where
  owner : Block
  stmtIndex : Nat

/-- `CallTarget`. -/
inductive CallTarget
  | builtin | cooperative | host
deriving DecidableEq, Repr

/-- `CallDest`: where a value goes that a frame delivers. -/
inductive CallDest
  | discard
  | «let» (name : String) (line : Nat)
  | assign (name : String) (line : Nat)
  | «return»
  | operand
  | exprResult
  | ifCond
  | whileFirst
  | whileIter
  | forIter
  | indexAssignIndex (cell : Addr)
  | indexAssignValue (cell : Addr) (idx : Value)

/-- `DriverCall`. -/
structure DriverCall where
  dest : CallDest
  callee : Value

/-- `ExprFrame`. -/
structure ExprFrame where
  owner : Block
  stmtIndex : Nat
  slot : Nat
  path : List Nat
  line : Nat
  operands : List Value
  started : Bool
  checked : Bool
  item : Nat
  map : Dict
  pendingKey : Option String
  text : String
  target : Option CallTarget
  parts : List String
  cell : Option Addr
  dest : CallDest

/-- `FrameKind`. -/
inductive FrameKind
  | block
  | scoped
  | «while» (site : LoopSite) (body : Block) (line : Nat) (pendingStep : Bool)
  | «for» (site : LoopSite) (body : Block) (line : Nat) (items : List Value) (index : Nat)
      (pendingStep : Bool) (collection : Value)
  | «try» (var : String) (catchBody : Block) (line : Nat)
  | call (savedScopes : CallFrame) (driver : Option DriverCall)
  | expr (frame : ExprFrame)

/-- `Frame`. -/
structure Frame where
  stmts : Block
  cursor : Nat
  kind : FrameKind
  scopeBase : Nat
  heapCharge : Nat

namespace Frame

/-- `is_loop`. -/
def isLoop (frame : Frame) : Bool :=
  match frame.kind with
  | .while .. | .for .. => true
  | _ => false

/-- `is_call`. -/
def isCall (frame : Frame) : Bool :=
  match frame.kind with
  | .call .. => true
  | _ => false

/-- `is_driver_call`. -/
def isDriverCall (frame : Frame) : Bool :=
  match frame.kind with
  | .call _ (some _) => true
  | _ => false

end Frame

/-- `FlowSignal`. -/
inductive FlowSignal
  | «return» (v : Value)
  | «break» (line : Nat)
  | «continue» (line : Nat)

/-- `EvalResult`. -/
inductive EvalResult
  | val
  | «return» (v : Value)
  | «break» (line : Nat)
  | «continue» (line : Nat)

/-- `DriveOutcome`. -/
inductive DriveOutcome
  | done (result : EvalResult)
  | yielded

/-- `StmtStep`. -/
inductive StmtStep
  | val
  | flow (signal : FlowSignal)
  | enter (frame : Frame)

/-- `RunSession`. -/
structure RunSession where
  baseDepth : Nat
  newlyLoaded : LoadedModules
  transactional : Bool

/-! ## The evaluator -/

/-- `Evaluator`, without what audit buffers. The frames stand newest first, as does the call
stack. -/
structure Evaluator (E H : Type) where
  env : Env
  callStack : List TraceFrame
  budget : BudgetLedger
  adapters : E
  host : H
  nextFunctionId : Nat
  frames : List Frame
  sliceFuelUsed : Nat
  sliceFuelLimit : Option Nat
  session : Option RunSession
  pendingExit : Option Nat
  lastBudgetResource : Option BudgetResource
  pendingHostCall : Option Nat
  canYieldCtx : Bool
  nextHostCallId : Nat
  yieldForHostCall : Bool
  resumedHostCall : Option (Nat × Except AdapterError Value)
  auditQueueProgress : Bool
  yieldForAuditQueue : Bool
  forceYieldEveryBoundary : Bool
  exprProgress : Bool
  born : List FnValue

/-- Why a computation of the model ends without a value. -/
inductive Stop
  /-- `Err(error)`. -/
  | raised (error : TsumugiError)
  /-- A failed `expect` or an `unreachable!` of the source. -/
  | panic
  /-- The step bound of the model is used up. -/
  | outOfFuel

variable {E H α : Type}

/-- A computation of the evaluator. -/
abbrev Ev (E H α : Type) : Type := Proc (Evaluator E H) Stop α

namespace Evaluator

/-- `attach_trace`. -/
def attachTrace (s : Evaluator E H) (e : TsumugiError) : TsumugiError := e.withTrace s.callStack

/-- The resource that `control_stop_to_error` keeps. -/
def noteStop (s : Evaluator E H) : ControlStop → Evaluator E H
  | .budgetExceeded e => { s with lastBudgetResource := some e.resource }
  | _ => s

/-- `control_stop_to_error`: the error, with the call stack if there is one. -/
def controlStopToError (s : Evaluator E H) (stop : ControlStop) (line : Nat) : TsumugiError :=
  (stop.toError line).withTrace s.callStack

/-- `slice_exhausted`. -/
def sliceExhausted (s : Evaluator E H) : Bool :=
  match s.sliceFuelLimit with
  | some limit => limit ≤ s.sliceFuelUsed
  | none => false

/-- `forced_yield_due`. -/
def forcedYieldDue (s : Evaluator E H) : Bool :=
  s.forceYieldEveryBoundary && (s.auditQueueProgress || s.exprProgress)

/-- `in_driver_call`. -/
def inDriverCall (s : Evaluator E H) : Bool := s.frames.any (·.isDriverCall)

/-- `BudgetLedger::release_heap`. -/
def releaseHeap (bytes : Nat) (s : Evaluator E H) : Evaluator E H :=
  { s with budget := ((Charge.releaseHeap bytes).run s.budget).2 }

/-- Change the newest frame, if there is one. -/
def onTop (f : Frame → Frame) (s : Evaluator E H) : Evaluator E H :=
  match s.frames with
  | top :: rest => { s with frames := f top :: rest }
  | [] => s

def pushFrame (frame : Frame) (s : Evaluator E H) : Evaluator E H :=
  { s with frames := frame :: s.frames }

/-- `pop_frame`. -/
def popFrame (s : Evaluator E H) : Evaluator E H :=
  match s.frames with
  | [] => s
  | frame :: rest =>
    let s := { s with frames := rest }.releaseHeap frame.heapCharge
    match frame.kind with
    | .call savedScopes _ =>
      { s with callStack := s.callStack.tail, env := s.env.popCallFrame savedScopes }
    | _ => { s with env := s.env.truncateScopes frame.scopeBase }

/-- `unwind_to`. -/
def unwindTo (stopDepth : Nat) (s : Evaluator E H) : Evaluator E H :=
  popFrame^[s.frames.length - stopDepth] s

end Evaluator

/-! ## Computations of the evaluator -/

/-- `Err(error)`. -/
def raise (e : TsumugiError) : Ev E H α := Proc.stop (.raised e)

/-- A failed `expect`, or `unreachable!`. -/
def unreachable : Ev E H α := Proc.stop .panic

/-- `?` on a pure result. -/
def liftExcept : Except TsumugiError α → Ev E H α
  | .ok a => pure a
  | .error e => raise e

/-- `ok_or_else`. -/
def orRaise (o : Option α) (e : TsumugiError) : Ev E H α :=
  match o with
  | some a => pure a
  | none => raise e

/-- `expect`. -/
def expect : Option α → Ev E H α
  | some a => pure a
  | none => unreachable

/-- The error, if there is one. -/
def Stop.toError : Stop → Option TsumugiError
  | .raised e => some e
  | _ => none

/-- Look at the error, if the computation raises one. -/
def caught (m : Ev E H α) : Ev E H (Except TsumugiError α) := m.attempt Stop.toError

/-- `Err(self.control_stop_to_error(stop, line))`. -/
def raiseStop (stop : ControlStop) (line : Nat) : Ev E H α where
  run s := (.error (.raised (s.controlStopToError stop line)), s.noteStop stop)

/-- Run an operation on values. -/
def tracked (m : Tracked E α) : Ev E H (Except ControlStop α) where
  run s :=
    match m.run (s.budget, s.adapters) with
    | (r, budget, adapters) => (.ok r, { s with budget, adapters })

/-- A charge of the ledger. -/
def onBudget (m : Charge α) : Tracked E α where
  run s := ((m.run s.1).1, ((m.run s.1).2, s.2))

/-- `?` on the result of a charge, through `control_stop_to_error`. -/
def orStop (m : Ev E H (Except ControlStop α)) (line : Nat) : Ev E H α := do
  match ← m with
  | .ok a => pure a
  | .error stop => raiseStop stop line

/-- A charge with `map_err(|stop| self.control_stop_to_error(stop, line))?`. -/
def charge (m : Tracked E α) (line : Nat) : Ev E H α := orStop (tracked m) line

/-- A charge with `map_err(|stop| budget::control_stop_to_error(stop, 0, line))?`. -/
def chargeRaw (m : Tracked E α) (line : Nat) : Ev E H α := do
  match ← tracked m with
  | .ok a => pure a
  | .error stop => raise (stop.toError line)

/-- An operation of an adapter. -/
def adapter (m : Proc E TsumugiError α) : Ev E H α where
  run s :=
    match m.run s.adapters with
    | (.ok a, adapters) => (.ok a, { s with adapters })
    | (.error e, adapters) => (.error (.raised e), { s with adapters })

/-- A builtin with errors of its own. -/
def builtin (m : Builtin E α) (line : Nat) : Ev E H α where
  run s :=
    match m.run (s.budget, s.adapters) with
    | (.ok a, budget, adapters) => (.ok a, { s with budget, adapters })
    | (.error (.error e), budget, adapters) =>
      (.error (.raised e), { s with budget, adapters })
    | (.error (.stop stop), budget, adapters) =>
      (raiseStop stop line).run { s with budget, adapters }

/-- `count_step`. -/
def countStep (line : Nat) : Ev E H Unit := do
  charge (onBudget (Charge.chargeFuel 1 .run)) line
  Proc.modify fun s => { s with sliceFuelUsed := s.sliceFuelUsed + 1 }

/-- `check_collection`. -/
def checkCollection (size line : Nat) : Ev E H Unit :=
  charge (onBudget (Charge.checkCollectionElements size .run)) line

/-- `allocate_function_id`. -/
def allocateFunctionId (line : Nat) : Ev E H Nat := do
  let id ← Proc.gets Evaluator.nextFunctionId
  if id + 1 < 2 ^ 64 then
    Proc.modify fun s => { s with nextFunctionId := id + 1 }
    pure id
  else
    raise (.internal line "FunctionId を割り当てできません")

/-! ## The environment, with its charges -/

variable (rt : Runtime E H)

/-- `journal_scope_entry` for the current scope. -/
def journalScopeEntry (name : String) : Ev E H (Except ControlStop Unit) := do
  if (← Proc.gets Evaluator.env).recordsScopeEntry name then
    match ← tracked rt.newJournalEntry with
    | .error stop => pure (.error stop)
    | .ok _ =>
      Proc.modify fun s => { s with env := s.env.recordScopeEntry name }
      pure (.ok ())
  else
    pure (.ok ())

/-- `journal_cell`. -/
def journalCell (cell : Addr) : Ev E H (Except ControlStop Unit) := do
  if (← Proc.gets Evaluator.env).recordsCell cell then
    match ← tracked rt.newJournalEntry with
    | .error stop => pure (.error stop)
    | .ok _ =>
      Proc.modify fun s => { s with env := s.env.recordCell cell }
      pure (.ok ())
  else
    pure (.ok ())

/-- `Env::set_shared`. -/
def setShared (name : String) (cell : Addr) : Ev E H (Except ControlStop Unit) := do
  match ← journalScopeEntry rt name with
  | .error stop => pure (.error stop)
  | .ok _ =>
    Proc.modify fun s => { s with env := s.env.putIn s.env.current name (some cell) }
    pure (.ok ())

/-- `Env::set`: the charge of the cell, the journal, the binding. -/
def set (name : String) (value : Value) : Ev E H (Except ControlStop Unit) := do
  match ← tracked rt.newCell with
  | .error stop => pure (.error stop)
  | .ok _ =>
    let cell ← Proc.update fun s => ((s.env.newCell value).1, { s with env := (s.env.newCell value).2 })
    setShared rt name cell

/-- `env_set`. -/
def envSet (name : String) (value : Value) (line : Nat) : Ev E H Unit :=
  orStop (set rt name value) line

/-- `assign_existing`: `Env::update` and its two failures. -/
def assignExisting (name : String) (value : Value) (line : Nat) : Ev E H Unit := do
  match (← Proc.gets Evaluator.env).getCell name with
  | none => raise (.assignUndefined line name)
  | some cell =>
    orStop (journalCell rt cell) line
    Proc.modify fun s => { s with env := s.env.write cell value }

/-- What a cell holds. -/
def readCell (cell : Addr) : Ev E H Value :=
  Proc.gets fun s => (s.env.read cell).getD .null

/-- The cell of a name that must be bound. -/
def cellOf (name : String) (line : Nat) : Ev E H Addr := do
  orRaise ((← Proc.gets Evaluator.env).getCell name) (.undefinedName line name)

end Eval

end Tsumugi
