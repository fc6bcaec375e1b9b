import Tsumugi.Audit.Facade
import Tsumugi.Budget.Ledger

/-!
# The evaluator as a client of the ledger (`eval.rs`, `builtin.rs`, `builtin_core.rs`)

The program is arbitrary: step by step it asks the ledger for a charge, gives heap
back, calls the host, or ends a slice. What is embedded is all that moves the
ledger or decides the Terminal: the charge points with the function that turns
their stop into an error, the charges of the link phase, the unwinding of an error
that no `try` catches, and the commit of the language state.
-/

namespace Tsumugi.Audit

open Budget

/-! ## Charge points -/

/-- Which function turns a control stop into an error. `noting` is the method of the
evaluator, which puts the resource aside; `raw` is the function of `budget.rs`. -/
inductive Conversion
  | noting
  | raw
deriving DecidableEq, Repr

/-- Where the evaluator asks the ledger. -/
inductive ChargePoint
  /-- A step, or a node that `==`, `print` or an f-string walks over. -/
  | fuel
  /-- `check_collection`. -/
  | collection (size : Nat)
  /-- A new string body of `track_result`. -/
  | string (byteLen : Nat)
  /-- Before a node of `print` or of an f-string is written. -/
  | rendered (bytes : Nat)
  | input (payloadBytes : Nat)
  | output (payloadBytes : Nat)
  | hostRequest (requestBytes : Nat)
  | hostResponse (responseBytes : Nat)
  /-- The body of a string, a list or a dict. -/
  | tracked (bytes : Nat)
  /-- A cell, a function instance, or an entry of the rollback journal. -/
  | viaHandle (bytes : Nat)
  /-- A continuation frame. -/
  | frame (bytes : Nat)
  /-- `push`, `pop` and index assignment copy a shared backing. -/
  | detach (bytes : Nat)
  /-- They change the size of a backing in place. -/
  | resize (index newBytes : Nat)
  /-- The same for a backing that an earlier run has charged to its own ledger. -/
  | adopt (oldBytes newBytes : Nat)
  /-- A node or an element that `contains`, `sort`, `to_str` or `join` walks over. -/
  | builtinFuel
  /-- Before a node is written by `to_str`, `join` or `sort`. -/
  | builtinRendered (bytes : Nat)
  /-- `check_collection_size`, which raises its error without the ledger. -/
  | collectionSize (size : Nat)
  /-- A control stop that an adapter of the host gives. -/
  | adapter (stop : ControlStop)

namespace ChargePoint

/-- What `check_collection_size` refuses, as the stop its error shows. -/
def checkCollectionSize (size : Nat) : Charge Unit := do
  let limit ← Proc.gets fun l => l.config.maxCollectionElements
  if size > limit then
    Proc.stop (.budgetExceeded ⟨.collectionElements, limit, 0, 0, size, .elements, .run⟩)
  else pure ()

/-- The request itself, with the sizes of the backings that are alive. -/
def ask (held : List Nat) : ChargePoint → Charge Unit
  | fuel | builtinFuel => Charge.chargeFuel 1 .run
  | collection size => Charge.checkCollectionElements size .run
  | string byteLen => Charge.chargeString byteLen .run
  | rendered bytes | builtinRendered bytes => Charge.checkRendered bytes .run
  | input payloadBytes => Charge.chargeInput payloadBytes .run
  | output payloadBytes => Charge.chargeOutput payloadBytes .run
  | hostRequest requestBytes => Charge.chargeHostCallRequest requestBytes .run
  | hostResponse responseBytes => Charge.chargeHostResponseBytes responseBytes .run
  | tracked bytes | detach bytes => Charge.newTracked bytes .run
  | viaHandle bytes => Charge.newViaHandle bytes .run
  | frame bytes => Charge.chargeHeap bytes .run
  | resize index newBytes =>
    match held[index]? with
    | some oldBytes => Charge.retrack oldBytes newBytes .run
    | none => pure ()
  | adopt oldBytes newBytes => Charge.retrack oldBytes newBytes .run
  | collectionSize size => checkCollectionSize size
  | adapter stop => Proc.stop stop

/-- The conversion at this place. -/
def conversion : ChargePoint → Conversion
  | detach _ | resize .. | adopt .. | builtinFuel | builtinRendered _ | collectionSize _ => .raw
  | _ => .noting

end ChargePoint

/-- How heap is given back. -/
inductive Release
  /-- The last handle of a backing is dropped. -/
  | drop (index : Nat)
  /-- The newest frame is folded. -/
  | frame

/-! ## The program -/

/-- The errors of a spent budget. -/
def ErrorKind.isBudget : Option ErrorKind → Bool
  | some .stepLimit | some .collectionLimit | some .stringLimit | some .sourceLimit
  | some .heapLimit | some .ioLimit => true
  | _ => false

/-- An error that the program raises itself: those of a spent budget come from a charge
point. -/
structure LanguageError where
  error : TsumugiError
  not_budget : ErrorKind.isBudget error.kind = false

/-- An error of the module loader or of the depth check. -/
structure LinkError extends LanguageError where
  not_exit : error.kind ≠ some .processExit

/-- The host-call lifecycle of one call. -/
structure HostCall where
  operationId : Nat
  callId : Nat
  function : String
  request : AuditPayload
  requestBytes : Nat
  capability : String
  action : String
  resource : AuditPayload
  decision : CapabilityDecisionKind
  ruleId : String
  outcome : HostCallOutcome
  response : AuditPayload
  responseBytes : Nat
  errorCode : Option String
  effectStatus : EffectStatus

/-- `push_host_call_events`. -/
def HostCall.events (h : HostCall) : List AuditEvent :=
  [.hostCallStarted h.operationId h.callId h.function h.request h.requestBytes,
    .capabilityDecision h.operationId (some h.callId) h.capability h.action h.resource h.decision
      h.ruleId,
    .hostCallFinished h.operationId h.callId h.outcome h.response h.responseBytes h.errorCode
      h.effectStatus]

/-- What the program does next. `effect` is an effect outside that no event reports, such
as the write of `print`. -/
inductive Step
  | charge (point : ChargePoint) (line : Nat)
  | release (release : Release)
  | host (call : HostCall)
  | effect
  | progress
  | boundary
  | yields
  | done (result : EvalResult)
  | fails (error : LanguageError)
  | unwinds

/-- `LoadedModule`. -/
structure LoadedModule where
  byteLen : Nat
  pathBytes : Nat
  line : Nat

/-- What the loader hands to `charge_link`. The program has at least its root node, and a
slice has no more than `isize::MAX` entries. -/
structure LinkInput where
  rootSourceBytes : Nat
  modules : List LoadedModule
  rootBytes : Nat
  bodyBytes : List Nat
  depthError : Option LinkError
  root_pos : 64 ≤ rootBytes
  modules_fit : modules.length < 2 ^ 63

/-- How the loader ends. -/
inductive LinkAnswer
  | loaded (input : LinkInput)
  | fails (error : LinkError)
  | unwinds

/-- An arbitrary program, with its context and its host. `refused` tells it that no
allocation id is left, which it can catch; `unwind` is what an error that it cannot catch
gives back on its way out. The end of a session drops backings. -/
structure Program (P : Type) where
  prepare : P → PrepareAnswer
  install : P → Bool × P
  link : P → LinkAnswer × P
  startSlice : P → Nat → P
  next : P → BudgetLedger → Step × P
  refused : P → P
  unwind : P → List Release × P
  callStack : P → List TraceFrame
  pendingHostCall : P → Option Nat
  finalizeSession : P → Bool → List Nat × P
  abortSession : P → P
  checkpointCancel : P → Bool × P
  checkpointDeadline : P → Option Bool × P
  takePendingExit : P → Option Nat × P
  clear : P → P

/-! ## The client -/

/-- A stop that no `try` catches, on its way out. -/
structure Unwinding where
  point : Option ChargePoint
  stop : ControlStop
  error : TsumugiError

/-- The state of the evaluator. `held` and `frames` are the sizes of the backings and
frames that this run has charged and not given back, `programTokens` those of the program
itself. `committed` and `effects` say what the run has done; nothing reads them. -/
structure Client (P : Type) where
  program : P
  ledger : BudgetLedger
  installed : Bool := false
  held : List Nat := []
  frames : List Nat := []
  programTokens : List Nat := []
  lastBudgetResource : Option BudgetResource := none
  unwinding : Option Unwinding := none
  committed : Bool := false
  effects : Bool := false

namespace Client

variable {P : Type}

/-- `control_stop_to_error` of the evaluator, as far as it writes. -/
def noteStop (c : Client P) : ControlStop → Client P
  | .budgetExceeded e => { c with lastBudgetResource := some e.resource }
  | _ => c

/-- Give heap back. -/
def release (c : Client P) : Release → Client P
  | .drop index =>
    match c.held[index]? with
    | some bytes =>
      { c with
        ledger := ((Charge.dropTracked bytes).run c.ledger).2
        held := c.held.eraseIdx index }
    | none => c
  | .frame =>
    match c.frames with
    | bytes :: frames =>
      { c with ledger := ((Charge.releaseHeap bytes).run c.ledger).2, frames }
    | [] => c

/-- What is alive after a request that was granted. -/
def hold (c : Client P) : ChargePoint → Client P
  | .tracked bytes | .viaHandle bytes | .detach bytes => { c with held := c.held ++ [bytes] }
  | .frame bytes => { c with frames := bytes :: c.frames }
  | .resize index newBytes => { c with held := c.held.set index newBytes }
  | _ => c

/-- The conversion of a stop: the error, and the resource that may be put aside. -/
def convert (prog : Program P) (c : Client P) (stop : ControlStop) (line : Nat) :
    Conversion → TsumugiError × Client P
  | .noting => ((stop.toError line).withTrace (prog.callStack c.program), c.noteStop stop)
  | .raw => (stop.toError line, c)

/-- A request that was refused: an error that no `try` catches gives back what it passes. -/
def refuse (prog : Program P) (c : Client P) (point : ChargePoint) (stop : ControlStop)
    (line : Nat) : Client P :=
  let (error, c) := c.convert prog stop line point.conversion
  if ErrorKind.isUncatchable error.kind then
    let (releases, program) := prog.unwind c.program
    { releases.foldl release c with program, unwinding := some ⟨some point, stop, error⟩ }
  else { c with program := prog.refused c.program }

/-- A request to the ledger. -/
def charge (prog : Program P) (c : Client P) (point : ChargePoint) (line : Nat) : Client P :=
  match (point.ask c.held).run c.ledger with
  | (.ok (), ledger) => { c with ledger }.hold point
  | (.error stop, ledger) => { c with ledger }.refuse prog point stop line

/-- Nothing to record. -/
def silent : Action := .note (.hostCall [])

/-- One step of the program. -/
def step (prog : Program P) (c : Client P) : Action × Client P :=
  let (step, program) := prog.next c.program c.ledger
  let c := { c with program }
  match step with
  | .charge point line => (silent, c.charge prog point line)
  | .release release => (silent, c.release release)
  | .host call =>
    (.note (.hostCall call.events),
      { c with effects := c.effects || decide (call.effectStatus ≠ .none) })
  | .effect => (silent, { c with effects := true })
  | .progress => (.progress, c)
  | .boundary => (.boundary, c)
  | .yields => (.yields, c)
  | .done result => (.done result, c)
  | .fails error => (.fails error.error, c)
  | .unwinds => (.unwinds, c)

/-- The calls of the accumulator go first, then an error on its way out. -/
def next (prog : Program P) (c : Client P) : Action × Client P :=
  match c.ledger.noted with
  | note :: noted => (.note note, { c with ledger := { c.ledger with noted } })
  | [] =>
    match c.unwinding with
    | some u => (.fails u.error, c)
    | none => c.step prog

end Client

/-! ## The link phase -/

namespace Link

variable {P : Type} (prog : Program P)

/-- A charge of the link phase. -/
def asking (m : Charge Unit) (line : Nat) : Proc (Client P) TsumugiError Unit where
  run c :=
    match m.run c.ledger with
    | (.ok (), ledger) => (.ok (), { c with ledger })
    | (.error stop, ledger) =>
      let (error, c) := { c with ledger }.convert prog stop line .noting
      (.error error, { c with unwinding := some ⟨none, stop, error⟩ })

/-- `imported_module_record`. -/
def importedModuleRecord (moduleIdBytes : Nat) : Nat := Word.satAdd 96 moduleIdBytes

/-- One imported module: its source, its import, and its record on the heap. -/
def chargeModule (m : LoadedModule) : Proc (Client P) TsumugiError Unit := do
  asking prog (Charge.chargeSource m.byteLen .link) m.line
  asking prog (Charge.chargeImport m.byteLen .link) m.line
  asking prog (Charge.newViaHandle (importedModuleRecord m.pathBytes) .link) m.line
  Proc.modify fun c => { c with held := c.held ++ [importedModuleRecord m.pathBytes] }

def chargeModules : List LoadedModule → Proc (Client P) TsumugiError Unit
  | [] => pure ()
  | m :: rest => do
    chargeModule prog m
    chargeModules rest

/-- A token of the program: it lives as long as the run. -/
def chargeToken (bytes : Nat) : Proc (Client P) TsumugiError Unit := do
  asking prog (Charge.newViaHandle bytes .link) 0
  Proc.modify fun c => { c with programTokens := c.programTokens ++ [bytes] }

def chargeBodies : List Nat → Proc (Client P) TsumugiError Unit
  | [] => pure ()
  | bytes :: rest => do
    chargeToken prog bytes
    chargeBodies rest

/-- `charge_link`, up to the root of the program. -/
def chargeRoot (input : LinkInput) : Proc (Client P) TsumugiError Unit := do
  asking prog (Charge.chargeSource input.rootSourceBytes .link) 0
  chargeModules prog input.modules
  chargeToken prog input.rootBytes

/-- `charge_link`. -/
def chargeLink (input : LinkInput) : Proc (Client P) TsumugiError Unit := do
  chargeRoot prog input
  chargeBodies prog input.bodyBytes

/-- `forget`: the records of the modules that were not completed are dropped. -/
def forget (c : Client P) : Client P :=
  { c with
    ledger := c.held.foldl (fun l bytes => ((Charge.dropTracked bytes).run l).2) c.ledger
    held := [] }

/-- `begin_execution`, with the calls of the accumulator that it made. -/
def beginExecution (c : Client P) : List Note × BeginAnswer × Client P :=
  let (answer, program) := prog.link c.program
  let c := { c with program }
  let (answer, c) : BeginAnswer × Client P :=
    match answer with
    | .unwinds => (.unwinds, c)
    | .fails error => (.fails error.error, c)
    | .loaded input =>
      match (chargeLink prog input).run c with
      | (.error error, c) => (.fails error, forget c)
      | (.ok (), c) =>
        match input.depthError with
        | some error => (.fails error.error, forget c)
        | none => (.ok, c)
  (c.ledger.noted, answer, { c with ledger := { c.ledger with noted := [] } })

end Link

/-! ## The core -/

/-- The token and the clock of the request. -/
structure Interrupts where
  cancellation : Nat → Bool
  clock : Option (Nat → MonotonicInstant)

variable {P : Type}

/-- `reset_budget`: a fresh ledger for the run. -/
def Client.install (config : BudgetConfig) (interrupts : Interrupts) (program : P) : Client P where
  program
  ledger := .fresh config interrupts.cancellation interrupts.clock
  installed := true

/-- The evaluator of a program and its ledger. -/
def ledgerCore (prog : Program P) (config : BudgetConfig) (interrupts : Interrupts) :
    Core (Client P) where
  prepare c := prog.prepare c.program
  install c :=
    ((prog.install c.program).1, .install config interrupts (prog.install c.program).2)
  beginExecution := Link.beginExecution prog
  startSlice c sliceFuel := { c with program := prog.startSlice c.program sliceFuel }
  next := Client.next prog
  pendingHostCall c := prog.pendingHostCall c.program
  finalizeSession c commit :=
    let (drops, program) := prog.finalizeSession c.program commit
    { drops.foldl (fun c index => c.release (.drop index)) c with
      program
      committed := c.committed || commit }
  abortSession c := { c with program := prog.abortSession c.program }
  checkpointCancel c :=
    ((prog.checkpointCancel c.program).1,
      { c with program := (prog.checkpointCancel c.program).2 })
  checkpointDeadline c :=
    ((prog.checkpointDeadline c.program).1,
      { c with program := (prog.checkpointDeadline c.program).2 })
  takePendingExit c :=
    ((prog.takePendingExit c.program).1,
      { c with program := (prog.takePendingExit c.program).2 })
  takePendingBudgetResource c := (c.lastBudgetResource, { c with lastBudgetResource := none })
  clear c := { c with program := prog.clear c.program }
  usage c := c.ledger.usage

/-- Before the run: the context has the ledger of the run before it. -/
def Client.initial (program : P) (ledger : BudgetLedger) : Client P where
  program
  ledger

/-! ## Concrete programs -/

/-- A program that takes its steps from a list. It is one node of 64 bytes, with no import;
`cancelled` says that its token is cancelled before the run. -/
def scripted (cancelled : Bool) : Program (List Step) where
  prepare _ := .prepared
  install p := (cancelled, p)
  link p := (.loaded ⟨0, [], 64, [], none, Nat.le_refl _, by decide⟩, p)
  startSlice p _ := p
  next
    | [], _ => (.done .value, [])
    | step :: rest, _ => (step, rest)
  refused p := p
  unwind p := ([], p)
  callStack _ := []
  pendingHostCall _ := none
  finalizeSession p _ := ([], p)
  abortSession p := p
  checkpointCancel p := (true, p)
  checkpointDeadline p := (some true, p)
  takePendingExit p := (none, p)
  clear p := p

/-- Nobody interrupts. -/
def undisturbed : Interrupts := ⟨fun _ => false, none⟩

end Tsumugi.Audit
