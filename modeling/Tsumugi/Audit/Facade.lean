import Tsumugi.Audit.Journal
import Tsumugi.Audit.Recorder
import Tsumugi.Lib.Proc

/-!
# The audited run of the embedding facade (`embedding.rs`)

`run_audited` drives one execution and delivers its audit events to a sink. What
the evaluator does with the program is a parameter (`Core`): one action at a time,
with the charges and host-call events it reports. The sink is a parameter too.
Everything that touches the audit stream is embedded as it stands.

A run carries a log of what it did, in order; nothing reads it. Loops count down a
fuel, so that a run is also known when it is cut short.
-/

namespace Tsumugi.Audit

open Budget Word

/-! ## Parameters -/

/-- `AuditAck`. -/
structure AuditAck where
  executionId : Nat
  throughSequence : Nat
deriving DecidableEq, Repr

/-- `AuditSinkError`. -/
inductive AuditSinkError
  | permanent
  | protocol
  | reentrant
deriving DecidableEq, Repr

/-- What `submit_guarded` gives: `AuditSubmit`, or a panic of the sink. A ticket is
its number in the sink's world. -/
inductive AuditSubmit
  | ack (ack : AuditAck)
  | pending (ticket : Nat)
  | failed (error : AuditSinkError)
  | unwinds
deriving DecidableEq, Repr

/-- `AuditSink` and its tickets, over the sink's own state. -/
structure AuditSink (S : Type) where
  submit : S → List AuditEnvelope → AuditSubmit × S
  registerWaker : S → Nat → S
  tryTake : S → Nat → Option (Except AuditSinkError AuditAck) × S
  cancel : S → Nat → S

/-- How the statements of a program end. -/
inductive EvalResult
  | value
  | breaks (line : Nat)
  | continues (line : Nat)
deriving DecidableEq, Repr

/-- One action of the driver loop. `boundary` is a place where the queue limit is
tested, `yields` a yield for slice fuel or a host call. -/
inductive Action
  | note (note : Note)
  | progress
  | boundary
  | yields
  | done (result : EvalResult)
  | fails (error : TsumugiError)
  | unwinds

/-- How the link phase ends. -/
inductive BeginAnswer
  | ok
  | fails (error : TsumugiError)
  | unwinds
deriving DecidableEq, Repr

/-- How `prepare_program` ends. -/
inductive PrepareAnswer
  | prepared
  | refused (outcome : ExecutionOutcome)
  | unwinds
deriving DecidableEq, Repr

/-- The evaluator and its program, with all that they read from outside: each read
of the clock and of the cancellation token answers from the state. `prepare` only reads
the context; `checkpointDeadline` answers `none` when the clock panics. -/
structure Core (C : Type) where
  prepare : C → PrepareAnswer
  install : C → Bool × C
  beginExecution : C → List Note × BeginAnswer × C
  startSlice : C → Nat → C
  next : C → Action × C
  pendingHostCall : C → Option Nat
  finalizeSession : C → Bool → C
  abortSession : C → C
  checkpointCancel : C → Bool × C
  checkpointDeadline : C → Option Bool × C
  takePendingExit : C → Option Nat × C
  takePendingBudgetResource : C → Option BudgetResource × C
  clear : C → C
  usage : C → BudgetUsage

/-- `LanguageRevision`. -/
inductive LanguageRevision
  | v0_19
  | v0_20
  | v0_21
deriving DecidableEq, Repr

/-- `LanguageRevision::as_str`. -/
def LanguageRevision.asStr : LanguageRevision → String
  | v0_19 => "0.19"
  | v0_20 => "0.20"
  | v0_21 => "0.21"

/-- What the engine, the linked script and the request fix for the run. The timestamp is
`none` when the clock panics at the read. -/
structure AuditedRequest where
  executionId : Option Nat
  sourceHash : List UInt8
  languageRevision : LanguageRevision
  importGraphHash : List UInt8
  capabilityPolicyHash : List UInt8
  redactionPolicyId : String
  engineVersion : String
  backend : Backend
  timestamp : Option Int
  budget : BudgetConfig
  auditBudget : AuditBudget
  auditSliceFuel : Option Nat

/-! ## The state of a run -/

/-- Where a panic of the host or of the implementation can happen. `delivery` is a call
of the sink for the event, or the clock while its ack is awaited. -/
inductive PanicSite
  | prepare
  | timestamp
  | evaluator
  | delivery (event : AuditEvent)

/-- What a run has done. `work` is a step of the evaluator on the program. -/
inductive LogEntry
  | appended (envelope : AuditEnvelope)
  | submitted (envelope : AuditEnvelope)
  | acked (envelope : AuditEnvelope)
  | recorded (event : AuditEvent)
  | work
  | panicked (site : PanicSite)

/-- Everything `run_audited` writes to. -/
structure RunState (C S : Type) where
  core : C
  sink : S
  recorder : Recorder := {}
  journal : AuditJournal
  poisoned : Bool := false
  running : Bool := false
  log : List LogEntry := []

/-- Why a part of the run stops: an audit failure, a panic, or the cut of the model. -/
inductive Stop
  | failed (failure : AuditFailure)
  | unwound
  | outOfFuel
deriving DecidableEq, Repr

/-- The stops that the facade handles as a value. -/
def Stop.failure : Stop → Option AuditFailure
  | failed failure => some failure
  | _ => none

/-- The stops that `catch_host_unwind` handles. -/
def Stop.panic : Stop → Option Unit
  | unwound => some ()
  | _ => none

/-- `AuditedOutcome`. -/
inductive AuditedOutcome
  | outcome (outcome : ExecutionOutcome)
  | auditFailed (withheld : TerminalOutcome) (failure : AuditFailure)
deriving DecidableEq, Repr

/-- `AuditDrive`. -/
inductive AuditDrive
  | terminal (outcome : ExecutionOutcome)
  | failed (withheld : TerminalOutcome) (failure : AuditFailure)
deriving DecidableEq, Repr

/-- `SliceOutcome`. -/
inductive SliceOutcome
  | yieldedSliceFuel
  | yieldedHostCall (callId : Nat)
  | yieldedExplicit
  | yieldedAuditQueue
  | terminal (result : Except TsumugiError Unit)

/-- `audit_yield_reason_from`. -/
def auditYieldReasonFrom : SliceOutcome → Option AuditYieldReason
  | .yieldedSliceFuel => some .sliceFuelExhausted
  | .yieldedHostCall callId => some (.hostCallPending callId)
  | .yieldedExplicit => some .explicitYield
  | .yieldedAuditQueue => some .auditBackpressure
  | .terminal _ => none

/-- `DriveOutcome`, with the error that unwound the driver. -/
inductive DriveOutcome
  | yielded
  | done (result : EvalResult)
  | fails (error : TsumugiError)

variable {C S : Type}

/-- A part of the audited run. -/
abbrev Run (C S α : Type) := Proc (RunState C S) Stop α

namespace Run

/-- Append to the log. -/
def trace (entries : List LogEntry) : Run C S Unit :=
  Proc.modify fun st => { st with log := st.log ++ entries }

/-- A panic: it unwinds to the next `catch_host_unwind`. -/
def panics {α : Type} (site : PanicSite) : Run C S α := do
  trace [.panicked site]
  Proc.stop .unwound

/-- Work on the evaluator alone. -/
def onCore {α : Type} (f : C → α × C) : Run C S α :=
  Proc.update fun st => ((f st.core).1, { st with core := (f st.core).2 })

/-- A call of the recorder; what it puts into the buffer is logged. -/
def record {α : Type} (f : Recorder → α × Recorder) : Run C S α :=
  Proc.update fun st =>
    ((f st.recorder).1,
      { st with
        recorder := (f st.recorder).2
        log := st.log ++
          ((f st.recorder).2.auditEvents.drop st.recorder.auditEvents.length).map .recorded })

end Run

open Run

section

variable (rq : AuditedRequest) (executionId : Nat) (core : Core C) (sink : AuditSink S)

/-- `AuditDelivery::envelope`. -/
def envelope (sequence : Nat) (event : AuditEvent) : AuditEnvelope :=
  ⟨1, executionId, rq.sourceHash, rq.languageRevision.asStr, sequence, rq.timestamp.getD 0,
    event⟩

/-- `ack_ok`. -/
def ackOk (ack : AuditAck) (throughSeq : Nat) : Bool :=
  ack.executionId == executionId && ack.throughSequence == throughSeq

/-! ## Delivery -/

/-- `submit_guarded` of a batch of one envelope. -/
def submit (env : AuditEnvelope) : Run C S AuditSubmit := do
  trace [.submitted env]
  let answer ← Proc.update fun st =>
    ((sink.submit st.sink [env]).1, { st with sink := (sink.submit st.sink [env]).2 })
  match answer with
  | .unwinds => panics (.delivery env.event)
  | answer => pure answer

/-- An operation of a ticket. -/
def onTicket {α : Type} (f : S → α × S) : Run C S α :=
  Proc.update fun st => ((f st.sink).1, { st with sink := (f st.sink).2 })

/-- `AUDIT_BACKPRESSURE_MAX_RESENDS`. -/
def auditBackpressureMaxResends : Nat := 1000000

/-- The ack has come: Resumed is recorded. -/
def resumeAfterAck (env : AuditEnvelope) : Run C S Unit := do
  let usage ← Proc.gets fun st => core.usage st.core
  record fun r => ((), r.recordBackpressureResume usage)
  trace [.acked env]

/-- Cancel, then deadline; `true` when either stops the wait. -/
def interrupted (env : AuditEnvelope) : Run C S Bool := do
  let cancelOk ← onCore core.checkpointCancel
  if cancelOk then do
    match ← onCore core.checkpointDeadline with
    | some deadlineOk => pure !deadlineOk
    | none => panics (.delivery env.event)
  else pure true

/-- The wait of `deliver`, with the resends that are left. -/
def awaitAck (env : AuditEnvelope) : Nat → Nat → Run C S Unit
  | 0, ticket => do
    onTicket fun s => ((), sink.cancel s ticket)
    Proc.stop (.failed .backpressureDeadline)
  | resends + 1, ticket => do
    if ← interrupted core env then do
      onTicket fun s => ((), sink.cancel s ticket)
      Proc.stop (.failed .backpressureDeadline)
    else do
      match ← onTicket fun s => sink.tryTake s ticket with
      | some (.ok ack) =>
        if ackOk executionId ack env.sequence then resumeAfterAck core env
        else Proc.stop (.failed .sink)
      | some (.error _) => Proc.stop (.failed .sink)
      | none =>
        match ← submit sink env with
        | .ack ack =>
          if ackOk executionId ack env.sequence then resumeAfterAck core env
          else Proc.stop (.failed .sink)
        | .pending next => do
          onTicket fun s => ((), sink.registerWaker s next)
          awaitAck env resends next
        | _ => Proc.stop (.failed .sink)

/-- `AuditDelivery::deliver`. -/
def deliver (env : AuditEnvelope) : Run C S Unit := do
  match ← submit sink env with
  | .ack ack =>
    if ackOk executionId ack env.sequence then trace [.acked env]
    else Proc.stop (.failed .sink)
  | .pending ticket => do
    let usage ← Proc.gets fun st => core.usage st.core
    if ← record fun r => r.recordBackpressureYield usage then do
      onTicket fun s => ((), sink.registerWaker s ticket)
      awaitAck executionId core sink env auditBackpressureMaxResends ticket
    else do
      onTicket fun s => ((), sink.cancel s ticket)
      Proc.stop (.failed .sink)
  | _ => Proc.stop (.failed .sink)

/-- Take what an append to the journal gives. -/
def append (env : AuditEnvelope)
    (f : AuditJournal → AuditEnvelope → Except AuditFailure (Nat × AuditJournal)) :
    Run C S Unit := do
  let j ← Proc.gets fun st => st.journal
  match f j env with
  | .error failure => Proc.stop (.failed failure)
  | .ok (_, j) =>
    Proc.modify fun st => { st with journal := j, log := st.log ++ [.appended env] }

/-- One event of `flush_events`: reserve, append, deliver, release. -/
def flushEvent (event : AuditEvent) : Run C S Unit := do
  let j ← Proc.gets fun st => st.journal
  if event.isHostCallStarted && !j.canReserveHostCall then
    Proc.stop (.failed .budgetExceeded)
  else do
    let env := envelope rq executionId j.nextSequence event
    append env AuditJournal.appendNormal
    deliver executionId core sink env
    Proc.modify fun st => { st with recorder := st.recorder.auditQueueRelease event }

/-- The events of one pass. -/
def flushEach : List AuditEvent → Run C S Unit
  | [] => pure ()
  | event :: events => do
    flushEvent rq executionId core sink event
    flushEach events

/-- Take the buffer, then the accumulator; the charges are put on the queue. -/
def drainAll : Run C S (List AuditEvent) := do
  let events ← Proc.update fun st =>
    (st.recorder.drainAuditEvents.1, { st with recorder := st.recorder.drainAuditEvents.2 })
  let charges ← Proc.update fun st =>
    (st.recorder.drainBudgetCharges.1, { st with recorder := st.recorder.drainBudgetCharges.2 })
  trace (charges.map .recorded)
  Proc.modify fun st =>
    { st with recorder := charges.foldl Recorder.auditQueueAdmit st.recorder }
  pure (events ++ charges)

/-- `flush_events`: passes until nothing is left. -/
def flushEvents : Nat → Run C S Unit
  | 0 => Proc.stop .outOfFuel
  | fuel + 1 => do
    match ← drainAll with
    | [] => pure ()
    | events => do
      flushEach rq executionId core sink events
      flushEvents fuel

/-! ## Slices -/

/-- What a note of the evaluator does to the recorder. -/
def Recorder.take (r : Recorder) : Note → Recorder
  | .charge resource reason delta usageAfter =>
    { r with accumulator := r.accumulator.noteCharge resource reason delta usageAfter }
  | .release resource reason delta usageAfter peakAfter =>
    { r with accumulator := r.accumulator.noteRelease resource reason delta usageAfter peakAfter }
  | .hostCall events => r.pushAuditEvents events

/-- `run_driver`, as far as the audit stream sees it. -/
def runDriver : Nat → Run C S DriveOutcome
  | 0 => Proc.stop .outOfFuel
  | fuel + 1 => do
    trace [.work]
    match ← onCore core.next with
    | .note note => do
      record fun r => ((), r.take note)
      runDriver fuel
    | .progress => do
      record fun r => ((), { r with auditQueueProgress := true })
      runDriver fuel
    | .boundary => do
      if ← Proc.gets fun st => st.recorder.auditQueueExceeded then do
        record fun r => ((), { r with yieldForAuditQueue := true })
        pure .yielded
      else runDriver fuel
    | .yields => pure .yielded
    | .done result => pure (.done result)
    | .fails error => pure (.fails error)
    | .unwinds => panics .evaluator

/-- Which yield a slice ended with. -/
def sliceYield (pendingHostCall : Option Nat) (auditQueueYield : Bool) : SliceOutcome :=
  match pendingHostCall with
  | some callId => .yieldedHostCall callId
  | none => if auditQueueYield then .yieldedAuditQueue else .yieldedSliceFuel

/-- The result of statements that ran to their end. -/
def finalResult : EvalResult → Except TsumugiError Unit
  | .value => .ok ()
  | .breaks line =>
    .error (.runtime line "break はループの中でのみ使用できます" .controlFlow [] (some 29))
  | .continues line =>
    .error (.runtime line "continue はループの中でのみ使用できます" .controlFlow [] (some 30))

/-- The yield of a slice: charges first, then Yielded with a new poll index. -/
def yieldSlice (slice : SliceOutcome) (reason : AuditYieldReason) : Run C S SliceOutcome := do
  record fun r => ((), r.flushChargesIntoAuditEvents)
  let usage ← Proc.gets fun st => core.usage st.core
  let allocated ← record fun r =>
    match r.allocPollIndex with
    | some (pollIndex, r) => (true, r.recordYield reason pollIndex usage)
    | none => (false, r)
  if allocated then pure slice
  else do
    onCore fun c => ((), core.finalizeSession c false)
    pure (.terminal (.error (.runtimeWithKind 0 .internal
      "内部エラー: yield poll_index を割り当てできません")))

/-- `run_slice`. -/
def runSlice (fuel sliceFuel : Nat) : Run C S SliceOutcome := do
  let usage ← Proc.gets fun st => core.usage st.core
  record fun r => ((), r.recordResume usage)
  onCore fun c => ((), core.startSlice c sliceFuel)
  record fun r => ((), { r with auditQueueProgress := false })
  match ← runDriver core fuel with
  | .yielded => do
    let auditQueueYield ← record fun r =>
      (r.yieldForAuditQueue, { r with yieldForAuditQueue := false })
    let pending ← Proc.gets fun st => core.pendingHostCall st.core
    let slice := sliceYield pending auditQueueYield
    match auditYieldReasonFrom slice with
    | some reason => yieldSlice core slice reason
    | none => pure slice
  | .done result => do
    onCore fun c => ((), core.finalizeSession c (finalResult result).isOk)
    pure (.terminal (finalResult result))
  | .fails error => do
    onCore fun c => ((), core.finalizeSession c (error.kind == some .processExit))
    pure (.terminal (.error error))

/-! ## The driver -/

/-- The exit code that belongs to the error. -/
def exitOf (error : TsumugiError) : Run C S (Option Nat) :=
  if error.kind = some .processExit then onCore core.takePendingExit else pure none

/-- `terminal_from_run_error`. -/
def terminalFrom (error : TsumugiError) : Run C S ExecutionOutcome := do
  let usage ← Proc.gets fun st => core.usage st.core
  let pendingExit ← exitOf core error
  pure (terminalFromRunError pendingExit usage error)

/-- The outcome of a slice that is terminal. -/
def terminalOf : Except TsumugiError Unit → Run C S ExecutionOutcome
  | .ok () => do
    let usage ← Proc.gets fun st => core.usage st.core
    pure (.completed usage)
  | .error error => terminalFrom core error

/-- What is reported as withheld when a flush fails after a slice. -/
def withheldAfter : SliceOutcome → Run C S TerminalOutcome
  | .terminal result => do
    let outcome ← terminalOf core result
    pure (terminalOutcomeFrom outcome none)
  | _ => do
    onCore fun c => ((), core.abortSession c)
    pure .cancelled

/-- The poll loop of `run_audited_driver`: one slice, one flush. -/
def pollLoop (sliceFuel : Nat) : Nat → Run C S AuditDrive
  | 0 => Proc.stop .outOfFuel
  | fuel + 1 => do
    let slice ← runSlice core fuel sliceFuel
    match ← (flushEvents rq executionId core sink fuel).attempt Stop.failure with
    | .error failure => do
      let withheld ← withheldAfter core slice
      onCore fun c => ((), core.clear c)
      pure (.failed withheld failure)
    | .ok () =>
      match slice with
      | .terminal result => do
        let outcome ← terminalOf core result
        onCore fun c => ((), core.clear c)
        pure (.terminal outcome)
      | _ => pollLoop sliceFuel fuel

/-- The link phase: `begin_execution` with its charges. -/
def beginExecution : Run C S BeginAnswer := do
  trace [.work]
  let (notes, answer) ← onCore fun c =>
    (((core.beginExecution c).1, (core.beginExecution c).2.1), (core.beginExecution c).2.2)
  record fun r => ((), notes.foldl Recorder.take r)
  match answer with
  | .unwinds => panics .evaluator
  | answer => pure answer

/-- `run_audited_driver`. -/
def runAuditedDriver (fuel : Nat) : Run C S AuditDrive := do
  let cancelled ← onCore core.install
  record fun _ => ((), {})
  if cancelled then do
    let usage ← Proc.gets fun st => core.usage st.core
    pure (.terminal (.cancelled usage))
  else do
    record fun r => ((), r.setAuditQueue rq.auditBudget.maxPendingBytes
      (estimateEnvelopeOverheadBytes rq.languageRevision.asStr))
    match ← beginExecution core with
    | .fails error => do
      let outcome ← terminalFrom core error
      match ← (flushEvents rq executionId core sink fuel).attempt Stop.failure with
      | .error failure => pure (.failed (terminalOutcomeFrom outcome none) failure)
      | .ok () => do
        onCore fun c => ((), core.clear c)
        pure (.terminal outcome)
    | _ => pollLoop rq executionId core sink (rq.auditSliceFuel.getD maxU64) fuel

/-! ## The run -/

/-- The Started event. -/
def startedEvent : AuditEvent :=
  .executionStarted rq.engineVersion rq.backend 1 1 rq.budget rq.capabilityPolicyHash
    rq.redactionPolicyId .live

/-- The Terminal event of an outcome. -/
def terminalEvent (outcome : ExecutionOutcome) (exceededResource : Option BudgetResource) :
    AuditEvent :=
  .terminal (terminalOutcomeFrom outcome exceededResource) (auditErrorPayloadFrom outcome)
    outcome.usage (some rq.importGraphHash) outcome.committed false

/-- Started has no ack: the emergency Terminal, and no work. -/
def failStarted : Run C S AuditedOutcome := do
  let j ← Proc.gets fun st => st.journal
  let env := envelope rq executionId j.nextSequence
    (.terminal .auditFailure none {} none false false)
  match ← (append env AuditJournal.appendTerminal).attempt Stop.failure with
  | .error failure => pure (.auditFailed .auditFailure failure)
  | .ok () => do
    let _ ← submit sink env
    pure (.auditFailed .auditFailure .sink)

/-- The resource of a budget stop, as the evaluator put it aside. -/
def exceededResource : ExecutionOutcome → Run C S (Option BudgetResource)
  | .budgetExceeded .. => onCore core.takePendingBudgetResource
  | _ => pure none

/-- Append the Terminal and deliver it. -/
def finish (outcome : ExecutionOutcome) : Run C S AuditedOutcome := do
  let exceeded ← exceededResource core outcome
  let withheld := terminalOutcomeFrom outcome exceeded
  let j ← Proc.gets fun st => st.journal
  let env := envelope rq executionId j.nextSequence (terminalEvent rq outcome exceeded)
  match ← (append env AuditJournal.appendTerminal).attempt Stop.failure with
  | .error failure => pure (.auditFailed withheld failure)
  | .ok () =>
    match ← (deliver executionId core sink env).attempt Stop.failure with
    | .error failure => pure (.auditFailed withheld failure)
    | .ok () => pure (.outcome outcome)

/-- The driver under `catch_host_unwind`. -/
def guardedDriver (fuel : Nat) : Run C S AuditDrive := do
  match ← (runAuditedDriver rq executionId core sink fuel).attempt Stop.panic with
  | .ok drive => pure drive
  | .error () => do
    let usage ← Proc.gets fun st => core.usage st.core
    pure (.terminal (.internalFailure usage))

/-- Started, and on its ack the driver: the result of the run, or the outcome that the
Terminal is to show. -/
def runStarted (fuel : Nat) : Run C S (Except AuditedOutcome ExecutionOutcome) := do
  let env := envelope rq executionId 0 (startedEvent rq)
  match ← (append env AuditJournal.appendNormal).attempt Stop.failure with
  | .error failure => pure (.error (.auditFailed .internalFailure failure))
  | .ok () =>
    match ← submit sink env with
    | .ack ack =>
      if ackOk executionId ack 0 then do
        trace [.acked env]
        match ← guardedDriver rq executionId core sink fuel with
        | .terminal outcome => pure (.ok outcome)
        | .failed withheld failure => pure (.error (.auditFailed withheld failure))
      else do
        let audited ← failStarted rq executionId sink
        pure (.error audited)
    | _ => do
      let audited ← failStarted rq executionId sink
      pure (.error audited)

end

section

variable (rq : AuditedRequest) (core : Core C) (sink : AuditSink S)

/-- Steps 1 to 4 of `run_audited_inner`: all that comes before the Terminal. -/
def runToOutcome (fuel : Nat) : Run C S (Except AuditedOutcome (Nat × ExecutionOutcome)) := do
  match ← Proc.gets fun st => core.prepare st.core with
  | .unwinds => do
    trace [.panicked .prepare]
    let usage ← Proc.gets fun st => core.usage st.core
    pure (.error (.outcome (.internalFailure usage)))
  | .refused outcome => pure (.error (.outcome outcome))
  | .prepared =>
    match rq.executionId with
    | none => pure (.error (.outcome (.internalFailure {})))
    | some executionId =>
      if rq.timestamp.isNone then panics .timestamp
      else do
        let result ← runStarted rq executionId core sink fuel
        pure (result.map fun outcome => (executionId, outcome))

/-- `run_audited_inner`: the last step appends and delivers the Terminal. -/
def runAuditedInner (fuel : Nat) : Run C S AuditedOutcome := do
  match ← runToOutcome rq core sink fuel with
  | .error audited => pure audited
  | .ok (executionId, outcome) => finish rq executionId core sink outcome

/-- `run_audited` of an engine with a sink. `reentered` says that the call comes from
a callback of the same engine's sink. -/
def runAudited (reentered : Bool) (fuel : Nat) : Run C S AuditedOutcome := do
  let st ← Proc.gets id
  if reentered || st.poisoned || st.running then pure (.outcome (.internalFailure {}))
  else do
    Proc.modify fun st => { st with running := true }
    let audited ← runAuditedInner rq core sink fuel
    let poison := match audited with
      | .outcome (.internalFailure _) => true
      | _ => false
    Proc.modify fun st => { st with running := false, poisoned := st.poisoned || poison }
    pure audited

/-- The state in which `run_audited` is called: the log is empty and the journal is not
yet open. The context may have been used before. -/
def RunState.initial (c : C) (s : S) (r : Recorder) (poisoned running : Bool) : RunState C S :=
  ⟨c, s, r, .openJournal rq.auditBudget, poisoned, running, []⟩

end

end Tsumugi.Audit
