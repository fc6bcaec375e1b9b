import Tsumugi.Host.Ticket
import Tsumugi.Lang.Error
import Tsumugi.Scheduler.Shared

/-!
# Execution handles (`engine.rs`)

A handle holds a slot of the shared scheduler, the public state of its execution
and, while a host call is pending, the ticket of that call. `poll` is followed
branch by branch; what the evaluator does in one slice, and whether the deadline
has passed, are inputs of a poll. The usage snapshot that a poll result carries
is left out.
-/

namespace Tsumugi.Engine

open Scheduler Host

/-- `YieldReason`. -/
inductive YieldReason
  | admissionQueued (resumeTo : AdmissionPhase)
  | sliceFuelExhausted
  | hostCallPending (callId : Nat)
  | explicitYield
  | schedulerPreempted
  | auditBackpressure
deriving DecidableEq, Repr

/-- `PauseReason`. -/
inductive PauseReason
  | hostRequested
deriving DecidableEq, Repr

/-- `ResumeState`. -/
inductive ResumeState
  | created
  | linked
  | ready
  | yielded (reason : YieldReason)
deriving DecidableEq, Repr

/-- `PausedState`. -/
structure PausedState where
  reason : PauseReason
  resumeTo : ResumeState
deriving DecidableEq, Repr

/-- `ExecutionState`. -/
inductive ExecutionState
  | created
  | linked
  | ready
  | running
  | yielded (reason : YieldReason)
  | paused (state : PausedState)
  | terminal
deriving DecidableEq, Repr

/-- `ExecutionOutcome`. -/
inductive ExecutionOutcome
  | completed
  | runtimeError (error : TsumugiError)
  | linkError (error : TsumugiError)
  | cancelled
  | deadlineExceeded
deriving DecidableEq, Repr

/-- `PollResult`, without the usage snapshot. -/
inductive PollResult
  | yielded (reason : YieldReason)
  | paused (state : PausedState)
  | terminal (outcome : ExecutionOutcome)
deriving DecidableEq, Repr

/-- `HandleError`. -/
inductive HandleError
  | wrongThread
  | invalidState (operation : String) (state : ExecutionState)
  | terminal
deriving DecidableEq, Repr

/-- `RunPhase`. -/
inductive RunPhase
  | link
  | run
deriving DecidableEq, Repr

/-- `SliceOutcome`: how `run_slice` ends. -/
inductive SliceOutcome
  | yieldedSliceFuel
  | yieldedHostCall (callId : Nat)
  | yieldedExplicit
  | yieldedAuditQueue
  | terminal (result : Except TsumugiError Unit)

/-- `SlicePoll`. -/
inductive SlicePoll
  | yieldedSliceFuel
  | yieldedHostCall (callId : Nat)
  | yieldedExplicit
  | terminal (outcome : ExecutionOutcome)
deriving DecidableEq, Repr

/-- What a handle reads and writes of its context's evaluator: the call whose
result is awaited, and the cancel token. -/
structure EvaluatorView where
  pendingHostCall : Option Nat
  cancelled : Bool
deriving DecidableEq, Repr

/-- What happens outside the scheduler during one poll. -/
structure PollInput where
  deadlinePassed : Bool
  beginExecution : Except (RunPhase × TsumugiError) Unit
  runSlice : SliceOutcome

/-- `ExecutionHandle`. The script, the request and the context are left out
except for what `EvaluatorView` shows of the latter. -/
structure ExecutionHandle (R W : Type) where
  state : ExecutionState
  outcome : Option ExecutionOutcome
  transactional : Bool
  started : Bool
  slotId : ExecutionSlotId
  waker : Option W
  pendingTicket : Option (TicketShared R W)
  runTurnRegistered : Bool
  slot : AdmissionSlot
  evaluator : EvaluatorView

variable {R W : Type}

/-! ## Ticket operations as single steps -/

/-- `try_take` with nothing in between. -/
def tryTake (t : TicketShared R W) : Option R × TicketShared R W :=
  if t.ready then (t.state.take.1, { t with state := t.state.take.2 }) else (none, t)

/-- `complete` with nothing in between. -/
def complete (t : TicketShared R W) (result : R) : TicketShared R W :=
  match t.state.saveResult result with
  | none => t
  | some st => { state := st, ready := true }

/-- `register_waker` with nothing in between. -/
def registerWaker (t : TicketShared R W) (waker : W) : TicketShared R W :=
  { t with state := t.state.saveWaker waker }

/-! ## The evaluator's side of a host call -/

/-- `resume_host_call`: only the awaited call can be resumed. -/
def EvaluatorView.resumeHostCall (e : EvaluatorView) (callId : Nat) :
    Except TsumugiError EvaluatorView :=
  match e.pendingHostCall with
  | some pending =>
    if pending = callId then .ok { e with pendingHostCall := none }
    else .error (.runtimeWithKind 0 .internalControl
      s!"host-call resume の call_id 不整合: {callId}")
  | none => .error (.runtimeWithKind 0 .internalControl
      s!"host-call resume の call_id 不整合: {callId}")

/-- `abort_session`, of which a handle sees that nothing is awaited any more. -/
def EvaluatorView.abortSession (e : EvaluatorView) : EvaluatorView :=
  { e with pendingHostCall := none }

/-! ## `poll` -/

/-- What a poll leaves behind. `ranSlice` says whether it got to
`drive_one_slice`. -/
structure Polled (R W : Type) where
  result : Except HandleError PollResult
  handle : ExecutionHandle R W
  shared : SchedulerShared
  ranSlice : Bool

namespace ExecutionHandle

/-- `new_handle`. -/
def new (slot : AdmissionSlot) (resumeTo : AdmissionPhase) (transactional : Bool)
    (evaluator : EvaluatorView) : ExecutionHandle R W where
  state :=
    match slot.kind with
    | .active =>
      match resumeTo with
      | .created => .created
      | .linked => .linked
    | .queued => .yielded (.admissionQueued resumeTo)
  outcome := none
  transactional := transactional
  started := false
  slotId := slot.slotId
  waker := none
  pendingTicket := none
  runTurnRegistered := false
  slot := slot
  evaluator := evaluator

/-- `checkpoint_terminal`: cancel before deadline. -/
def checkpointTerminal (h : ExecutionHandle R W) (input : PollInput) : Option ExecutionOutcome :=
  if h.evaluator.cancelled then some .cancelled
  else if input.deadlinePassed then some .deadlineExceeded
  else none

/-- `finish_terminal`. -/
def finishTerminal (h : ExecutionHandle R W) (outcome : ExecutionOutcome) :
    ExecutionHandle R W :=
  { h with state := .terminal, outcome := some outcome }

/-- The outcome for an error that is a control signal. -/
def controlOutcome (error : TsumugiError) : Option ExecutionOutcome :=
  match error.kind with
  | some .cancelled => some .cancelled
  | some .deadlineExceeded => some .deadlineExceeded
  | _ => none

/-- `drive_one_slice`. -/
def driveOneSlice (h : ExecutionHandle R W) (input : PollInput) :
    SlicePoll × ExecutionHandle R W :=
  match h.started, input.beginExecution with
  | false, .error (phase, error) =>
    let outcome := (controlOutcome error).getD <|
      if h.transactional then .runtimeError error
      else match phase with
        | .link => .linkError error
        | .run => .runtimeError error
    (.terminal outcome, h)
  | _, _ =>
    let h := { h with started := true }
    match input.runSlice with
    | .yieldedSliceFuel => (.yieldedSliceFuel, h)
    | .yieldedHostCall callId =>
      (.yieldedHostCall callId,
        { h with evaluator := { h.evaluator with pendingHostCall := some callId } })
    | .yieldedExplicit => (.yieldedExplicit, h)
    | .yieldedAuditQueue => (.yieldedSliceFuel, h)
    | .terminal (.ok ()) => (.terminal .completed, h)
    | .terminal (.error error) =>
      (.terminal ((controlOutcome error).getD (.runtimeError error)), h)

/-- Step 6 of `poll`: the head runs one slice. -/
def pollHead (h : ExecutionHandle R W) (shared : SchedulerShared) (input : PollInput) :
    Polled R W :=
  match { h with state := .running }.driveOneSlice input with
  | (.yieldedSliceFuel, h) =>
    ⟨.ok (.yielded .sliceFuelExhausted), { h with state := .yielded .sliceFuelExhausted },
      shared.runTurnRotate h.slotId, true⟩
  | (.yieldedHostCall callId, h) =>
    -- the ticket is fresh: only this slice can have made it
    let ticket : TicketShared R W :=
      match h.waker with
      | some waker => registerWaker newTicket waker
      | none => newTicket
    ⟨.ok (.yielded (.hostCallPending callId)),
      { h with
        pendingTicket := some ticket
        runTurnRegistered := false
        state := .yielded (.hostCallPending callId) },
      shared.runTurnRemove h.slotId, true⟩
  | (.yieldedExplicit, h) =>
    ⟨.ok (.yielded .explicitYield), { h with state := .yielded .explicitYield },
      shared.runTurnRotate h.slotId, true⟩
  | (.terminal outcome, h) =>
    ⟨.ok (.terminal outcome), h.finishTerminal outcome, shared.runTurnRemove h.slotId, true⟩

/-- Step 5 of `poll`: register at the tail, and let others go first. A handle that
is not at the head keeps its state. -/
def pollRunTurn (h : ExecutionHandle R W) (shared : SchedulerShared) (input : PollInput) :
    Polled R W :=
  let shared := if h.runTurnRegistered then shared else shared.runTurnPushBack h.slotId
  let h := { h with runTurnRegistered := true }
  if shared.isHead h.slotId then h.pollHead shared input
  else ⟨.ok (.yielded .schedulerPreempted), h, shared, false⟩

/-- Leave the run-turn FIFO and end. -/
def endPending (h : ExecutionHandle R W) (shared : SchedulerShared) (outcome : ExecutionOutcome) :
    Polled R W :=
  ⟨.ok (.terminal outcome),
    { h with
      pendingTicket := none
      evaluator := h.evaluator.abortSession
      runTurnRegistered := false }.finishTerminal outcome,
    shared.runTurnRemove h.slotId, false⟩

/-- Step 3 of `poll`, in the admission queue. -/
def pollAdmissionQueued (h : ExecutionHandle R W) (shared : SchedulerShared)
    (resumeTo : AdmissionPhase) (input : PollInput) : Polled R W :=
  match h.checkpointTerminal input with
  | some outcome => ⟨.ok (.terminal outcome), h.finishTerminal outcome, shared, false⟩
  | none =>
    if shared.slotState h.slotId = .active then
      let state := match resumeTo with
        | .created => .created
        | .linked => .linked
      { h with state := state }.pollRunTurn shared input
    else ⟨.ok (.yielded (.admissionQueued resumeTo)), h, shared, false⟩

/-- Step 4 of `poll`, waiting for a host call. The state is still
`hostCallPending` when step 5 is reached. -/
def pollHostCallPending (h : ExecutionHandle R W) (shared : SchedulerShared) (callId : Nat)
    (input : PollInput) : Polled R W :=
  match h.checkpointTerminal input with
  | some outcome => h.endPending shared outcome
  | none =>
    match h.pendingTicket.map tryTake with
    | some (some _, _) =>
      match h.evaluator.resumeHostCall callId with
      | .error error => h.endPending shared (.runtimeError error)
      | .ok evaluator =>
        { h with evaluator := evaluator, pendingTicket := none }.pollRunTurn shared input
    | some (none, ticket) =>
      ⟨.ok (.yielded (.hostCallPending callId)), { h with pendingTicket := some ticket }, shared,
        false⟩
    | none => ⟨.ok (.yielded (.hostCallPending callId)), h, shared, false⟩

/-- `poll`. -/
def poll (h : ExecutionHandle R W) (shared : SchedulerShared) (input : PollInput) : Polled R W :=
  match h.state with
  | .terminal => ⟨.error .terminal, h, shared, false⟩
  | .paused _ => ⟨.error (.invalidState "poll" h.state), h, shared, false⟩
  | .yielded (.admissionQueued resumeTo) => h.pollAdmissionQueued shared resumeTo input
  | .yielded (.hostCallPending callId) => h.pollHostCallPending shared callId input
  | _ => h.pollRunTurn shared input

/-! ## The other operations -/

/-- `resume_target`. -/
def resumeTarget : ExecutionState → Option ResumeState
  | .created => some .created
  | .linked => some .linked
  | .ready => some .ready
  | .yielded reason => some (.yielded reason)
  | .running | .paused _ | .terminal => none

/-- `pause`. -/
def pause (h : ExecutionHandle R W) : Except HandleError Unit × ExecutionHandle R W :=
  if h.state = .terminal then (.error .terminal, h)
  else match resumeTarget h.state with
    | some resumeTo => (.ok (), { h with state := .paused ⟨.hostRequested, resumeTo⟩ })
    | none => (.error (.invalidState "pause" h.state), h)

/-- The state that `resume` goes back to. -/
def ResumeState.toState : ResumeState → ExecutionState
  | .created => .created
  | .linked => .linked
  | .ready => .ready
  | .yielded reason => .yielded reason

/-- `resume`. -/
def resume (h : ExecutionHandle R W) : Except HandleError Unit × ExecutionHandle R W :=
  match h.state with
  | .terminal => (.error .terminal, h)
  | .paused p => (.ok (), { h with state := ResumeState.toState p.resumeTo })
  | _ => (.error (.invalidState "resume" h.state), h)

/-- `set_waker`. -/
def setWaker (h : ExecutionHandle R W) (waker : Option W) :
    Except HandleError Unit × ExecutionHandle R W :=
  if h.state = .terminal then (.error .terminal, h)
  else
    let ticket := match waker with
      | some w => h.pendingTicket.map (registerWaker · w)
      | none => h.pendingTicket
    (.ok (), { h with pendingTicket := ticket, waker := waker })

end ExecutionHandle

end Tsumugi.Engine
