import Tsumugi.Eval.Driver
import Tsumugi.Lib.Transition

/-!
# Runs and sessions (`eval.rs`)

A program runs at once, as a submission of the REPL, or in slices. `contexts` is what an
embedder can do with one evaluator, in any order. A run is observed after any number of
steps: `halted` says that it goes on, or has panicked.
-/

namespace Tsumugi.Eval

open Budget (BudgetLedger BudgetConfig)

variable {E H : Type} (rt : Runtime E H)

/-! ## Runs -/

/-- `drive_body`. -/
def driveBody (self : Recur E H) (root : Block) (canYield : Bool) : Ev E H DriveOutcome := do
  let base ← Proc.gets fun s => s.frames.length
  push (← plainFrame root .block)
  runDriver self base canYield

/-- The end of a program. -/
def programEnd : EvalResult → Ev E H Unit
  | .return _ | .val => pure ()
  | .break line => raise (.breakOutsideLoop line)
  | .continue line => raise (.continueOutsideLoop line)

/-- `exec_program`. -/
def execProgram (self : Recur E H) (program : Program) : Ev E H Unit := do
  liftExcept (validateProgramDepth program)
  match ← driveBody self program false with
  | .done result => programEnd result
  | .yielded => unreachable

/-- `charge_link`. -/
def chargeLink (rootSourceBytes : Nat) (loaded : LoadedModules) (target : Program) :
    Ev E H Unit := do
  match ← Proc.update fun s =>
      match (rt.chargeLink rootSourceBytes loaded target).run (s.budget, s.adapters) with
      | (r, budget, adapters) => (r, { s with budget, adapters }) with
  | .ok _ => pure ()
  | .error (stop, line) => raiseStop stop line

/-- `loader.forget`. -/
def forget (loaded : LoadedModules) : Ev E H Unit :=
  Proc.modify fun s => { s with adapters := rt.forget loaded s.adapters }

/-- Change the environment. -/
def onEnv (f : Env → Env) : Ev E H Unit := Proc.modify fun s => { s with env := f s.env }

/-- `run`. -/
def run (n : Nat) (program : Program) (rootSourceBytes : Nat) : Ev E H Unit := do
  let (linked, loaded) ← adapter (rt.link program)
  let target := linked.getD program
  match ← caught (chargeLink rt rootSourceBytes loaded target) with
  | .error e =>
    forget rt loaded
    raise e
  | .ok _ =>
    match ← caught (execProgram (recur rt n) target) with
    | .ok _ => pure ()
    | .error e =>
      forget rt loaded
      raise e

/-- `run_repl_submission`. -/
def runReplSubmission (n : Nat) (program : Program) (rootSourceBytes : Nat) : Ev E H Unit := do
  onEnv Env.beginSubmission
  match ← caught (adapter (rt.link program)) with
  | .error e =>
    onEnv Env.commitSubmission
    raise e
  | .ok (linked, loaded) =>
    let target := linked.getD program
    match ← caught (chargeLink rt rootSourceBytes loaded target) with
    | .error e =>
      onEnv Env.rollbackSubmission
      forget rt loaded
      raise e
    | .ok _ =>
      match ← caught (execProgram (recur rt n) target) with
      | .ok _ => onEnv Env.commitSubmission
      | .error e =>
        onEnv Env.rollbackSubmission
        forget rt loaded
        raise e

/-! ## Sessions in slices -/

/-- `begin_execution`. -/
def beginExecution (program : Program) (rootSourceBytes : Nat) (transactional : Bool) :
    Ev E H Unit := do
  let rollback : Ev E H Unit := if transactional then onEnv Env.rollbackSubmission else pure ()
  if transactional then onEnv Env.beginSubmission
  match ← caught (adapter (rt.link program)) with
  | .error e =>
    if transactional then onEnv Env.commitSubmission
    raise e
  | .ok (linked, loaded) =>
    let target := linked.getD program
    let prepare : Ev E H Unit := do
      chargeLink rt rootSourceBytes loaded target
      liftExcept (validateProgramDepth target)
    match ← caught prepare with
    | .error e =>
      rollback
      forget rt loaded
      raise e
    | .ok _ =>
      let base ← Proc.gets fun s => s.frames.length
      push (← plainFrame target .block)
      Proc.modify fun s => { s with session := some ⟨base, loaded, transactional⟩ }

namespace Evaluator

/-- `finalize_session`. -/
def finalizeSession (committed : Bool) (s : Evaluator E H) : Evaluator E H :=
  match s.session with
  | none => s
  | some session =>
    let s := { s with session := none }
    if committed then
      if session.transactional then { s with env := s.env.commitSubmission } else s
    else
      let s := if session.transactional then { s with env := s.env.rollbackSubmission } else s
      { s with adapters := rt.forget session.newlyLoaded s.adapters }

/-- A frame that `abort_session` drops: a call on the driver gives its scopes back. -/
def abortFrame (s : Evaluator E H) : Evaluator E H :=
  match s.frames with
  | [] => s
  | frame :: rest =>
    let s := { s with frames := rest }
    match frame.kind with
    | .call savedScopes (some _) =>
      { s with callStack := s.callStack.tail, env := s.env.popCallFrame savedScopes }
    | _ => s

/-- `abort_session`. -/
def abortSession (s : Evaluator E H) : Evaluator E H :=
  let s :=
    match s.session with
    | some session => abortFrame^[s.frames.length - session.baseDepth] s
    | none => s
  { s.finalizeSession rt false with
    pendingHostCall := none, resumedHostCall := none, yieldForHostCall := false,
    yieldForAuditQueue := false, sliceFuelLimit := none }

end Evaluator

/-- `SliceOutcome`. -/
inductive SliceOutcome
  | yieldedSliceFuel
  | yieldedHostCall (callId : Nat)
  | yieldedAuditQueue
  | terminal (result : Except TsumugiError Unit)

/-- The end of a session. -/
def finish (committed : Bool) (result : Except TsumugiError Unit) : Ev E H SliceOutcome := do
  Proc.modify (Evaluator.finalizeSession rt committed)
  pure (.terminal result)

/-- The outcome of a slice that yields. -/
def sliceYield : Ev E H SliceOutcome := do
  let auditQueueYield ← Proc.update fun s =>
    (s.yieldForAuditQueue, { s with yieldForAuditQueue := false })
  match ← caught (adapter rt.noteYielded) with
  | .error e => finish rt false (.error e)
  | .ok _ =>
    match ← Proc.gets Evaluator.pendingHostCall with
    | some callId => pure (.yieldedHostCall callId)
    | none => pure (if auditQueueYield then .yieldedAuditQueue else .yieldedSliceFuel)

/-- `run_slice`. -/
def runSlice (n sliceFuel : Nat) : Ev E H SliceOutcome := do
  let session ← expect (← Proc.gets Evaluator.session)
  Proc.modify fun s =>
    { s with
      adapters := rt.noteResumed s.adapters, sliceFuelUsed := 0, sliceFuelLimit := some sliceFuel,
      auditQueueProgress := false, exprProgress := false }
  let outcome ← caught (runDriver (recur rt n) session.baseDepth true)
  Proc.modify fun s => { s with sliceFuelLimit := none }
  match outcome with
  | .ok .yielded => sliceYield rt
  | .ok (.done (.break line)) => finish rt false (.error (.breakOutsideLoop line))
  | .ok (.done (.continue line)) => finish rt false (.error (.continueOutsideLoop line))
  | .ok (.done _) => finish rt true (.ok ())
  | .error e => finish rt (e.kind = some .processExit) (.error e)

/-- `resume_host_call`. -/
def resumeHostCall (callId : Nat) (result : Except AdapterError Value) : Ev E H Unit := do
  if (← Proc.gets Evaluator.pendingHostCall) = some callId then
    Proc.modify fun s =>
      { s with pendingHostCall := none, resumedHostCall := some (callId, result) }
  else raise (.internalControl 0 s!"host-call resume の call_id 不整合: {callId}")

/-- The host gives the value of the call that is pending, if it has it. -/
def resumeFromTicket : Ev E H Unit := do
  match ← Proc.gets Evaluator.pendingHostCall with
  | none => pure ()
  | some callId =>
    match ← Proc.update fun s =>
        ((rt.tryTakeValue callId s.host).1, { s with host := (rt.tryTakeValue callId s.host).2 }) with
    | some result => resumeHostCall callId result
    | none => pure ()

/-! ## All that can happen to an evaluator -/

/-- `Evaluator::with_budget`. -/
def Evaluator.new (budget : BudgetLedger) (adapters : E) (host : H) : Evaluator E H :=
  { env := .new, callStack := [], budget, adapters, host, nextFunctionId := 0, frames := [],
    sliceFuelUsed := 0, sliceFuelLimit := none, session := none, pendingExit := none,
    lastBudgetResource := none, pendingHostCall := none, canYieldCtx := false,
    nextHostCallId := 0, yieldForHostCall := false, resumedHostCall := none,
    auditQueueProgress := false, yieldForAuditQueue := false, forceYieldEveryBoundary := false,
    exprProgress := false, born := [] }

/-- An evaluator, and whether a run of it is still going on. -/
structure Context (E H : Type) where
  eval : Evaluator E H
  halted : Bool

/-- What the embedder does. `rearm` puts a ledger and adapters in place, as `reset_budget`,
`rearm_budget_for_repl`, `set_capabilities` and their siblings do. A run is observed after `n`
nested or repeated calls. -/
inductive Act (E : Type)
  | run (n : Nat) (program : Program) (rootSourceBytes : Nat)
  | submit (n : Nat) (program : Program) (rootSourceBytes : Nat)
  | begin (program : Program) (rootSourceBytes : Nat) (transactional : Bool)
  | slice (n sliceFuel : Nat)
  | resume
  | abort
  | rearm (budget : BudgetLedger) (adapters : E)
  | takePendingExit
  | forceYield (enabled : Bool)

namespace Context

/-- The context after a computation. -/
def after {α : Type} (m : Ev E H α) (s : Evaluator E H) : Context E H :=
  match m.run s with
  | (.ok _, t) | (.error (.raised _), t) => ⟨t, false⟩
  | (_, t) => ⟨t, true⟩

/-- One thing that the embedder does. -/
def act (s : Evaluator E H) : Act E → Context E H
  | .run n program rootSourceBytes => after (Eval.run rt n program rootSourceBytes) s
  | .submit n program rootSourceBytes =>
    after (runReplSubmission rt n program rootSourceBytes) s
  | .begin program rootSourceBytes transactional =>
    after (beginExecution rt program rootSourceBytes transactional) s
  | .slice n sliceFuel => after (runSlice rt n sliceFuel) s
  | .resume => after (resumeFromTicket rt) s
  | .abort => ⟨s.abortSession rt, false⟩
  | .rearm budget adapters => ⟨{ s with budget, adapters, lastBudgetResource := none }, false⟩
  | .takePendingExit => ⟨{ s with pendingExit := none }, false⟩
  | .forceYield enabled => ⟨{ s with forceYieldEveryBoundary := enabled }, false⟩

def step (c : Context E H) (a : Act E) : Option (Context E H) :=
  if c.halted then none else some (act rt c.eval a)

end Context

/-- The contexts as a transition system. A host that has met no function of the context holds
none. -/
def contexts : Transition.System (Context E H) (Act E) where
  init c := ∃ budget adapters host, (∀ f, ¬ rt.given host f) ∧
    c = ⟨Evaluator.new budget adapters host, false⟩
  step := Context.step rt

end Tsumugi.Eval
