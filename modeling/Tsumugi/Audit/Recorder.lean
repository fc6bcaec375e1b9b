import Tsumugi.Audit.Accumulator

/-!
# The evaluator's audit buffer (`eval.rs`)

The events of a run wait in one buffer in the order they were recorded, beside
the charges of the accumulator. A meter counts the bytes that wait for an ack;
a slice ends when they reach the limit. Yielded and Resumed share one poll index.
-/

namespace Tsumugi.Audit

open Budget Word

/-- What the evaluator reports to its recorder while it works. -/
inductive Note
  | charge (resource : BudgetResource) (reason : BudgetChargeReason)
      (committedDelta usageAfter : Nat)
  | release (resource : BudgetResource) (reason : BudgetChargeReason)
      (releasedDelta usageAfter peakAfter : Nat)
  | hostCall (events : List AuditEvent)

/-- `AuditQueueMeter`. -/
structure AuditQueueMeter where
  limit : Nat
  envelopeOverhead : Nat
  bytes : Nat
deriving DecidableEq, Repr

/-- The audit fields of `Evaluator`, with the accumulator of its ledger. -/
structure Recorder where
  accumulator : BudgetChargeAccumulator := {}
  auditEvents : List AuditEvent := []
  auditQueue : Option AuditQueueMeter := none
  auditQueueProgress : Bool := false
  yieldForAuditQueue : Bool := false
  pollIndex : Nat := 0
  lastYieldReason : Option AuditYieldReason := none
  lastYieldPollIndex : Nat := 0
  savedYieldBeforeBackpressure : Option (AuditYieldReason × Nat) := none

namespace Recorder

/-- What one event takes in the queue: the envelope and its body. -/
def queuedBytes (meter : AuditQueueMeter) (event : AuditEvent) : Nat :=
  satAdd meter.envelopeOverhead (estimateEventBytes event)

/-- `audit_queue_admit`. -/
def auditQueueAdmit (r : Recorder) (event : AuditEvent) : Recorder :=
  { r with auditQueue := r.auditQueue.map fun m =>
      { m with bytes := satAdd m.bytes (queuedBytes m event) } }

/-- `audit_queue_release`. -/
def auditQueueRelease (r : Recorder) (event : AuditEvent) : Recorder :=
  { r with auditQueue := r.auditQueue.map fun m =>
      { m with bytes := satSub m.bytes (queuedBytes m event) } }

/-- `audit_queue_bytes`. -/
def auditQueueBytes (r : Recorder) : Option Nat :=
  r.auditQueue.map fun m => satAdd m.bytes (r.accumulator.finalizedQueueBytes m.envelopeOverhead)

/-- `audit_queue_exceeded`: only after the slice has made progress. -/
def auditQueueExceeded (r : Recorder) : Bool :=
  match r.auditQueue, r.auditQueueBytes with
  | some m, some bytes => r.auditQueueProgress && decide (bytes ≥ m.limit)
  | _, _ => false

/-- `push_audit_event`. -/
def pushAuditEvent (r : Recorder) (event : AuditEvent) : Recorder :=
  { r.auditQueueAdmit event with auditEvents := r.auditEvents ++ [event] }

/-- `push_host_call_events`, and what a flush of the charges pushes. -/
def pushAuditEvents (r : Recorder) (events : List AuditEvent) : Recorder :=
  events.foldl pushAuditEvent r

/-- `drain_budget_charges`. -/
def drainBudgetCharges (r : Recorder) : List AuditEvent × Recorder :=
  (r.accumulator.flush.1, { r with accumulator := r.accumulator.flush.2 })

/-- `drain_audit_events`. -/
def drainAuditEvents (r : Recorder) : List AuditEvent × Recorder :=
  (r.auditEvents, { r with auditEvents := [] })

/-- `flush_charges_into_audit_events`. -/
def flushChargesIntoAuditEvents (r : Recorder) : Recorder :=
  r.drainBudgetCharges.2.pushAuditEvents r.drainBudgetCharges.1

/-- `set_audit_queue`. -/
def setAuditQueue (r : Recorder) (limit envelopeOverhead : Nat) : Recorder :=
  { r with
    auditQueue := some ⟨limit, envelopeOverhead, 0⟩
    auditQueueProgress := false
    yieldForAuditQueue := false }

/-- `alloc_poll_index`: fails when the counter is used up. -/
def allocPollIndex (r : Recorder) : Option (Nat × Recorder) :=
  (checkedAdd r.pollIndex 1).map fun next => (r.pollIndex, { r with pollIndex := next })

/-- The Yielded event of a new poll index, kept for the Resumed that pairs with it. -/
def recordYield (r : Recorder) (reason : AuditYieldReason) (pollIndex : Nat)
    (usage : BudgetUsage) : Recorder :=
  { r.pushAuditEvent (.yielded reason pollIndex usage) with
    lastYieldReason := some reason
    lastYieldPollIndex := pollIndex }

/-- Put the saved outer yield back. -/
def restoreSavedYield (r : Recorder) : Recorder :=
  match r.savedYieldBeforeBackpressure with
  | some (reason, index) =>
    { r with
      savedYieldBeforeBackpressure := none
      lastYieldReason := some reason
      lastYieldPollIndex := index }
  | none => r

/-- `record_backpressure_yield`: save the outer yield, flush the charges, record the
yield. `false` when no poll index is left. -/
def recordBackpressureYield (r : Recorder) (usage : BudgetUsage) : Bool × Recorder :=
  let r := { r with
    savedYieldBeforeBackpressure := r.lastYieldReason.map fun reason =>
      (reason, r.lastYieldPollIndex)
    lastYieldReason := none }
  let r := r.flushChargesIntoAuditEvents
  match r.allocPollIndex with
  | some (pollIndex, r) => (true, r.recordYield .auditBackpressure pollIndex usage)
  | none => (false, r.restoreSavedYield)

/-- `record_backpressure_resume`: only when the last yield is a back-pressure one. -/
def recordBackpressureResume (r : Recorder) (usage : BudgetUsage) : Recorder :=
  match r.lastYieldReason with
  | some .auditBackpressure =>
    ({ r with lastYieldReason := none }.pushAuditEvent
      (.resumed .auditBackpressure r.lastYieldPollIndex usage)).restoreSavedYield
  | _ => r

/-- The Resumed that opens a slice, when the slice before it yielded. -/
def recordResume (r : Recorder) (usage : BudgetUsage) : Recorder :=
  match r.lastYieldReason with
  | some previousReason =>
    { r with lastYieldReason := none }.pushAuditEvent
      (.resumed previousReason r.lastYieldPollIndex usage)
  | none => r

end Recorder

end Tsumugi.Audit
