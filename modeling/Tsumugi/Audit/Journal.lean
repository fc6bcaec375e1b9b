import Tsumugi.Audit.Event

/-!
# The audit journal (`audit.rs`)

The per-execution journal checks every envelope it is given: sequence numbers,
event kinds, the event count and the byte count. It keeps no envelopes, only
counters; the log of the model's run has them.

Results:
1. `appendNormal_spec`, `appendTerminal_spec`: what an accepted append has
   checked and what it changes.
2. `appendNormal_eq_ok`, `appendTerminal_eq_ok`: when an append is accepted.
-/

namespace Tsumugi.Audit

open Word

/-- `KIB`. -/
def KIB : Nat := 1024

/-- `AuditBudget`. The counters of the source are `u64`. -/
structure AuditBudget where
  maxEvents : Nat
  maxEncodedBytes : Nat
  maxPendingBytes : Nat
  terminalReserveEvents : Nat
  terminalReserveBytes : Nat
  hostCallCloseReserveEvents : Nat
  hostCallCloseReserveBytes : Nat
  maxEvents_le : maxEvents ≤ maxU64
  maxEncodedBytes_le : maxEncodedBytes ≤ maxU64

/-- `AuditConfigError`. -/
inductive AuditConfigError
  | maxEventsTooSmall (maxEvents : Nat)
  | terminalReserveEventsNotOne (terminalReserveEvents : Nat)
  | terminalReserveBytesTooSmall (terminalReserveBytes : Nat)
  | hostCallCloseReserveEventsNotTwo (hostCallCloseReserveEvents : Nat)
  | hostCallCloseReserveBytesTooSmall (hostCallCloseReserveBytes : Nat)
deriving DecidableEq, Repr

/-- `AuditBudget::validate`. -/
def AuditBudget.validate (b : AuditBudget) : Except AuditConfigError Unit :=
  if b.maxEvents < 2 then .error (.maxEventsTooSmall b.maxEvents)
  else if b.terminalReserveEvents ≠ 1 then
    .error (.terminalReserveEventsNotOne b.terminalReserveEvents)
  else if b.terminalReserveBytes < 64 * KIB then
    .error (.terminalReserveBytesTooSmall b.terminalReserveBytes)
  else if b.hostCallCloseReserveEvents ≠ 2 then
    .error (.hostCallCloseReserveEventsNotTwo b.hostCallCloseReserveEvents)
  else if b.hostCallCloseReserveBytes < 128 * KIB then
    .error (.hostCallCloseReserveBytesTooSmall b.hostCallCloseReserveBytes)
  else .ok ()

/-- What the audit budget leaves to events other than Terminal. -/
def AuditBudget.normalEventLimit (b : AuditBudget) : Nat :=
  satSub b.maxEvents b.terminalReserveEvents

def AuditBudget.normalByteLimit (b : AuditBudget) : Nat :=
  satSub b.maxEncodedBytes b.terminalReserveBytes

/-- `AuditFailure`. -/
inductive AuditFailure
  | sequenceExhausted
  | budgetExceeded
  | eventTooLarge
  | sink
  | invariantViolation
  | backpressureDeadline
deriving DecidableEq, Repr

/-- `AuditJournal`. -/
structure AuditJournal where
  budget : AuditBudget
  nextSequence : Nat
  committedEvents : Nat
  committedBytes : Nat
  started : Bool
  terminated : Bool

namespace AuditJournal

/-- `AuditJournal::open` (the bare word is reserved in Lean). -/
def openJournal (budget : AuditBudget) : AuditJournal := ⟨budget, 0, 0, 0, false, false⟩

/-- `take_sequence`. -/
def takeSequence (j : AuditJournal) : Except AuditFailure (Nat × AuditJournal) :=
  match checkedAdd j.nextSequence 1 with
  | some next => .ok (j.nextSequence, { j with nextSequence := next })
  | none => .error .sequenceExhausted

/-- Started comes first and once, everything else after it. -/
def startedInOrder (j : AuditJournal) (event : AuditEvent) : Bool :=
  if event.isStarted then !(j.started || j.nextSequence != 0) else j.started

/-- `append_normal`. -/
def appendNormal (j : AuditJournal) (envelope : AuditEnvelope) :
    Except AuditFailure (Nat × AuditJournal) :=
  if j.terminated then .error .budgetExceeded
  else if envelope.event.isTerminal then .error .invariantViolation
  else if envelope.sequence ≠ j.nextSequence then .error .invariantViolation
  else if j.startedInOrder envelope.event = false then .error .budgetExceeded
  else
    let eventBytes := estimateEncodedBytes envelope
    if eventBytes > j.budget.normalByteLimit then .error .eventTooLarge
    else
      match checkedAdd j.committedEvents 1 with
      | none => .error .budgetExceeded
      | some projectedEvents =>
        if projectedEvents > j.budget.normalEventLimit then .error .budgetExceeded
        else
          match checkedAdd j.committedBytes eventBytes with
          | none => .error .budgetExceeded
          | some projectedBytes =>
            if projectedBytes > j.budget.normalByteLimit then .error .budgetExceeded
            else
              match j.takeSequence with
              | .error failure => .error failure
              | .ok (seq, j) =>
                .ok (seq, { j with
                  committedEvents := projectedEvents
                  committedBytes := projectedBytes
                  started := j.started || envelope.event.isStarted })

/-- `can_reserve_host_call`. -/
def canReserveHostCall (j : AuditJournal) : Bool :=
  !j.terminated &&
    !(satAdd j.committedEvents (satAdd j.budget.hostCallCloseReserveEvents 1) >
      j.budget.normalEventLimit) &&
    !(satAdd j.committedBytes (satAdd j.budget.hostCallCloseReserveBytes (60 * KIB)) >
      j.budget.normalByteLimit)

/-- `append_terminal`: the counters of normal events are not consulted. -/
def appendTerminal (j : AuditJournal) (envelope : AuditEnvelope) :
    Except AuditFailure (Nat × AuditJournal) :=
  if envelope.event.isTerminal = false then .error .invariantViolation
  else if j.started = false then .error .budgetExceeded
  else if j.terminated then .error .budgetExceeded
  else if envelope.sequence ≠ j.nextSequence then .error .invariantViolation
  else
    match j.takeSequence with
    | .error failure => .error failure
    | .ok (seq, j) => .ok (seq, { j with terminated := true })

theorem takeSequence_spec {j j' : AuditJournal} {seq : Nat} (h : j.takeSequence = .ok (seq, j')) :
    seq = j.nextSequence ∧ j' = { j with nextSequence := j.nextSequence + 1 } := by
  unfold takeSequence at h
  split at h
  · next next hnext =>
    cases h
    exact ⟨rfl, by rw [(checkedAdd_eq_some.mp hnext).2]⟩
  · cases h

/-- An accepted envelope is the next one, is no Terminal, and leaves the reserve free. -/
theorem appendNormal_spec {j j' : AuditJournal} {env : AuditEnvelope} {seq : Nat}
    (h : j.appendNormal env = .ok (seq, j')) :
    j.terminated = false ∧ env.event.isTerminal = false ∧ env.sequence = j.nextSequence ∧
      j.startedInOrder env.event = true ∧
      j.committedEvents + 1 ≤ j.budget.normalEventLimit ∧
      j.committedBytes + estimateEncodedBytes env ≤ j.budget.normalByteLimit ∧
      j' = { j with
        nextSequence := j.nextSequence + 1
        committedEvents := j.committedEvents + 1
        committedBytes := j.committedBytes + estimateEncodedBytes env
        started := j.started || env.event.isStarted } := by
  simp only [appendNormal] at h
  split at h
  · cases h
  next hterm =>
  split at h
  · cases h
  next hkind =>
  split at h
  · cases h
  next hseq =>
  split at h
  · cases h
  next horder =>
  split at h
  · cases h
  split at h
  · cases h
  next events hevents =>
  split at h
  · cases h
  next hlimit =>
  split at h
  · cases h
  next bytes hbytes =>
  split at h
  · cases h
  next hbyteLimit =>
  split at h
  · cases h
  next seq' taken htake =>
  obtain ⟨-, rfl⟩ := takeSequence_spec htake
  obtain ⟨-, rfl⟩ := checkedAdd_eq_some.mp hevents
  obtain ⟨-, rfl⟩ := checkedAdd_eq_some.mp hbytes
  cases h
  refine ⟨by simpa using hterm, by simpa using hkind, by simpa using hseq, by simpa using horder,
    by omega, by omega, rfl⟩

/-- An accepted Terminal is the next envelope, after Started and before any Terminal. -/
theorem appendTerminal_spec {j j' : AuditJournal} {env : AuditEnvelope} {seq : Nat}
    (h : j.appendTerminal env = .ok (seq, j')) :
    env.event.isTerminal = true ∧ j.started = true ∧ j.terminated = false ∧
      env.sequence = j.nextSequence ∧
      j' = { j with nextSequence := j.nextSequence + 1, terminated := true } := by
  simp only [appendTerminal] at h
  split at h
  · cases h
  next hkind =>
  split at h
  · cases h
  next hstarted =>
  split at h
  · cases h
  next hterm =>
  split at h
  · cases h
  next hseq =>
  split at h
  · cases h
  next seq' taken htake =>
  obtain ⟨-, rfl⟩ := takeSequence_spec htake
  cases h
  exact ⟨by simpa using hkind, by simpa using hstarted, by simpa using hterm,
    by simpa using hseq, rfl⟩

/-- The next Terminal is accepted: only a used-up sequence number could refuse it. -/
theorem appendTerminal_eq_ok {j : AuditJournal} {env : AuditEnvelope}
    (hkind : env.event.isTerminal = true) (hstarted : j.started = true)
    (hterm : j.terminated = false) (hseq : env.sequence = j.nextSequence)
    (hnext : j.nextSequence + 1 ≤ maxU64) :
    j.appendTerminal env =
      .ok (j.nextSequence, { j with nextSequence := j.nextSequence + 1, terminated := true }) := by
  have hchecked : checkedAdd j.nextSequence 1 = some (j.nextSequence + 1) :=
    checkedAdd_eq_some.mpr ⟨hnext, rfl⟩
  simp [appendTerminal, takeSequence, hkind, hstarted, hterm, hseq, hchecked]

/-- What `appendNormal_spec` says of an accepted envelope suffices for it. -/
theorem appendNormal_eq_ok {j : AuditJournal} {env : AuditEnvelope}
    (hterm : j.terminated = false) (hkind : env.event.isTerminal = false)
    (hseq : env.sequence = j.nextSequence) (horder : j.startedInOrder env.event = true)
    (hevents : j.committedEvents + 1 ≤ j.budget.normalEventLimit)
    (hbytes : j.committedBytes + estimateEncodedBytes env ≤ j.budget.normalByteLimit)
    (hnext : j.nextSequence + 1 ≤ maxU64) :
    j.appendNormal env = .ok (j.nextSequence, { j with
      nextSequence := j.nextSequence + 1
      committedEvents := j.committedEvents + 1
      committedBytes := j.committedBytes + estimateEncodedBytes env
      started := j.started || env.event.isStarted }) := by
  have hmaxEvents : j.budget.normalEventLimit ≤ maxU64 :=
    (Nat.sub_le _ _).trans j.budget.maxEvents_le
  have hmaxBytes : j.budget.normalByteLimit ≤ maxU64 :=
    (Nat.sub_le _ _).trans j.budget.maxEncodedBytes_le
  have hchecked : checkedAdd j.nextSequence 1 = some (j.nextSequence + 1) :=
    checkedAdd_eq_some.mpr ⟨hnext, rfl⟩
  have hcount : checkedAdd j.committedEvents 1 = some (j.committedEvents + 1) :=
    checkedAdd_eq_some.mpr ⟨by omega, rfl⟩
  have hsize : checkedAdd j.committedBytes (estimateEncodedBytes env) =
      some (j.committedBytes + estimateEncodedBytes env) :=
    checkedAdd_eq_some.mpr ⟨by omega, rfl⟩
  have hone : ¬ estimateEncodedBytes env > j.budget.normalByteLimit := by omega
  simp [appendNormal, takeSequence, hterm, hkind, hseq, horder, hchecked, hcount, hsize,
    Nat.not_lt.mpr hevents, Nat.not_lt.mpr hbytes, Nat.not_lt.mpr (Nat.not_lt.mp hone)]

end AuditJournal

end Tsumugi.Audit
