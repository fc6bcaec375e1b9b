import Tsumugi.Audit.Delivery
import Tsumugi.Audit.StreamLaw

/-!
# Slices and flushes under back-pressure (`run_audited_driver`)

A run with a patient sink is compared with the run of the same program with a sink
that acknowledges at once. Each wait records a Yielded and a Resumed, which go
through the journal like every event; so the second run is given a budget from which
the waits' events have been taken.

The two evaluators agree at every slice boundary up to the poll indices. Within a
flush the first run falls behind by the events of its waits (`FlushRel`), and further
passes catch up.

Results:
1. `SliceRel`, `FlushRel`: what the two runs have in common in a slice and in a flush.
2. `sim_runSlice`: a slice keeps the relation, up to the yield that ends it.
3. `sim_flushEvents`: a flush that the second run completes is completed by the first.
-/

namespace Tsumugi.Audit

open Budget Word

variable {C S : Type}

/-! ## The budget without the events of the waits -/

/-- The budget with `events` and `bytes` taken from it. -/
def AuditBudget.less (b : AuditBudget) (events bytes : Nat) : AuditBudget :=
  { b with
    maxEvents := b.maxEvents - events
    maxEncodedBytes := b.maxEncodedBytes - bytes
    maxEvents_le := (Nat.sub_le _ _).trans b.maxEvents_le
    maxEncodedBytes_le := (Nat.sub_le _ _).trans b.maxEncodedBytes_le }

/-- The estimate of a Yielded or Resumed of this run. -/
def pauseBytes (rq : AuditedRequest) : Nat :=
  satAdd (estimateEnvelopeOverheadBytes rq.languageRevision.asStr) 128

/-- The request whose audit budget lacks two events for each of `waits` waits. -/
def AuditedRequest.sparing (rq : AuditedRequest) (waits : Nat) : AuditedRequest :=
  { rq with auditBudget := rq.auditBudget.less (2 * waits) (2 * waits * pauseBytes rq) }

/-! ## Events up to the poll index -/

/-- The event with its poll index left out. -/
def AuditEvent.unindexed : AuditEvent → AuditEvent
  | yielded reason _ usage => yielded reason 0 usage
  | resumed reason _ usage => resumed reason 0 usage
  | event => event

/-- Two events that differ at most in their poll index. -/
def Alike (e e' : AuditEvent) : Prop := e.unindexed = e'.unindexed

/-- The events of a wait. -/
def IsPause (event : AuditEvent) : Prop :=
  ∃ index usage, event = .yielded .auditBackpressure index usage ∨
    event = .resumed .auditBackpressure index usage

namespace BackpressureLemmas

@[simp] theorem estimate_unindexed (e : AuditEvent) :
    estimateEventBytes e.unindexed = estimateEventBytes e := by cases e <;> rfl

@[simp] theorem isStarted_unindexed (e : AuditEvent) : e.unindexed.isStarted = e.isStarted := by
  cases e <;> rfl

@[simp] theorem isTerminal_unindexed (e : AuditEvent) : e.unindexed.isTerminal = e.isTerminal := by
  cases e <;> rfl

@[simp] theorem isHostCallStarted_unindexed (e : AuditEvent) :
    e.unindexed.isHostCallStarted = e.isHostCallStarted := by cases e <;> rfl

theorem alike_projection {α : Type} {f : AuditEvent → α} (hf : ∀ e, f e.unindexed = f e)
    {e e' : AuditEvent} (h : Alike e e') : f e = f e' := by
  rw [← hf e, h, hf]

theorem pause_shape {e : AuditEvent} (h : IsPause e) :
    estimateEventBytes e = 128 ∧ e.isStarted = false ∧ e.isTerminal = false ∧
      e.isHostCallStarted = false := by
  obtain ⟨index, usage, rfl | rfl⟩ := h <;> exact ⟨rfl, rfl, rfl, rfl⟩

theorem estimateEncodedBytes_envelope (rq : AuditedRequest) (executionId sequence : Nat)
    (e : AuditEvent) : estimateEncodedBytes (envelope rq executionId sequence e) =
      satAdd (estimateEnvelopeOverheadBytes rq.languageRevision.asStr) (estimateEventBytes e) := rfl

theorem pause_bytes {e : AuditEvent} (h : IsPause e) (rq : AuditedRequest)
    (executionId sequence : Nat) :
    estimateEncodedBytes (envelope rq executionId sequence e) = pauseBytes rq := by
  rw [estimateEncodedBytes_envelope, (pause_shape h).1, pauseBytes]

end BackpressureLemmas

/-! ## The journals -/

/-- The journals of the two runs: the first has room for the `ahead` events that are
waiting, and has taken at most the events of `used` waits more than the second. -/
structure JournalRel (rq : AuditedRequest) (waits used ahead : Nat) (j j' : AuditJournal) :
    Prop where
  budget : j.budget = rq.auditBudget
  budget' : j'.budget = (rq.sparing waits).auditBudget
  started : j.started = true
  started' : j'.started = true
  open_ : j.terminated = false
  open' : j'.terminated = false
  next : j.nextSequence = j.committedEvents
  next' : j'.nextSequence = j'.committedEvents
  events_le : j.committedEvents + ahead ≤ j'.committedEvents + 2 * used
  bytes_le : j.committedBytes + ahead * pauseBytes rq ≤ j'.committedBytes + 2 * used * pauseBytes rq
  events_pos : 1 ≤ j'.committedEvents
  bytes_pos : 1 ≤ j'.committedBytes
  events_limit : j'.committedEvents ≤ j'.budget.normalEventLimit
  bytes_limit : j'.committedBytes ≤ j'.budget.normalByteLimit
  used_le : used ≤ waits

namespace BackpressureLemmas

variable {rq : AuditedRequest} {waits used ahead : Nat} {j j' : AuditJournal}

theorem normalEventLimit_sparing (rq : AuditedRequest) (waits : Nat) :
    (rq.sparing waits).auditBudget.normalEventLimit + 2 * waits ≤ rq.auditBudget.normalEventLimit ∨
      (rq.sparing waits).auditBudget.normalEventLimit = 0 := by
  simp only [AuditedRequest.sparing, AuditBudget.less, AuditBudget.normalEventLimit, satSub]
  omega

theorem normalByteLimit_sparing (rq : AuditedRequest) (waits : Nat) :
    (rq.sparing waits).auditBudget.normalByteLimit + 2 * waits * pauseBytes rq ≤
        rq.auditBudget.normalByteLimit ∨
      (rq.sparing waits).auditBudget.normalByteLimit = 0 := by
  simp only [AuditedRequest.sparing, AuditBudget.less, AuditBudget.normalByteLimit, satSub]
  generalize 2 * waits * pauseBytes rq = taken
  omega

theorem used_bytes_le (h : used ≤ waits) (bytes : Nat) : 2 * used * bytes ≤ 2 * waits * bytes :=
  Nat.mul_le_mul_right _ (Nat.mul_le_mul_left _ h)

/-- What the second journal has left is left in the first, with the waits' share. -/
theorem journalRel_room (h : JournalRel rq waits used ahead j j') :
    j'.budget.normalEventLimit + 2 * waits ≤ j.budget.normalEventLimit ∧
      j'.budget.normalByteLimit + 2 * waits * pauseBytes rq ≤ j.budget.normalByteLimit := by
  have hevents := h.events_limit
  have hbytes := h.bytes_limit
  have hpos := h.events_pos
  have hpos' := h.bytes_pos
  rw [h.budget'] at hevents hbytes ⊢
  rw [h.budget]
  refine ⟨?_, ?_⟩
  · rcases normalEventLimit_sparing rq waits with hle | hzero
    · exact hle
    · omega
  · rcases normalByteLimit_sparing rq waits with hle | hzero
    · exact hle
    · omega

/-- An event that the second journal accepts is accepted by the first. -/
theorem journalRel_append_both {executionId seq : Nat} {e e' : AuditEvent} {k' : AuditJournal}
    (h : JournalRel rq waits used ahead j j') (halike : Alike e e')
    (happend : j'.appendNormal (envelope (rq.sparing waits) executionId j'.nextSequence e') =
      .ok (seq, k')) :
    ∃ k, j.appendNormal (envelope rq executionId j.nextSequence e) = .ok (j.nextSequence, k) ∧
      JournalRel rq waits used ahead k k' ∧ k'.committedEvents = j'.committedEvents + 1 := by
  obtain ⟨-, hkind, -, horder, hevents, hbytes, rfl⟩ := AuditJournal.appendNormal_spec happend
  obtain ⟨hroom, hroom'⟩ := journalRel_room h
  have hsize : estimateEncodedBytes (envelope (rq.sparing waits) executionId j'.nextSequence e') =
      estimateEncodedBytes (envelope rq executionId j.nextSequence e) := by
    rw [estimateEncodedBytes_envelope, estimateEncodedBytes_envelope,
      alike_projection estimate_unindexed halike]
    rfl
  rw [hsize] at hbytes ⊢
  have hstarted : e.isStarted = false := by
    have : e'.isStarted = false := by
      simpa [AuditJournal.startedInOrder, h.started', envelope] using horder
    rw [alike_projection isStarted_unindexed halike, this]
  have hnotTerminal : e.isTerminal = false := by
    rw [alike_projection isTerminal_unindexed halike]
    exact hkind
  have hshare := used_bytes_le h.used_le (pauseBytes rq)
  have hcount := h.events_le
  have hused := h.used_le
  have hsum := h.bytes_le
  have hpos := h.bytes_pos
  have hmax : j.budget.normalEventLimit ≤ maxU64 :=
    (Nat.sub_le _ _).trans j.budget.maxEvents_le
  refine ⟨_, AuditJournal.appendNormal_eq_ok h.open_ hnotTerminal rfl ?_ (by omega) (by omega)
    (by have := h.next; omega), ⟨h.budget, h.budget', by simp [h.started], by simp [h.started'],
      h.open_, h.open', ?_, ?_, ?_, ?_, ?_, ?_, hevents, hbytes, h.used_le⟩, rfl⟩
  · simp [AuditJournal.startedInOrder, envelope, hstarted, h.started]
  · simp [h.next]
  · simp [h.next']
  · simp only
    omega
  · simp only
    omega
  · simp only
    omega
  · simp only
    omega

/-- An event of a wait is accepted while the first journal is behind. -/
theorem journalRel_append_pause (executionId : Nat) {e : AuditEvent}
    (h : JournalRel rq waits used (ahead + 1) j j') (he : IsPause e) :
    ∃ k, j.appendNormal (envelope rq executionId j.nextSequence e) = .ok (j.nextSequence, k) ∧
      JournalRel rq waits used ahead k j' := by
  obtain ⟨hroom, hroom'⟩ := journalRel_room h
  obtain ⟨-, hstarted, hterminal, -⟩ := pause_shape he
  have hshare := used_bytes_le h.used_le (pauseBytes rq)
  have hcount := h.events_le
  have hused := h.used_le
  have hsum := h.bytes_le
  rw [Nat.add_mul, Nat.one_mul] at hsum
  have hlimit := h.events_limit
  have hlimit' := h.bytes_limit
  have hsize := pause_bytes he rq executionId j.nextSequence
  have hmax : j.budget.normalEventLimit ≤ maxU64 :=
    (Nat.sub_le _ _).trans j.budget.maxEvents_le
  refine ⟨_, AuditJournal.appendNormal_eq_ok h.open_ hterminal rfl ?_ (by omega) (by omega)
    (by have := h.next; omega), ⟨h.budget, h.budget', by simp [h.started], h.started',
      h.open_, h.open', ?_, h.next', ?_, ?_, h.events_pos, h.bytes_pos, h.events_limit,
      h.bytes_limit, h.used_le⟩⟩
  · simp [AuditJournal.startedInOrder, envelope, hstarted, h.started]
  · simp [h.next]
  · simp only
    omega
  · simp only [hsize]
    omega

theorem satAdd_room {a a' r l l' m d : Nat} (h : a ≤ a' + d) (hl : l' + d ≤ l) (hm : l ≤ m)
    (hr : min (a' + r) m ≤ l') : min (a + r) m ≤ l := by
  omega

/-- The reserve of a host call is there in the first run when it is in the second. -/
theorem journalRel_reserve (h : JournalRel rq waits used ahead j j')
    (hreserve : j'.canReserveHostCall = true) : j.canReserveHostCall = true := by
  obtain ⟨hroom, hroom'⟩ := journalRel_room h
  have hshare := used_bytes_le h.used_le (pauseBytes rq)
  have hcount := h.events_le
  have hused := h.used_le
  have hsum := h.bytes_le
  have hmaxEvents : j.budget.normalEventLimit ≤ maxU64 :=
    (Nat.sub_le _ _).trans j.budget.maxEvents_le
  have hmaxBytes : j.budget.normalByteLimit ≤ maxU64 :=
    (Nat.sub_le _ _).trans j.budget.maxEncodedBytes_le
  have hclose : j.budget.hostCallCloseReserveEvents = j'.budget.hostCallCloseReserveEvents := by
    rw [h.budget, h.budget']
    rfl
  have hclose' : j.budget.hostCallCloseReserveBytes = j'.budget.hostCallCloseReserveBytes := by
    rw [h.budget, h.budget']
    rfl
  simp only [AuditJournal.canReserveHostCall, h.open_, h.open', satAdd, hclose, hclose'] at hreserve ⊢
  simp only [Bool.not_false, Bool.true_and, Bool.and_eq_true, Bool.not_eq_true',
    decide_eq_false_iff_not, gt_iff_lt, not_lt] at hreserve ⊢
  exact ⟨satAdd_room (by omega) hroom hmaxEvents hreserve.1,
    satAdd_room (by omega) hroom' hmaxBytes hreserve.2⟩

end BackpressureLemmas

/-! ## The recorders in a slice -/

/-- Two recorders that differ at most in poll indices. -/
structure RecorderRel (r r' : Recorder) : Prop where
  charges : r.accumulator = r'.accumulator
  events : r.auditEvents.map AuditEvent.unindexed = r'.auditEvents.map AuditEvent.unindexed
  queue : r.auditQueue = r'.auditQueue
  progress : r.auditQueueProgress = r'.auditQueueProgress
  yieldFlag : r.yieldForAuditQueue = r'.yieldForAuditQueue
  lastYield : r.lastYieldReason = r'.lastYieldReason

/-- The queue holds no more bytes than the events `todo` take. -/
def Queued (r : Recorder) (todo : List AuditEvent) : Prop :=
  ∀ m, r.auditQueue = some m → m.bytes ≤ (todo.map (Recorder.queuedBytes m)).sum

/-- A call of the recorder that does the same to related recorders: it answers the same,
pushes, allocates no poll index and accounts for what it pushes. -/
structure Tame {α : Type} (f : Recorder → α × Recorder) : Prop where
  result : ∀ r r', RecorderRel r r' → (f r).1 = (f r').1
  rel : ∀ r r', RecorderRel r r' → RecorderRel (f r).2 (f r').2
  pushes : ∀ r, ∃ events, (f r).2.auditEvents = r.auditEvents ++ events
  queued : ∀ r, Queued r r.auditEvents → Queued (f r).2 (f r).2.auditEvents
  pollIndex : ∀ r, (f r).2.pollIndex = r.pollIndex

namespace BackpressureLemmas

open DeliveryLemmas

theorem queuedBytes_alike {e e' : AuditEvent} (h : Alike e e') (m : AuditQueueMeter) :
    Recorder.queuedBytes m e = Recorder.queuedBytes m e' := by
  simp only [Recorder.queuedBytes, alike_projection estimate_unindexed h]

theorem queued_admitted {r : Recorder} {todo : List AuditEvent} (h : Queued r todo)
    (event : AuditEvent) : Queued (r.auditQueueAdmit event) (todo ++ [event]) := by
  intro m hm
  simp only [Recorder.auditQueueAdmit, Option.map_eq_some_iff] at hm
  obtain ⟨m₀, hm₀, rfl⟩ := hm
  have hle := h m₀ hm₀
  have hadd : satAdd m₀.bytes (Recorder.queuedBytes m₀ event) ≤
      m₀.bytes + Recorder.queuedBytes m₀ event := Nat.min_le_left _ _
  simp only [List.map_append, List.map_cons, List.map_nil, List.sum_append, List.sum_cons,
    List.sum_nil]
  exact hadd.trans (Nat.add_le_add hle (Nat.le_refl _))

theorem queued_release {r : Recorder} {todo : List AuditEvent} {event : AuditEvent}
    (h : Queued r (event :: todo)) : Queued (r.auditQueueRelease event) todo := by
  intro m hm
  simp only [Recorder.auditQueueRelease, Option.map_eq_some_iff] at hm
  obtain ⟨m₀, hm₀, rfl⟩ := hm
  have hle := h m₀ hm₀
  rw [List.map_cons, List.sum_cons] at hle
  exact Nat.sub_le_iff_le_add'.mpr hle

theorem queued_admits {r : Recorder} {todo : List AuditEvent} (h : Queued r todo)
    (events : List AuditEvent) :
    Queued (events.foldl Recorder.auditQueueAdmit r) (todo ++ events) := by
  induction events generalizing r todo with
  | nil => simpa using h
  | cons event events ih => simpa using ih (queued_admitted h event)

theorem queued_push {r : Recorder} (h : Queued r r.auditEvents) (event : AuditEvent) :
    Queued (r.pushAuditEvent event) (r.pushAuditEvent event).auditEvents := queued_admitted h event

theorem queued_pushes {r : Recorder} (h : Queued r r.auditEvents) (events : List AuditEvent) :
    Queued (r.pushAuditEvents events) (r.pushAuditEvents events).auditEvents := by
  induction events generalizing r with
  | nil => exact h
  | cons event events ih => exact ih (queued_push h event)

theorem recorderRel_push {r r' : Recorder} (h : RecorderRel r r') {e e' : AuditEvent}
    (he : Alike e e') : RecorderRel (r.pushAuditEvent e) (r'.pushAuditEvent e') := by
  refine ⟨h.charges, ?_, ?_, h.progress, h.yieldFlag, h.lastYield⟩
  · simpa [Recorder.pushAuditEvent] using ⟨h.events, he⟩
  · simp [Recorder.pushAuditEvent, Recorder.auditQueueAdmit, h.queue, queuedBytes_alike he]

theorem recorderRel_pushes {r r' : Recorder} (h : RecorderRel r r') (events : List AuditEvent) :
    RecorderRel (r.pushAuditEvents events) (r'.pushAuditEvents events) := by
  induction events generalizing r r' with
  | nil => exact h
  | cons event events ih => exact ih (recorderRel_push h rfl)

theorem recorderRel_flushCharges {r r' : Recorder} (h : RecorderRel r r') :
    RecorderRel r.flushChargesIntoAuditEvents r'.flushChargesIntoAuditEvents := by
  have hdrained : RecorderRel r.drainBudgetCharges.2 r'.drainBudgetCharges.2 :=
    ⟨rfl, h.events, h.queue, h.progress, h.yieldFlag, h.lastYield⟩
  have hevents : r.drainBudgetCharges.1 = r'.drainBudgetCharges.1 := by
    simp only [Recorder.drainBudgetCharges, h.charges]
  unfold Recorder.flushChargesIntoAuditEvents
  rw [hevents]
  exact recorderRel_pushes hdrained _

theorem recorderRel_exceeded {r r' : Recorder} (h : RecorderRel r r') :
    r.auditQueueExceeded = r'.auditQueueExceeded := by
  simp only [Recorder.auditQueueExceeded, Recorder.auditQueueBytes, h.queue, h.charges, h.progress]

theorem tame_recordResume (usage : BudgetUsage) :
    Tame fun r : Recorder => ((), r.recordResume usage) where
  result := fun _ _ _ => rfl
  rel := by
    intro r r' h
    simp only [Recorder.recordResume, h.lastYield]
    split
    · have hnone : RecorderRel { r with lastYieldReason := none }
          { r' with lastYieldReason := none } :=
        ⟨h.charges, h.events, h.queue, h.progress, h.yieldFlag, rfl⟩
      exact recorderRel_push hnone rfl
    · exact h
  pushes := by
    intro r
    simp only [Recorder.recordResume]
    split
    · exact ⟨_, rfl⟩
    · exact ⟨[], by simp⟩
  queued := by
    intro r h
    simp only [Recorder.recordResume]
    split
    · exact queued_push (r := { r with lastYieldReason := none }) h _
    · exact h
  pollIndex := by
    intro r
    simp only [Recorder.recordResume]
    split <;> rfl

/-- A call that changes neither the buffer, the queue nor the poll index. -/
theorem tame_of_fields {α : Type} {f : Recorder → α × Recorder}
    (hresult : ∀ r r', RecorderRel r r' → (f r).1 = (f r').1)
    (hrel : ∀ r r', RecorderRel r r' → RecorderRel (f r).2 (f r').2)
    (hfields : ∀ r, (f r).2.auditEvents = r.auditEvents ∧ (f r).2.auditQueue = r.auditQueue ∧
      (f r).2.pollIndex = r.pollIndex) : Tame f where
  result := hresult
  rel := hrel
  pushes := fun r => ⟨[], by rw [(hfields r).1, List.append_nil]⟩
  queued := by
    intro r h m hm
    rw [(hfields r).1]
    exact h m ((hfields r).2.1 ▸ hm)
  pollIndex := fun r => (hfields r).2.2

theorem note_fields (acc : BudgetChargeAccumulator → BudgetChargeAccumulator) :
    Tame fun r : Recorder => ((), { r with accumulator := acc r.accumulator }) :=
  tame_of_fields (fun _ _ _ => rfl)
    (fun _ _ h => ⟨congrArg acc h.charges, h.events, h.queue, h.progress, h.yieldFlag, h.lastYield⟩)
    (fun _ => ⟨rfl, rfl, rfl⟩)

theorem tame_take (note : Note) : Tame fun r : Recorder => ((), r.take note) := by
  cases note with
  | charge resource reason delta usageAfter =>
    exact note_fields fun acc => acc.noteCharge resource reason delta usageAfter
  | release resource reason delta usageAfter peakAfter =>
    exact note_fields fun acc => acc.noteRelease resource reason delta usageAfter peakAfter
  | hostCall events =>
    exact ⟨fun _ _ _ => rfl, fun _ _ h => recorderRel_pushes h events,
      fun _ => ⟨events, pushAuditEvents_auditEvents _ _⟩, fun _ h => queued_pushes h events,
      fun r => pushAuditEvents_pollIndex r events⟩

/-- The notes of the link phase, one after the other. -/
theorem tame_notes (notes : List Note) :
    Tame fun r : Recorder => ((), notes.foldl Recorder.take r) where
  result := fun _ _ _ => rfl
  rel := by
    induction notes with
    | nil => exact fun _ _ h => h
    | cons note notes ih => exact fun r r' h => ih _ _ ((tame_take note).rel r r' h)
  pushes := by
    induction notes with
    | nil => exact fun r => ⟨[], by simp⟩
    | cons note notes ih =>
      intro r
      obtain ⟨events, hevents⟩ := (tame_take note).pushes r
      obtain ⟨events', hevents'⟩ := ih (r.take note)
      exact ⟨events ++ events', by rw [← List.append_assoc, ← hevents, ← hevents']; rfl⟩
  queued := by
    induction notes with
    | nil => exact fun _ h => h
    | cons note notes ih => exact fun r h => ih _ ((tame_take note).queued r h)
  pollIndex := by
    induction notes with
    | nil => exact fun _ => rfl
    | cons note notes ih => exact fun r => (ih _).trans ((tame_take note).pollIndex r)

theorem tame_progress (progress : Bool) :
    Tame fun r : Recorder => ((), { r with auditQueueProgress := progress }) :=
  tame_of_fields (fun _ _ _ => rfl)
    (fun _ _ h => ⟨h.charges, h.events, h.queue, rfl, h.yieldFlag, h.lastYield⟩)
    (fun _ => ⟨rfl, rfl, rfl⟩)

theorem tame_setYieldFlag :
    Tame fun r : Recorder => ((), { r with yieldForAuditQueue := true }) :=
  tame_of_fields (fun _ _ _ => rfl)
    (fun _ _ h => ⟨h.charges, h.events, h.queue, h.progress, rfl, h.lastYield⟩)
    (fun _ => ⟨rfl, rfl, rfl⟩)

theorem tame_takeYieldFlag :
    Tame fun r : Recorder => (r.yieldForAuditQueue, { r with yieldForAuditQueue := false }) :=
  tame_of_fields (fun _ _ h => h.yieldFlag)
    (fun _ _ h => ⟨h.charges, h.events, h.queue, h.progress, rfl, h.lastYield⟩)
    (fun _ => ⟨rfl, rfl, rfl⟩)

theorem tame_flushCharges : Tame fun r : Recorder => ((), r.flushChargesIntoAuditEvents) where
  result := fun _ _ _ => rfl
  rel := fun _ _ h => recorderRel_flushCharges h
  pushes := fun r => ⟨r.drainBudgetCharges.1, pushAuditEvents_auditEvents _ _⟩
  queued := fun r h => queued_pushes (r := r.drainBudgetCharges.2) h _
  pollIndex := flushCharges_pollIndex

end BackpressureLemmas

/-! ## The two runs in a slice -/

section

variable (rq : AuditedRequest) (executionId waits : Nat) (credit : S → Nat) (core : Core C)

/-- What was recorded and has not been acknowledged is `todo`. -/
def Delivered (st : RunState C S) (todo : List AuditEvent) : Prop :=
  (ackedOf st.log).map (·.event) ++ todo = startedEvent rq :: recordedOf st.log

/-- The waits that the first run has behind it pay for the difference of the journals
and of the poll indices. -/
def Account (ahead : Nat) (st : RunState C S) (st' : RunState C Unit) : Prop :=
  ∃ used, used + credit st.sink ≤ waits ∧
    JournalRel rq waits used ahead st.journal st'.journal ∧
    st.recorder.pollIndex ≤ st'.recorder.pollIndex + used

/-- What is left of the relation when the evaluator panics. -/
structure CoreRel (st : RunState C S) (st' : RunState C Unit) : Prop where
  core_eq : st.core = st'.core
  account : Account rq waits credit 0 st st'
  poll : st'.recorder.pollIndex ≤ st'.journal.committedEvents + 1

/-- The two runs at a place of a slice. `slack` is 1 after a yield, whose event the
journals do not have yet. -/
structure SliceRel (slack : Nat) (st : RunState C S) (st' : RunState C Unit) : Prop where
  core_eq : st.core = st'.core
  recorder : RecorderRel st.recorder st'.recorder
  queued : Queued st.recorder st.recorder.auditEvents
  account : Account rq waits credit 0 st st'
  poll : st'.recorder.pollIndex ≤ st'.journal.committedEvents + slack
  delivered : Delivered rq st st.recorder.auditEvents

end

namespace BackpressureLemmas

open Run DeliveryLemmas

section

variable {rq : AuditedRequest} {waits slack : Nat} {credit : S → Nat} (core : Core C)

/-- The simulations of this module match panics. -/
abbrev IsPanic (stop : Stop) : Prop := stop = .unwound

theorem coreRel_of_sliceRel {st : RunState C S} {st' : RunState C Unit} (hslack : slack ≤ 1)
    (h : SliceRel rq waits credit slack st st') : CoreRel rq waits credit st st' :=
  ⟨h.core_eq, h.account, h.poll.trans (Nat.add_le_add_left hslack _)⟩

theorem sim_onCore {α : Type} (f : C → α × C) :
    Proc.Sim IsPanic (CoreRel rq waits credit) (SliceRel rq waits credit slack)
      (onCore f : Run C S α) (onCore f : Run C Unit α)
      (Proc.Same (SliceRel rq waits credit slack)) := by
  refine Proc.sim_update fun st st' h => ⟨by rw [h.core_eq], ?_⟩
  exact ⟨by simp only [h.core_eq], h.recorder, h.queued, h.account, h.poll, h.delivered⟩

theorem sim_getsCore {α : Type} (f : C → α) :
    Proc.Sim IsPanic (CoreRel rq waits credit) (SliceRel rq waits credit slack)
      (Proc.gets fun st => f st.core : Run C S α) (Proc.gets fun st => f st.core : Run C Unit α)
      (Proc.Same (SliceRel rq waits credit slack)) :=
  Proc.sim_gets fun _ _ h => ⟨by rw [h.core_eq], h⟩

theorem sim_return {α : Type} (a : α) :
    Proc.Sim IsPanic (CoreRel rq waits credit) (SliceRel rq waits credit slack)
      (pure a : Run C S α) (pure a : Run C Unit α)
      (Proc.Same (SliceRel rq waits credit slack)) :=
  Proc.sim_pure fun _ _ h => ⟨rfl, h⟩

/-- An entry that neither records nor acknowledges keeps the relation. -/
theorem sim_trace {entry : LogEntry} (hacked : ackedOf [entry] = [])
    (hrecorded : recordedOf [entry] = []) :
    Proc.Sim IsPanic (CoreRel rq waits credit) (SliceRel rq waits credit slack)
      (trace [entry] : Run C S Unit) (trace [entry] : Run C Unit Unit)
      (Proc.Same (SliceRel rq waits credit slack)) := by
  refine Proc.sim_modify fun st st' h => ⟨rfl, h.core_eq, h.recorder, h.queued, h.account, h.poll, ?_⟩
  simpa [Delivered, hacked, hrecorded] using h.delivered

theorem sim_panics {α : Type} (hslack : slack ≤ 1) (site : PanicSite) :
    Proc.Sim IsPanic (CoreRel rq waits credit) (SliceRel rq waits credit slack)
      (panics site : Run C S α) (panics site : Run C Unit α)
      (Proc.Same (SliceRel rq waits credit slack)) :=
  Proc.sim_bind_same (sim_trace rfl rfl) fun _ =>
    Proc.sim_stop fun _ _ h _ => coreRel_of_sliceRel hslack h

/-- A tame call of the recorder keeps the relation. -/
theorem sim_record {α : Type} {f : Recorder → α × Recorder} (hf : Tame f) :
    Proc.Sim IsPanic (CoreRel rq waits credit) (SliceRel rq waits credit slack)
      (record f : Run C S α) (record f : Run C Unit α)
      (Proc.Same (SliceRel rq waits credit slack)) := by
  refine Proc.sim_update fun st st' h => ⟨hf.result _ _ h.recorder, h.core_eq,
    hf.rel _ _ h.recorder, hf.queued _ h.queued, ?_, ?_, ?_⟩
  · obtain ⟨used, hused, hjournal, hpoll⟩ := h.account
    exact ⟨used, hused, hjournal, by simpa only [hf.pollIndex] using hpoll⟩
  · simpa only [hf.pollIndex] using h.poll
  · obtain ⟨events, hevents⟩ := hf.pushes st.recorder
    have hbefore := h.delivered
    simp only [Delivered, ackedOf_append, recordedOf_append, ackedOf_recorded, List.append_nil,
      recordedOf_recorded, hevents, List.drop_left] at hbefore ⊢
    rw [← List.append_assoc, hbefore, List.cons_append]

theorem sim_runDriver (hslack : slack ≤ 1) {fuel fuel' : Nat} (hfuel : fuel' ≤ fuel) :
    Proc.Sim IsPanic (CoreRel rq waits credit) (SliceRel rq waits credit slack)
      (runDriver core fuel : Run C S DriveOutcome) (runDriver core fuel' : Run C Unit DriveOutcome)
      (Proc.Same (SliceRel rq waits credit slack)) := by
  induction fuel' generalizing fuel with
  | zero => exact Proc.sim_unmatched (by simp)
  | succ fuel' ih =>
    obtain ⟨fuel, rfl⟩ := Nat.exists_eq_succ_of_ne_zero (by omega : fuel ≠ 0)
    have hrest := ih (Nat.le_of_succ_le_succ hfuel)
    refine Proc.sim_bind_same (sim_trace rfl rfl) fun _ => ?_
    refine Proc.sim_bind_same (sim_onCore core.next) fun action => ?_
    cases action with
    | note note => exact Proc.sim_bind_same (sim_record (tame_take note)) fun _ => hrest
    | progress => exact Proc.sim_bind_same (sim_record (tame_progress true)) fun _ => hrest
    | boundary =>
      refine Proc.sim_bind_same
        (Proc.sim_gets fun _ _ h => ⟨recorderRel_exceeded h.recorder, h⟩) fun exceeded => ?_
      cases exceeded with
      | true =>
        exact Proc.sim_bind_same (sim_record tame_setYieldFlag) fun _ => sim_return _
      | false => exact hrest
    | yields => exact sim_return _
    | done result => exact sim_return _
    | fails error => exact sim_return _
    | unwinds => exact sim_panics hslack _

/-- The two runs when a slice has ended: if it yielded, its event is in the buffer. -/
def SliceEnd (rq : AuditedRequest) (waits : Nat) (credit : S → Nat) (st : RunState C S)
    (st' : RunState C Unit) : Prop :=
  ∃ slack, slack ≤ 1 ∧ SliceRel rq waits credit slack st st' ∧
    (slack = 0 ∨ st.recorder.auditEvents ≠ [])

theorem sliceEnd_of_rel {st : RunState C S} {st' : RunState C Unit}
    (h : SliceRel rq waits credit 0 st st') : SliceEnd rq waits credit st st' :=
  ⟨0, Nat.zero_le _, h, .inl rfl⟩

/-- The poll indices of both runs stay below the limits of the journals. -/
theorem poll_room {ahead used : Nat} {j j' : AuditJournal}
    (hreserve : rq.auditBudget.terminalReserveEvents = 1)
    (h : JournalRel rq waits used ahead j j') :
    j'.committedEvents + 2 * waits + 1 ≤ maxU64 := by
  obtain ⟨hroom, -⟩ := journalRel_room h
  have hlimit := h.events_limit
  have hpos := h.events_pos
  have hmax := rq.auditBudget.maxEvents_le
  rw [h.budget] at hroom
  have hnormal : rq.auditBudget.normalEventLimit = rq.auditBudget.maxEvents - 1 := by
    rw [AuditBudget.normalEventLimit, hreserve]
    rfl
  omega

/-- The yield of a slice gets a poll index in both runs. -/
theorem sim_allocYield (hreserve : rq.auditBudget.terminalReserveEvents = 1)
    (reason : AuditYieldReason) (usage : BudgetUsage) :
    Proc.Sim IsPanic (CoreRel rq waits credit) (SliceRel rq waits credit 0)
      (record (fun r => match r.allocPollIndex with
        | some (pollIndex, r) => (true, r.recordYield reason pollIndex usage)
        | none => (false, r)) : Run C S Bool)
      (record (fun r => match r.allocPollIndex with
        | some (pollIndex, r) => (true, r.recordYield reason pollIndex usage)
        | none => (false, r)) : Run C Unit Bool)
      (fun a a' st st' => a = true ∧ a' = true ∧ SliceEnd rq waits credit st st') := by
  refine Proc.sim_update fun st st' h => ?_
  obtain ⟨used, hused, hjournal, hpoll⟩ := h.account
  have hroom := poll_room hreserve hjournal
  have hpoll' := h.poll
  have halloc := allocPollIndex_eq_some (r := st.recorder) (by omega)
  have halloc' := allocPollIndex_eq_some (r := st'.recorder) (by omega)
  simp only [halloc, halloc', true_and]
  refine ⟨1, Nat.le_refl _, ⟨h.core_eq, ?_, ?_, ⟨used, hused, hjournal, ?_⟩, ?_, ?_⟩,
    .inr (by simp [Recorder.recordYield, Recorder.pushAuditEvent])⟩
  · have hpolled : RecorderRel { st.recorder with pollIndex := st.recorder.pollIndex + 1 }
        { st'.recorder with pollIndex := st'.recorder.pollIndex + 1 } :=
      ⟨h.recorder.charges, h.recorder.events, h.recorder.queue, h.recorder.progress,
        h.recorder.yieldFlag, h.recorder.lastYield⟩
    have halike : Alike (.yielded reason st.recorder.pollIndex usage)
        (.yielded reason st'.recorder.pollIndex usage) := rfl
    have hpushed := recorderRel_push hpolled halike
    exact ⟨hpushed.charges, hpushed.events, hpushed.queue, hpushed.progress, hpushed.yieldFlag, rfl⟩
  · exact queued_push (r := { st.recorder with pollIndex := st.recorder.pollIndex + 1 }) h.queued _
  · simp only [Recorder.recordYield, Recorder.pushAuditEvent, Recorder.auditQueueAdmit]
    omega
  · simp only [Recorder.recordYield, Recorder.pushAuditEvent, Recorder.auditQueueAdmit]
    omega
  · have hbefore := h.delivered
    simp only [Delivered, ackedOf_append, recordedOf_append, ackedOf_recorded, List.append_nil,
      recordedOf_recorded, Recorder.recordYield, Recorder.pushAuditEvent, Recorder.auditQueueAdmit,
      List.drop_left] at hbefore ⊢
    rw [← List.append_assoc, hbefore, List.cons_append]

theorem sim_yieldSlice (hreserve : rq.auditBudget.terminalReserveEvents = 1) (slice : SliceOutcome)
    (reason : AuditYieldReason) :
    Proc.Sim IsPanic (CoreRel rq waits credit) (SliceRel rq waits credit 0)
      (yieldSlice core slice reason : Run C S SliceOutcome)
      (yieldSlice core slice reason : Run C Unit SliceOutcome)
      (Proc.Same (SliceEnd rq waits credit)) := by
  refine Proc.sim_bind_same (sim_record tame_flushCharges) fun _ => ?_
  refine Proc.sim_bind_same (sim_getsCore core.usage) fun usage => ?_
  refine Proc.sim_bind (sim_allocYield hreserve reason usage) fun a a' st st' => ?_
  rintro ⟨rfl, rfl, h⟩
  exact Proc.sim_pure (fun _ _ h => ⟨rfl, h⟩) st st' h

theorem sim_runSlice (hreserve : rq.auditBudget.terminalReserveEvents = 1) {fuel fuel' : Nat}
    (hfuel : fuel' ≤ fuel) (sliceFuel : Nat) :
    Proc.Sim IsPanic (CoreRel rq waits credit) (SliceRel rq waits credit 0)
      (runSlice core fuel sliceFuel : Run C S SliceOutcome)
      (runSlice core fuel' sliceFuel : Run C Unit SliceOutcome)
      (Proc.Same (SliceEnd rq waits credit)) := by
  have hend : ∀ slice : SliceOutcome, Proc.Sim IsPanic (CoreRel rq waits credit)
      (SliceRel rq waits credit 0) (pure slice : Run C S SliceOutcome)
      (pure slice : Run C Unit SliceOutcome) (Proc.Same (SliceEnd rq waits credit)) := fun _ =>
    Proc.sim_pure fun _ _ h => ⟨rfl, sliceEnd_of_rel h⟩
  refine Proc.sim_bind_same (sim_getsCore core.usage) fun usage => ?_
  refine Proc.sim_bind_same (sim_record (tame_recordResume usage)) fun _ => ?_
  refine Proc.sim_bind_same (sim_onCore _) fun _ => ?_
  refine Proc.sim_bind_same (sim_record (tame_progress false)) fun _ => ?_
  refine Proc.sim_bind_same (sim_runDriver core (by omega) hfuel) fun outcome => ?_
  cases outcome with
  | yielded =>
    refine Proc.sim_bind_same (sim_record tame_takeYieldFlag) fun queueYield => ?_
    refine Proc.sim_bind_same (sim_getsCore core.pendingHostCall) fun pending => ?_
    dsimp only
    split
    · exact sim_yieldSlice core hreserve _ _
    · exact hend _
  | done result => exact Proc.sim_bind_same (sim_onCore _) fun _ => hend _
  | fails error => exact Proc.sim_bind_same (sim_onCore _) fun _ => hend _

end

end BackpressureLemmas

/-! ## The two runs in a flush -/

/-- What a meter has besides its count. -/
def AuditQueueMeter.frame (m : AuditQueueMeter) : Nat × Nat := (m.limit, m.envelopeOverhead)

section

variable (rq : AuditedRequest) (waits : Nat) (credit : S → Nat)

/-- The two runs within a flush: `todo` and `todo'` are what is left of the current pass,
`ahead` counts the events of waits among `todo`; the buffer of the first run holds only
events of waits. -/
structure FlushRel (ahead slack : Nat) (todo todo' : List AuditEvent) (st : RunState C S)
    (st' : RunState C Unit) : Prop where
  core_eq : st.core = st'.core
  charges : st.recorder.accumulator = {}
  charges' : st'.recorder.accumulator = {}
  buffer' : st'.recorder.auditEvents = []
  pauses : ∀ e ∈ st.recorder.auditEvents, IsPause e
  meters : st.recorder.auditQueue.map AuditQueueMeter.frame =
    st'.recorder.auditQueue.map AuditQueueMeter.frame
  progress : st.recorder.auditQueueProgress = st'.recorder.auditQueueProgress
  yieldFlag : st.recorder.yieldForAuditQueue = st'.recorder.yieldForAuditQueue
  lastYield : st.recorder.lastYieldReason = st'.recorder.lastYieldReason
  queued : Queued st.recorder (todo ++ st.recorder.auditEvents)
  queued' : Queued st'.recorder todo'
  account : Account rq waits credit (ahead + st.recorder.auditEvents.length) st st'
  poll : st'.recorder.pollIndex ≤ st'.journal.committedEvents + slack
  delivered : Delivered rq st (todo ++ st.recorder.auditEvents)

/-- What the delivery of one event does to the first run, `todo` being left of the pass. -/
structure FlushedOne (todo : List AuditEvent) (waited : Nat) (st st₂ : RunState C S) : Prop where
  core_eq : st₂.core = st.core
  charges : st₂.recorder.accumulator = {}
  pauses : (∀ e ∈ st.recorder.auditEvents, IsPause e) → ∀ e ∈ st₂.recorder.auditEvents, IsPause e
  length : st₂.recorder.auditEvents.length = st.recorder.auditEvents.length + 2 * waited
  meters : st₂.recorder.auditQueue.map AuditQueueMeter.frame =
    st.recorder.auditQueue.map AuditQueueMeter.frame
  progress : st₂.recorder.auditQueueProgress = st.recorder.auditQueueProgress
  yieldFlag : st₂.recorder.yieldForAuditQueue = st.recorder.yieldForAuditQueue
  lastYield : st₂.recorder.lastYieldReason = st.recorder.lastYieldReason
  queued : Queued st₂.recorder (todo ++ st₂.recorder.auditEvents)
  poll : st₂.recorder.pollIndex = st.recorder.pollIndex + waited
  credit : credit st₂.sink + waited ≤ credit st.sink
  delivered : Delivered rq st₂ (todo ++ st₂.recorder.auditEvents)

end

namespace BackpressureLemmas

open Run DeliveryLemmas

section

variable {rq : AuditedRequest} {executionId waits : Nat} {credit : S → Nat} {core : Core C}
  {sink : AuditSink S}

@[simp] theorem frame_admitted (r : Recorder) (event : AuditEvent) :
    (r.auditQueueAdmit event).auditQueue.map AuditQueueMeter.frame =
      r.auditQueue.map AuditQueueMeter.frame := by
  simp only [Recorder.auditQueueAdmit, Option.map_map]
  rfl

@[simp] theorem frame_release (r : Recorder) (event : AuditEvent) :
    (r.auditQueueRelease event).auditQueue.map AuditQueueMeter.frame =
      r.auditQueue.map AuditQueueMeter.frame := by
  simp only [Recorder.auditQueueRelease, Option.map_map]
  rfl

theorem queued_of_queue {r r' : Recorder} {todo : List AuditEvent} (h : Queued r todo)
    (hqueue : r'.auditQueue = r.auditQueue) : Queued r' todo := fun m hm => h m (hqueue ▸ hm)

/-- One event of a flush that the journal accepts is delivered to a patient sink. -/
theorem flushEvent_one (hcore : core.Uninterrupted) (hsink : Patient sink credit)
    {event : AuditEvent} {todo : List AuditEvent} {st : RunState C S} {seq : Nat}
    {j : AuditJournal}
    (hreserve : (event.isHostCallStarted && !st.journal.canReserveHostCall) = false)
    (happend : st.journal.appendNormal
      (envelope rq executionId st.journal.nextSequence event) = .ok (seq, j))
    (hpoll : 0 < credit st.sink → st.recorder.pollIndex + 1 ≤ maxU64)
    (hcharges : st.recorder.accumulator = {})
    (hqueued : Queued st.recorder (event :: todo ++ st.recorder.auditEvents))
    (hdelivered : Delivered rq st (event :: todo ++ st.recorder.auditEvents)) :
    ∃ waited st₂, (flushEvent rq executionId core sink event).run st = (.ok (), st₂) ∧
      st₂.journal = j ∧ FlushedOne rq credit todo waited st st₂ := by
  obtain ⟨waited, t, r, entries, hr, hrun, hcredit, hacked, hpush⟩ :=
    flushEvent_run hcore hsink hreserve happend hpoll
  have hlog : ∀ events, r.auditEvents = st.recorder.auditEvents ++ events →
      (ackedOf (st.log ++ .appended (envelope rq executionId st.journal.nextSequence event) ::
        entries)).map (·.event) ++ (todo ++ r.auditEvents) = startedEvent rq ::
      recordedOf (st.log ++ .appended (envelope rq executionId st.journal.nextSequence event) ::
        entries) := by
    intro events hevents
    have hsame : recordedOf entries = events := List.append_cancel_left (hpush.symm.trans hevents)
    have hskip : ∀ env, ackedOf (.appended env :: entries) = ackedOf entries ∧
        recordedOf (.appended env :: entries) = recordedOf entries := fun _ => ⟨rfl, rfl⟩
    have hbefore := hdelivered
    simp only [Delivered, List.cons_append] at hbefore
    rw [ackedOf_append, recordedOf_append, (hskip _).1, (hskip _).2, hacked, hsame, hevents,
      ← List.cons_append, ← hbefore]
    simp [envelope]
  refine ⟨waited.toNat, _, hrun, rfl, ?_⟩
  cases waited with
  | false =>
    simp only [Bool.false_eq_true, if_false] at hr
    subst hr
    refine ⟨rfl, hcharges, fun h => h, by simp [Recorder.auditQueueRelease], by simp, rfl, rfl,
      rfl, ?_, rfl, hcredit, hlog [] (by simp)⟩
    exact queued_release hqueued
  | true =>
    simp only [if_true] at hr
    obtain ⟨index, heq⟩ := backpressured_eq (core.usage st.core) hcharges
      (hpoll (by simpa using Nat.lt_of_lt_of_le (Nat.succ_pos _) hcredit))
    rw [heq] at hr
    subst hr
    refine ⟨rfl, hcharges, ?_, by simp [Recorder.auditQueueRelease], by simp, rfl, rfl, rfl, ?_,
      rfl, hcredit, hlog _ rfl⟩
    · intro h e he
      simp only [Recorder.auditQueueRelease, List.mem_append, List.mem_cons, List.not_mem_nil,
        or_false] at he
      rcases he with he | rfl | rfl
      · exact h e he
      · exact ⟨_, _, .inl rfl⟩
      · exact ⟨_, _, .inr rfl⟩
    · have hboth := queued_admitted (queued_admitted hqueued
        (.yielded .auditBackpressure st.recorder.pollIndex (core.usage st.core)))
        (.resumed .auditBackpressure st.recorder.pollIndex (core.usage st.core))
      refine queued_of_queue (queued_release ?_) rfl
      refine queued_of_queue (r := ((st.recorder.auditQueueAdmit _).auditQueueAdmit _)) ?_ rfl
      simpa [Recorder.auditQueueRelease] using hboth

theorem journalRel_waited {used ahead waited : Nat} {j j' : AuditJournal}
    (h : JournalRel rq waits used ahead j j') (hused : used + waited ≤ waits) :
    JournalRel rq waits (used + waited) (ahead + 2 * waited) j j' := by
  have hevents := h.events_le
  have hbytes := h.bytes_le
  refine { h with events_le := by omega, bytes_le := ?_, used_le := hused }
  rw [Nat.add_mul, Nat.mul_add, Nat.add_mul]
  omega

/-- The account after one event: the journals may have moved, and a wait is paid. -/
theorem account_flushed {ahead ahead' waited : Nat} {st st₂ : RunState C S}
    {st' st₂' : RunState C Unit} {todo : List AuditEvent}
    (h : Account rq waits credit (ahead + st.recorder.auditEvents.length) st st')
    (hone : FlushedOne rq credit todo waited st st₂)
    (hpoll : st₂'.recorder.pollIndex = st'.recorder.pollIndex)
    (hjournal : ∀ used, JournalRel rq waits used (ahead + st.recorder.auditEvents.length)
      st.journal st'.journal → JournalRel rq waits used (ahead' + st.recorder.auditEvents.length)
        st₂.journal st₂'.journal) :
    Account rq waits credit (ahead' + st₂.recorder.auditEvents.length) st₂ st₂' := by
  obtain ⟨used, hused, hrel, hle⟩ := h
  have hcredit := hone.credit
  refine ⟨used + waited, by omega, ?_, by rw [hone.poll, hpoll]; omega⟩
  rw [hone.length, ← Nat.add_assoc]
  exact journalRel_waited (hjournal used hrel) (by omega)

/-- A poll index is left for a wait. -/
theorem poll_left {ahead : Nat} (hreserve : rq.auditBudget.terminalReserveEvents = 1)
    {st : RunState C S} {st' : RunState C Unit} (h : Account rq waits credit ahead st st')
    (hpoll : st'.recorder.pollIndex ≤ st'.journal.committedEvents + 1)
    (hcredit : 0 < credit st.sink) : st.recorder.pollIndex + 1 ≤ maxU64 := by
  obtain ⟨used, hused, hjournal, hle⟩ := h
  have := poll_room hreserve hjournal
  omega

/-- What the run with the sink that acknowledges at once does to one event. -/
theorem flushEvent_sync_run (rq : AuditedRequest) (executionId : Nat) (core : Core C)
    (event : AuditEvent) (st : RunState C Unit) :
    (flushEvent rq executionId core syncSink event).run st =
      if event.isHostCallStarted && !st.journal.canReserveHostCall then
        (.error (.failed .budgetExceeded), st)
      else
        match st.journal.appendNormal
          (envelope rq executionId st.journal.nextSequence event) with
        | .error failure => (.error (.failed failure), st)
        | .ok (_, j) =>
          (.ok (), { st with
            journal := j
            recorder := st.recorder.auditQueueRelease event
            log := st.log ++
              [.appended (envelope rq executionId st.journal.nextSequence event)] ++
              [.submitted (envelope rq executionId st.journal.nextSequence event)] ++
              [.acked (envelope rq executionId st.journal.nextSequence event)] }) := by
  simp only [flushEvent, Proc.bind_run, Proc.gets_run]
  split
  · rfl
  · simp only [append, Proc.bind_run, Proc.gets_run]
    cases st.journal.appendNormal (envelope rq executionId st.journal.nextSequence event) with
    | error failure => rfl
    | ok result =>
      simp [deliver, submit, trace, Proc.bind_run, syncSink, ackOk, envelope]

/-- An event that the second run delivers is delivered by the first. -/
theorem sim_flushEvent (hreserve : rq.auditBudget.terminalReserveEvents = 1)
    (hcore : core.Uninterrupted) (hsink : Patient sink credit) {slack : Nat} (hslack : slack ≤ 1)
    {e e' : AuditEvent} (halike : Alike e e') (todo todo' : List AuditEvent) :
    Proc.Sim IsPanic (CoreRel rq waits credit)
      (FlushRel rq waits credit 0 slack (e :: todo) (e' :: todo'))
      (flushEvent rq executionId core sink e)
      (flushEvent (rq.sparing waits) executionId core syncSink e')
      (Proc.Same (FlushRel rq waits credit 0 (slack - 1) todo todo')) := by
  intro st st' h
  rw [flushEvent_sync_run]
  split
  · exact ⟨fun _ _ hr => (by cases hr), fun _ _ hr hT => (by cases hr; cases hT)⟩
  next hhost =>
  split
  · exact ⟨fun _ _ hr => (by cases hr), fun _ _ hr hT => (by cases hr; cases hT)⟩
  next seq j' happend' =>
  refine ⟨fun _ _ hr => ?_, fun _ _ hr => (by cases hr)⟩
  cases hr
  obtain ⟨used, hused, hjournal, hle⟩ := h.account
  obtain ⟨j, happend, -, hcount⟩ := journalRel_append_both hjournal halike happend'
  have hhost' : (e.isHostCallStarted && !st.journal.canReserveHostCall) = false := by
    rw [alike_projection isHostCallStarted_unindexed halike]
    cases hkind : e'.isHostCallStarted with
    | false => rfl
    | true =>
      simp only [hkind, Bool.true_and, Bool.not_eq_true', Bool.not_eq_false] at hhost
      simp [journalRel_reserve hjournal hhost]
  have hpoll := h.poll
  obtain ⟨waited, st₂, hrun, hst₂, hone⟩ := flushEvent_one hcore hsink hhost' happend
    (poll_left hreserve h.account (by omega)) h.charges h.queued h.delivered
  refine ⟨(), st₂, hrun, rfl, hone.core_eq.trans h.core_eq, hone.charges, h.charges', h.buffer',
    hone.pauses h.pauses, hone.meters.trans (h.meters.trans (frame_release _ _).symm),
    hone.progress.trans h.progress, hone.yieldFlag.trans h.yieldFlag,
    hone.lastYield.trans h.lastYield, hone.queued, queued_release h.queued', ?_, ?_,
    hone.delivered⟩
  · refine account_flushed h.account hone rfl fun used' hrel => ?_
    obtain ⟨k, hk, hrel', -⟩ := journalRel_append_both hrel halike happend'
    rw [happend] at hk
    cases hk
    rw [hst₂]
    exact hrel'
  · simp only [Recorder.auditQueueRelease]
    omega

theorem sim_flushEach (hreserve : rq.auditBudget.terminalReserveEvents = 1)
    (hcore : core.Uninterrupted) (hsink : Patient sink credit) {slack : Nat} (hslack : slack ≤ 1)
    (todo todo' : List AuditEvent)
    (halike : todo.map AuditEvent.unindexed = todo'.map AuditEvent.unindexed)
    (hne : slack = 0 ∨ todo ≠ []) :
    Proc.Sim IsPanic (CoreRel rq waits credit) (FlushRel rq waits credit 0 slack todo todo')
      (flushEach rq executionId core sink todo)
      (flushEach (rq.sparing waits) executionId core syncSink todo')
      (Proc.Same (FlushRel rq waits credit 0 0 [] [])) := by
  induction todo generalizing todo' slack with
  | nil =>
    obtain rfl : todo' = [] := by simpa using halike.symm
    obtain rfl : slack = 0 := by simpa using hne
    exact Proc.sim_pure fun _ _ h => ⟨rfl, h⟩
  | cons e todo ih =>
    obtain ⟨e', todo', rfl, he, htodo⟩ := List.map_eq_cons_iff.mp halike.symm
    refine Proc.sim_bind_same
      (sim_flushEvent hreserve hcore hsink hslack he.symm todo todo') fun _ => ?_
    exact ih (by omega) todo' htodo.symm (.inl (by omega))

variable (executionId) in
/-- The events of waits are delivered while the second run stands still; a further wait
costs credit. -/
theorem flushEach_pauses (hreserve : rq.auditBudget.terminalReserveEvents = 1)
    (hcore : core.Uninterrupted) (hsink : Patient sink credit) (todo : List AuditEvent)
    (hpauses : ∀ e ∈ todo, IsPause e) {st : RunState C S} {st' : RunState C Unit}
    (h : FlushRel rq waits credit todo.length 0 todo [] st st') :
    ∃ st₂, (flushEach rq executionId core sink todo).run st = (.ok (), st₂) ∧
      FlushRel rq waits credit 0 0 [] [] st₂ st' ∧
      st₂.recorder.auditEvents.length + 2 * credit st₂.sink ≤
        st.recorder.auditEvents.length + 2 * credit st.sink := by
  induction todo generalizing st with
  | nil => exact ⟨st, rfl, h, Nat.le_refl _⟩
  | cons e todo ih =>
    have he := hpauses e List.mem_cons_self
    have hahead : (e :: todo).length + st.recorder.auditEvents.length =
        todo.length + st.recorder.auditEvents.length + 1 := by
      rw [List.length_cons]
      omega
    obtain ⟨used, hused, hjournal, hle⟩ := h.account
    rw [hahead] at hjournal
    obtain ⟨j, happend, -⟩ := journalRel_append_pause executionId hjournal he
    have hhost : (e.isHostCallStarted && !st.journal.canReserveHostCall) = false := by
      rw [(pause_shape he).2.2.2, Bool.false_and]
    have hpoll := h.poll
    obtain ⟨waited, st₂, hrun, hst₂, hone⟩ := flushEvent_one hcore hsink hhost happend
      (poll_left hreserve h.account (by omega)) h.charges h.queued h.delivered
    have hstep : FlushRel rq waits credit todo.length 0 todo [] st₂ st' := by
      refine ⟨hone.core_eq.trans h.core_eq, hone.charges, h.charges', h.buffer',
        hone.pauses h.pauses, hone.meters.trans h.meters, hone.progress.trans h.progress,
        hone.yieldFlag.trans h.yieldFlag, hone.lastYield.trans h.lastYield, hone.queued,
        h.queued', ?_, h.poll, hone.delivered⟩
      refine account_flushed h.account hone rfl fun used' hrel => ?_
      rw [hahead] at hrel
      obtain ⟨k, hk, hrel'⟩ := journalRel_append_pause executionId hrel he
      rw [happend] at hk
      cases hk
      rw [hst₂]
      exact hrel'
    obtain ⟨st₃, hrun₃, hrel₃, hlen₃⟩ :=
      ih (fun e' he' => hpauses e' (List.mem_cons_of_mem _ he')) hstep
    refine ⟨st₃, ?_, hrel₃, ?_⟩
    · rw [flushEach, Proc.bind_run_ok hrun, hrun₃]
    · have hlen := hone.length
      have hcredit := hone.credit
      omega

/-- What `drainAll` takes and leaves. -/
theorem drainAll_run {S : Type} (st : RunState C S) :
    (drainAll : Run C S (List AuditEvent)).run st =
      (.ok (st.recorder.auditEvents ++ st.recorder.accumulator.flush.1), { st with
        recorder := st.recorder.accumulator.flush.1.foldl Recorder.auditQueueAdmit
          { st.recorder with auditEvents := [], accumulator := {} }
        log := st.log ++ st.recorder.accumulator.flush.1.map .recorded }) := rfl

/-- With no charge waiting, a pass takes the buffer and nothing else. -/
theorem drainAll_run_empty {S : Type} {st : RunState C S} (hcharges : st.recorder.accumulator = {}) :
    (drainAll : Run C S (List AuditEvent)).run st =
      (.ok st.recorder.auditEvents,
        { st with recorder := { st.recorder with auditEvents := [] } }) := by
  rw [drainAll_run]
  simp [hcharges]

variable (executionId) in
/-- The passes that deliver the events of waits come to an end. -/
theorem flushEvents_pauses (hreserve : rq.auditBudget.terminalReserveEvents = 1)
    (hcore : core.Uninterrupted) (hsink : Patient sink credit) {st' : RunState C Unit} (fuel : Nat)
    {st : RunState C S} (h : FlushRel rq waits credit 0 0 [] [] st st')
    (hfuel : (st.recorder.auditEvents = [] ∧ 1 ≤ fuel) ∨ credit st.sink + 2 ≤ fuel) :
    ∃ st₂, (flushEvents rq executionId core sink fuel).run st = (.ok (), st₂) ∧
      FlushRel rq waits credit 0 0 [] [] st₂ st' ∧ st₂.recorder.auditEvents = [] := by
  induction fuel generalizing st with
  | zero => omega
  | succ fuel ih =>
    rw [flushEvents, Proc.bind_run_ok (drainAll_run_empty h.charges)]
    cases hbuffer : st.recorder.auditEvents with
    | nil =>
      have hqueued : Queued st.recorder [] := by simpa [hbuffer] using h.queued
      have haccount : Account rq waits credit 0 st st' := by simpa [hbuffer] using h.account
      have hdelivered : Delivered rq st [] := by simpa [hbuffer] using h.delivered
      exact ⟨_, rfl, ⟨h.core_eq, h.charges, h.charges', h.buffer', by simp, h.meters, h.progress,
        h.yieldFlag, h.lastYield, hqueued, h.queued', haccount, h.poll, hdelivered⟩, rfl⟩
    | cons e events =>
      have hpass : FlushRel rq waits credit (e :: events).length 0 (e :: events) []
          { st with recorder := { st.recorder with auditEvents := [] } } st' := by
        have hqueued : Queued st.recorder (e :: events ++ []) := by simpa [hbuffer] using h.queued
        have haccount : Account rq waits credit ((e :: events).length + 0) st st' := by
          simpa [hbuffer] using h.account
        have hdelivered : Delivered rq st (e :: events ++ []) := by
          simpa [hbuffer] using h.delivered
        exact ⟨h.core_eq, h.charges, h.charges', h.buffer', by simp, h.meters, h.progress,
          h.yieldFlag, h.lastYield, hqueued, h.queued', haccount, h.poll, hdelivered⟩
      obtain ⟨st₂, hrun, hrel, hlen⟩ := flushEach_pauses executionId hreserve hcore
        hsink (e :: events) (hbuffer ▸ h.pauses) hpass
      rw [Proc.bind_run_ok hrun]
      refine ih hrel ?_
      simp only [hbuffer, reduceCtorEq, false_and, false_or] at hfuel
      rcases Nat.eq_zero_or_pos st₂.recorder.auditEvents.length with hnone | hsome
      · exact .inl ⟨List.eq_nil_of_length_eq_zero hnone, by omega⟩
      · simp only [List.length_nil] at hlen
        exact .inr (by omega)

/-- At the end of a flush the two runs are as at the start of a slice. -/
theorem sliceRel_of_flushRel {st : RunState C S} {st' : RunState C Unit}
    (h : FlushRel rq waits credit 0 0 [] [] st st') (hbuffer : st.recorder.auditEvents = []) :
    SliceRel rq waits credit 0 st st' := by
  refine ⟨h.core_eq, ⟨h.charges.trans h.charges'.symm, by rw [hbuffer, h.buffer'], ?_, h.progress,
    h.yieldFlag, h.lastYield⟩, ?_, by simpa [hbuffer] using h.account, h.poll,
    by simpa using h.delivered⟩
  · have hframe := h.meters
    have hqueued := h.queued
    have hqueued' := h.queued'
    simp only [hbuffer, List.append_nil] at hqueued
    cases hq : st.recorder.auditQueue with
    | none =>
      rw [hq] at hframe
      exact (Option.map_eq_none_iff.mp hframe.symm).symm
    | some m =>
      rw [hq] at hframe
      obtain ⟨m', hm', heq⟩ := Option.map_eq_some_iff.mp hframe.symm
      rw [hm']
      have hzero := hqueued m hq
      have hzero' := hqueued' m' hm'
      simp only [List.map_nil, List.sum_nil, Nat.le_zero] at hzero hzero'
      obtain ⟨limit, overhead, bytes⟩ := m
      obtain ⟨limit', overhead', bytes'⟩ := m'
      simp only [AuditQueueMeter.frame, Prod.mk.injEq] at heq hzero hzero'
      obtain ⟨rfl, rfl⟩ := heq
      rw [hzero, hzero']
  · simpa using h.queued

/-- Putting events on the queue changes nothing else. -/
theorem admits_frame (r : Recorder) (events : List AuditEvent) :
    events.foldl Recorder.auditQueueAdmit r =
      { r with auditQueue := (events.foldl Recorder.auditQueueAdmit r).auditQueue } := by
  induction events generalizing r with
  | nil => rfl
  | cons event events ih =>
    rw [List.foldl_cons, ih]
    rfl

theorem admits_queue {r r' : Recorder} (h : r.auditQueue = r'.auditQueue)
    (events : List AuditEvent) : (events.foldl Recorder.auditQueueAdmit r).auditQueue =
      (events.foldl Recorder.auditQueueAdmit r').auditQueue := by
  induction events generalizing r r' with
  | nil => exact h
  | cons event events ih => exact ih (by simp only [Recorder.auditQueueAdmit, h])

/-- The start of a flush: both runs take their buffers and the same charges. -/
theorem flushRel_of_sliceRel {slack : Nat} {st : RunState C S} {st' : RunState C Unit}
    (h : SliceRel rq waits credit slack st st') :
    FlushRel rq waits credit 0 slack
      (st.recorder.auditEvents ++ st.recorder.accumulator.flush.1)
      (st'.recorder.auditEvents ++ st'.recorder.accumulator.flush.1)
      ((drainAll : Run C S (List AuditEvent)).run st).2
      ((drainAll : Run C Unit (List AuditEvent)).run st').2 := by
  have hcharges : st'.recorder.accumulator.flush.1 = st.recorder.accumulator.flush.1 := by
    rw [h.recorder.charges]
  rw [drainAll_run, drainAll_run, hcharges]
  generalize st.recorder.accumulator.flush.1 = charges
  have hdrained : { st.recorder with auditEvents := [], accumulator := {} : Recorder }.auditQueue =
      { st'.recorder with auditEvents := [], accumulator := {} : Recorder }.auditQueue :=
    h.recorder.queue
  have hqueue := admits_queue hdrained charges
  have hqueued : Queued (charges.foldl Recorder.auditQueueAdmit
      { st.recorder with auditEvents := [], accumulator := {} })
      (st.recorder.auditEvents ++ charges) :=
    queued_admits (r := { st.recorder with auditEvents := [], accumulator := {} }) h.queued charges
  rw [admits_frame { st.recorder with auditEvents := [], accumulator := {} }] at hqueued ⊢
  rw [admits_frame { st'.recorder with auditEvents := [], accumulator := {} }]
  refine ⟨h.core_eq, rfl, rfl, rfl, by simp, by simp only [hqueue], h.recorder.progress,
    h.recorder.yieldFlag, h.recorder.lastYield, by simpa using hqueued, ?_, h.account, h.poll, ?_⟩
  · intro m hm
    have hsum : ∀ events events' : List AuditEvent,
        events.map AuditEvent.unindexed = events'.map AuditEvent.unindexed →
        events.map (Recorder.queuedBytes m) = events'.map (Recorder.queuedBytes m) := by
      intro events events' hmap
      have hbytes : Recorder.queuedBytes m ∘ AuditEvent.unindexed = Recorder.queuedBytes m := by
        funext e
        simp [Recorder.queuedBytes]
      rw [← hbytes, ← List.map_map, hmap, List.map_map]
    have hle := hqueued m (by rw [← hm]; exact hqueue)
    rwa [List.map_append, hsum _ _ h.recorder.events, ← List.map_append] at hle
  · have hbefore := h.delivered
    simp only [Delivered, ackedOf_append, recordedOf_append, ackedOf_recorded, List.append_nil,
      recordedOf_recorded] at hbefore ⊢
    rw [← List.append_assoc, hbefore, List.cons_append]

/-- The passes after the first: the second run finds nothing, the first catches up. -/
theorem sim_flushRest (hreserve : rq.auditBudget.terminalReserveEvents = 1)
    (hcore : core.Uninterrupted) (hsink : Patient sink credit) {fuel fuel' : Nat}
    (hfuel : waits + 2 ≤ fuel) :
    Proc.Sim IsPanic (CoreRel rq waits credit) (FlushRel rq waits credit 0 0 [] [])
      (flushEvents rq executionId core sink fuel)
      (flushEvents (rq.sparing waits) executionId core syncSink fuel')
      (Proc.Same fun st st' => SliceRel rq waits credit 0 st st' ∧
        st.recorder.auditEvents = []) := by
  cases fuel' with
  | zero => exact Proc.sim_unmatched (by simp)
  | succ fuel' =>
    intro st st' h
    have hsame : { st' with recorder := { st'.recorder with auditEvents := [] } } = st' := by
      rw [← h.buffer']
    rw [flushEvents, Proc.bind_run_ok (drainAll_run_empty h.charges'), hsame, h.buffer']
    refine ⟨fun _ _ hr => ?_, fun _ _ hr => (by cases hr)⟩
    cases hr
    obtain ⟨used, hused, -⟩ := h.account
    obtain ⟨st₂, hrun, hrel, hbuffer⟩ := flushEvents_pauses executionId hreserve
      hcore hsink fuel h (.inr (by omega))
    exact ⟨(), st₂, hrun, rfl, sliceRel_of_flushRel hrel hbuffer, hbuffer⟩

variable (executionId) in
/-- A flush that the second run completes is completed by the first, which needs a pass
more for each wait. -/
theorem sim_flushEvents (hreserve : rq.auditBudget.terminalReserveEvents = 1)
    (hcore : core.Uninterrupted) (hsink : Patient sink credit) {fuel fuel' : Nat}
    (hfuel : waits + 3 ≤ fuel) :
    Proc.Sim IsPanic (CoreRel rq waits credit) (SliceEnd rq waits credit)
      (flushEvents rq executionId core sink fuel)
      (flushEvents (rq.sparing waits) executionId core syncSink fuel')
      (Proc.Same fun st st' => SliceRel rq waits credit 0 st st' ∧
        st.recorder.auditEvents = []) := by
  obtain ⟨fuel, rfl⟩ := Nat.exists_eq_succ_of_ne_zero (by omega : fuel ≠ 0)
  cases fuel' with
  | zero => exact Proc.sim_unmatched (by simp)
  | succ fuel' =>
    rintro st st' ⟨slack, hslack, h, hne⟩
    have hrel := flushRel_of_sliceRel h
    have halike : (st.recorder.auditEvents ++ st.recorder.accumulator.flush.1).map
        AuditEvent.unindexed = (st'.recorder.auditEvents ++ st'.recorder.accumulator.flush.1).map
        AuditEvent.unindexed := by
      rw [List.map_append, List.map_append, h.recorder.events, h.recorder.charges]
    have hne' : slack = 0 ∨ st.recorder.auditEvents ++ st.recorder.accumulator.flush.1 ≠ [] :=
      hne.imp_right fun hbuffer => by simp [hbuffer]
    rw [flushEvents, flushEvents, Proc.bind_run_ok (drainAll_run st),
      Proc.bind_run_ok (drainAll_run st')]
    simp only [drainAll_run] at hrel
    generalize st.recorder.auditEvents ++ st.recorder.accumulator.flush.1 = todo at *
    generalize st'.recorder.auditEvents ++ st'.recorder.accumulator.flush.1 = todo' at *
    cases todo with
    | nil =>
      obtain rfl : todo' = [] := by simpa using halike.symm
      obtain rfl : slack = 0 := by simpa using hne'
      exact Proc.sim_pure (R := fun st st' => FlushRel rq waits credit 0 0 [] [] st st' ∧
        st.recorder.auditEvents = []) (fun _ _ hflush => ⟨rfl, sliceRel_of_flushRel hflush.1
          hflush.2, hflush.2⟩) _ _ ⟨hrel, by rw [admits_frame]⟩
    | cons e todo =>
      obtain ⟨e', todo', rfl, -, -⟩ := List.map_eq_cons_iff.mp halike.symm
      exact Proc.sim_bind_same
        (sim_flushEach hreserve hcore hsink hslack (e :: todo) (e' :: todo') halike hne')
        (fun _ => sim_flushRest hreserve hcore hsink (by omega)) _ _ hrel

end

end BackpressureLemmas

end Tsumugi.Audit
