import Tsumugi.Audit.Aggregate
import Tsumugi.Audit.Transparency
import Tsumugi.Audit.YieldLaw

/-!
# The meter of the audit drain queue

The meter adds what an event takes when the event is recorded, and takes it off when the
event is acknowledged. Started and Terminal are not in the queue.

Results:
1. `counted_record`, `counted_release`: what a step does to the meter and to what waits.
2. `ensures_flushEvents`: a flush that returns leaves nothing waiting and the meter at zero.
3. `runDriver_tested`: a slice passes a test of the limit only below the limit, or before a
   statement has run.
4. `queue_meter_exact`: throughout a run the meter is the size of what waits.
5. `queue_grows_past_statement`: what waits may exceed the limit by more than what one
   statement records.
-/

namespace Tsumugi.Audit

open Budget Word

variable {C S : Type}

/-! ## What waits -/

/-- What events take in the queue: their estimates, each with the envelope. -/
def queuedSum (overhead : Nat) (events : List AuditEvent) : Nat :=
  (events.map fun event => overhead + estimateEventBytes event).sum

/-- All events but Started and Terminal go through the queue. -/
def AuditEvent.isQueued (event : AuditEvent) : Bool := !event.isStarted && !event.isTerminal

/-- The acknowledged events that came from the queue. -/
def releasedOf (log : List LogEntry) : List AuditEvent :=
  ((ackedOf log).map (·.event)).filter AuditEvent.isQueued

/-- The events that are recorded and not yet acknowledged: acks come in the order of the
records. -/
def waitingOf (log : List LogEntry) : List AuditEvent :=
  (recordedOf log).drop (releasedOf log).length

/-- What waited never took more than the largest 64-bit value. An event takes more memory
than its estimate says, so that no machine holds more. -/
def FitsMemory (overhead : Nat) (log : List LogEntry) : Prop :=
  ∀ earlier, earlier <+: log → queuedSum overhead (waitingOf earlier) ≤ maxU64

/-- What the meter shows: `unreleased` is acknowledged and still counted, `flight` is out
of the buffer and not acknowledged. -/
structure Counted (overhead : Nat) (log : List LogEntry) (unreleased flight : List AuditEvent)
    (r : Recorder) : Prop where
  order : recordedOf log = releasedOf log ++ (flight ++ r.auditEvents)
  metered : AggregateLemmas.Metered r.accumulator
  bytes : ∀ m ∈ r.auditQueue, m.envelopeOverhead = overhead ∧ m.bytes ≤ maxU64 ∧
    m.bytes ≤ queuedSum overhead (unreleased ++ (flight ++ r.auditEvents)) ∧
    (FitsMemory overhead log →
      m.bytes = queuedSum overhead (unreleased ++ (flight ++ r.auditEvents)))

/-- The same of a state of the run, after Started. -/
def QueueAt (overhead : Nat) (unreleased flight : List AuditEvent) (st : RunState C S) : Prop :=
  st.journal.started = true ∧ Counted overhead st.log unreleased flight st.recorder

namespace QueueMeterLemmas

open AggregateLemmas DeliveryLemmas Recorder

/-! ## Sums -/

@[simp] theorem queuedSum_nil (overhead : Nat) : queuedSum overhead [] = 0 := rfl

@[simp] theorem queuedSum_cons (overhead : Nat) (event : AuditEvent) (events : List AuditEvent) :
    queuedSum overhead (event :: events) =
      overhead + estimateEventBytes event + queuedSum overhead events := by
  simp [queuedSum]

@[simp] theorem queuedSum_append (overhead : Nat) (events events' : List AuditEvent) :
    queuedSum overhead (events ++ events') =
      queuedSum overhead events + queuedSum overhead events' := by
  simp [queuedSum]

@[simp] theorem releasedOf_append (log log' : List LogEntry) :
    releasedOf (log ++ log') = releasedOf log ++ releasedOf log' := by
  simp [releasedOf]

/-- The meter after events were admitted. -/
def admitted (overhead bytes : Nat) (events : List AuditEvent) : Nat :=
  events.foldl (fun b event => satAdd b (satAdd overhead (estimateEventBytes event))) bytes

theorem admitted_le (overhead bytes : Nat) (events : List AuditEvent) :
    admitted overhead bytes events ≤ bytes + queuedSum overhead events := by
  induction events generalizing bytes with
  | nil => exact Nat.le_refl _
  | cons event events ih =>
    refine (ih _).trans ?_
    rw [queuedSum_cons]
    dsimp only [satAdd]
    omega

theorem admitted_le_max {overhead bytes : Nat} (h : bytes ≤ maxU64) (events : List AuditEvent) :
    admitted overhead bytes events ≤ maxU64 := by
  induction events generalizing bytes with
  | nil => exact h
  | cons event events ih => exact ih (satAdd_le _ _)

/-- Nothing saturates while the sum is within range. -/
theorem admitted_eq {overhead bytes : Nat} {events : List AuditEvent}
    (h : bytes + queuedSum overhead events ≤ maxU64) :
    admitted overhead bytes events = bytes + queuedSum overhead events := by
  induction events generalizing bytes with
  | nil => rfl
  | cons event events ih =>
    rw [queuedSum_cons] at h ⊢
    have hone : satAdd bytes (satAdd overhead (estimateEventBytes event)) =
        bytes + (overhead + estimateEventBytes event) := by
      rw [satAdd_of_le (a := overhead) (by omega), satAdd_of_le (by omega)]
    refine (ih (by omega : satAdd bytes (satAdd overhead (estimateEventBytes event)) +
      queuedSum overhead events ≤ maxU64)).trans ?_
    omega

theorem foldl_auditQueueAdmit (r : Recorder) (events : List AuditEvent) :
    events.foldl auditQueueAdmit r =
      { r with auditQueue := r.auditQueue.map fun m =>
          { m with bytes := admitted m.envelopeOverhead m.bytes events } } := by
  induction events generalizing r with
  | nil => cases r with | mk _ _ queue => cases queue <;> rfl
  | cons event events ih =>
    rw [List.foldl_cons, ih]
    cases r with | mk _ _ queue => cases queue <;> rfl

/-! ## Calls of the recorder -/

/-- The call put `events` into the buffer and admitted them. -/
structure Pushes (r r' : Recorder) (events : List AuditEvent) : Prop where
  buffer : r'.auditEvents = r.auditEvents ++ events
  queue : r'.auditQueue = (events.foldl auditQueueAdmit r).auditQueue
  metered : Metered r.accumulator → Metered r'.accumulator

theorem Pushes.trans {r r' r'' : Recorder} {events events' : List AuditEvent}
    (h : Pushes r r' events) (h' : Pushes r' r'' events') : Pushes r r'' (events ++ events') where
  buffer := by rw [h'.buffer, h.buffer, List.append_assoc]
  queue := by
    rw [h'.queue, foldl_auditQueueAdmit, h.queue, foldl_auditQueueAdmit, foldl_auditQueueAdmit]
    cases r.auditQueue with
    | none => rfl
    | some m => simp [admitted]
  metered := h'.metered ∘ h.metered

/-- A call that leaves the buffer and the queue alone. -/
theorem pushes_nothing {r r' : Recorder} (hbuffer : r'.auditEvents = r.auditEvents)
    (hqueue : r'.auditQueue = r.auditQueue)
    (hmetered : Metered r.accumulator → Metered r'.accumulator) : Pushes r r' [] :=
  ⟨by rw [hbuffer, List.append_nil], hqueue, hmetered⟩

theorem pushes_event (r : Recorder) (event : AuditEvent) :
    Pushes r (r.pushAuditEvent event) [event] := ⟨rfl, rfl, id⟩

theorem pushes_events (r : Recorder) (events : List AuditEvent) :
    Pushes r (r.pushAuditEvents events) events := by
  induction events generalizing r with
  | nil => exact pushes_nothing rfl rfl id
  | cons event events ih => exact (pushes_event r event).trans (ih _)

theorem pushes_take (r : Recorder) (note : Note) : ∃ events, Pushes r (r.take note) events := by
  cases note with
  | charge resource reason delta usageAfter =>
    exact ⟨[], pushes_nothing rfl rfl fun h =>
      metered_takeNote h resource reason (.charge delta usageAfter)⟩
  | release resource reason delta usageAfter peakAfter =>
    exact ⟨[], pushes_nothing rfl rfl fun h =>
      metered_takeNote h resource reason (.release delta usageAfter peakAfter)⟩
  | hostCall events => exact ⟨events, pushes_events r events⟩

theorem pushes_takes (r : Recorder) (notes : List Note) :
    ∃ events, Pushes r (notes.foldl Recorder.take r) events := by
  induction notes generalizing r with
  | nil => exact ⟨[], pushes_nothing rfl rfl id⟩
  | cons note notes ih =>
    obtain ⟨events, h⟩ := pushes_take r note
    obtain ⟨events', h'⟩ := ih (r.take note)
    exact ⟨_, h.trans h'⟩

theorem pushes_flushCharges (r : Recorder) :
    Pushes r r.flushChargesIntoAuditEvents r.drainBudgetCharges.1 :=
  (pushes_nothing rfl rfl fun _ => rfl : Pushes r r.drainBudgetCharges.2 []).trans
    (pushes_events _ _)

theorem pushes_recordYield (r : Recorder) (reason : AuditYieldReason) (pollIndex : Nat)
    (usage : BudgetUsage) :
    Pushes r (r.recordYield reason pollIndex usage) [.yielded reason pollIndex usage] :=
  ⟨rfl, rfl, id⟩

theorem pushes_allocPollIndex {r r' : Recorder} {pollIndex : Nat}
    (h : r.allocPollIndex = some (pollIndex, r')) : Pushes r r' [] := by
  obtain ⟨next, -, heq⟩ := Option.map_eq_some_iff.mp h
  cases heq
  exact pushes_nothing rfl rfl id

theorem pushes_restoreSavedYield (r : Recorder) : Pushes r r.restoreSavedYield [] := by
  unfold restoreSavedYield
  split <;> exact pushes_nothing rfl rfl id

theorem pushes_recordResume (r : Recorder) (usage : BudgetUsage) :
    ∃ events, Pushes r (r.recordResume usage) events := by
  unfold recordResume
  split
  · exact ⟨_, rfl, rfl, id⟩
  · exact ⟨[], pushes_nothing rfl rfl id⟩

theorem pushes_recordBackpressureResume (r : Recorder) (usage : BudgetUsage) :
    ∃ events, Pushes r (r.recordBackpressureResume usage) events := by
  unfold recordBackpressureResume
  split
  · have hpush : Pushes r ({ r with lastYieldReason := none }.pushAuditEvent
        (.resumed .auditBackpressure r.lastYieldPollIndex usage))
        [.resumed .auditBackpressure r.lastYieldPollIndex usage] := ⟨rfl, rfl, id⟩
    exact ⟨_, hpush.trans (pushes_restoreSavedYield _)⟩
  · exact ⟨[], pushes_nothing rfl rfl id⟩

/-- A wait first records the charges, then its yield. -/
theorem pushes_recordBackpressureYield (r : Recorder) (usage : BudgetUsage) :
    ∃ events, Pushes r (r.recordBackpressureYield usage).2 events := by
  unfold recordBackpressureYield
  dsimp only
  have hsaved : ∀ saved, Pushes r
      { r with savedYieldBeforeBackpressure := saved, lastYieldReason := none } [] :=
    fun saved => pushes_nothing rfl rfl id
  have hflush := (hsaved (r.lastYieldReason.map fun reason => (reason, r.lastYieldPollIndex))).trans
    (pushes_flushCharges _)
  split
  next pollIndex r' halloc =>
    exact ⟨_, (hflush.trans (pushes_allocPollIndex halloc)).trans (pushes_recordYield _ _ _ _)⟩
  next => exact ⟨_, hflush.trans (pushes_restoreSavedYield _)⟩

/-! ## The queue -/

variable {overhead : Nat} {log : List LogEntry} {unreleased flight : List AuditEvent}
  {r r' : Recorder}

theorem fitsMemory_earlier {entries : List LogEntry} (h : FitsMemory overhead (log ++ entries)) :
    FitsMemory overhead log := fun earlier hle => h earlier (hle.trans (List.prefix_append _ _))

/-- What waits is in flight or in the buffer. -/
theorem counted_waiting (h : Counted overhead log unreleased flight r) :
    waitingOf log = flight ++ r.auditEvents := by
  rw [waitingOf, h.order, List.drop_left]

/-- Entries that neither record nor acknowledge. -/
def Silent (entries : List LogEntry) : Prop :=
  recordedOf entries = [] ∧ ackedOf entries = []

theorem counted_silent {entries : List LogEntry} (h : Counted overhead log unreleased flight r)
    (hsilent : Silent entries) :
    Counted overhead (log ++ entries) unreleased flight r := by
  refine ⟨?_, h.metered, fun m hm => ?_⟩
  · have hreleased : releasedOf entries = [] := by rw [releasedOf, hsilent.2]; rfl
    rw [recordedOf_append, releasedOf_append, hsilent.1, hreleased, List.append_nil,
      List.append_nil, h.order]
  · obtain ⟨hover, hmax, hle, heq⟩ := h.bytes m hm
    exact ⟨hover, hmax, hle, fun hfits => heq (fitsMemory_earlier hfits)⟩

/-- What a call records is put on the queue. -/
theorem counted_record {events : List AuditEvent} (h : Counted overhead log [] flight r)
    (hpush : Pushes r r' events) :
    Counted overhead (log ++ events.map .recorded) [] flight r' := by
  have horder : recordedOf (log ++ events.map .recorded) =
      releasedOf (log ++ events.map .recorded) ++ (flight ++ r'.auditEvents) := by
    simp [h.order, hpush.buffer, releasedOf]
  refine ⟨horder, hpush.metered h.metered, fun m' hm' => ?_⟩
  rw [hpush.queue, foldl_auditQueueAdmit] at hm'
  obtain ⟨m, hm, rfl⟩ := Option.map_eq_some_iff.mp hm'
  obtain ⟨rfl, hmax, hle, heq⟩ := h.bytes m hm
  refine ⟨rfl, admitted_le_max hmax _, ?_, fun hfits => ?_⟩
  · have := admitted_le m.envelopeOverhead m.bytes events
    simp only [hpush.buffer, queuedSum_append, List.nil_append] at hle ⊢
    omega
  · have hall := hfits _ List.prefix_rfl
    rw [waitingOf, horder, List.drop_left] at hall
    have hbytes := heq (fitsMemory_earlier hfits)
    simp only [hpush.buffer, queuedSum_append, List.nil_append] at hall hbytes ⊢
    rw [admitted_eq (by omega)]
    omega

/-- An ack takes its event out of flight; it is still counted. -/
theorem counted_acked {env : AuditEnvelope} {rest : List AuditEvent}
    (h : Counted overhead log [] (env.event :: rest) r) (hkind : env.event.isQueued = true) :
    Counted overhead (log ++ [.acked env]) [env.event] rest r := by
  refine ⟨?_, h.metered, fun m hm => ?_⟩
  · have hacked : releasedOf [.acked env] = [env.event] := by simp [releasedOf, ackedOf, hkind]
    have hrecorded : recordedOf [.acked env] = [] := rfl
    rw [recordedOf_append, releasedOf_append, hacked, hrecorded, List.append_nil, h.order,
      List.append_assoc]
    rfl
  · obtain ⟨hover, hmax, hle, heq⟩ := h.bytes m hm
    exact ⟨hover, hmax, hle, fun hfits => heq (fitsMemory_earlier hfits)⟩

/-- The ack of a Terminal leaves the queue alone. -/
theorem counted_acked_terminal {env : AuditEnvelope}
    (h : Counted overhead log unreleased flight r) (hkind : env.event.isQueued = false) :
    Counted overhead (log ++ [.acked env]) unreleased flight r := by
  refine ⟨?_, h.metered, fun m hm => ?_⟩
  · have hacked : releasedOf [.acked env] = [] := by simp [releasedOf, ackedOf, hkind]
    rw [recordedOf_append, releasedOf_append, hacked, h.order, List.append_nil]
    exact List.append_nil _
  · obtain ⟨hover, hmax, hle, heq⟩ := h.bytes m hm
    exact ⟨hover, hmax, hle, fun hfits => heq (fitsMemory_earlier hfits)⟩

/-- A release takes off what the event was counted for. -/
theorem counted_release {event : AuditEvent} (h : Counted overhead log [event] flight r) :
    Counted overhead log [] flight (r.auditQueueRelease event) := by
  refine ⟨h.order, h.metered, fun m' hm' => ?_⟩
  obtain ⟨m, hm, rfl⟩ := Option.map_eq_some_iff.mp hm'
  obtain ⟨rfl, hmax, hle, heq⟩ := h.bytes m hm
  simp only [auditQueueRelease, queuedBytes, queuedSum_append, queuedSum_cons, queuedSum_nil,
    List.nil_append] at hle heq ⊢
  refine ⟨trivial, (Nat.sub_le _ _).trans hmax, ?_, fun hfits => ?_⟩
  · unfold satSub satAdd
    omega
  · have hbytes := heq hfits
    unfold satSub satAdd
    omega

/-- The buffer is taken: its events are in flight. -/
theorem counted_drainAuditEvents (h : Counted overhead log unreleased [] r) :
    Counted overhead log unreleased r.auditEvents { r with auditEvents := [] } := by
  refine ⟨by simpa using h.order, h.metered, fun m hm => ?_⟩
  simpa using h.bytes m hm

/-- The buffer and the accumulator are taken, and the charges admitted. -/
theorem counted_drain (h : Counted overhead log [] [] r) :
    Counted overhead (log ++ r.accumulator.flush.1.map .recorded) []
      (r.auditEvents ++ r.accumulator.flush.1)
      (r.accumulator.flush.1.foldl auditQueueAdmit
        { r with auditEvents := [], accumulator := {} }) := by
  -- as if the charges had gone through the buffer
  have hpush : Pushes r { r with
      auditEvents := r.auditEvents ++ r.accumulator.flush.1
      accumulator := {}
      auditQueue := (r.accumulator.flush.1.foldl auditQueueAdmit r).auditQueue }
      r.accumulator.flush.1 := ⟨rfl, rfl, fun _ => rfl⟩
  have hdrained := counted_drainAuditEvents (counted_record h hpush)
  rw [foldl_auditQueueAdmit] at hdrained ⊢
  exact hdrained

/-- The whole of the queue: what waits, and the finalized charges. -/
theorem counted_auditQueueBytes (h : Counted overhead log [] flight r)
    (hfits : FitsMemory overhead log) {bytes : Nat} (hbytes : r.auditQueueBytes = some bytes) :
    bytes = min (queuedSum overhead (waitingOf log ++ r.accumulator.finalized)) maxU64 := by
  obtain ⟨m, hm, rfl⟩ := Option.map_eq_some_iff.mp hbytes
  obtain ⟨rfl, -, -, heq⟩ := h.bytes m hm
  have hexact := heq hfits
  rw [List.nil_append, ← counted_waiting h] at hexact
  rw [finalizedQueueBytes_eq h.metered, queuedSum_append, hexact, satAdd]
  simp only [queuedSum]
  omega

end QueueMeterLemmas

/-- Some events are in flight, and the meter counts them with those of the buffer. -/
def Metering (overhead : Nat) (st : RunState C S) : Prop :=
  ∃ flight, QueueAt overhead [] flight st

/-- Nothing waits: the buffer and the accumulator are empty too. -/
def Drained (overhead : Nat) (st : RunState C S) : Prop :=
  QueueAt overhead [] [] st ∧ st.recorder.auditEvents = [] ∧
    st.recorder.accumulator = {}

/-! ## Delivery -/

namespace QueueMeterLemmas

open Run YieldLawLemmas StreamLawLemmas DeliveryLemmas

variable {overhead : Nat} {unreleased flight : List AuditEvent}

theorem queueAt_silent {st : RunState C S} {entries : List LogEntry}
    (h : QueueAt overhead unreleased flight st) (hsilent : Silent entries) :
    QueueAt overhead unreleased flight { st with log := st.log ++ entries } := by
  exact ⟨h.1, counted_silent h.2 hsilent⟩

theorem queueAt_acked {st : RunState C S} {env : AuditEnvelope} {rest : List AuditEvent}
    (hkind : env.event.isQueued = true)
    (h : QueueAt overhead [] (env.event :: rest) st) :
    QueueAt overhead [env.event] rest { st with log := st.log ++ [.acked env] } := by
  exact ⟨h.1, counted_acked h.2 hkind⟩

theorem queueAt_acked_terminal {st : RunState C S} {env : AuditEnvelope}
    (hkind : env.event.isQueued = false)
    (h : QueueAt overhead unreleased flight st) :
    QueueAt overhead unreleased flight { st with log := st.log ++ [.acked env] } := by
  exact ⟨h.1, counted_acked_terminal h.2 hkind⟩

/-- The part of the run leaves what is in flight alone. -/
abbrev Meters {α : Type} (overhead : Nat)
    (flight : List AuditEvent) (m : Run C S α) : Prop :=
  Proc.Keeps (QueueAt overhead [] flight) m

theorem meters_trace {entries : List LogEntry} (h : Silent entries) :
    Meters overhead flight (trace entries : Run C S Unit) :=
  Proc.keeps_modify fun _ hst => queueAt_silent hst h

theorem meters_panics {α : Type} (site : PanicSite) :
    Meters overhead flight (panics site : Run C S α) :=
  Proc.keeps_bind (meters_trace ⟨rfl, rfl⟩) fun _ => Proc.keeps_stop _

theorem meters_onCore {α : Type} (f : C → α × C) :
    Meters overhead flight (onCore f : Run C S α) := Proc.keeps_update fun _ hst => hst

theorem meters_onTicket {α : Type} (f : S → α × S) :
    Meters overhead flight (onTicket f : Run C S α) :=
  Proc.keeps_update fun _ hst => hst

/-- A call of the recorder puts what it records on the queue. -/
theorem meters_record {α : Type} {f : Recorder → α × Recorder}
    (hf : ∀ r, ∃ events, Pushes r (f r).2 events) :
    Meters overhead flight (record f : Run C S α) := by
  refine Proc.keeps_update fun st ⟨hstarted, hcounted⟩ => ⟨hstarted, ?_⟩
  obtain ⟨events, hpush⟩ := hf st.recorder
  have hnew : (f st.recorder).2.auditEvents.drop st.recorder.auditEvents.length = events := by
    rw [hpush.buffer, List.drop_left]
  dsimp only
  rw [hnew]
  exact counted_record hcounted hpush

/-- A call that only sets a flag. -/
theorem meters_flag {α : Type} {f : Recorder → α × Recorder}
    (hf : ∀ r, (f r).2.auditEvents = r.auditEvents ∧ (f r).2.auditQueue = r.auditQueue ∧
      (f r).2.accumulator = r.accumulator) :
    Meters overhead flight (record f : Run C S α) :=
  meters_record fun r => ⟨[], pushes_nothing (hf r).1 (hf r).2.1 fun h => (hf r).2.2 ▸ h⟩

section

variable (core : Core C) (sink : AuditSink S) (executionId : Nat) {env : AuditEnvelope}

theorem meters_submit (env : AuditEnvelope) :
    Meters overhead flight (submit sink env : Run C S AuditSubmit) := by
  refine Proc.keeps_bind (meters_trace ⟨rfl, rfl⟩) fun _ => ?_
  refine Proc.keeps_bind (meters_onTicket fun s => sink.submit s [env]) fun answer => ?_
  cases answer <;> first | exact Proc.keeps_pure _ | exact meters_panics _

theorem meters_interrupted (env : AuditEnvelope) :
    Meters overhead flight (interrupted core env : Run C S Bool) := by
  refine Proc.keeps_bind (meters_onCore _) fun _ => Proc.keeps_ite ?_ (Proc.keeps_pure _)
  refine Proc.keeps_bind (meters_onCore _) fun answer => ?_
  cases answer with
  | none => exact meters_panics _
  | some deadlineOk => exact Proc.keeps_pure _

/-- A part that leaves the flight alone, before one that ends in `B`. -/
theorem Meters.then {α β : Type} {m : Run C S α} {f : α → Run C S β}
    {B : β → RunState C S → Prop} (hm : Meters overhead flight m)
    (hf : ∀ a, Proc.Ensures (QueueAt overhead [] flight) (f a) B
      fun _ => Metering overhead) :
    Proc.Ensures (QueueAt overhead [] flight) (m >>= f) B
      fun _ => Metering overhead :=
  Proc.ensures_bind ((Proc.ensures_of_keeps hm).conseq (fun _ h => h) (fun _ _ h => h)
    fun _ _ h => ⟨flight, h⟩) hf

theorem ensures_stops {α : Type} {stop : Stop} {B : α → RunState C S → Prop} :
    Proc.Ensures (QueueAt overhead [] flight) (Proc.stop stop : Run C S α) B
      fun _ => Metering overhead := Proc.ensures_stop fun _ h => ⟨flight, h⟩

variable {B : RunState C S → Prop} (hack : ∀ st, QueueAt overhead [] flight st →
  B { st with log := st.log ++ [.acked env] })

include hack

/-- The ack ends the wait: Resumed is recorded before the event is out of flight. -/
theorem ensures_resumeAfterAck :
    Proc.Ensures (QueueAt overhead [] flight)
      (resumeAfterAck core env : Run C S Unit) (fun _ => B)
      fun _ => Metering overhead := by
  refine Meters.then (Proc.keeps_gets _) fun usage => ?_
  refine Meters.then (meters_record fun r => pushes_recordBackpressureResume r usage) fun _ => ?_
  exact Proc.ensures_modify fun st hst => hack st hst

theorem ensures_awaitAck (resends ticket : Nat) :
    Proc.Ensures (QueueAt overhead [] flight)
      (awaitAck executionId core sink env resends ticket) (fun _ => B)
      fun _ => Metering overhead := by
  have hacked : ∀ ack : AuditAck, Proc.Ensures (QueueAt overhead [] flight)
      (if ackOk executionId ack env.sequence then resumeAfterAck core env
        else Proc.stop (.failed .sink) : Run C S Unit) (fun _ => B)
      fun _ => Metering overhead := fun ack =>
    Proc.ensures_ite (fun _ => ensures_resumeAfterAck core hack) fun _ => ensures_stops
  induction resends generalizing ticket with
  | zero => exact Meters.then (meters_onTicket _) fun _ => ensures_stops
  | succ resends ih =>
    refine Meters.then (meters_interrupted core env) fun stopped => ?_
    refine Proc.ensures_ite (fun _ => Meters.then (meters_onTicket _) fun _ => ensures_stops)
      fun _ => ?_
    refine Meters.then (meters_onTicket _) fun taken => ?_
    match taken with
    | some (.ok ack) => exact hacked ack
    | some (.error _) => exact ensures_stops
    | none =>
      refine Meters.then (meters_submit sink env) fun answer => ?_
      cases answer with
      | ack ack => exact hacked ack
      | pending next => exact Meters.then (meters_onTicket _) fun _ => ih next
      | failed error => exact ensures_stops
      | unwinds => exact ensures_stops

/-- A delivery, at once or after a wait. -/
theorem ensures_deliver :
    Proc.Ensures (QueueAt overhead [] flight)
      (deliver executionId core sink env) (fun _ => B)
      fun _ => Metering overhead := by
  refine Meters.then (meters_submit sink env) fun answer => ?_
  cases answer with
  | ack ack =>
    exact Proc.ensures_ite (fun _ => Proc.ensures_modify fun st hst => hack st hst)
      fun _ => ensures_stops
  | pending ticket =>
    refine Meters.then (Proc.keeps_gets _) fun usage => ?_
    refine Meters.then (meters_record fun r => pushes_recordBackpressureYield r usage)
      fun allocated => ?_
    refine Proc.ensures_ite (fun _ => ?_)
      fun _ => Meters.then (meters_onTicket _) fun _ => ensures_stops
    exact Meters.then (meters_onTicket _) fun _ =>
      ensures_awaitAck core sink executionId hack _ _
  | failed error => exact ensures_stops
  | unwinds => exact ensures_stops

end

/-! ## Flush -/

section

variable (rq : AuditedRequest) (executionId : Nat) (core : Core C) (sink : AuditSink S)

/-- After Started only an event of the queue passes the append. -/
theorem ensures_appendNormal (env : AuditEnvelope) :
    Proc.Ensures (QueueAt overhead [] flight)
      (append env AuditJournal.appendNormal : Run C S Unit)
      (fun _ st => env.event.isQueued = true ∧ QueueAt overhead [] flight st)
      fun _ => Metering overhead := by
  intro st hst
  rcases happ : st.journal.appendNormal env with failure | ⟨seq, j⟩
  · rw [append_run_error _ happ]
    exact ⟨flight, hst⟩
  · rw [append_run_ok _ happ]
    obtain ⟨-, hterminal, -, horder, -, -, rfl⟩ := AuditJournal.appendNormal_spec happ
    have hstarted : env.event.isStarted = false := by
      simpa [AuditJournal.startedInOrder, hst.1] using horder
    refine ⟨by simp [AuditEvent.isQueued, hterminal, hstarted], ?_, counted_silent hst.2 ⟨rfl, rfl⟩⟩
    simp [hst.1]

/-- One event is delivered and released. -/
theorem ensures_flushEvent (event : AuditEvent) (rest : List AuditEvent) :
    Proc.Ensures (QueueAt overhead [] (event :: rest))
      (flushEvent rq executionId core sink event)
      (fun _ => QueueAt overhead [] rest)
      fun _ => Metering overhead := by
  refine Meters.then (Proc.keeps_gets _) fun j => ?_
  refine Proc.ensures_ite (fun _ => ensures_stops) fun _ => ?_
  refine Proc.ensures_bind (ensures_appendNormal _) fun _ => ?_
  rintro st ⟨hkind, hst⟩
  refine Proc.ensures_bind (ensures_deliver (B := QueueAt overhead [event] rest)
    core sink executionId fun _ h => queueAt_acked hkind h) (fun _ => ?_) st hst
  exact Proc.ensures_modify fun st h => ⟨h.1, counted_release h.2⟩

theorem ensures_flushEach (events : List AuditEvent) :
    Proc.Ensures (QueueAt overhead [] events)
      (flushEach rq executionId core sink events)
      (fun _ => QueueAt overhead [] [])
      fun _ => Metering overhead := by
  induction events with
  | nil => exact Proc.ensures_pure fun _ h => h
  | cons event events ih =>
    exact Proc.ensures_bind (ensures_flushEvent rq executionId core sink event events) fun _ => ih

/-- What is drained is in flight; charges are put on the queue as they leave the
accumulator. -/
theorem ensures_drainAll :
    Proc.Ensures (QueueAt overhead [] [])
      (drainAll : Run C S (List AuditEvent))
      (fun events st => QueueAt overhead [] events st ∧
        st.recorder.auditEvents = [] ∧ st.recorder.accumulator = {})
      fun _ => Metering overhead := by
  rintro st ⟨hstarted, hcounted⟩
  have hframe := foldl_auditQueueAdmit
    { st.recorder with auditEvents := [], accumulator := {} } st.recorder.accumulator.flush.1
  exact ⟨⟨hstarted, counted_drain hcounted⟩, congrArg Recorder.auditEvents hframe,
    congrArg Recorder.accumulator hframe⟩

theorem ensures_flushEvents (fuel : Nat) :
    Proc.Ensures (QueueAt overhead [] [])
      (flushEvents rq executionId core sink fuel) (fun _ => Drained overhead)
      fun _ => Metering overhead := by
  induction fuel with
  | zero => exact ensures_stops
  | succ fuel ih =>
    refine Proc.ensures_bind ensures_drainAll fun events => ?_
    cases events with
    | nil => exact Proc.ensures_pure fun _ h => h
    | cons event events =>
      rintro st ⟨hst, -⟩
      exact Proc.ensures_bind (ensures_flushEach rq executionId core sink (event :: events))
        (fun _ => ih) st hst

end

/-! ## Slices -/

section

variable (core : Core C)

theorem meters_runDriver (fuel : Nat) :
    Meters overhead flight (runDriver core fuel : Run C S DriveOutcome) := by
  induction fuel with
  | zero => exact Proc.keeps_stop _
  | succ fuel ih =>
    refine Proc.keeps_bind (meters_trace ⟨rfl, rfl⟩) fun _ => ?_
    refine Proc.keeps_bind (meters_onCore _) fun action => ?_
    cases action with
    | note note => exact Proc.keeps_bind (meters_record fun r => pushes_take r note) fun _ => ih
    | progress => exact Proc.keeps_bind (meters_flag fun _ => ⟨rfl, rfl, rfl⟩) fun _ => ih
    | boundary =>
      refine Proc.keeps_bind (Proc.keeps_gets _) fun _ => Proc.keeps_ite ?_ ih
      exact Proc.keeps_bind (meters_flag fun _ => ⟨rfl, rfl, rfl⟩) fun _ => Proc.keeps_pure _
    | yields => exact Proc.keeps_pure _
    | done result => exact Proc.keeps_pure _
    | fails error => exact Proc.keeps_pure _
    | unwinds => exact meters_panics _

theorem meters_yieldSlice (slice : SliceOutcome) (reason : AuditYieldReason) :
    Meters overhead flight (yieldSlice core slice reason : Run C S SliceOutcome) := by
  refine Proc.keeps_bind (meters_record fun r => ⟨_, pushes_flushCharges r⟩) fun _ => ?_
  refine Proc.keeps_bind (Proc.keeps_gets _) fun usage => ?_
  refine Proc.keeps_bind (meters_record fun r => ?_) fun _ => Proc.keeps_ite (Proc.keeps_pure _) ?_
  · split
    next pollIndex r' halloc =>
      exact ⟨_, (pushes_allocPollIndex halloc).trans (pushes_recordYield _ _ _ _)⟩
    next => exact ⟨[], pushes_nothing rfl rfl id⟩
  · exact Proc.keeps_bind (meters_onCore _) fun _ => Proc.keeps_pure _

theorem meters_runSlice (fuel sliceFuel : Nat) :
    Meters overhead flight (runSlice core fuel sliceFuel : Run C S SliceOutcome) := by
  refine Proc.keeps_bind (Proc.keeps_gets _) fun usage => ?_
  refine Proc.keeps_bind (meters_record fun r => pushes_recordResume r usage) fun _ => ?_
  refine Proc.keeps_bind (meters_onCore _) fun _ => ?_
  refine Proc.keeps_bind (meters_flag fun _ => ⟨rfl, rfl, rfl⟩) fun _ => ?_
  refine Proc.keeps_bind (meters_runDriver core fuel) fun outcome => ?_
  cases outcome with
  | yielded =>
    refine Proc.keeps_bind (meters_flag fun _ => ⟨rfl, rfl, rfl⟩) fun queueYield => ?_
    refine Proc.keeps_bind (Proc.keeps_gets _) fun pending => ?_
    dsimp only
    split
    · exact meters_yieldSlice core _ _
    · exact Proc.keeps_pure _
  | done result => exact Proc.keeps_bind (meters_onCore _) fun _ => Proc.keeps_pure _
  | fails error => exact Proc.keeps_bind (meters_onCore _) fun _ => Proc.keeps_pure _

theorem meters_beginExecution :
    Meters overhead flight (beginExecution core : Run C S BeginAnswer) := by
  refine Proc.keeps_bind (meters_trace ⟨rfl, rfl⟩) fun _ => ?_
  refine Proc.keeps_bind (meters_onCore _) fun result => ?_
  obtain ⟨notes, answer⟩ := result
  refine Proc.keeps_bind (meters_record fun r => pushes_takes r notes) fun _ => ?_
  cases answer <;> first | exact Proc.keeps_pure _ | exact meters_panics _

end

/-! ## The driver -/

/-- A property that work on the core leaves alone. -/
def CoreStable (P : RunState C S → Prop) : Prop := ∀ st c, P st → P { st with core := c }

theorem coreStable_metering :
    CoreStable (Metering overhead : RunState C S → Prop) := fun _ _ h => h

theorem coreStable_drained :
    CoreStable (Drained overhead : RunState C S → Prop) := fun _ _ h => h

section

variable (core : Core C) {P : RunState C S → Prop} (hP : CoreStable P)

include hP

theorem coreStable_onCore {α : Type} (f : C → α × C) : Proc.Keeps P (onCore f : Run C S α) :=
  Proc.keeps_update fun st hst => hP st _ hst

theorem coreStable_terminalFrom (error : TsumugiError) :
    Proc.Keeps P (terminalFrom core error : Run C S ExecutionOutcome) := by
  refine Proc.keeps_bind (Proc.keeps_gets _) fun _ => ?_
  refine Proc.keeps_bind ?_ fun _ => Proc.keeps_pure _
  exact Proc.keeps_ite (coreStable_onCore hP _) (Proc.keeps_pure _)

theorem coreStable_terminalOf (result : Except TsumugiError Unit) :
    Proc.Keeps P (terminalOf core result : Run C S ExecutionOutcome) := by
  cases result with
  | ok => exact Proc.keeps_bind (Proc.keeps_gets _) fun _ => Proc.keeps_pure _
  | error error => exact coreStable_terminalFrom core hP error

theorem coreStable_withheldAfter (slice : SliceOutcome) :
    Proc.Keeps P (withheldAfter core slice : Run C S TerminalOutcome) := by
  cases slice with
  | terminal result =>
    exact Proc.keeps_bind (coreStable_terminalOf core hP result) fun _ => Proc.keeps_pure _
  | _ => exact Proc.keeps_bind (coreStable_onCore hP _) fun _ => Proc.keeps_pure _

end

/-- What the driver leaves: a queue that is drained, or one whose flush has failed. -/
def DriveLeft (overhead : Nat) (drive : AuditDrive)
    (st : RunState C S) : Prop :=
  match drive with
  | .terminal _ => Drained overhead st
  | .failed .. => Metering overhead st

section

variable (rq : AuditedRequest) (executionId : Nat) (core : Core C) (sink : AuditSink S)

theorem ensures_flushAttempt (fuel : Nat) :
    Proc.Ensures (QueueAt overhead [] [])
      ((flushEvents rq executionId core sink fuel).attempt Stop.failure)
      (fun flushed st =>
        match flushed with
        | .ok _ => Drained overhead st
        | .error _ => Metering overhead st)
      fun _ => Metering overhead :=
  Proc.ensures_attempt (ensures_flushEvents rq executionId core sink fuel)
    (fun _ _ h => h) (fun _ _ _ _ h => h) fun _ _ _ h => h

/-- Work on the core after a flush. -/
theorem ensures_drained {α : Type} {m : Run C S α}
    (hm : Proc.Keeps (Drained overhead) m) :
    Proc.Ensures (Drained overhead) m (fun _ => Drained overhead)
      fun _ => Metering overhead :=
  (Proc.ensures_of_keeps hm).conseq (fun _ h => h) (fun _ _ h => h) fun _ _ h => ⟨[], h.1⟩

theorem ensures_pollLoop (sliceFuel fuel : Nat) :
    Proc.Ensures (QueueAt overhead [] [])
      (pollLoop rq executionId core sink sliceFuel fuel) (DriveLeft overhead)
      fun _ => Metering overhead := by
  induction fuel with
  | zero => exact ensures_stops
  | succ fuel ih =>
    refine Meters.then (meters_runSlice core fuel sliceFuel) fun slice => ?_
    refine Proc.ensures_bind (ensures_flushAttempt rq executionId core sink fuel) fun flushed => ?_
    rcases flushed with failure | _
    · refine Proc.ensures_bind (Proc.ensures_of_keeps
        (coreStable_withheldAfter core coreStable_metering slice)) fun withheld => ?_
      exact Proc.ensures_bind (Proc.ensures_of_keeps (coreStable_onCore coreStable_metering _))
        fun _ => Proc.ensures_pure fun _ h => h
    · cases slice with
      | terminal result =>
        refine Proc.ensures_bind (ensures_drained
          (coreStable_terminalOf core coreStable_drained result)) fun outcome => ?_
        exact Proc.ensures_bind (ensures_drained (coreStable_onCore coreStable_drained _))
          fun _ => Proc.ensures_pure fun _ h => h
      | _ => exact ih.conseq (fun _ h => h.1) (fun _ _ h => h) fun _ _ h => h

end

/-! ## The run -/

/-- Nothing of the queue is in the log. -/
def Unrecorded (st : RunState C S) : Prop := recordedOf st.log = [] ∧ releasedOf st.log = []

/-- Nothing was ever recorded, or the meter counts what waits. -/
def RunMetered (overhead : Nat) (st : RunState C S) : Prop :=
  recordedOf st.log = [] ∨ Metering overhead st

/-- A meter at zero, and nothing to count. -/
theorem counted_reset {log : List LogEntry} {r : Recorder} (hrecorded : recordedOf log = [])
    (hreleased : releasedOf log = []) (hbuffer : r.auditEvents = []) (hacc : r.accumulator = {})
    (hqueue : ∀ m ∈ r.auditQueue, m.envelopeOverhead = overhead ∧ m.bytes = 0) :
    Counted overhead log [] [] r := by
  refine ⟨by rw [hrecorded, hreleased, hbuffer]; rfl, by rw [hacc]; rfl, fun m hm => ?_⟩
  obtain ⟨hover, hbytes⟩ := hqueue m hm
  rw [hbytes, hbuffer]
  exact ⟨hover, Nat.zero_le _, Nat.zero_le _, fun _ => rfl⟩

theorem unrecorded_silent {st : RunState C S} {entries : List LogEntry} (h : Unrecorded st)
    (hsilent : Silent entries) : Unrecorded { st with log := st.log ++ entries } := by
  refine ⟨?_, ?_⟩
  · rw [recordedOf_append, h.1, hsilent.1]
    rfl
  · rw [releasedOf_append, h.2, releasedOf, hsilent.2]
    rfl

section

variable (rq : AuditedRequest) (executionId : Nat) (core : Core C) (sink : AuditSink S)

/-- `reset_budget` and `set_audit_queue` start the meter at zero. -/
theorem ensures_runAuditedDriver (fuel : Nat) :
    Proc.Ensures (fun st => st.journal.started = true ∧ Unrecorded st)
      (runAuditedDriver rq executionId core sink fuel)
      (DriveLeft (estimateEnvelopeOverheadBytes rq.languageRevision.asStr))
      fun _ => Metering (estimateEnvelopeOverheadBytes rq.languageRevision.asStr) := by
  let Reset (st : RunState C S) : Prop :=
    (st.journal.started = true ∧ Unrecorded st) ∧ st.recorder = {}
  refine Proc.ensures_bind (Q := fun _ st => st.journal.started = true ∧ Unrecorded st)
    (Proc.ensures_update fun _ h => h) fun cancelled => ?_
  refine Proc.ensures_bind (Q := fun _ => Reset) (Proc.ensures_update fun st h => ?_) fun _ => ?_
  · simpa [Reset, Unrecorded] using h
  refine Proc.ensures_ite (fun _ => ?_) fun _ => ?_
  · refine Proc.ensures_bind (Q := fun _ => Reset) (Proc.ensures_gets fun _ h => h) fun _ =>
      Proc.ensures_pure fun st ⟨⟨hstarted, hlog⟩, hrecorder⟩ => ?_
    refine ⟨⟨hstarted, counted_reset hlog.1 hlog.2 ?_ ?_ ?_⟩, ?_⟩ <;> rw [hrecorder]
    · exact nofun
    · exact ⟨rfl, rfl⟩
  refine Proc.ensures_bind
    (Q := fun _ => QueueAt (estimateEnvelopeOverheadBytes rq.languageRevision.asStr) [] [])
    (Proc.ensures_update fun st ⟨⟨hstarted, hlog⟩, hrecorder⟩ => ⟨hstarted, ?_⟩) fun _ => ?_
  · simp only [Recorder.setAuditQueue, List.drop_length, List.map_nil, List.append_nil]
    refine counted_reset hlog.1 hlog.2 (by rw [hrecorder]) (by rw [hrecorder]) ?_
    rintro m ⟨⟩
    exact ⟨rfl, rfl⟩
  refine Meters.then (meters_beginExecution core) fun answer => ?_
  cases answer with
  | fails error =>
    refine Proc.ensures_bind (Q := fun _ => QueueAt _ [] [])
      ((Proc.ensures_of_keeps (coreStable_terminalFrom core (fun _ _ h => h) error)).conseq
        (fun _ h => h) (fun _ _ h => h) fun _ _ h => ⟨[], h⟩) fun outcome => ?_
    refine Proc.ensures_bind (ensures_flushAttempt rq executionId core sink fuel) fun flushed => ?_
    rcases flushed with failure | _
    · exact Proc.ensures_pure fun _ h => h
    · exact Proc.ensures_bind (ensures_drained (coreStable_onCore coreStable_drained _))
        fun _ => Proc.ensures_pure fun _ h => h
  | ok => exact ensures_pollLoop rq executionId core sink _ _
  | unwinds => exact ensures_pollLoop rq executionId core sink _ _

theorem driveLeft_metering {drive : AuditDrive} {st : RunState C S} (h : DriveLeft overhead drive st) :
    Metering overhead st := by
  cases drive with
  | terminal => exact ⟨[], h.1⟩
  | failed => exact h

theorem ensures_guardedDriver (fuel : Nat) :
    Proc.Ensures (fun st => st.journal.started = true ∧ Unrecorded st)
      (guardedDriver rq executionId core sink fuel)
      (fun _ => Metering (estimateEnvelopeOverheadBytes rq.languageRevision.asStr))
      fun _ => Metering (estimateEnvelopeOverheadBytes rq.languageRevision.asStr) := by
  refine Proc.ensures_bind
    (Q := fun _ => Metering (estimateEnvelopeOverheadBytes rq.languageRevision.asStr))
    (Proc.ensures_attempt (ensures_runAuditedDriver rq executionId core sink fuel)
      (fun _ _ h => driveLeft_metering h) (fun _ _ _ _ h => h) fun _ _ _ h => h) fun drive => ?_
  rcases drive with _ | drive
  · exact Proc.ensures_bind (Proc.ensures_gets fun _ h => h) fun _ => Proc.ensures_pure fun _ h => h
  · exact Proc.ensures_pure fun _ h => h

/-- Without the ack of Started nothing is recorded. -/
theorem keeps_submit_unrecorded (env : AuditEnvelope) {P : RunState C S → Prop}
    (hP : ∀ st s entries, P st → Silent entries → P { st with sink := s, log := st.log ++ entries }) :
    Proc.Keeps P (submit sink env : Run C S AuditSubmit) := by
  have htrace : ∀ {entries : List LogEntry}, Silent entries →
      Proc.Keeps P (trace entries : Run C S Unit) := fun h =>
    Proc.keeps_modify fun st hst => hP st st.sink _ hst h
  refine Proc.keeps_bind (htrace ⟨rfl, rfl⟩) fun _ => ?_
  refine Proc.keeps_bind (Proc.keeps_update fun st hst => ?_) fun answer => ?_
  · have := hP st (sink.submit st.sink [env]).2 [] hst ⟨rfl, rfl⟩
    simpa only [List.append_nil] using this
  · cases answer with
    | unwinds => exact Proc.keeps_bind (htrace ⟨rfl, rfl⟩) fun _ => Proc.keeps_stop _
    | _ => exact Proc.keeps_pure _

theorem keeps_append_unrecorded (env : AuditEnvelope)
    (f : AuditJournal → AuditEnvelope → Except AuditFailure (Nat × AuditJournal)) :
    Proc.Keeps Unrecorded (append env f : Run C S Unit) := by
  intro st hst
  rcases happ : f st.journal env with failure | ⟨seq, j⟩
  · rw [append_run_error _ happ]
    exact hst
  · rw [append_run_ok _ happ]
    exact unrecorded_silent hst ⟨rfl, rfl⟩

theorem keeps_failStarted :
    Proc.Keeps Unrecorded (failStarted rq executionId sink : Run C S AuditedOutcome) := by
  refine Proc.keeps_bind (Proc.keeps_gets _) fun j => ?_
  refine Proc.keeps_bind (Proc.keeps_attempt (keeps_append_unrecorded _ _)) fun appended => ?_
  rcases appended with failure | _
  · exact Proc.keeps_pure _
  · refine Proc.keeps_bind (keeps_submit_unrecorded sink _ ?_) fun _ => Proc.keeps_pure _
    exact fun st s entries h hsilent => unrecorded_silent h hsilent

/-- Up to the outcome: nothing is recorded before Started is acknowledged, and from then on
the meter counts. -/
theorem ensures_runStarted (fuel : Nat) :
    Proc.Ensures Unrecorded (runStarted rq executionId core sink fuel)
      (fun result st =>
        match result with
        | .ok _ => Metering (estimateEnvelopeOverheadBytes rq.languageRevision.asStr) st
        | .error _ => RunMetered (estimateEnvelopeOverheadBytes rq.languageRevision.asStr) st)
      fun _ => RunMetered (estimateEnvelopeOverheadBytes rq.languageRevision.asStr) := by
  refine Proc.ensures_bind (Q := fun appended st => Unrecorded st ∧
    (appended = .ok () → st.journal.started = true)) ?_ fun appended => ?_
  · intro st hst
    rcases happ : st.journal.appendNormal (envelope rq executionId 0 (startedEvent rq)) with
      failure | ⟨seq, j⟩
    · rw [Proc.attempt_run_some (f := Stop.failure) (append_run_error _ happ) rfl]
      exact ⟨hst, nofun⟩
    · rw [Proc.attempt_run_ok (append_run_ok _ happ)]
      obtain ⟨-, -, -, -, -, -, rfl⟩ := AuditJournal.appendNormal_spec happ
      exact ⟨unrecorded_silent hst ⟨rfl, rfl⟩, fun _ => Bool.or_true _⟩
  rcases appended with failure | _
  · exact Proc.ensures_pure fun _ h => .inl h.1.1
  have hfails : Proc.Ensures (fun st => st.journal.started = true ∧ Unrecorded st)
      (do
        let audited ← failStarted rq executionId sink
        pure (.error audited) : Run C S (Except AuditedOutcome ExecutionOutcome))
      (fun result st =>
        match result with
        | .ok _ => Metering (estimateEnvelopeOverheadBytes rq.languageRevision.asStr) st
        | .error _ => RunMetered (estimateEnvelopeOverheadBytes rq.languageRevision.asStr) st)
      fun _ => RunMetered (estimateEnvelopeOverheadBytes rq.languageRevision.asStr) :=
    Proc.ensures_bind ((Proc.ensures_of_keeps (keeps_failStarted rq executionId sink)).conseq
      (fun _ h => h.2) (fun _ _ h => h) fun _ _ h => .inl h.1) fun _ =>
      Proc.ensures_pure fun _ h => .inl h.1
  refine Proc.ensures_bind
    (Q := fun _ st => st.journal.started = true ∧ Unrecorded st) ?_ fun answer => ?_
  · refine (Proc.ensures_of_keeps (keeps_submit_unrecorded sink _
      (P := fun st => st.journal.started = true ∧ Unrecorded st) ?_)).conseq
      (fun _ h => ⟨h.2 rfl, h.1⟩) (fun _ _ h => h) fun _ _ h => .inl h.2.1
    exact fun st s entries h hsilent => ⟨h.1, unrecorded_silent h.2 hsilent⟩
  cases answer with
  | ack ack =>
    refine Proc.ensures_ite (fun _ => ?_) fun _ => hfails
    refine Proc.ensures_bind
      (Q := fun _ st => st.journal.started = true ∧ Unrecorded st) ?_ fun _ => ?_
    · exact Proc.ensures_modify fun st h => ⟨h.1, by
        simpa [Unrecorded, recordedOf, releasedOf, ackedOf, envelope, startedEvent,
          AuditEvent.isQueued, AuditEvent.isStarted] using h.2⟩
    · refine Proc.ensures_bind ((ensures_guardedDriver rq executionId core sink fuel).conseq
        (fun _ h => h) (fun _ _ h => h) fun _ _ h => .inr h) fun drive => ?_
      cases drive with
      | terminal outcome => exact Proc.ensures_pure fun _ h => h
      | failed withheld failure => exact Proc.ensures_pure fun _ h => .inr h
  | _ => exact hfails

/-- The Terminal is delivered past the queue. -/
theorem ensures_finish (outcome : ExecutionOutcome) :
    Proc.Ensures (Metering overhead) (finish rq executionId core sink outcome)
      (fun _ => Metering overhead) fun _ => Metering overhead := by
  refine Proc.ensures_bind (Q := fun _ => Metering overhead) ?_ fun exceeded => ?_
  · cases outcome with
    | budgetExceeded =>
      exact Proc.ensures_of_keeps (coreStable_onCore coreStable_metering _)
    | _ => exact Proc.ensures_pure fun _ h => h
  refine Proc.ensures_bind (Q := fun _ => Metering overhead)
    (Proc.ensures_gets fun _ h => h) fun j => ?_
  refine Proc.ensures_bind (Q := fun _ => Metering overhead) ?_ fun appended => ?_
  · refine Proc.ensures_attempt (E := fun _ => Metering overhead)
      (Q := fun _ => Metering overhead) ?_ (fun _ _ h => h) (fun _ _ _ _ h => h) fun _ _ _ h => h
    rintro st ⟨flight, hstarted, hcounted⟩
    rcases happ : st.journal.appendTerminal
      (envelope rq executionId j.nextSequence (terminalEvent rq outcome exceeded)) with
      failure | ⟨seq, j'⟩
    · rw [append_run_error _ happ]
      exact ⟨flight, hstarted, hcounted⟩
    · rw [append_run_ok _ happ]
      obtain ⟨-, -, -, -, rfl⟩ := AuditJournal.appendTerminal_spec happ
      exact ⟨flight, hstarted, counted_silent hcounted ⟨rfl, rfl⟩⟩
  rcases appended with failure | _
  · exact Proc.ensures_pure fun _ h => h
  refine Proc.ensures_bind (Q := fun _ => Metering overhead) ?_ fun delivered => ?_
  · refine Proc.ensures_attempt (E := fun _ => Metering overhead)
      (Proc.ensures_exists fun flight => ?_) (fun _ _ h => h) (fun _ _ _ _ h => h) fun _ _ _ h => h
    exact ensures_deliver (B := Metering overhead) core sink executionId fun st h =>
      ⟨flight, queueAt_acked_terminal rfl h⟩
  · cases delivered <;> exact Proc.ensures_pure fun _ h => h

end

section

variable (rq : AuditedRequest) (core : Core C) (sink : AuditSink S)

theorem ensures_runToOutcome (fuel : Nat) :
    Proc.Ensures Unrecorded (runToOutcome rq core sink fuel)
      (fun result st =>
        match result with
        | .ok _ => Metering (estimateEnvelopeOverheadBytes rq.languageRevision.asStr) st
        | .error _ => RunMetered (estimateEnvelopeOverheadBytes rq.languageRevision.asStr) st)
      fun _ => RunMetered (estimateEnvelopeOverheadBytes rq.languageRevision.asStr) := by
  have htrace : ∀ site, Proc.Ensures Unrecorded (trace [.panicked site] : Run C S Unit)
      (fun _ => Unrecorded)
      fun _ => RunMetered (estimateEnvelopeOverheadBytes rq.languageRevision.asStr) := fun _ =>
    Proc.ensures_modify fun _ h => unrecorded_silent h ⟨rfl, rfl⟩
  refine Proc.ensures_bind (Q := fun _ => Unrecorded) (Proc.ensures_gets fun _ h => h)
    fun answer => ?_
  cases answer with
  | unwinds =>
    refine Proc.ensures_bind (htrace _) fun _ => ?_
    exact Proc.ensures_bind (Q := fun _ => Unrecorded) (Proc.ensures_gets fun _ h => h) fun _ =>
      Proc.ensures_pure fun _ h => .inl h.1
  | refused outcome => exact Proc.ensures_pure fun _ h => .inl h.1
  | prepared =>
    dsimp only
    split
    · exact Proc.ensures_pure fun _ h => .inl h.1
    refine Proc.ensures_ite (fun _ => ?_) fun _ => ?_
    · exact Proc.ensures_bind (htrace _) fun _ => Proc.ensures_stop fun _ h => .inl h.1
    · refine Proc.ensures_bind (ensures_runStarted rq _ core sink fuel) fun result => ?_
      cases result <;> exact Proc.ensures_pure fun _ h => h

theorem ensures_runAuditedInner (fuel : Nat) :
    Proc.Ensures Unrecorded (runAuditedInner rq core sink fuel)
      (fun _ => RunMetered (estimateEnvelopeOverheadBytes rq.languageRevision.asStr))
      fun _ => RunMetered (estimateEnvelopeOverheadBytes rq.languageRevision.asStr) := by
  refine Proc.ensures_bind (ensures_runToOutcome rq core sink fuel) fun result => ?_
  rcases result with audited | ⟨executionId, outcome⟩
  · exact Proc.ensures_pure fun _ h => h
  · exact (ensures_finish rq executionId core sink outcome).conseq (fun _ h => h)
      (fun _ _ h => .inr h) fun _ _ h => .inr h

/-- However a run ends, the meter counts what waits. -/
theorem runMetered_runAudited (reentered : Bool) (fuel : Nat) {st : RunState C S}
    (hst : Unrecorded st) :
    RunMetered (estimateEnvelopeOverheadBytes rq.languageRevision.asStr)
      ((runAudited rq core sink reentered fuel).run st).2 := by
  refine Proc.Ensures.ends (P := Unrecorded)
    (Q := fun _ => RunMetered (estimateEnvelopeOverheadBytes rq.languageRevision.asStr))
    (E := fun _ => RunMetered (estimateEnvelopeOverheadBytes rq.languageRevision.asStr))
    ?_ (fun _ _ h => h) (fun _ _ h => h) hst
  refine Proc.ensures_bind (Q := fun _ => Unrecorded) (Proc.ensures_gets fun _ h => h) fun st' => ?_
  refine Proc.ensures_ite (fun _ => Proc.ensures_pure fun _ h => .inl h.1) fun _ => ?_
  refine Proc.ensures_bind (Q := fun _ => Unrecorded) (Proc.ensures_modify fun _ h => h) fun _ => ?_
  refine Proc.ensures_bind (ensures_runAuditedInner rq core sink fuel) fun audited => ?_
  exact Proc.ensures_bind
    (Q := fun _ => RunMetered (estimateEnvelopeOverheadBytes rq.languageRevision.asStr))
    (Proc.ensures_modify fun _ h => h) fun _ => Proc.ensures_pure fun _ h => h

end

end QueueMeterLemmas

/-! ## The tests of the limit -/

/-- From the state `c` the evaluator takes these actions and is in the state `c'`. -/
inductive Acts (core : Core C) : C → List Action → C → Prop
  | none (c : C) : Acts core c [] c
  | next {c c' : C} {actions : List Action} :
      Acts core (core.next c).2 actions c' → Acts core c ((core.next c).1 :: actions) c'

/-- What an action does to the recorder while the slice goes on. -/
def Recorder.act (r : Recorder) : Action → Recorder
  | .note note => r.take note
  | .progress => { r with auditQueueProgress := true }
  | _ => r

/-- What the recorder is after some actions. -/
def Recorder.acts (r : Recorder) (actions : List Action) : Recorder := actions.foldl Recorder.act r

/-- Every test of the limit that the actions went past allowed it. -/
def Passed (r : Recorder) (actions : List Action) : Prop :=
  ∀ earlier later, actions = earlier ++ .boundary :: later → later ≠ [] →
    (r.acts earlier).auditQueueExceeded = false

namespace QueueMeterLemmas

open Run DeliveryLemmas

theorem acts_cons (r : Recorder) (action : Action) (actions : List Action) :
    r.acts (action :: actions) = (r.act action).acts actions := rfl

theorem acts_append (r : Recorder) (actions actions' : List Action) :
    r.acts (actions ++ actions') = (r.acts actions).acts actions' := List.foldl_append

theorem passed_nil (r : Recorder) : Passed r [] := fun earlier later h => by
  cases earlier <;> cases h

theorem passed_cons {r : Recorder} {action : Action} {actions : List Action}
    (h : Passed (r.act action) actions)
    (htest : action = .boundary → actions ≠ [] → r.auditQueueExceeded = false) :
    Passed r (action :: actions) := by
  intro earlier later heq hlater
  cases earlier with
  | nil =>
    obtain ⟨haction, rfl⟩ := List.cons.inj heq
    exact htest haction hlater
  | cons first earlier =>
    obtain ⟨rfl, hrest⟩ := List.cons.inj heq
    exact h earlier later hrest hlater

/-- The flag says whether a statement has run. -/
theorem acts_progress (r : Recorder) (actions : List Action) :
    (r.acts actions).auditQueueProgress = true →
      r.auditQueueProgress = true ∨ .progress ∈ actions := by
  induction actions generalizing r with
  | nil => exact .inl
  | cons action actions ih =>
    intro h
    rcases ih (r.act action) h with h | h
    · cases action with
      | progress => exact .inr List.mem_cons_self
      | note note =>
        refine .inl ?_
        cases note with
        | hostCall events =>
          have hframe := congrArg Recorder.auditQueueProgress (pushAuditEvents_frame r events)
          exact hframe.symm.trans h
        | _ => exact h
      | _ => exact .inl h
    · exact .inr (List.mem_cons_of_mem _ h)

/-- What a slice has done when it ends or is cut: the tests that it went past allowed it,
and it yields for the queue after a test that did not. -/
def Tested (core : Core C) (st : RunState C S) (result : Except Stop DriveOutcome × RunState C S) :
    Prop :=
  ∃ actions, Acts core st.core actions result.2.core ∧ Passed st.recorder actions ∧
    (result.2.recorder = st.recorder.acts actions ∨
      (st.recorder.acts actions).auditQueueExceeded = true ∧ result.1 = .ok .yielded ∧
        result.2.recorder = { st.recorder.acts actions with yieldForAuditQueue := true })

/-- One more action before what follows. -/
theorem tested_cons {core : Core C} {st : RunState C S} (log : List LogEntry)
    {result : Except Stop DriveOutcome × RunState C S}
    (h : Tested core { st with
      core := (core.next st.core).2
      recorder := st.recorder.act (core.next st.core).1
      log := log } result)
    (htest : (core.next st.core).1 = .boundary → st.recorder.auditQueueExceeded = false) :
    Tested core st result := by
  obtain ⟨actions, hacts, hpassed, hend⟩ := h
  exact ⟨_ :: actions, .next hacts, passed_cons hpassed fun h _ => htest h, hend⟩

/-- The last action ends the slice, or stops the run. -/
theorem tested_last {core : Core C} {st : RunState C S}
    {result : Except Stop DriveOutcome × RunState C S}
    (hcore : result.2.core = (core.next st.core).2)
    (hend : result.2.recorder = st.recorder.act (core.next st.core).1 ∨
      (st.recorder.act (core.next st.core).1).auditQueueExceeded = true ∧
        result.1 = .ok .yielded ∧
        result.2.recorder =
          { st.recorder.act (core.next st.core).1 with yieldForAuditQueue := true }) :
    Tested core st result :=
  ⟨[_], hcore ▸ .next (.none _), passed_cons (passed_nil _) fun _ h => absurd rfl h, hend⟩

theorem runDriver_tested (core : Core C) (fuel : Nat) (st : RunState C S) :
    Tested core st ((runDriver core fuel).run st) := by
  induction fuel generalizing st with
  | zero => exact ⟨[], .none _, passed_nil _, .inl rfl⟩
  | succ fuel ih =>
    rw [runDriver, Proc.bind_run_ok rfl, Proc.bind_run_ok rfl]
    -- the action decides, and its effect on the recorder is that of `act`
    have hnext : ∀ {action : Action}, (core.next st.core).1 = action →
        ∀ log, Tested core st ((runDriver core fuel).run { st with
          core := (core.next st.core).2, recorder := st.recorder.act action, log := log }) ∨
          action = .boundary ∧ st.recorder.auditQueueExceeded = true := by
      intro action haction log
      by_cases htest : action = .boundary ∧ st.recorder.auditQueueExceeded = true
      · exact .inr htest
      · refine .inl (tested_cons log (haction ▸ ih _) fun h => ?_)
        exact Bool.eq_false_iff.mpr fun h' => htest ⟨haction ▸ h, h'⟩
    dsimp only
    cases haction : (core.next st.core).1 with
    | note note => exact (hnext haction _).resolve_right fun h => by cases h.1
    | progress => exact (hnext haction _).resolve_right fun h => by cases h.1
    | boundary =>
      rw [Proc.bind_run_ok rfl]
      by_cases hexceeded : st.recorder.auditQueueExceeded = true
      · rw [if_pos hexceeded]
        exact tested_last rfl (.inr ⟨by rw [haction]; exact hexceeded, rfl, by rw [haction]; rfl⟩)
      · rw [if_neg hexceeded]
        exact (hnext haction _).resolve_right fun h => hexceeded h.2
    | yields => exact tested_last rfl (.inl (by rw [haction]; rfl))
    | done result => exact tested_last rfl (.inl (by rw [haction]; rfl))
    | fails error => exact tested_last rfl (.inl (by rw [haction]; rfl))
    | unwinds => exact tested_last rfl (.inl (by rw [haction]; rfl))

/-- What waits is at most what was ever recorded. -/
theorem fitsMemory_of_recorded {overhead : Nat} {log : List LogEntry}
    (h : queuedSum overhead (recordedOf log) ≤ maxU64) : FitsMemory overhead log := by
  rintro earlier ⟨later, rfl⟩
  rw [recordedOf_append, queuedSum_append] at h
  have hsplit := congrArg (queuedSum overhead)
    (List.take_append_drop (releasedOf earlier).length (recordedOf earlier))
  rw [queuedSum_append] at hsplit
  rw [waitingOf]
  omega

end QueueMeterLemmas

open QueueMeterLemmas

/-- What the meter of an audited run says. However the run ends, by a failure, a panic or a
cut, acks come in the order of the records and the meter is the size of what waits, with the
finalized charges. A flush that returns leaves nothing waiting and the meter at zero. The
limit is passed only below it, or in a slice in which nothing has run; a slice yields for the
queue only after a statement or an iteration has. -/
theorem queue_meter_exact (rq : AuditedRequest) (core : Core C) (sink : AuditSink S)
    (fuel : Nat) :
    (∀ reentered c s r poisoned running st,
      ((runAudited rq core sink reentered fuel).run (.initial rq c s r poisoned running)).2 = st →
      recordedOf st.log = [] ∨
        releasedOf st.log <+: recordedOf st.log ∧
          ∀ bytes, st.recorder.auditQueueBytes = some bytes →
            FitsMemory (estimateEnvelopeOverheadBytes rq.languageRevision.asStr) st.log →
            bytes = min (queuedSum (estimateEnvelopeOverheadBytes rq.languageRevision.asStr)
              (waitingOf st.log ++ st.recorder.accumulator.finalized)) maxU64) ∧
    (∀ overhead executionId (st t : RunState C S), QueueAt overhead [] [] st →
      (flushEvents rq executionId core sink fuel).run st = (.ok (), t) →
      waitingOf t.log = [] ∧ ∀ bytes, t.recorder.auditQueueBytes = some bytes → bytes = 0) ∧
    ∀ st t : RunState C S, ∀ result, (runDriver core fuel).run st = (result, t) →
      ∃ actions, Acts core st.core actions t.core ∧
        (∀ earlier later, actions = earlier ++ .boundary :: later → later ≠ [] →
          (st.recorder.acts earlier).auditQueueExceeded = false) ∧
        (t.recorder = st.recorder.acts actions ∨
          (st.recorder.auditQueueProgress = true ∨ .progress ∈ actions) ∧
            result = .ok .yielded ∧
            t.recorder = { st.recorder.acts actions with yieldForAuditQueue := true }) := by
  refine ⟨?_, ?_, ?_⟩
  · rintro reentered c s r poisoned running st rfl
    refine (runMetered_runAudited rq core sink reentered fuel ⟨rfl, rfl⟩).imp id ?_
    rintro ⟨flight, -, hcounted⟩
    exact ⟨hcounted.order ▸ List.prefix_append _ _, fun bytes hbytes hfits =>
      counted_auditQueueBytes hcounted hfits hbytes⟩
  · intro overhead executionId st t hst hrun
    have h := ensures_flushEvents rq executionId core sink fuel st hst
    rw [hrun] at h
    obtain ⟨⟨-, hcounted⟩, hbuffer, hacc⟩ := h
    refine ⟨by rw [counted_waiting hcounted, hbuffer]; rfl, fun bytes hbytes => ?_⟩
    obtain ⟨m, hm, rfl⟩ := Option.map_eq_some_iff.mp hbytes
    obtain ⟨-, -, hle, -⟩ := hcounted.bytes m hm
    rw [hbuffer] at hle
    rw [hacc, BudgetChargeAccumulator.finalizedQueueBytes_empty, Nat.le_zero.mp hle]
    rfl
  · intro st t result hrun
    have h := runDriver_tested core fuel st
    rw [hrun] at h
    obtain ⟨actions, hacts, hpassed, hend⟩ := h
    refine ⟨actions, hacts, hpassed, hend.imp id ?_⟩
    rintro ⟨hexceeded, hresult, hrecorder⟩
    refine ⟨acts_progress _ _ ?_, hresult, hrecorder⟩
    unfold Recorder.auditQueueExceeded at hexceeded
    split at hexceeded
    · exact (Bool.and_eq_true_iff.mp hexceeded).1
    · cases hexceeded

/-! ## Past the limit -/

theorem two_fits : 2 ≤ maxU64 := by decide

theorem mebibyte_fits : 1024 * KIB ≤ maxU64 := by decide

/-- Room for Started and Terminal only, and a queue limit of one byte. -/
def budgetOfTwo : AuditBudget :=
  { auditBudgetOf 2 (1024 * KIB) two_fits mebibyte_fits with maxPendingBytes := 1 }

/-- Three statements with one charge each, and the end of the slice fuel. -/
def threeCharges : List Action := [
  .boundary, .progress, .note (.charge .fuel .statement 1 1),
  .boundary, .progress, .note (.charge .stringBytes .allocation 1 1),
  .boundary, .progress, .note (.charge .heapBytes .allocation 1 1), .yields]

/-- The most that a note can put on the queue. -/
def Note.queued (overhead : Nat) : Note → Nat
  | .hostCall events => queuedSum overhead events
  | _ => overhead + 128

/-- The notes of each statement: those from one test of the limit to the next. -/
def statementsOf (actions : List Action) : List (List Note) :=
  (actions.splitOnP fun action => match action with
    | .boundary => true
    | _ => false).map fun statement => statement.filterMap fun action =>
      match action with
      | .note note => some note
      | _ => none

/-- The most that one statement can put on the queue. -/
def largestStatement (overhead : Nat) (actions : List Action) : Nat :=
  ((statementsOf actions).map fun notes => (notes.map (Note.queued overhead)).sum).foldr max 0

/-- The run of the three statements. -/
def threeChargesRun : RunState (List Action) Unit :=
  ((runAudited (requestOf budgetOfTwo) scriptCore syncSink false 20).run
    (.initial (requestOf budgetOfTwo) threeCharges () {} false false)).2

theorem threeChargesRun_bytes : threeChargesRun.recorder.auditQueueBytes = some 824 := by cbv

theorem threeCharges_counted :
    824 = min (queuedSum 78
      (waitingOf threeChargesRun.log ++ threeChargesRun.recorder.accumulator.finalized)) maxU64 := by
  have hrecorded : (recordedOf threeChargesRun.log).length = 4 := by cbv
  have hsum : queuedSum 78 (recordedOf threeChargesRun.log) = 824 := by cbv
  have h := (queue_meter_exact (requestOf budgetOfTwo) scriptCore syncSink 20).1 false threeCharges
    () {} false false threeChargesRun rfl
  refine (h.resolve_left fun hnil => ?_).2 824 threeChargesRun_bytes
    (fitsMemory_of_recorded (hsum.trans_le (by decide)))
  rw [hnil] at hrecorded
  cases hrecorded

/-- The running groups become events when the slice yields: four events wait past a limit
that no test has seen reached, and one statement makes at most one of them. -/
theorem queue_grows_past_statement :
    ¬ ∀ (rq : AuditedRequest) (script : List Action) (fuel bytes : Nat),
      ((runAudited rq scriptCore syncSink false fuel).run
        (.initial rq script () {} false false)).2.recorder.auditQueueBytes = some bytes →
      bytes ≤ rq.auditBudget.maxPendingBytes +
        largestStatement (estimateEnvelopeOverheadBytes rq.languageRevision.asStr) script := by
  intro h
  have hbound := h (requestOf budgetOfTwo) threeCharges 20 824 threeChargesRun_bytes
  revert hbound
  decide

end Tsumugi.Audit
