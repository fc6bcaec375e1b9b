import Tsumugi.Audit.Facade

/-!
# Delivery to a patient sink (`AuditDelivery::deliver`)

A patient sink answers each envelope Pending fewer times than the resend limit and
then acknowledges it, by an ack of a resend or through the ticket, and lets the
wait begin only a bounded number of times in all.

Results:
1. `deliver_run`: a patient sink's answers make `deliver` return, with the envelope
   acknowledged once and at most one pair of Yielded and Resumed recorded.
2. `flushEvent_run`: the same for one event of a flush that the journal accepts.
-/

namespace Tsumugi.Audit

open Budget Word

variable {C S : Type}

/-! ## What the log shows -/

/-- The envelopes that the sink has acknowledged, in order. -/
def ackedOf (log : List LogEntry) : List AuditEnvelope :=
  log.filterMap fun entry =>
    match entry with
    | .acked env => some env
    | _ => none

/-- The events that were recorded, in order. -/
def recordedOf (log : List LogEntry) : List AuditEvent :=
  log.filterMap fun entry =>
    match entry with
    | .recorded event => some event
    | _ => none

namespace DeliveryLemmas

@[simp] theorem ackedOf_append (log log' : List LogEntry) :
    ackedOf (log ++ log') = ackedOf log ++ ackedOf log' := List.filterMap_append

@[simp] theorem recordedOf_append (log log' : List LogEntry) :
    recordedOf (log ++ log') = recordedOf log ++ recordedOf log' := List.filterMap_append

@[simp] theorem ackedOf_recorded (events : List AuditEvent) :
    ackedOf (events.map .recorded) = [] := by
  simp [ackedOf, List.filterMap_map]

@[simp] theorem recordedOf_recorded (events : List AuditEvent) :
    recordedOf (events.map .recorded) = events := by
  simp [recordedOf, List.filterMap_map]

end DeliveryLemmas

/-! ## Patience -/

/-- The ack that belongs to an envelope. -/
def ackFor (env : AuditEnvelope) : AuditAck := ⟨env.executionId, env.sequence⟩

/-- From the sink state `s` the wait for `env` on a ticket ends with an ack after `n`
more answers Pending, in the state `t`. -/
inductive Awaits (sink : AuditSink S) (env : AuditEnvelope) : Nat → S → Nat → S → Prop
  | taken {s t : S} {ticket : Nat} :
      sink.tryTake s ticket = (some (.ok (ackFor env)), t) → Awaits sink env 0 s ticket t
  | acked {s s₁ t : S} {ticket : Nat} :
      sink.tryTake s ticket = (none, s₁) → sink.submit s₁ [env] = (.ack (ackFor env), t) →
      Awaits sink env 0 s ticket t
  | again {s s₁ s₂ t : S} {ticket next n : Nat} :
      sink.tryTake s ticket = (none, s₁) → sink.submit s₁ [env] = (.pending next, s₂) →
      Awaits sink env n (sink.registerWaker s₂ next) next t → Awaits sink env (n + 1) s ticket t

/-- The sink answers `env` Pending `n` times and then acknowledges it. -/
inductive Settles (sink : AuditSink S) (env : AuditEnvelope) : Nat → S → S → Prop
  | atOnce {s t : S} : sink.submit s [env] = (.ack (ackFor env), t) → Settles sink env 0 s t
  | pending {s s₁ t : S} {ticket n : Nat} :
      sink.submit s [env] = (.pending ticket, s₁) →
      Awaits sink env n (sink.registerWaker s₁ ticket) ticket t → Settles sink env (n + 1) s t

/-- Each envelope settles within the resend limit; `credit` bounds the waits that are
still to come. -/
def Patient (sink : AuditSink S) (credit : S → Nat) : Prop :=
  ∀ s env, ∃ n t, n ≤ auditBackpressureMaxResends ∧ Settles sink env n s t ∧
    credit t + min n 1 ≤ credit s

/-- Neither the token nor the clock stops the run. -/
def Core.Uninterrupted (core : Core C) : Prop :=
  ∀ c, core.checkpointCancel c = (true, c) ∧ core.checkpointDeadline c = (some true, c)

/-! ## The recorder -/

/-- What one wait does to the recorder. -/
def Recorder.backpressured (r : Recorder) (usage : BudgetUsage) : Recorder :=
  (r.recordBackpressureYield usage).2.recordBackpressureResume usage

namespace DeliveryLemmas

open Recorder

@[simp] theorem pushAuditEvents_nil (r : Recorder) : r.pushAuditEvents [] = r := rfl

@[simp] theorem pushAuditEvents_auditEvents (r : Recorder) (events : List AuditEvent) :
    (r.pushAuditEvents events).auditEvents = r.auditEvents ++ events := by
  induction events generalizing r with
  | nil => simp
  | cons event events ih =>
    rw [pushAuditEvents, List.foldl_cons]
    exact (ih _).trans (by simp [pushAuditEvent, auditQueueAdmit])

/-- A push leaves everything but the buffer and the queue as it is. -/
theorem pushAuditEvents_frame (r : Recorder) (events : List AuditEvent) :
    r.pushAuditEvents events =
      { r with
        auditEvents := r.auditEvents ++ events
        auditQueue := (r.pushAuditEvents events).auditQueue } := by
  induction events generalizing r with
  | nil => simp
  | cons event events ih =>
    have h := ih (r.pushAuditEvent event)
    rw [pushAuditEvents, List.foldl_cons, ← pushAuditEvents, h]
    simp [pushAuditEvent, auditQueueAdmit]

@[simp] theorem pushAuditEvents_pollIndex (r : Recorder) (events : List AuditEvent) :
    (r.pushAuditEvents events).pollIndex = r.pollIndex := by
  rw [pushAuditEvents_frame]

theorem flushCharges_pollIndex (r : Recorder) :
    r.flushChargesIntoAuditEvents.pollIndex = r.pollIndex := by
  simp [flushChargesIntoAuditEvents, drainBudgetCharges]

theorem allocPollIndex_eq_some {r : Recorder} (h : r.pollIndex + 1 ≤ maxU64) :
    r.allocPollIndex = some (r.pollIndex, { r with pollIndex := r.pollIndex + 1 }) := by
  simp [allocPollIndex, checkedAdd, h]

/-- While a poll index is left, the yield is recorded. -/
theorem recordBackpressureYield_fst {r : Recorder} (usage : BudgetUsage)
    (h : r.pollIndex + 1 ≤ maxU64) : (r.recordBackpressureYield usage).1 = true := by
  have hpoll : ({ r with
      savedYieldBeforeBackpressure := r.lastYieldReason.map fun reason =>
        (reason, r.lastYieldPollIndex)
      lastYieldReason := none }).flushChargesIntoAuditEvents.pollIndex = r.pollIndex :=
    flushCharges_pollIndex _
  simp only [recordBackpressureYield]
  rw [allocPollIndex_eq_some (by rw [hpoll]; exact h)]

/-- With no charge waiting, a wait records the pair and puts the outer yield back. -/
theorem backpressured_eq {r : Recorder} (usage : BudgetUsage) (hcharges : r.accumulator = {})
    (h : r.pollIndex + 1 ≤ maxU64) :
    ∃ index, r.backpressured usage =
      { r with
        auditEvents := r.auditEvents ++ [.yielded .auditBackpressure r.pollIndex usage,
          .resumed .auditBackpressure r.pollIndex usage]
        auditQueue := ((r.auditQueueAdmit (.yielded .auditBackpressure r.pollIndex usage)
          ).auditQueueAdmit (.resumed .auditBackpressure r.pollIndex usage)).auditQueue
        pollIndex := r.pollIndex + 1
        lastYieldPollIndex := index
        savedYieldBeforeBackpressure := none } := by
  obtain ⟨acc, events, queue, progress, yieldFlag, poll, last, lastIndex, saved⟩ := r
  cases hcharges
  have hpoll : poll + 1 ≤ maxU64 := h
  cases last with
  | none =>
    refine ⟨poll, ?_⟩
    simp [backpressured, recordBackpressureYield, flushChargesIntoAuditEvents, drainBudgetCharges,
      allocPollIndex, checkedAdd, hpoll, recordYield, pushAuditEvent, auditQueueAdmit,
      recordBackpressureResume, restoreSavedYield]
  | some reason =>
    refine ⟨lastIndex, ?_⟩
    simp [backpressured, recordBackpressureYield, flushChargesIntoAuditEvents, drainBudgetCharges,
      allocPollIndex, checkedAdd, hpoll, recordYield, pushAuditEvent, auditQueueAdmit,
      recordBackpressureResume, restoreSavedYield]

theorem restoreSavedYield_auditEvents (r : Recorder) :
    r.restoreSavedYield.auditEvents = r.auditEvents := by
  unfold restoreSavedYield
  split <;> rfl

/-- The buffer only grows in a wait. -/
theorem recordBackpressureYield_pushes (r : Recorder) (usage : BudgetUsage) :
    ∃ events, (r.recordBackpressureYield usage).2.auditEvents = r.auditEvents ++ events := by
  simp only [recordBackpressureYield]
  split
  · next index r' halloc =>
    simp only [allocPollIndex, Option.map_eq_some_iff] at halloc
    obtain ⟨next, -, heq⟩ := halloc
    cases heq
    refine ⟨r.drainBudgetCharges.1 ++ [.yielded .auditBackpressure r.pollIndex usage], ?_⟩
    simp [recordYield, pushAuditEvent, auditQueueAdmit, flushChargesIntoAuditEvents,
      drainBudgetCharges]
  · refine ⟨r.drainBudgetCharges.1, ?_⟩
    rw [restoreSavedYield_auditEvents]
    simp [flushChargesIntoAuditEvents, drainBudgetCharges]

theorem recordBackpressureResume_pushes (r : Recorder) (usage : BudgetUsage) :
    ∃ events, (r.recordBackpressureResume usage).auditEvents = r.auditEvents ++ events := by
  unfold recordBackpressureResume
  split
  · exact ⟨_, restoreSavedYield_auditEvents _⟩
  · exact ⟨[], by simp⟩

end DeliveryLemmas

/-! ## Delivery -/

namespace DeliveryLemmas

open Run

variable {core : Core C} {sink : AuditSink S} {env : AuditEnvelope}

/-- What a part of the run adds to the log: it acknowledges `acked`, and records what it
puts into the buffer. -/
def LogsPush (r r' : Recorder) (acked : List AuditEnvelope) (entries : List LogEntry) : Prop :=
  ackedOf entries = acked ∧ r'.auditEvents = r.auditEvents ++ recordedOf entries

theorem LogsPush.trans {r₁ r₂ r₃ : Recorder} {acked acked' : List AuditEnvelope}
    {entries entries' : List LogEntry} (h : LogsPush r₁ r₂ acked entries)
    (h' : LogsPush r₂ r₃ acked' entries') :
    LogsPush r₁ r₃ (acked ++ acked') (entries ++ entries') := by
  refine ⟨by simp [h.1, h'.1], ?_⟩
  rw [h'.2, h.2, recordedOf_append, List.append_assoc]

/-- Entries that record nothing. -/
theorem logsPush_quiet (r : Recorder) {acked : List AuditEnvelope} {entries : List LogEntry}
    (hacked : ackedOf entries = acked) (hrecorded : recordedOf entries = []) :
    LogsPush r r acked entries := ⟨hacked, by rw [hrecorded, List.append_nil]⟩

theorem logsPush_record {r r' : Recorder}
    (h : ∃ events, r'.auditEvents = r.auditEvents ++ events) :
    LogsPush r r' [] ((r'.auditEvents.drop r.auditEvents.length).map .recorded) := by
  obtain ⟨events, hevents⟩ := h
  exact ⟨ackedOf_recorded _, by simp [hevents]⟩

theorem submit_run (st : RunState C S) {answer : AuditSubmit} {t : S}
    (h : sink.submit st.sink [env] = (answer, t)) (hanswer : answer ≠ .unwinds) :
    (submit sink env).run st =
      (.ok answer, { st with sink := t, log := st.log ++ [.submitted env] }) := by
  simp only [submit, trace, Proc.bind_run, Proc.modify_run, Proc.update_run, h]
  cases answer <;> simp_all

theorem resumeAfterAck_run (core : Core C) (env : AuditEnvelope) (st : RunState C S) :
    ∃ entries, (resumeAfterAck core env).run st =
      (.ok (), { st with
        recorder := st.recorder.recordBackpressureResume (core.usage st.core)
        log := st.log ++ entries }) ∧
      LogsPush st.recorder (st.recorder.recordBackpressureResume (core.usage st.core)) [env]
        entries := by
  refine ⟨_ ++ [.acked env], ?_, (logsPush_record
    (recordBackpressureResume_pushes st.recorder (core.usage st.core))).trans
      (logsPush_quiet _ rfl rfl)⟩
  simp [resumeAfterAck, record, trace, Proc.bind_run]

theorem interrupted_run (h : core.Uninterrupted) (st : RunState C S) :
    (interrupted core env).run st = (.ok false, st) := by
  obtain ⟨hcancel, hdeadline⟩ := h st.core
  simp [interrupted, onCore, Proc.bind_run, hcancel, hdeadline]

theorem ackOk_ackFor (env : AuditEnvelope) :
    ackOk env.executionId (ackFor env) env.sequence = true := by
  simp [ackOk, ackFor]

/-- The wait returns when the sink settles before the resends are used up. -/
theorem awaitAck_run (hcore : core.Uninterrupted) {n ticket resends : Nat} {s t : S}
    (h : Awaits sink env n s ticket t) (hn : n < resends) (st : RunState C S) (hs : st.sink = s) :
    ∃ entries, (awaitAck env.executionId core sink env resends ticket).run st =
      (.ok (), { st with
        sink := t
        recorder := st.recorder.recordBackpressureResume (core.usage st.core)
        log := st.log ++ entries }) ∧
      LogsPush st.recorder (st.recorder.recordBackpressureResume (core.usage st.core)) [env]
        entries := by
  induction h generalizing resends st with
  | @taken s t ticket htake =>
    obtain ⟨resends, rfl⟩ := Nat.exists_eq_succ_of_ne_zero (by omega : resends ≠ 0)
    subst hs
    obtain ⟨entries, hrun, hpush⟩ := resumeAfterAck_run core env
      { st with sink := t }
    refine ⟨entries, ?_, hpush⟩
    simp only [awaitAck]
    rw [Proc.bind_run_ok (interrupted_run hcore st)]
    simp [onTicket, Proc.bind_run, htake, ackOk_ackFor, hrun]
  | @acked s s₁ t ticket htake hsubmit =>
    obtain ⟨resends, rfl⟩ := Nat.exists_eq_succ_of_ne_zero (by omega : resends ≠ 0)
    subst hs
    obtain ⟨entries, hrun, hpush⟩ := resumeAfterAck_run core env
      { st with sink := t, log := st.log ++ [.submitted env] }
    refine ⟨.submitted env :: entries, ?_, hpush⟩
    simp only [awaitAck]
    rw [Proc.bind_run_ok (interrupted_run hcore st), if_neg Bool.false_ne_true]
    simp only [onTicket, Proc.bind_run, Proc.update_run, htake]
    rw [submit_run { st with sink := s₁ } hsubmit (by simp)]
    simp [ackOk_ackFor, hrun]
  | @again s s₁ s₂ t ticket next n htake hsubmit _ ih =>
    obtain ⟨resends, rfl⟩ := Nat.exists_eq_succ_of_ne_zero (by omega : resends ≠ 0)
    subst hs
    obtain ⟨entries, hrun, hpush⟩ := ih (show _ < resends by omega)
      { st with sink := sink.registerWaker s₂ next, log := st.log ++ [.submitted env] } rfl
    refine ⟨.submitted env :: entries, ?_, hpush⟩
    simp only [awaitAck]
    rw [Proc.bind_run_ok (interrupted_run hcore st), if_neg Bool.false_ne_true]
    simp only [onTicket, Proc.bind_run, Proc.update_run, htake]
    rw [submit_run { st with sink := s₁ } hsubmit (by simp)]
    simp only [List.append_assoc, List.singleton_append] at hrun
    simp [Proc.bind_run, hrun]

end DeliveryLemmas

open DeliveryLemmas Run

/-- A patient sink makes `deliver` return: the envelope is acknowledged once, and a wait
has left its pair of events in the buffer. -/
theorem deliver_run {core : Core C} {sink : AuditSink S} {env : AuditEnvelope}
    (hcore : core.Uninterrupted) {n : Nat} {t : S} (st : RunState C S)
    (h : Settles sink env n st.sink t) (hn : n ≤ auditBackpressureMaxResends)
    (hpoll : 0 < n → st.recorder.pollIndex + 1 ≤ maxU64) :
    ∃ r entries, r = (if n = 0 then st.recorder
        else st.recorder.backpressured (core.usage st.core)) ∧
      (deliver env.executionId core sink env).run st =
        (.ok (), { st with sink := t, recorder := r, log := st.log ++ entries }) ∧
      LogsPush st.recorder r [env] entries := by
  cases hs : h with
  | atOnce hsubmit =>
    refine ⟨_, [.submitted env, .acked env], rfl, ?_, logsPush_quiet _ rfl rfl⟩
    rw [deliver, Proc.bind_run_ok (submit_run st hsubmit (by simp))]
    simp [ackOk_ackFor, trace]
  | @pending _ s₁ _ ticket n hsubmit hawait =>
    have hyield := recordBackpressureYield_fst (core.usage st.core) (hpoll (by omega))
    obtain ⟨entries, hrun, hpush⟩ := awaitAck_run hcore hawait
      (show n < auditBackpressureMaxResends by omega)
      { st with
        sink := sink.registerWaker s₁ ticket
        recorder := (st.recorder.recordBackpressureYield (core.usage st.core)).2
        log := st.log ++ [.submitted env] ++
          ((st.recorder.recordBackpressureYield (core.usage st.core)).2.auditEvents.drop
            st.recorder.auditEvents.length).map .recorded } rfl
    refine ⟨_, [.submitted env] ++
      (((st.recorder.recordBackpressureYield (core.usage st.core)).2.auditEvents.drop
        st.recorder.auditEvents.length).map .recorded ++ entries), rfl, ?_, ?_⟩
    · rw [deliver, Proc.bind_run_ok (submit_run st hsubmit (by simp))]
      simp only [Proc.bind_run, Proc.gets_run, record, Proc.update_run, hyield, if_true, onTicket]
      rw [hrun]
      simp [Recorder.backpressured, List.append_assoc]
    · exact (show LogsPush _ _ [] [.submitted env] from logsPush_quiet _ rfl rfl).trans
        ((logsPush_record (recordBackpressureYield_pushes _ _)).trans hpush)

/-- A patient sink delivers one event of a flush when the journal accepts it: either
nothing else happens, or one wait goes to the account of the credit. -/
theorem flushEvent_run {rq : AuditedRequest} {executionId : Nat} {core : Core C}
    {sink : AuditSink S} {credit : S → Nat} {event : AuditEvent} {st : RunState C S}
    {seq : Nat} {j : AuditJournal} (hcore : core.Uninterrupted) (hsink : Patient sink credit)
    (hreserve : (event.isHostCallStarted && !st.journal.canReserveHostCall) = false)
    (happend : st.journal.appendNormal
      (envelope rq executionId st.journal.nextSequence event) = .ok (seq, j))
    (hpoll : 0 < credit st.sink → st.recorder.pollIndex + 1 ≤ maxU64) :
    ∃ (waited : Bool) (t : S) (r : Recorder) (entries : List LogEntry),
      r = (if waited then st.recorder.backpressured (core.usage st.core) else st.recorder) ∧
      (flushEvent rq executionId core sink event).run st =
        (.ok (), { st with
          sink := t
          journal := j
          recorder := r.auditQueueRelease event
          log := st.log ++
            .appended (envelope rq executionId st.journal.nextSequence event) :: entries }) ∧
      credit t + waited.toNat ≤ credit st.sink ∧
      LogsPush st.recorder r [envelope rq executionId st.journal.nextSequence event] entries := by
  obtain ⟨n, t, hn, hsettles, hcredit⟩ :=
    hsink st.sink (envelope rq executionId st.journal.nextSequence event)
  obtain ⟨r, entries, hr, hrun, hpush⟩ := deliver_run hcore { st with
    journal := j
    log := st.log ++ [.appended (envelope rq executionId st.journal.nextSequence event)] }
    hsettles hn fun hpos => hpoll (by omega)
  refine ⟨decide (0 < n), t, r, entries, ?_, ?_, ?_, hpush⟩
  · rcases Nat.eq_zero_or_pos n with rfl | hpos
    · simpa using hr
    · simpa [hpos, Nat.pos_iff_ne_zero.mp hpos] using hr
  · simp only [flushEvent, Proc.bind_run, Proc.gets_run, hreserve, Bool.false_eq_true, if_false,
      append, happend, Proc.modify_run]
    rw [show (envelope rq executionId st.journal.nextSequence event).executionId = executionId
      from rfl] at hrun
    rw [hrun]
    simp
  · rcases Nat.eq_zero_or_pos n with rfl | hpos
    · simpa using hcredit
    · simpa [hpos, Nat.min_eq_right (Nat.succ_le_of_lt hpos)] using hcredit

end Tsumugi.Audit
