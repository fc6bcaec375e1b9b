import Tsumugi.Audit.Backpressure

/-!
# Back-pressure is transparent (`run_audited`)

The simulation of slices and flushes is carried through the driver and the whole run:
with a patient sink, a run reaches the outcome that it reaches with a sink that
acknowledges at once, provided the audit budget has room for the waits' own events.

Results:
1. `follows_runAuditedDriver`: the driver reaches the same terminal.
2. `backpressure_transparent`: the same outcome, and each event delivered once.
3. `backpressure_law_fails`: two sinks for which the run ends in an audit failure.
-/

namespace Tsumugi.Audit

open Budget Word

variable {C S : Type}

/-- Every event that was recorded before the Terminal is acknowledged exactly once and
in order, between Started and the Terminal. The log is empty when the run ends before
Started. -/
def DeliveredOnce (rq : AuditedRequest) (log : List LogEntry) : Prop :=
  log = [] ∨ ∃ before terminal after, log = before ++ .appended terminal :: after ∧
    terminal.event.isTerminal = true ∧
    (ackedOf log).map (·.event) = startedEvent rq :: recordedOf before ++ [terminal.event]

/-- The sink acknowledges Started at once, and `waits` pays for the waits after it. -/
def StartedAtOnce (rq : AuditedRequest) (sink : AuditSink S) (credit : S → Nat) (waits : Nat)
    (s : S) : Prop :=
  ∀ executionId, rq.executionId = some executionId → ∃ s₁,
    sink.submit s [envelope rq executionId 0 (startedEvent rq)] =
      (.ack (ackFor (envelope rq executionId 0 (startedEvent rq))), s₁) ∧ credit s₁ ≤ waits

namespace BackpressureLemmas

open Run DeliveryLemmas

section

variable {rq : AuditedRequest} {executionId waits : Nat} {credit : S → Nat} {core : Core C}
  {sink : AuditSink S}

/-! ## The driver -/

/-- The two runs at the end of the driver: all that was recorded is acknowledged. -/
def Settled (rq : AuditedRequest) (waits : Nat) (credit : S → Nat) (st : RunState C S)
    (st' : RunState C Unit) : Prop :=
  CoreRel rq waits credit st st' ∧ Delivered rq st []

/-- The two runs after a flush. -/
def Flushed (rq : AuditedRequest) (waits : Nat) (credit : S → Nat) (st : RunState C S)
    (st' : RunState C Unit) : Prop :=
  SliceRel rq waits credit 0 st st' ∧ st.recorder.auditEvents = []

theorem settled_of_flushed {st : RunState C S} {st' : RunState C Unit}
    (h : Flushed rq waits credit st st') : Settled rq waits credit st st' :=
  ⟨coreRel_of_sliceRel (by omega) h.1, h.2 ▸ h.1.delivered⟩

theorem settled_onCore {α : Type} (f : C → α × C) :
    Proc.Sim IsPanic (CoreRel rq waits credit) (Settled rq waits credit)
      (onCore f : Run C S α) (onCore f : Run C Unit α)
      (Proc.Same (Settled rq waits credit)) := by
  refine Proc.sim_update fun st st' h => ⟨by rw [h.1.core_eq], ?_⟩
  exact ⟨⟨by simp only [h.1.core_eq], h.1.account, h.1.poll⟩, h.2⟩

theorem settled_terminalFrom (error : TsumugiError) :
    Proc.Sim IsPanic (CoreRel rq waits credit) (Settled rq waits credit)
      (terminalFrom core error : Run C S ExecutionOutcome)
      (terminalFrom core error : Run C Unit ExecutionOutcome)
      (Proc.Same (Settled rq waits credit)) := by
  refine Proc.sim_bind_same (Proc.sim_gets fun _ _ h => ⟨by rw [h.1.core_eq], h⟩) fun usage => ?_
  refine Proc.sim_bind_same ?_ fun exit => Proc.sim_pure fun _ _ h => ⟨rfl, h⟩
  unfold exitOf
  split
  · exact settled_onCore _
  · exact Proc.sim_pure fun _ _ h => ⟨rfl, h⟩

/-- `m` reaches the terminal that `m'` reaches, and panics where `m'` panics. -/
def Follows (rq : AuditedRequest) (waits : Nat) (credit : S → Nat)
    (R : RunState C S → RunState C Unit → Prop) (m : Run C S AuditDrive)
    (m' : Run C Unit AuditDrive) : Prop :=
  ∀ st st', R st st' →
    (∀ outcome t', m'.run st' = (.ok (.terminal outcome), t') →
      ∃ t, m.run st = (.ok (.terminal outcome), t) ∧ Settled rq waits credit t t') ∧
    (∀ t', m'.run st' = (.error .unwound, t') →
      ∃ t, m.run st = (.error .unwound, t) ∧ CoreRel rq waits credit t t')

theorem follows_of_sim {R : RunState C S → RunState C Unit → Prop} {m : Run C S AuditDrive}
    {m' : Run C Unit AuditDrive}
    (h : Proc.Sim IsPanic (CoreRel rq waits credit) R m m' (Proc.Same (Settled rq waits credit))) :
    Follows rq waits credit R m m' := by
  intro st st' hR
  obtain ⟨hok, herr⟩ := h st st' hR
  refine ⟨fun outcome t' hr => ?_, fun t' hr => herr _ t' hr rfl⟩
  obtain ⟨a, t, ht, rfl, hsettled⟩ := hok _ _ hr
  exact ⟨t, ht, hsettled⟩

theorem follows_bind {α : Type} {R R' : RunState C S → RunState C Unit → Prop} {m : Run C S α}
    {m' : Run C Unit α} {f : α → Run C S AuditDrive} {f' : α → Run C Unit AuditDrive}
    (hm : Proc.Sim IsPanic (CoreRel rq waits credit) R m m' (Proc.Same R'))
    (hf : ∀ a, Follows rq waits credit R' (f a) (f' a)) :
    Follows rq waits credit R (m >>= f) (m' >>= f') := by
  intro st st' hR
  obtain ⟨hok, herr⟩ := hm st st' hR
  rcases h' : m'.run st' with ⟨e | a, t'⟩
  · rw [Proc.bind_run_error h']
    refine ⟨fun _ _ hr => (by cases hr), fun u' hr => ?_⟩
    cases hr
    obtain ⟨t, ht, hrel⟩ := herr _ _ h' rfl
    exact ⟨t, Proc.bind_run_error ht, hrel⟩
  · obtain ⟨a₂, t, ht, rfl, hR'⟩ := hok _ _ h'
    rw [Proc.bind_run_ok h', Proc.bind_run_ok ht]
    exact hf _ t t' hR'

/-- A flush between two parts of the driver. A failed flush of the second run ends in no
terminal, so that only the completed ones matter. -/
theorem follows_flush (hreserve : rq.auditBudget.terminalReserveEvents = 1)
    (hcore : core.Uninterrupted) (hsink : Patient sink credit) {fuel fuel' : Nat}
    (hfuel : waits + 3 ≤ fuel) {k : Except AuditFailure Unit → Run C S AuditDrive}
    {k' : Except AuditFailure Unit → Run C Unit AuditDrive}
    (hfailed : ∀ failure st', ∃ withheld t',
      (k' (.error failure)).run st' = (.ok (.failed withheld failure), t'))
    (hok : Follows rq waits credit (Flushed rq waits credit) (k (.ok ())) (k' (.ok ()))) :
    Follows rq waits credit (SliceEnd rq waits credit)
      ((flushEvents rq executionId core sink fuel).attempt Stop.failure >>= k)
      ((flushEvents (rq.sparing waits) executionId core syncSink fuel').attempt Stop.failure >>=
        k') := by
  intro st st' h
  obtain ⟨hflush, hpanic⟩ := sim_flushEvents executionId hreserve hcore hsink hfuel st st' h
  rcases h' : (flushEvents (rq.sparing waits) executionId core syncSink fuel').run st'
    with ⟨stop | ⟨⟩, t'⟩
  · cases stop with
    | failed failure =>
      have hcaught : ((flushEvents (rq.sparing waits) executionId core syncSink fuel').attempt
          Stop.failure).run st' = (.ok (.error failure), t') := by
        simp only [Proc.attempt, h', Stop.failure]
      obtain ⟨withheld, u', hrun⟩ := hfailed failure t'
      rw [Proc.bind_run_ok hcaught, hrun]
      exact ⟨fun _ _ hr => (by cases hr), fun _ hr => (by cases hr)⟩
    | unwound =>
      obtain ⟨t, ht, hrel⟩ := hpanic _ _ h' rfl
      have hpassed : ((flushEvents (rq.sparing waits) executionId core syncSink fuel').attempt
          Stop.failure).run st' = (.error .unwound, t') := by
        simp only [Proc.attempt, h', Stop.failure]
      rw [Proc.bind_run_error hpassed]
      refine ⟨fun _ _ hr => (by cases hr), fun u' hr => ?_⟩
      cases hr
      refine ⟨t, Proc.bind_run_error ?_, hrel⟩
      simp only [Proc.attempt, ht, Stop.failure]
    | outOfFuel =>
      have hpassed : ((flushEvents (rq.sparing waits) executionId core syncSink fuel').attempt
          Stop.failure).run st' = (.error .outOfFuel, t') := by
        simp only [Proc.attempt, h', Stop.failure]
      rw [Proc.bind_run_error hpassed]
      exact ⟨fun _ _ hr => (by cases hr), fun _ hr => (by cases hr)⟩
  · obtain ⟨_, t, ht, -, hflushed⟩ := hflush _ _ h'
    rw [Proc.bind_run_ok (Proc.attempt_run_ok h'), Proc.bind_run_ok (Proc.attempt_run_ok ht)]
    exact hok t t' hflushed

theorem terminalFrom_run (core : Core C) (error : TsumugiError) (st : RunState C S) :
    ∃ outcome t, (terminalFrom core error).run st = (.ok outcome, t) := by
  have hexit : ∃ exit t, (exitOf core error).run st = (.ok exit, t) := by
    unfold exitOf
    split <;> exact ⟨_, _, rfl⟩
  obtain ⟨exit, t, hrun⟩ := hexit
  refine ⟨terminalFromRunError exit (core.usage st.core) error, t, ?_⟩
  rw [terminalFrom, Proc.bind_run_ok (Proc.gets_run _ _), Proc.bind_run_ok hrun]
  rfl

theorem withheldAfter_run (core : Core C) (slice : SliceOutcome) (st : RunState C S) :
    ∃ withheld t, (withheldAfter core slice).run st = (.ok withheld, t) := by
  cases slice with
  | terminal result =>
    cases result with
    | ok => exact ⟨_, _, rfl⟩
    | error error =>
      obtain ⟨outcome, t, hrun⟩ := terminalFrom_run core error st
      rw [withheldAfter, terminalOf, Proc.bind_run_ok hrun]
      exact ⟨_, _, rfl⟩
  | _ => exact ⟨_, _, rfl⟩

theorem settled_terminalOf (result : Except TsumugiError Unit) :
    Proc.Sim IsPanic (CoreRel rq waits credit) (Settled rq waits credit)
      (terminalOf core result : Run C S ExecutionOutcome)
      (terminalOf core result : Run C Unit ExecutionOutcome)
      (Proc.Same (Settled rq waits credit)) := by
  cases result with
  | ok =>
    exact Proc.sim_bind_same (Proc.sim_gets fun _ _ h => ⟨by rw [h.1.core_eq], h⟩) fun _ =>
      Proc.sim_pure fun _ _ h => ⟨rfl, h⟩
  | error error => exact settled_terminalFrom error

theorem follows_pollLoop (hreserve : rq.auditBudget.terminalReserveEvents = 1)
    (hcore : core.Uninterrupted) (hsink : Patient sink credit) (sliceFuel : Nat)
    {fuel fuel' : Nat} (hfuel : fuel' + waits + 3 ≤ fuel) :
    Follows rq waits credit (SliceRel rq waits credit 0)
      (pollLoop rq executionId core sink sliceFuel fuel)
      (pollLoop (rq.sparing waits) executionId core syncSink sliceFuel fuel') := by
  induction fuel' generalizing fuel with
  | zero =>
    exact fun st st' _ => ⟨fun _ _ hr => (by cases hr), fun _ hr => (by cases hr)⟩
  | succ fuel' ih =>
    obtain ⟨fuel, rfl⟩ := Nat.exists_eq_succ_of_ne_zero (by omega : fuel ≠ 0)
    refine follows_bind (sim_runSlice core hreserve (by omega) sliceFuel) fun slice => ?_
    refine follows_flush hreserve hcore hsink (by omega) (fun failure st' => ?_) ?_
    · obtain ⟨withheld, t', hrun⟩ := withheldAfter_run core slice st'
      refine ⟨withheld, { t' with core := core.clear t'.core }, ?_⟩
      simp only [Proc.bind_run_ok hrun]
      rfl
    · cases slice with
      | terminal result =>
        refine follows_of_sim (Proc.sim_conseq ?_ (fun _ _ h => settled_of_flushed h)
          fun _ _ _ _ h => h)
        refine Proc.sim_bind_same (settled_terminalOf result) fun outcome => ?_
        exact Proc.sim_bind_same (settled_onCore _) fun _ => Proc.sim_pure fun _ _ h => ⟨rfl, h⟩
      | _ => exact fun st st' h => ih (by omega) st st' h.1

/-- The two runs when Started is acknowledged in both. -/
structure StartRel (rq : AuditedRequest) (waits : Nat) (credit : S → Nat) (st : RunState C S)
    (st' : RunState C Unit) : Prop where
  core_eq : st.core = st'.core
  credit_le : credit st.sink ≤ waits
  journal : JournalRel rq waits 0 0 st.journal st'.journal
  delivered : Delivered rq st []

theorem tame_setAuditQueue (limit envelopeOverhead : Nat) :
    Tame fun r : Recorder => ((), r.setAuditQueue limit envelopeOverhead) where
  result := fun _ _ _ => rfl
  rel := fun _ _ h => ⟨h.charges, h.events, rfl, rfl, rfl, h.lastYield⟩
  pushes := fun r => ⟨[], by simp [Recorder.setAuditQueue]⟩
  queued := by
    intro r _ m hm
    cases hm
    exact Nat.zero_le _
  pollIndex := fun _ => rfl

/-- The reset of the recorder opens the first slice. -/
theorem sim_reset :
    Proc.Sim IsPanic (CoreRel rq waits credit) (StartRel rq waits credit)
      (record fun _ => ((), {}) : Run C S Unit) (record fun _ => ((), {}) : Run C Unit Unit)
      (Proc.Same (Flushed rq waits credit)) := by
  refine Proc.sim_update fun st st' h => ⟨rfl, ⟨h.core_eq, ⟨rfl, rfl, rfl, rfl, rfl, rfl⟩, ?_,
    ⟨0, by simpa using h.credit_le, h.journal, Nat.zero_le _⟩, Nat.zero_le _, ?_⟩, rfl⟩
  · intro m hm
    cases hm
  · simpa [Delivered] using h.delivered

theorem sim_beginExecution :
    Proc.Sim IsPanic (CoreRel rq waits credit) (SliceRel rq waits credit 0)
      (beginExecution core : Run C S BeginAnswer) (beginExecution core : Run C Unit BeginAnswer)
      (Proc.Same (SliceRel rq waits credit 0)) := by
  refine Proc.sim_bind_same (sim_trace rfl rfl) fun _ => ?_
  refine Proc.sim_bind_same (sim_onCore _) fun linked => ?_
  refine Proc.sim_bind_same (sim_record (tame_notes _)) fun _ => ?_
  cases linked.2 with
  | unwinds => exact sim_panics (Nat.zero_le _) _
  | ok => exact sim_return _
  | fails error => exact sim_return _

theorem sim_terminalFrom (error : TsumugiError) :
    Proc.Sim IsPanic (CoreRel rq waits credit) (SliceRel rq waits credit 0)
      (terminalFrom core error : Run C S ExecutionOutcome)
      (terminalFrom core error : Run C Unit ExecutionOutcome)
      (Proc.Same (SliceRel rq waits credit 0)) := by
  refine Proc.sim_bind_same (sim_getsCore core.usage) fun usage => ?_
  refine Proc.sim_bind_same ?_ fun exit => sim_return _
  unfold exitOf
  split
  · exact sim_onCore _
  · exact sim_return _

variable (executionId) in
theorem follows_runAuditedDriver (hreserve : rq.auditBudget.terminalReserveEvents = 1)
    (hcore : core.Uninterrupted) (hsink : Patient sink credit) {fuel fuel' : Nat}
    (hfuel : fuel' + waits + 3 ≤ fuel) :
    Follows rq waits credit (StartRel rq waits credit)
      (runAuditedDriver rq executionId core sink fuel)
      (runAuditedDriver (rq.sparing waits) executionId core syncSink fuel') := by
  have hinstall : Proc.Sim IsPanic (CoreRel rq waits credit) (StartRel rq waits credit)
      (onCore core.install : Run C S Bool) (onCore core.install : Run C Unit Bool)
      (Proc.Same (StartRel rq waits credit)) :=
    Proc.sim_update fun st st' h => ⟨by rw [h.core_eq],
      ⟨by simp only [h.core_eq], h.credit_le, h.journal, h.delivered⟩⟩
  refine follows_bind hinstall fun cancelled => ?_
  refine follows_bind sim_reset fun _ => ?_
  cases cancelled with
  | true =>
    refine follows_of_sim (Proc.sim_conseq ?_ (fun _ _ h => settled_of_flushed h) fun _ _ _ _ h => h)
    exact Proc.sim_bind_same (Proc.sim_gets fun _ _ h => ⟨by rw [h.1.core_eq], h⟩) fun _ =>
      Proc.sim_pure fun _ _ h => ⟨rfl, h⟩
  | false =>
    refine follows_bind (Proc.sim_conseq
      (sim_record (tame_setAuditQueue rq.auditBudget.maxPendingBytes
        (estimateEnvelopeOverheadBytes rq.languageRevision.asStr)))
      (fun _ _ (h : Flushed rq waits credit _ _) => h.1) fun _ _ _ _ h => h) fun _ => ?_
    refine follows_bind sim_beginExecution fun answer => ?_
    cases answer with
    | fails error =>
      refine follows_bind (Proc.sim_conseq (sim_terminalFrom error) (fun _ _ h => h)
        fun _ _ _ _ h => ⟨h.1, sliceEnd_of_rel h.2⟩) fun outcome => ?_
      refine follows_flush hreserve hcore hsink (by omega) (fun failure st' => ⟨_, _, rfl⟩) ?_
      refine follows_of_sim (Proc.sim_conseq ?_ (fun _ _ h => settled_of_flushed h)
        fun _ _ _ _ h => h)
      exact Proc.sim_bind_same (settled_onCore _) fun _ => Proc.sim_pure fun _ _ h => ⟨rfl, h⟩
    | ok => exact follows_pollLoop hreserve hcore hsink _ hfuel
    | unwinds => exact follows_pollLoop hreserve hcore hsink _ hfuel

/-! ## The run -/

/-- `catch_host_unwind` turns a panic into a failure of its own, with events that were
recorded and not delivered. -/
theorem follows_guardedDriver (hreserve : rq.auditBudget.terminalReserveEvents = 1)
    (hcore : core.Uninterrupted) (hsink : Patient sink credit) {fuel fuel' : Nat}
    (hfuel : fuel' + waits + 3 ≤ fuel) {outcome : ExecutionOutcome} {st : RunState C S}
    {st' t' : RunState C Unit} (h : StartRel rq waits credit st st')
    (hrun : (guardedDriver (rq.sparing waits) executionId core syncSink fuel').run st' =
      (.ok (.terminal outcome), t')) :
    ∃ t, (guardedDriver rq executionId core sink fuel).run st = (.ok (.terminal outcome), t) ∧
      CoreRel rq waits credit t t' ∧
      ((∀ usage, outcome ≠ .internalFailure usage) → Delivered rq t []) := by
  obtain ⟨hterminal, hpanic⟩ :=
    follows_runAuditedDriver executionId hreserve hcore hsink hfuel st st' h
  rcases hdriver : (runAuditedDriver (rq.sparing waits) executionId core syncSink fuel').run st'
    with ⟨stop | drive, u'⟩
  · cases stop with
    | unwound =>
      obtain ⟨u, hu, hrel⟩ := hpanic u' hdriver
      simp only [guardedDriver, Proc.bind_run, Proc.attempt, hdriver, Stop.panic, Proc.gets_run,
        Proc.pure_run] at hrun
      cases hrun
      refine ⟨u, ?_, hrel, fun hne => absurd rfl (hne _)⟩
      simp only [guardedDriver, Proc.bind_run, Proc.attempt, hu, Stop.panic, Proc.gets_run,
        Proc.pure_run, hrel.core_eq]
    | failed failure =>
      simp only [guardedDriver, Proc.bind_run, Proc.attempt, hdriver, Stop.panic] at hrun
      cases hrun
    | outOfFuel =>
      simp only [guardedDriver, Proc.bind_run, Proc.attempt, hdriver, Stop.panic] at hrun
      cases hrun
  · rw [guardedDriver, Proc.bind_run_ok (Proc.attempt_run_ok hdriver)] at hrun
    cases hrun
    obtain ⟨t, ht, hrel, hdelivered⟩ := hterminal outcome _ hdriver
    exact ⟨t, by rw [guardedDriver, Proc.bind_run_ok (Proc.attempt_run_ok ht)]; rfl, hrel,
      fun _ => hdelivered⟩

/-- Both journals accept Started when the second does. -/
theorem journalRel_started {seq : Nat} {k' : AuditJournal}
    (happend : (AuditJournal.openJournal (rq.sparing waits).auditBudget).appendNormal
      (envelope rq executionId 0 (startedEvent rq)) = .ok (seq, k')) :
    ∃ k, (AuditJournal.openJournal rq.auditBudget).appendNormal
        (envelope rq executionId 0 (startedEvent rq)) = .ok (0, k) ∧
      JournalRel rq waits 0 0 k k' := by
  obtain ⟨-, -, -, horder, hevents, hbytes, rfl⟩ := AuditJournal.appendNormal_spec happend
  simp only [AuditJournal.openJournal, Nat.zero_add] at hevents hbytes
  have hpos := StreamLawLemmas.estimateEncodedBytes_pos
    (envelope rq executionId 0 (startedEvent rq))
  have hroom := (normalEventLimit_sparing rq waits).resolve_right (by omega)
  have hroom' := (normalByteLimit_sparing rq waits).resolve_right (by omega)
  refine ⟨_, AuditJournal.appendNormal_eq_ok rfl rfl rfl rfl
    (by simp only [AuditJournal.openJournal]; omega)
    (by simp only [AuditJournal.openJournal]; omega) (show 0 + 1 ≤ maxU64 by decide), ⟨rfl, rfl, rfl, rfl, rfl, rfl,
      rfl, rfl, Nat.le_refl _, ?_, Nat.le_refl _, ?_, hevents, ?_, Nat.zero_le _⟩⟩
  · simp [AuditJournal.openJournal]
  · simp only [AuditJournal.openJournal, Nat.zero_add]
    exact hpos
  · simpa only [AuditJournal.openJournal, Nat.zero_add] using hbytes

/-- Started is accepted and acknowledged: what is left is the driver. -/
theorem runStarted_run {fuel seq : Nat} {st : RunState C S} {k : AuditJournal} {s₁ : S}
    (happend : st.journal.appendNormal (envelope rq executionId 0 (startedEvent rq)) =
      .ok (seq, k))
    (hack : sink.submit st.sink [envelope rq executionId 0 (startedEvent rq)] =
      (.ack (ackFor (envelope rq executionId 0 (startedEvent rq))), s₁)) :
    (runStarted rq executionId core sink fuel).run st =
      (do
        match ← guardedDriver rq executionId core sink fuel with
        | .terminal outcome => pure (.ok outcome)
        | .failed withheld failure => pure (.error (.auditFailed withheld failure)) :
          Run C S (Except AuditedOutcome ExecutionOutcome)).run
        { st with
          sink := s₁
          journal := k
          log := st.log ++ [.appended (envelope rq executionId 0 (startedEvent rq))] ++
            [.submitted (envelope rq executionId 0 (startedEvent rq))] ++
            [.acked (envelope rq executionId 0 (startedEvent rq))] } := by
  have hok : ackOk executionId (ackFor (envelope rq executionId 0 (startedEvent rq))) 0 = true :=
    ackOk_ackFor (envelope rq executionId 0 (startedEvent rq))
  have hstored : ((append (envelope rq executionId 0 (startedEvent rq))
      AuditJournal.appendNormal).attempt Stop.failure).run st = (.ok (.ok ()), { st with
        journal := k
        log := st.log ++ [.appended (envelope rq executionId 0 (startedEvent rq))] }) :=
    Proc.attempt_run_ok (by simp only [append, Proc.bind_run, Proc.gets_run, happend,
      Proc.modify_run])
  rw [runStarted, Proc.bind_run_ok hstored]
  simp only
  have hsubmit := submit_run { st with
    journal := k
    log := st.log ++ [.appended (envelope rq executionId 0 (startedEvent rq))] } hack (by simp)
  rw [Proc.bind_run_ok hsubmit]
  simp only [hok, if_true]
  exact Proc.bind_run_ok (Proc.modify_run _ _)

theorem exceededResource_run (core : Core C) (outcome : ExecutionOutcome) (st : RunState C S) :
    ∃ exceeded c, (exceededResource core outcome).run st = (.ok exceeded, { st with core := c }) := by
  unfold exceededResource
  split
  · exact ⟨_, _, rfl⟩
  · exact ⟨_, _, rfl⟩

/-- The last step shows no other outcome than the one it is given. -/
theorem finish_outcome {outcome o : ExecutionOutcome} {st t : RunState C S}
    (h : (finish rq executionId core sink outcome).run st = (.ok (.outcome o), t)) :
    o = outcome := by
  obtain ⟨exceeded, c, hexceeded⟩ := exceededResource_run core outcome st
  rw [finish, Proc.bind_run_ok hexceeded, Proc.bind_run_ok (Proc.gets_run _ _), Proc.bind_run] at h
  split at h
  · next appended u _ =>
    cases appended with
    | error failure => cases h
    | ok =>
      simp only at h
      rw [Proc.bind_run] at h
      split at h
      · next delivered v _ =>
        cases delivered with
        | error failure => cases h
        | ok =>
          cases h
          rfl
      · cases h
  · cases h

variable (executionId) in
/-- The Terminal has a sequence number left, and a patient sink takes it. -/
theorem finish_run (hreserve : rq.auditBudget.terminalReserveEvents = 1)
    (hcore : core.Uninterrupted) (hsink : Patient sink credit) (outcome : ExecutionOutcome)
    {st : RunState C S} {st' : RunState C Unit} (h : CoreRel rq waits credit st st') :
    ∃ t terminal entries, (finish rq executionId core sink outcome).run st =
        (.ok (.outcome outcome), t) ∧
      t.log = st.log ++ .appended terminal :: entries ∧ terminal.event.isTerminal = true ∧
      ackedOf entries = [terminal] := by
  obtain ⟨used, hused, hjournal, hpoll⟩ := h.account
  have hroom := poll_room hreserve hjournal
  have hcount := hjournal.events_le
  have hle := hjournal.used_le
  have hindex := h.poll
  obtain ⟨exceeded, c, hexceeded⟩ := exceededResource_run core outcome st
  have hnext : st.journal.nextSequence + 1 ≤ maxU64 := by
    rw [hjournal.next]
    omega
  have hkind : (envelope rq executionId st.journal.nextSequence
    (terminalEvent rq outcome exceeded)).event.isTerminal = true := rfl
  have happend :=
    AuditJournal.appendTerminal_eq_ok hkind hjournal.started hjournal.open_ rfl hnext
  have hstored : ((append (envelope rq executionId st.journal.nextSequence
      (terminalEvent rq outcome exceeded)) AuditJournal.appendTerminal).attempt Stop.failure).run
        { st with core := c } = (.ok (.ok ()), { st with
          core := c
          journal := { st.journal with
            nextSequence := st.journal.nextSequence + 1, terminated := true }
          log := st.log ++ [.appended (envelope rq executionId st.journal.nextSequence
            (terminalEvent rq outcome exceeded))] }) :=
    Proc.attempt_run_ok (by simp only [append, Proc.bind_run, Proc.gets_run, happend,
      Proc.modify_run])
  obtain ⟨n, s, hn, hsettles, hcredit⟩ := hsink st.sink
    (envelope rq executionId st.journal.nextSequence (terminalEvent rq outcome exceeded))
  obtain ⟨r, entries, -, hdeliver, hacked, -⟩ := deliver_run hcore { st with
    core := c
    journal := { st.journal with nextSequence := st.journal.nextSequence + 1, terminated := true }
    log := st.log ++ [.appended (envelope rq executionId st.journal.nextSequence
      (terminalEvent rq outcome exceeded))] } hsettles hn (fun hpos => by simp only; omega)
  refine ⟨{ st with
      core := c
      sink := s
      recorder := r
      journal := { st.journal with
        nextSequence := st.journal.nextSequence + 1, terminated := true }
      log := st.log ++ [.appended (envelope rq executionId st.journal.nextSequence
        (terminalEvent rq outcome exceeded))] ++ entries }, _, entries, ?_,
    by simp only [List.append_assoc, List.cons_append, List.nil_append], rfl, hacked⟩
  rw [finish, Proc.bind_run_ok hexceeded, Proc.bind_run_ok (Proc.gets_run _ _),
    Proc.bind_run_ok hstored]
  exact Proc.bind_run_ok (Proc.attempt_run_ok hdeliver)

/-- The two runs when the driver is still to come. -/
structure InitialRel (rq : AuditedRequest) (waits : Nat) (sink : AuditSink S) (credit : S → Nat)
    (st : RunState C S) (st' : RunState C Unit) : Prop where
  core_eq : st.core = st'.core
  journal : st.journal = .openJournal rq.auditBudget
  journal' : st'.journal = .openJournal (rq.sparing waits).auditBudget
  log : st.log = []
  acked : StartedAtOnce rq sink credit waits st.sink

/-- From Started to the Terminal: what comes between is the driver. -/
theorem follows_started (hreserve : rq.auditBudget.terminalReserveEvents = 1)
    (hcore : core.Uninterrupted) (hsink : Patient sink credit) {fuel fuel' : Nat}
    (hfuel : fuel' + waits + 3 ≤ fuel) {outcome : ExecutionOutcome} {st : RunState C S}
    {st' t' : RunState C Unit} (h : InitialRel rq waits sink credit st st')
    (hid : rq.executionId = some executionId)
    (hrun : (runStarted (rq.sparing waits) executionId core syncSink fuel').run st' =
      (.ok (.ok outcome), t')) :
    ∃ t, (runStarted rq executionId core sink fuel).run st = (.ok (.ok outcome), t) ∧
      CoreRel rq waits credit t t' ∧
      ((∀ usage, outcome ≠ .internalFailure usage) → Delivered rq t []) := by
  obtain ⟨s₁, hack, hcredit⟩ := h.acked executionId hid
  rcases happend : st'.journal.appendNormal (envelope (rq.sparing waits) executionId 0
    (startedEvent (rq.sparing waits))) with failure | ⟨seq, k'⟩
  · have hrefused : ((append (envelope (rq.sparing waits) executionId 0
        (startedEvent (rq.sparing waits))) AuditJournal.appendNormal).attempt Stop.failure).run st' =
          (.ok (.error failure), st') := by
      simp only [Proc.attempt, append, Proc.bind_run, Proc.gets_run, happend, Proc.stop_run,
        Stop.failure]
    rw [runStarted, Proc.bind_run_ok hrefused] at hrun
    cases hrun
  · obtain ⟨k, happended, hjournal⟩ := journalRel_started (h.journal' ▸ happend)
    rw [← h.journal] at happended
    have hack' : syncSink.submit st'.sink [envelope (rq.sparing waits) executionId 0
        (startedEvent (rq.sparing waits))] =
          (.ack (ackFor (envelope (rq.sparing waits) executionId 0
            (startedEvent (rq.sparing waits)))), ()) := rfl
    rw [runStarted_run happend hack', Proc.bind_run] at hrun
    split at hrun
    · next drive u' hguarded =>
      cases drive with
      | failed withheld failure => cases hrun
      | terminal o =>
        cases hrun
        have hstart : StartRel rq waits credit { st with
            sink := s₁
            journal := k
            log := st.log ++ [.appended (envelope rq executionId 0 (startedEvent rq))] ++
              [.submitted (envelope rq executionId 0 (startedEvent rq))] ++
              [.acked (envelope rq executionId 0 (startedEvent rq))] } { st' with
            sink := ()
            journal := k'
            log := st'.log ++ [.appended (envelope rq executionId 0 (startedEvent rq))] ++
              [.submitted (envelope rq executionId 0 (startedEvent rq))] ++
              [.acked (envelope rq executionId 0 (startedEvent rq))] } :=
          ⟨h.core_eq, hcredit, hjournal, by rw [h.log]; rfl⟩
        obtain ⟨t, ht, hrel, hdelivered⟩ :=
          follows_guardedDriver hreserve hcore hsink hfuel hstart hguarded
        refine ⟨t, ?_, hrel, hdelivered⟩
        rw [runStarted_run happended hack, Proc.bind_run_ok ht]
        rfl
    · cases hrun

theorem failStarted_auditFailed {st t : RunState C S} {audited : AuditedOutcome}
    (h : (failStarted rq executionId sink : Run C S AuditedOutcome).run st = (.ok audited, t)) :
    ∃ withheld failure, audited = .auditFailed withheld failure := by
  rw [failStarted, Proc.bind_run_ok (Proc.gets_run _ _), Proc.bind_run] at h
  split at h
  · next appended u _ =>
    cases appended with
    | error failure =>
      cases h
      exact ⟨_, _, rfl⟩
    | ok =>
      simp only at h
      rw [Proc.bind_run] at h
      split at h
      · cases h
        exact ⟨_, _, rfl⟩
      · cases h
  · cases h

/-- A run that ends between Started and the Terminal ends in an audit failure. -/
theorem runStarted_error {fuel : Nat} {st t : RunState C S} {audited : AuditedOutcome}
    (h : (runStarted rq executionId core sink fuel).run st = (.ok (.error audited), t)) :
    ∃ withheld failure, audited = .auditFailed withheld failure := by
  have hfail : ∀ st : RunState C S, (do
      let audited ← failStarted rq executionId sink
      pure (.error audited) : Run C S (Except AuditedOutcome ExecutionOutcome)).run st =
        (.ok (.error audited), t) → ∃ withheld failure, audited = .auditFailed withheld failure := by
    intro st hrun
    rw [Proc.bind_run] at hrun
    split at hrun
    · next hfailed =>
      cases hrun
      exact failStarted_auditFailed hfailed
    · cases hrun
  rw [runStarted, Proc.bind_run] at h
  split at h
  · next appended u _ =>
    cases appended with
    | error failure =>
      cases h
      exact ⟨_, _, rfl⟩
    | ok =>
      simp only at h
      rw [Proc.bind_run] at h
      split at h
      · next answer v _ =>
        cases answer with
        | ack ack =>
          simp only at h
          split at h
          · rw [trace, Proc.bind_run_ok (Proc.modify_run _ _), Proc.bind_run] at h
            split at h
            · next drive w _ =>
              cases drive with
              | terminal outcome => cases h
              | failed withheld failure =>
                cases h
                exact ⟨_, _, rfl⟩
            · cases h
          · exact hfail _ h
        | _ => exact hfail _ h
      · cases h
  · cases h

theorem follows_runAuditedInner (hreserve : rq.auditBudget.terminalReserveEvents = 1)
    (hcore : core.Uninterrupted) (hsink : Patient sink credit) {fuel fuel' : Nat}
    (hfuel : fuel' + waits + 3 ≤ fuel) {o : ExecutionOutcome} {st : RunState C S}
    {st' t' : RunState C Unit} (h : InitialRel rq waits sink credit st st')
    (hrun : (runAuditedInner (rq.sparing waits) core syncSink fuel').run st' =
      (.ok (.outcome o), t')) :
    ∃ t, (runAuditedInner rq core sink fuel).run st = (.ok (.outcome o), t) ∧
      ((∀ usage, o ≠ .internalFailure usage) → DeliveredOnce rq t.log) := by
  simp only [runAuditedInner, runToOutcome, Proc.bind_run, Proc.gets_run, h.core_eq] at hrun ⊢
  rcases hanswer : core.prepare st'.core with _ | refused | _ <;>
    simp only [hanswer] at hrun ⊢
  · rcases hid : rq.executionId with _ | executionId
    · have hid' : (rq.sparing waits).executionId = none := hid
      simp only [hid', Proc.pure_run] at hrun ⊢
      cases hrun
      exact ⟨_, rfl, fun hne => absurd rfl (hne _)⟩
    · have hid' : (rq.sparing waits).executionId = some executionId := hid
      have htime' : (rq.sparing waits).timestamp = rq.timestamp := rfl
      simp only [hid', htime'] at hrun ⊢
      -- the timestamp is read in both runs
      by_cases htime : rq.timestamp.isNone = true
      · simp only [if_pos htime, panics, trace, Proc.bind_run, Proc.modify_run,
          Proc.stop_run] at hrun
        cases hrun
      simp only [if_neg htime, Proc.bind_run] at hrun ⊢
      rcases hsync : (runStarted (rq.sparing waits) executionId core syncSink fuel').run st'
        with ⟨stop | ended | outcome, u'⟩ <;>
        simp only [hsync, Proc.pure_run, Except.map] at hrun
      · cases hrun
      · obtain ⟨withheld, failure, rfl⟩ := runStarted_error hsync
        cases hrun
      · obtain rfl := finish_outcome hrun
        obtain ⟨u, hu, hrel, hdelivered⟩ := follows_started hreserve hcore hsink hfuel h hid hsync
        obtain ⟨t, terminal, entries, hfinish, hlog, hkind, hacked⟩ :=
          finish_run executionId hreserve hcore hsink o hrel
        simp only [hu, Proc.pure_run, Except.map]
        refine ⟨t, hfinish, fun hne => .inr ⟨u.log, terminal, entries, hlog, hkind, ?_⟩⟩
        have hbefore := hdelivered hne
        simp only [Delivered, List.append_nil] at hbefore
        have hlast : ackedOf (.appended terminal :: entries) = [terminal] := hacked
        rw [hlog, ackedOf_append, List.map_append, hbefore, hlast, List.map_singleton]
  · simp only [Proc.pure_run] at hrun ⊢
    cases hrun
    exact ⟨_, rfl, fun _ => .inl h.log⟩
  · simp only [trace, Proc.bind_run, Proc.modify_run, Proc.gets_run, Proc.pure_run] at hrun ⊢
    cases hrun
    exact ⟨_, by rw [h.core_eq], fun hne => absurd rfl (hne _)⟩

theorem runAudited_refused {reentered : Bool} {fuel : Nat} {st : RunState C S}
    (h : (reentered || st.poisoned || st.running) = true) :
    (runAudited rq core sink reentered fuel).run st =
      (.ok (.outcome (.internalFailure {})), st) := by
  rw [runAudited, Proc.bind_run_ok (Proc.gets_run _ _), id, if_pos h]
  rfl

theorem runAudited_error {reentered : Bool} {fuel : Nat} {st t : RunState C S} {stop : Stop}
    (h : ¬ (reentered || st.poisoned || st.running) = true)
    (hinner : (runAuditedInner rq core sink fuel).run { st with running := true } =
      (.error stop, t)) : (runAudited rq core sink reentered fuel).run st = (.error stop, t) := by
  rw [runAudited, Proc.bind_run_ok (Proc.gets_run _ _), id, if_neg h,
    Proc.bind_run_ok (Proc.modify_run _ _)]
  exact Proc.bind_run_error hinner

/-- After the run only the flags of the engine change. -/
theorem runAudited_ok {reentered : Bool} {fuel : Nat} {st t : RunState C S}
    {audited : AuditedOutcome} (h : ¬ (reentered || st.poisoned || st.running) = true)
    (hinner : (runAuditedInner rq core sink fuel).run { st with running := true } =
      (.ok audited, t)) :
    ∃ u, (runAudited rq core sink reentered fuel).run st = (.ok audited, u) ∧ u.log = t.log := by
  rw [runAudited, Proc.bind_run_ok (Proc.gets_run _ _), id, if_neg h,
    Proc.bind_run_ok (Proc.modify_run _ _), Proc.bind_run_ok hinner]
  exact ⟨_, rfl, rfl⟩

theorem follows_runAudited (hreserve : rq.auditBudget.terminalReserveEvents = 1)
    (hcore : core.Uninterrupted) (hsink : Patient sink credit) {fuel fuel' : Nat}
    (hfuel : fuel' + waits + 3 ≤ fuel) {o : ExecutionOutcome} {c : C} {s : S} {r : Recorder}
    {reentered poisoned running : Bool} (hacked : StartedAtOnce rq sink credit waits s)
    (hrun : ((runAudited (rq.sparing waits) core syncSink reentered fuel').run
      (.initial (rq.sparing waits) c () r poisoned running)).1 = .ok (.outcome o)) :
    ∃ t, (runAudited rq core sink reentered fuel).run (.initial rq c s r poisoned running) =
        (.ok (.outcome o), t) ∧
      ((∀ usage, o ≠ .internalFailure usage) → DeliveredOnce rq t.log) := by
  by_cases hrefused : (reentered || poisoned || running) = true
  · rw [runAudited_refused hrefused] at hrun ⊢
    cases hrun
    exact ⟨_, rfl, fun _ => .inl rfl⟩
  · have hinitial : InitialRel rq waits sink credit
        { RunState.initial rq c s r poisoned running with running := true }
        { RunState.initial (rq.sparing waits) c () r poisoned running with running := true } :=
      ⟨rfl, rfl, rfl, rfl, hacked⟩
    rcases hinner : (runAuditedInner (rq.sparing waits) core syncSink fuel').run
      { RunState.initial (rq.sparing waits) c () r poisoned running with running := true }
      with ⟨stop | audited, t'⟩
    · rw [runAudited_error hrefused hinner] at hrun
      cases hrun
    · obtain ⟨u', hu', -⟩ := runAudited_ok hrefused hinner
      rw [hu'] at hrun
      cases hrun
      obtain ⟨t, ht, hdelivered⟩ :=
        follows_runAuditedInner hreserve hcore hsink hfuel hinitial hinner
      obtain ⟨u, hu, hlog⟩ := runAudited_ok hrefused ht
      exact ⟨u, hu, hlog ▸ hdelivered⟩

theorem patient_syncSink : Patient syncSink fun _ => 0 := fun _ _ =>
  ⟨0, (), Nat.zero_le _, .atOnce rfl, Nat.zero_le _⟩

end

end BackpressureLemmas

open BackpressureLemmas in
/-- A patient sink that acknowledges Started at once and waits at most `waits` times is
transparent, where the run has room for two events a wait: the run ends in the outcome
that it has with a sink that acknowledges at once. Unless the evaluator panicked, each
event recorded before the Terminal is delivered once and in order. -/
theorem backpressure_transparent {rq : AuditedRequest} {core : Core C} {sink : AuditSink S}
    {credit : S → Nat} {waits fuel fuel' : Nat} {c : C} {s : S} {r : Recorder}
    {reentered poisoned running : Bool} {o : ExecutionOutcome}
    (hvalid : rq.auditBudget.validate = .ok ()) (hcore : core.Uninterrupted)
    (hsink : Patient sink credit) (hstarted : StartedAtOnce rq sink credit waits s)
    (hroom : ((runAudited (rq.sparing waits) core syncSink reentered fuel).run
      (.initial (rq.sparing waits) c () r poisoned running)).1 = .ok (.outcome o))
    (hfuel : fuel + waits + 3 ≤ fuel') :
    ((runAudited rq core syncSink reentered fuel').run
        (.initial rq c () r poisoned running)).1 = .ok (.outcome o) ∧
      ∃ st, (runAudited rq core sink reentered fuel').run (.initial rq c s r poisoned running) =
          (.ok (.outcome o), st) ∧
        ((∀ usage, o ≠ .internalFailure usage) → DeliveredOnce rq st.log) := by
  have hreserve := (StreamLawLemmas.validate_ok hvalid).2.1
  have hatOnce : StartedAtOnce rq syncSink (fun _ => 0) waits () := fun _ _ =>
    ⟨(), rfl, Nat.zero_le _⟩
  obtain ⟨st, hsync, -⟩ :=
    follows_runAudited hreserve hcore patient_syncSink hfuel hatOnce hroom
  exact ⟨congrArg Prod.fst hsync, follows_runAudited hreserve hcore hsink hfuel hstarted hroom⟩

/-! ## Concrete runs -/

/-- A sink that answers Pending once before each ack, as long as it has waits left;
Started is exempt unless `startedToo`. -/
def slowSink (startedToo : Bool) : AuditSink (Nat × Bool) where
  submit s batch :=
    match batch.getLast?, s with
    | none, _ => (.failed .protocol, s)
    | some env, (0, _) => (.ack ⟨env.executionId, env.sequence⟩, s)
    | some env, (waits + 1, true) => (.ack ⟨env.executionId, env.sequence⟩, (waits, false))
    | some env, (waits + 1, false) =>
      if startedToo || env.sequence != 0 then (.pending 0, (waits + 1, true))
      else (.ack ⟨env.executionId, env.sequence⟩, s)
  registerWaker s _ := s
  tryTake s _ := (none, s)
  cancel s _ := s

theorem slowSink_settles (startedToo : Bool) (s : Nat × Bool) (env : AuditEnvelope) :
    ∃ n t, n ≤ 1 ∧ Settles (slowSink startedToo) env n s t ∧ t.1 + min n 1 ≤ s.1 := by
  obtain ⟨waits, asked⟩ := s
  cases waits with
  | zero => exact ⟨0, (0, asked), Nat.zero_le _, .atOnce rfl, Nat.le_refl _⟩
  | succ waits =>
    cases asked with
    | true => exact ⟨0, (waits, false), Nat.zero_le _, .atOnce rfl, Nat.le_succ _⟩
    | false =>
      by_cases hpends : (startedToo || env.sequence != 0) = true
      · have hsubmit : (slowSink startedToo).submit (waits + 1, false) [env] =
            (.pending 0, (waits + 1, true)) := by
          simp only [slowSink, List.getLast?_singleton, hpends, if_true]
        exact ⟨1, (waits, false), Nat.le_refl _, .pending hsubmit (.acked rfl rfl), Nat.le_refl _⟩
      · have hsubmit : (slowSink startedToo).submit (waits + 1, false) [env] =
            (.ack (ackFor env), (waits + 1, false)) := by
          simp only [slowSink, List.getLast?_singleton, hpends, ackFor]
          rfl
        exact ⟨0, (waits + 1, false), Nat.zero_le _, .atOnce hsubmit, Nat.le_refl _⟩

theorem patient_slowSink (startedToo : Bool) : Patient (slowSink startedToo) Prod.fst := by
  intro s env
  obtain ⟨n, t, hn, hsettles, hcredit⟩ := slowSink_settles startedToo s env
  exact ⟨n, t, hn.trans (by decide), hsettles, hcredit⟩

/-- A program whose actions are known. -/
def scriptCore : Core (List Action) where
  prepare _ := .prepared
  install c := (false, c)
  beginExecution c := ([], .ok, c)
  startSlice c _ := c
  next
    | [] => (.done .value, [])
    | action :: rest => (action, rest)
  pendingHostCall _ := none
  finalizeSession c _ := c
  abortSession c := c
  checkpointCancel c := (true, c)
  checkpointDeadline c := (some true, c)
  takePendingExit c := (none, c)
  takePendingBudgetResource c := (none, c)
  clear c := c
  usage _ := {}

theorem uninterrupted_scriptCore : scriptCore.Uninterrupted := fun _ => ⟨rfl, rfl⟩

/-- One charge, then the end. -/
def oneCharge : List Action := [.note (.charge .fuel .statement 1 1)]

/-- A host call that finished, then a panic. -/
def finishedThenPanic : List Action :=
  [.note (.hostCall [.hostCallFinished 1 1 .success ⟨[]⟩ 0 none .none]), .unwinds]

/-- An audit budget of eight events. -/
def budget8 : AuditBudget := auditBudgetOf 8 (1024 * KIB) (by decide) (by decide)

theorem backpressure_transparent_of_one_wait :
    ((runAudited (requestOf budget8) scriptCore syncSink false 12).run
        (.initial (requestOf budget8) oneCharge () {} false false)).1 =
          .ok (.outcome (.completed {})) ∧
      ∃ st, (runAudited (requestOf budget8) scriptCore (slowSink false) false 12).run
          (.initial (requestOf budget8) oneCharge (1, false) {} false false) =
            (.ok (.outcome (.completed {})), st) ∧
        ((∀ usage, ExecutionOutcome.completed {} ≠ .internalFailure usage) →
          DeliveredOnce (requestOf budget8) st.log) := by
  have hstarted : StartedAtOnce (requestOf budget8) (slowSink false) Prod.fst 1 (1, false) := by
    rintro _ ⟨⟩
    exact ⟨(1, false), rfl, Nat.le_refl _⟩
  have hroom : ((runAudited ((requestOf budget8).sparing 1) scriptCore syncSink false 8).run
      (.initial ((requestOf budget8).sparing 1) oneCharge () {} false false)).1 =
        .ok (.outcome (.completed {})) := by cbv
  exact backpressure_transparent rfl uninterrupted_scriptCore (patient_slowSink false) hstarted
    hroom (by decide)

/-- The claimed transparency fails. A sink that answers Started Pending once ends the run
in an audit failure. Among the sinks that wait after Started, one that waits for every
batch keeps a flush going until the audit budget is used up. A panic leaves what was
recorded undelivered. -/
theorem backpressure_law_fails :
    (¬ ∀ (rq : AuditedRequest) (core : Core (List Action)) (sink : AuditSink (Nat × Bool))
        (c : List Action) (s : Nat × Bool) (o : ExecutionOutcome),
      rq.auditBudget.validate = .ok () → core.Uninterrupted →
      (∀ s env, ∃ n t, n < auditBackpressureMaxResends ∧ Settles sink env n s t) →
      (∃ fuel, ((runAudited rq core syncSink false fuel).run
        (.initial rq c () {} false false)).1 = .ok (.outcome o)) →
      ∃ fuel, ((runAudited rq core sink false fuel).run
        (.initial rq c s {} false false)).1 = .ok (.outcome o)) ∧
    ((runAudited (requestOf budget8) scriptCore (slowSink false) false 12).run
        (.initial (requestOf budget8) oneCharge (100, false) {} false false)).1 =
      .ok (.auditFailed .completed .budgetExceeded) ∧
    (recordedOf ((runAudited (requestOf budget8) scriptCore syncSink false 12).run
        (.initial (requestOf budget8) finishedThenPanic () {} false false)).2.log).length = 1 ∧
    (ackedOf ((runAudited (requestOf budget8) scriptCore syncSink false 12).run
        (.initial (requestOf budget8) finishedThenPanic () {} false false)).2.log).map
          (fun env => (env.event.isStarted, env.event.isTerminal)) =
      [(true, false), (false, true)] := by
  refine ⟨fun h => ?_, by cbv, by cbv, by cbv⟩
  obtain ⟨fuel, hrun⟩ := h (requestOf budget8) scriptCore (slowSink true) [] (1, false)
    (.completed {}) rfl uninterrupted_scriptCore
    (fun s env => by
      obtain ⟨n, t, hn, hsettles, -⟩ := slowSink_settles true s env
      exact ⟨n, t, Nat.lt_of_le_of_lt hn (by decide), hsettles⟩) ⟨12, by cbv⟩
  have hfailed : ((runAudited (requestOf budget8) scriptCore (slowSink true) false fuel).run
      (.initial (requestOf budget8) [] (1, false) {} false false)).1 =
        .ok (.auditFailed .auditFailure .sink) := by cbv
  rw [hfailed] at hrun
  cases hrun

end Tsumugi.Audit
