import Tsumugi.Audit.Panics

/-!
# The panic boundary of the engine (`embedding.rs`)

`run` and `run_audited` are entered with or without a sink. Panics are caught in three
places: around the whole run without a sink, and, with one, around `prepare_program` and
around the driver.

Results:
1. `panic_boundary_iff`: after a run in which a panic happened, the engine has kept the
   boundary exactly when the panic was in one of those places and the Terminal that
   followed it was acknowledged.
-/

namespace Tsumugi.Audit

open Budget Word Run StreamLawLemmas DeliveryLemmas

variable {C S : Type}

/-! ## A run without a sink -/

section

variable (core : Core C)

/-- The loop of `run_transactional`. -/
def runSlices : Nat → Run C S ExecutionOutcome
  | 0 => Proc.stop .outOfFuel
  | fuel + 1 => do
    match ← runSlice core fuel maxU64 with
    | .terminal result => terminalOf core result
    | _ => runSlices fuel

/-- `run_transactional`. -/
def runTransactional (fuel : Nat) : Run C S ExecutionOutcome := do
  match ← beginExecution core with
  | .fails error => terminalFrom core error
  | _ => runSlices core fuel

/-- `execute_program`. -/
def executeProgram (fuel : Nat) : Run C S ExecutionOutcome := do
  let cancelled ← onCore core.install
  record fun _ => ((), {})
  if cancelled then do
    let usage ← Proc.gets fun st => core.usage st.core
    pure (.cancelled usage)
  else do
    let outcome ← runTransactional core fuel
    onCore fun c => ((), core.clear c)
    pure outcome

/-- `run_inner`. -/
def runInner (fuel : Nat) : Run C S ExecutionOutcome := do
  match ← Proc.gets fun st => core.prepare st.core with
  | .unwinds => panics .prepare
  | .refused outcome => pure outcome
  | .prepared => executeProgram core fuel

/-- `run_guarded`. -/
def runGuarded (fuel : Nat) : Run C S ExecutionOutcome := do
  match ← (runInner core fuel).attempt Stop.panic with
  | .ok outcome => pure outcome
  | .error () => do
    let usage ← Proc.gets fun st => core.usage st.core
    pure (.internalFailure usage)

end

/-! ## The entries of the engine -/

/-- The outcome for which the context is poisoned. -/
def AuditedOutcome.isInternalFailure : AuditedOutcome → Bool
  | .outcome (.internalFailure _) => true
  | _ => false

/-- `into_execution_outcome`. -/
def AuditedOutcome.intoExecutionOutcome : AuditedOutcome → ExecutionOutcome
  | .outcome o => o
  | .auditFailed _ _ => .cancelled {}

/-- The checks and the flags that both entries put around the run. -/
def enter (reentered : Bool) (body : Run C S AuditedOutcome) : Run C S AuditedOutcome := do
  let st ← Proc.gets id
  if reentered || st.poisoned || st.running then pure (.outcome (.internalFailure {}))
  else do
    Proc.modify fun st => { st with running := true }
    let audited ← body
    Proc.modify fun st =>
      { st with running := false, poisoned := st.poisoned || audited.isInternalFailure }
    pure audited

/-- What an engine is called with. -/
structure Call (C S : Type) where
  request : AuditedRequest
  core : Core C
  sink : Option (AuditSink S)
  reentered : Bool
  fuel : Nat

/-- The run inside the flags. -/
def Call.body (call : Call C S) : Run C S AuditedOutcome :=
  match call.sink with
  | none => do
    let outcome ← runGuarded call.core call.fuel
    pure (.outcome outcome)
  | some sink => runAuditedInner call.request call.core sink call.fuel

/-- `Engine::run_audited`. -/
def Call.runAudited (call : Call C S) : Run C S AuditedOutcome := enter call.reentered call.body

/-- `Engine::run`. -/
def Call.run (call : Call C S) : Run C S ExecutionOutcome := do
  let audited ← call.runAudited
  pure audited.intoExecutionOutcome

/-- With a sink it is the audited run. -/
theorem Call.runAudited_sink (rq : AuditedRequest) (core : Core C) (sink : AuditSink S)
    (reentered : Bool) (fuel : Nat) :
    Call.runAudited ⟨rq, core, some sink, reentered, fuel⟩ =
      Audit.runAudited rq core sink reentered fuel := rfl

/-! ## The boundary -/

/-- A panic in this place is caught. -/
def PanicSite.isCaught : PanicSite → Bool
  | .prepare => true
  | site => site.inDriver

/-- A Terminal has been acknowledged. -/
def TerminalAcked (log : List LogEntry) : Prop :=
  ∃ env ∈ ackedOf log, env.event.isTerminal = true

/-- The panics of the run were caught, and a run that was started has delivered its
Terminal. -/
def Contained (log : List LogEntry) : Prop :=
  (∀ site ∈ panicsOf log, site.isCaught = true) ∧ (StartedAppended log → TerminalAcked log)

/-- The state after the call. -/
def Call.after (call : Call C S) (st : RunState C S) : RunState C S := (call.runAudited.run st).2

/-- Any later call on this state is refused and changes nothing. -/
def Refuses (st : RunState C S) : Prop :=
  ∀ call : Call C S, call.runAudited.run st = (.ok (.outcome (.internalFailure {})), st) ∧
    call.run.run st = (.ok (.internalFailure {}), st)

/-- What the host is promised of a call in which something panicked. -/
structure KeepsBoundary (call : Call C S) (st : RunState C S) : Prop where
  audited : ∃ usage, (call.runAudited.run st).1 = .ok (.outcome (.internalFailure usage))
  outcome : ∃ usage, (call.run.run st).1 = .ok (.internalFailure usage)
  not_running : (call.after st).running = false
  poisoned : (call.after st).poisoned = true
  refuses : Refuses (call.after st)
  one_terminal : StartedAppended (call.after st).log →
    ((appendedOf (call.after st).log).filter (·.event.isTerminal)).length = 1

namespace PanicLemmas

/-- What the part before the flags are cleared does with the panics of its log. -/
inductive Verdict (r : Except Stop AuditedOutcome) (log : List LogEntry) : Prop
  | quiet : panicsOf log = [] → Verdict r log
  | kept (usage : BudgetUsage) : r = .ok (.outcome (.internalFailure usage)) → Contained log →
      (StartedAppended log → ((appendedOf log).filter (·.event.isTerminal)).length = 1) →
      Verdict r log
  | broken : (∀ usage, r ≠ .ok (.outcome (.internalFailure usage))) → ¬ Contained log →
      Verdict r log

theorem not_contained_of_panic {log : List LogEntry} (site : PanicSite)
    (hmem : .panicked site ∈ log) (hsite : site.isCaught = false) : ¬ Contained log := fun h => by
  have := h.1 site (mem_panicsOf.mpr hmem)
  simp [hsite] at this

theorem not_contained_of_unacked {log : List LogEntry} (hstarted : StartedAppended log)
    (hacked : ¬ TerminalAcked log) : ¬ Contained log := fun h => hacked (h.2 hstarted)

/-! ### Without a sink -/

/-- Nothing but the evaluator and `prepare_program` is in the log. -/
theorem unaudited_runInner (core : Core C) (fuel : Nat) :
    Proc.Meets (adds fun entry => entry.ofEvaluator = true ∨ entry = .panicked .prepare)
      (runInner core fuel : Run C S ExecutionOutcome) := by
  have hevaluates : ∀ {α : Type} {m : Run C S α}, Evaluates m → Proc.Meets
      (adds fun entry => entry.ofEvaluator = true ∨ entry = .panicked .prepare) m := fun h =>
    h.mono fun ⟨hjournal, hadded⟩ => ⟨hjournal, added_mono hadded fun _ => .inl⟩
  have hslices : ∀ fuel, Evaluates (runSlices core fuel : Run C S ExecutionOutcome) := by
    intro fuel
    induction fuel with
    | zero => exact meets_outOfFuel
    | succ fuel ih =>
      refine Proc.meets_bind (evaluates_runSlice core fuel maxU64) fun slice => ?_
      cases slice with
      | terminal result => exact evaluates_terminalOf core result
      | _ => exact ih
  refine Proc.meets_bind (Proc.meets_gets _) fun answer => ?_
  cases answer with
  | unwinds => exact meets_panics (.inr rfl)
  | refused outcome => exact Proc.meets_pure _
  | prepared =>
    refine hevaluates ?_
    refine Proc.meets_bind (meets_onCore _) fun _ => ?_
    refine Proc.meets_bind (evaluates_record _) fun _ => ?_
    refine Proc.meets_ite (Proc.meets_bind (Proc.meets_gets _) fun _ => Proc.meets_pure _) ?_
    refine Proc.meets_bind ?_ fun _ =>
      Proc.meets_bind (meets_onCore _) fun _ => Proc.meets_pure _
    refine Proc.meets_bind (evaluates_beginExecution core) fun answer => ?_
    cases answer with
    | fails error => exact evaluates_terminalFrom core error
    | _ => exact hslices fuel

theorem verdict_runGuarded (core : Core C) (fuel : Nat) {st t : RunState C S}
    {r : Except Stop ExecutionOutcome} (hlog : st.log = [])
    (hrun : (runGuarded core fuel).run st = (r, t)) : Verdict (r.map .outcome) t.log := by
  have hinner := unaudited_runInner core fuel st
  rcases hi : (runInner core fuel).run st with ⟨stop | outcome, u⟩ <;> rw [hi] at hinner <;>
    obtain ⟨-, entries, hentries, hok, hpanics⟩ := hinner <;>
    obtain rfl : entries = u.log := by simpa [hlog] using hentries.symm
  · cases hstop : stop.panic with
    | some =>
      rw [runGuarded, Proc.bind_run_ok (Proc.attempt_run_some hi hstop)] at hrun
      cases hrun
      -- what `prepare_program` and the evaluator log is caught and appends nothing
      have hnone : ¬ StartedAppended t.log := by
        rintro ⟨env, henv, -⟩
        have := hok _ (mem_appendedOf.mp henv)
        simp [LogEntry.ofEvaluator] at this
      refine .kept _ rfl ⟨fun site hsite => ?_, fun h => absurd h hnone⟩ fun h => absurd h hnone
      have := hok _ (mem_panicsOf.mp hsite)
      cases site <;> simp_all [LogEntry.ofEvaluator, PanicSite.isCaught, PanicSite.inDriver]
    | none =>
      rw [runGuarded, Proc.bind_run_error (Proc.attempt_run_none hi hstop)] at hrun
      cases hrun
      exact .quiet (by_contra fun h =>
        ne_unwound_of_panic hstop (Option.some.inj (hpanics.mp h)))
  · rw [runGuarded, Proc.bind_run_ok (Proc.attempt_run_ok hi)] at hrun
    cases hrun
    exact .quiet (by_contra fun h => by cases hpanics.mp h)

/-! ### With a sink -/

/-- The log of a run that was started and has caught its panics, and has no Terminal. -/
structure Begun (log : List LogEntry) : Prop where
  started : StartedAppended log
  caught : ∀ site ∈ panicsOf log, site.isCaught = true
  open_appended : ∀ env ∈ appendedOf log, env.event.isTerminal = false
  open_acked : ∀ env ∈ ackedOf log, env.event.isTerminal = false

theorem Begun.broken {log log' : List LogEntry} (h : Begun log) {r : Except Stop AuditedOutcome}
    (hr : ∀ usage, r ≠ .ok (.outcome (.internalFailure usage))) (hlog : ∃ rest, log' = log ++ rest)
    (hacked : ackedOf log' = ackedOf log) : Verdict r log' := by
  obtain ⟨rest, rfl⟩ := hlog
  refine .broken hr (not_contained_of_unacked ?_ ?_)
  · obtain ⟨env, henv, hstarted⟩ := h.started
    exact ⟨env, by simp [henv], hstarted⟩
  · rintro ⟨env, henv, hterminal⟩
    rw [hacked] at henv
    simp [h.open_acked env henv] at hterminal

section

variable (rq : AuditedRequest) (executionId : Nat) (core : Core C) (sink : AuditSink S)

/-- The Terminal step: it keeps the boundary when it delivers the Terminal of a run whose
panic was caught. -/
theorem verdict_finish {outcome : ExecutionOutcome} {st t : RunState C S}
    {r : Except Stop AuditedOutcome} (hbegun : Begun st.log)
    (houtcome : panicsOf st.log ≠ [] → ∃ usage, outcome = .internalFailure usage)
    (hrun : (finish rq executionId core sink outcome).run st = (r, t)) : Verdict r t.log := by
  obtain ⟨exceeded, c, hexceeded⟩ := exceededResource_run core outcome st
  rw [finish, Proc.bind_run_ok hexceeded, Proc.bind_run_ok (Proc.gets_run _ _)] at hrun
  dsimp only at hrun
  generalize henv : envelope rq executionId st.journal.nextSequence
    (terminalEvent rq outcome exceeded) = env at hrun
  have hterminal : env.event.isTerminal = true := by rw [← henv]; rfl
  rcases happ : st.journal.appendTerminal env with failure | ⟨seq, j⟩
  · have happend := append_run_error (C := C) (S := S) { st with core := c } happ
    rw [Proc.bind_run_ok (Proc.attempt_run_some (f := Stop.failure) happend rfl)] at hrun
    cases hrun
    exact hbegun.broken (by simp) ⟨[], by simp⟩ rfl
  · have happend := append_run_ok (C := C) (S := S) { st with core := c } happ
    rw [Proc.bind_run_ok (Proc.attempt_run_ok happend)] at hrun
    have hends := deliver_ends executionId core sink env
      { st with core := c, journal := j, log := st.log ++ [.appended env] }
    rcases hd : (deliver executionId core sink env).run
      { st with core := c, journal := j, log := st.log ++ [.appended env] } with ⟨stop | _, u⟩ <;>
      rw [hd] at hends <;> obtain ⟨-, log, ⟨entries, rfl, hok, hpanics⟩, hlog⟩ := hends <;>
      obtain ⟨happended, hacked⟩ := unacked_silent hok
    · -- without an ack the result is a failure or a panic
      have hlog' : u.log = st.log ++ ([.appended env] ++ entries) := by
        simpa [Except.isOk, Except.toBool] using hlog
      have hacked' : ackedOf u.log = ackedOf st.log := by
        rw [hlog', ackedOf_append, ackedOf_append, hacked]
        simp [ackedOf]
      cases hstop : stop.failure with
      | some failure =>
        rw [Proc.bind_run_ok (Proc.attempt_run_some hd hstop)] at hrun
        cases hrun
        exact hbegun.broken (by simp) ⟨_, hlog'⟩ hacked'
      | none =>
        rw [Proc.bind_run_error (Proc.attempt_run_none hd hstop)] at hrun
        cases hrun
        exact hbegun.broken (by simp) ⟨_, hlog'⟩ hacked'
    · have hquiet : panicsOf entries = [] := by simpa [Proc.stopOf] using hpanics
      rw [Proc.bind_run_ok (Proc.attempt_run_ok hd)] at hrun
      cases hrun
      have hlog' : t.log = st.log ++ (.appended env :: entries ++ [.acked env]) := by
        simpa [Except.isOk, Except.toBool] using hlog
      have hpanicsOf : panicsOf t.log = panicsOf st.log := by
        simp only [hlog', panicsOf_append, List.cons_append]
        simpa [panicsOf] using hquiet
      by_cases hnone : panicsOf st.log = []
      · exact .quiet (hpanicsOf.trans hnone)
      · obtain ⟨usage, rfl⟩ := houtcome hnone
        refine .kept usage rfl ⟨?_, fun _ => ⟨env, ?_, hterminal⟩⟩ fun _ => ?_
        · rw [hpanicsOf]
          exact hbegun.caught
        · rw [hlog', ackedOf_append]
          simp [ackedOf]
        · have happendedOf : appendedOf t.log = appendedOf st.log ++ [env] := by
            rw [hlog', appendedOf_append, List.append_right_inj, List.cons_append]
            have : appendedOf (entries ++ [.acked env]) = [] := by
              rw [appendedOf_append, happended]
              simp [appendedOf]
            simpa [appendedOf] using this
          have hfilter : (appendedOf st.log).filter (·.event.isTerminal) = [] :=
            List.filter_eq_nil_iff.mpr fun env' henv' => by simp [hbegun.open_appended env' henv']
          rw [happendedOf, List.filter_append, hfilter]
          simp [hterminal]

/-- A panic at the envelope of Started or of a Terminal is not caught. -/
theorem verdict_of_panic {env : AuditEnvelope} {entries log : List LogEntry} {stop : Stop}
    (hinner : env.event.isInner = false) (hpanics : panicsOf entries ≠ [])
    (hok : ∀ entry ∈ entries, Unacked env entry) : Verdict (.error stop) (log ++ entries) := by
  obtain ⟨site, hsite⟩ := List.exists_mem_of_ne_nil _ hpanics
  obtain rfl : site = .delivery env.event := hok _ (mem_panicsOf.mp hsite)
  refine .broken (by simp) (not_contained_of_panic (.delivery env.event) ?_ hinner)
  exact List.mem_append_right _ (mem_panicsOf.mp hsite)

theorem verdict_failStarted {st t : RunState C S} {r : Except Stop AuditedOutcome}
    (hquiet : panicsOf st.log = []) (hrun : (failStarted rq executionId sink).run st = (r, t)) :
    Verdict r t.log := by
  rw [failStarted, Proc.bind_run_ok (Proc.gets_run _ _)] at hrun
  dsimp only at hrun
  generalize henv : envelope rq executionId st.journal.nextSequence
    (.terminal .auditFailure none {} none false false) = env at hrun
  have hinner : env.event.isInner = false := by rw [← henv]; rfl
  rcases happ : st.journal.appendTerminal env with failure | ⟨seq, j⟩
  · rw [Proc.bind_run_ok
      (Proc.attempt_run_some (f := Stop.failure) (append_run_error _ happ) rfl)] at hrun
    cases hrun
    exact .quiet hquiet
  · rw [Proc.bind_run_ok (Proc.attempt_run_ok (append_run_ok _ happ))] at hrun
    rcases hs : (submit sink env).run
      { st with journal := j, log := st.log ++ [.appended env] } with ⟨stop | answer, u⟩ <;>
      obtain ⟨-, entries, hlog, hok, hpanics⟩ := submit_ends sink hs
    · rw [Proc.bind_run_error hs] at hrun
      cases hrun
      rw [hlog]
      exact verdict_of_panic hinner (hpanics.mpr ⟨_, rfl⟩) hok
    · rw [Proc.bind_run_ok hs] at hrun
      cases hrun
      have hentries : panicsOf entries = [] := by simpa using hpanics
      refine .quiet ?_
      rw [hlog, panicsOf_append, panicsOf_append, hquiet, hentries]
      rfl

/-- What holds after Started and the driver: the run goes on to the Terminal step, or its
verdict is known. -/
def AfterDriver (r : Except Stop (Except AuditedOutcome ExecutionOutcome))
    (log : List LogEntry) : Prop :=
  match r with
  | .error stop => Verdict (.error stop) log
  | .ok (.error audited) => Verdict (.ok audited) log
  | .ok (.ok outcome) =>
    Begun log ∧ (panicsOf log ≠ [] → ∃ usage, outcome = .internalFailure usage)

/-- The driver's entries leave a log begun that has Started, its ack and no panic. -/
theorem begun_append {log entries : List LogEntry} (hlog : panicsOf log = [])
    (hstarted : StartedAppended log) (happended : ∀ env ∈ appendedOf log, env.event.isStarted = true)
    (hacked : ∀ env ∈ ackedOf log, env.event.isStarted = true)
    (hok : ∀ entry ∈ entries, entry.inDriver = true) : Begun (log ++ entries) := by
  have hkind : ∀ env : AuditEnvelope, env.event.isStarted = true → env.event.isTerminal = false := by
    intro env h
    cases hevent : env.event <;> simp_all [AuditEvent.isStarted, AuditEvent.isTerminal]
  refine ⟨?_, ?_, ?_, ?_⟩
  · obtain ⟨env, henv, h⟩ := hstarted
    exact ⟨env, by simp [henv], h⟩
  · intro site hsite
    rw [panicsOf_append, hlog, List.nil_append] at hsite
    have := hok _ (mem_panicsOf.mp hsite)
    cases site <;> simp_all [LogEntry.inDriver, PanicSite.isCaught]
  · intro env henv
    rw [appendedOf_append] at henv
    rcases List.mem_append.mp henv with h | h
    · exact hkind env (happended env h)
    · have := hok _ (mem_appendedOf.mp h)
      simp_all [LogEntry.inDriver, AuditEvent.isInner]
  · intro env henv
    rw [ackedOf_append] at henv
    rcases List.mem_append.mp henv with h | h
    · exact hkind env (hacked env h)
    · have := hok _ (mem_ackedOf.mp h)
      simp_all [LogEntry.inDriver, AuditEvent.isInner]

theorem afterDriver_runStarted {fuel : Nat} {st t : RunState C S}
    {r : Except Stop (Except AuditedOutcome ExecutionOutcome)} (hempty : st.log = [])
    (hrun : (runStarted rq executionId core sink fuel).run st = (r, t)) : AfterDriver r t.log := by
  rw [runStarted] at hrun
  generalize henv : envelope rq executionId 0 (startedEvent rq) = env at hrun
  have hkind : env.event.isStarted = true := by rw [← henv]; rfl
  have hinner : env.event.isInner = false := by rw [← henv]; rfl
  rcases happ : st.journal.appendNormal env with failure | ⟨seq, j⟩
  · rw [Proc.bind_run_ok
      (Proc.attempt_run_some (f := Stop.failure) (append_run_error _ happ) rfl)] at hrun
    cases hrun
    exact .quiet (by rw [hempty]; rfl)
  rw [Proc.bind_run_ok (Proc.attempt_run_ok (append_run_ok _ happ)), hempty, List.nil_append] at hrun
  dsimp only at hrun
  obtain ⟨-, -, -, -, -, -, hj⟩ := AuditJournal.appendNormal_spec happ
  have hstarted : j.started = true := by simp [hj, hkind]
  rcases hs : (submit sink env).run { st with journal := j, log := [.appended env] }
    with ⟨stop | answer, u⟩ <;>
    obtain ⟨hjournal, entries, hlog, hok, hpanics⟩ := submit_ends sink hs
  · rw [Proc.bind_run_error hs] at hrun
    cases hrun
    rw [hlog]
    exact verdict_of_panic hinner (hpanics.mpr ⟨_, rfl⟩) hok
  rw [Proc.bind_run_ok hs] at hrun
  have hentries : panicsOf entries = [] := by simpa using hpanics
  have hquiet : panicsOf u.log = [] := by rw [hlog, panicsOf_append, hentries]; rfl
  obtain ⟨happended, hacked⟩ := unacked_silent hok
  have hfail : ((failStarted rq executionId sink >>= fun audited => pure (.error audited) :
      Run C S (Except AuditedOutcome ExecutionOutcome)).run u = (r, t)) → AfterDriver r t.log := by
    intro h
    rcases hf : (failStarted rq executionId sink).run u with ⟨stop | audited, v⟩
    · rw [Proc.bind_run_error hf] at h
      cases h
      exact verdict_failStarted rq executionId sink hquiet hf
    · rw [Proc.bind_run_ok hf] at h
      cases h
      exact verdict_failStarted rq executionId sink hquiet hf
  cases answer with
  | ack ack =>
    dsimp only at hrun
    split at hrun
    · rw [trace, Proc.bind_run_ok (Proc.modify_run _ _)] at hrun
      rcases hg : (guardedDriver rq executionId core sink fuel).run
        { u with log := u.log ++ [.acked env] } with ⟨stop | drive, v⟩ <;>
        obtain ⟨-, driven, hdriven, hdriver, -, hcaught⟩ := guardedDriver_ends rq executionId core
          sink fuel hg (by rw [hjournal]; exact hstarted) <;>
        have hpanicsOf : panicsOf v.log = panicsOf driven := by
          rw [hdriven, panicsOf_append, panicsOf_append, hquiet]
          rfl
      · rw [Proc.bind_run_error hg] at hrun
        cases hrun
        refine .quiet (by_contra fun h => ?_)
        obtain ⟨usage, husage⟩ := hcaught (hpanicsOf ▸ h)
        cases husage
      · rw [Proc.bind_run_ok hg] at hrun
        cases drive with
        | failed withheld failure =>
          cases hrun
          refine .quiet (by_contra fun h => ?_)
          obtain ⟨usage, husage⟩ := hcaught (hpanicsOf ▸ h)
          cases husage
        | terminal outcome =>
          cases hrun
          refine ⟨?_, fun h => ?_⟩
          · obtain ⟨hfirst, hfirst'⟩ := firstAck_events hok
            rw [← hlog] at hfirst hfirst'
            rw [hdriven]
            refine begun_append (by rw [panicsOf_append, hquiet]; rfl)
              ⟨env, by simp [hfirst], hkind⟩ ?_ ?_ hdriver
            · simpa [hfirst] using hkind
            · simpa [hfirst'] using hkind
          · obtain ⟨usage, husage⟩ := hcaught (hpanicsOf ▸ h)
            cases husage
            exact ⟨usage, rfl⟩
    · exact hfail hrun
  | _ => exact hfail hrun

theorem verdict_runAuditedInner {fuel : Nat} {st t : RunState C S}
    {r : Except Stop AuditedOutcome} (hempty : st.log = [])
    (hrun : (runAuditedInner rq core sink fuel).run st = (r, t)) : Verdict r t.log := by
  simp only [runAuditedInner, runToOutcome, Proc.bind_run, Proc.gets_run] at hrun
  rcases hprepare : core.prepare st.core with _ | refused | _ <;>
    simp only [hprepare] at hrun
  · rcases hid : rq.executionId with _ | executionId <;> simp only [hid] at hrun
    · cases hrun
      exact .quiet (by rw [hempty]; rfl)
    by_cases htime : rq.timestamp.isNone = true
    · -- the clock is read outside of all boundaries
      simp only [if_pos htime, panics, trace, Proc.bind_run, Proc.modify_run,
        Proc.stop_run] at hrun
      cases hrun
      exact .broken (by simp)
        (not_contained_of_panic .timestamp (by simp) rfl)
    · simp only [if_neg htime, Proc.bind_run] at hrun
      rcases hs : (runStarted rq executionId core sink fuel).run st with ⟨stop | audited | outcome, u⟩ <;>
        have hafter := afterDriver_runStarted rq executionId core sink hempty hs <;>
        simp only [hs, Proc.pure_run, Except.map] at hrun
      · cases hrun
        exact hafter
      · cases hrun
        exact hafter
      · exact verdict_finish rq executionId core sink hafter.1 hafter.2 hrun
  · cases hrun
    exact .quiet (by rw [hempty]; rfl)
  · simp only [trace, Proc.bind_run, Proc.modify_run, Proc.gets_run, Proc.pure_run] at hrun
    cases hrun
    have hnone : ¬ StartedAppended (st.log ++ [.panicked .prepare]) := by
      rw [hempty]
      rintro ⟨env, henv, -⟩
      cases henv
    refine .kept _ rfl ⟨?_, fun h => absurd h hnone⟩ fun h => absurd h hnone
    simp [hempty, panicsOf, PanicSite.isCaught]

end

theorem verdict_body {call : Call C S} {st t : RunState C S} {r : Except Stop AuditedOutcome}
    (hempty : st.log = []) (hrun : call.body.run st = (r, t)) : Verdict r t.log := by
  rcases hsink : call.sink with _ | sink <;> simp only [Call.body, hsink] at hrun
  · rcases hg : (runGuarded call.core call.fuel).run st with ⟨stop | outcome, u⟩
    · rw [Proc.bind_run_error hg] at hrun
      cases hrun
      exact verdict_runGuarded call.core call.fuel hempty hg
    · rw [Proc.bind_run_ok hg] at hrun
      cases hrun
      exact verdict_runGuarded call.core call.fuel hempty hg
  · exact verdict_runAuditedInner call.request call.core sink hempty hrun

/-! ### The entries -/

theorem refuses_of_flags {st : RunState C S} (h : (st.poisoned || st.running) = true) :
    Refuses st := by
  intro call
  have hchecks : (call.reentered || st.poisoned || st.running) = true := by
    rw [Bool.or_assoc, h, Bool.or_true]
  have hrefused : call.runAudited.run st = (.ok (.outcome (.internalFailure {})), st) := by
    rw [Call.runAudited, enter, Proc.bind_run_ok (Proc.gets_run _ _), id, if_pos hchecks]
    rfl
  exact ⟨hrefused, by rw [Call.run, Proc.bind_run_ok hrefused]; rfl⟩

/-- A call that is not refused is its body between the flags. -/
theorem runAudited_body {call : Call C S} {st t : RunState C S} {r : Except Stop AuditedOutcome}
    (h : ¬ (call.reentered || st.poisoned || st.running) = true)
    (hbody : call.body.run { st with running := true } = (r, t)) :
    call.runAudited.run st = (r, match r with
      | .ok audited =>
        { t with running := false, poisoned := t.poisoned || audited.isInternalFailure }
      | .error _ => t) := by
  rw [Call.runAudited, enter, Proc.bind_run_ok (Proc.gets_run _ _), id, if_neg h,
    Proc.bind_run_ok (Proc.modify_run _ _)]
  cases r with
  | ok audited =>
    rw [Proc.bind_run_ok hbody]
    rfl
  | error stop => rw [Proc.bind_run_error hbody]

end PanicLemmas

open PanicLemmas in
/-- After a call in which something panicked, the engine has kept the boundary exactly when
the panic lies in `prepare_program` or in what `run_guarded` or the driver's boundary
covers, and the Terminal of a run that was started was acknowledged. -/
theorem panic_boundary_iff (call : Call C S) (c : C) (s : S) (r : Recorder)
    (poisoned running : Bool)
    (hpanic : panicsOf (call.after (.initial call.request c s r poisoned running)).log ≠ []) :
    KeepsBoundary call (.initial call.request c s r poisoned running) ↔
      Contained (call.after (.initial call.request c s r poisoned running)).log := by
  generalize hst : RunState.initial call.request c s r poisoned running = st at hpanic ⊢
  have hempty : st.log = [] := by rw [← hst]; rfl
  by_cases hchecks : (call.reentered || st.poisoned || st.running) = true
  · refine absurd ?_ hpanic
    rw [Call.after, Call.runAudited, enter, Proc.bind_run_ok (Proc.gets_run _ _), id,
      if_pos hchecks]
    simp [hempty, panicsOf]
  rcases hbody : call.body.run { st with running := true } with ⟨result, t⟩
  have hrun := runAudited_body hchecks hbody
  have hlog : (call.after st).log = t.log := by
    rw [Call.after, hrun]
    cases result <;> rfl
  rw [hlog] at hpanic ⊢
  have hempty' : ({ st with running := true } : RunState C S).log = [] := hempty
  cases verdict_body hempty' hbody with
  | quiet hquiet => exact absurd hquiet hpanic
  | broken hresult hcontained =>
    refine ⟨fun h => ?_, fun h => absurd h hcontained⟩
    obtain ⟨usage, husage⟩ := h.audited
    rw [hrun] at husage
    exact absurd husage (hresult usage)
  | kept usage hresult hcontained hterminal =>
    subst hresult
    have hpoisoned : (call.after st).poisoned = true := by
      rw [Call.after, hrun]
      simp [AuditedOutcome.isInternalFailure]
    refine ⟨fun _ => hcontained, fun _ => ⟨⟨usage, by rw [hrun]⟩, ⟨usage, ?_⟩, ?_, hpoisoned,
      refuses_of_flags (by simp [hpoisoned]), ?_⟩⟩
    · rw [Call.run, Proc.bind_run_ok hrun]
      rfl
    · rw [Call.after, hrun]
    · rw [hlog]
      exact hterminal

/-! ## Concrete runs -/

/-- The evaluator panics in its first step; the sink acknowledges everything. -/
def evaluatorPanic : Call Unit Unit :=
  ⟨requestOf budget100KiB, oneStepCore .unwinds, some syncSink, false, 5⟩

theorem panic_boundary_of_evaluator :
    KeepsBoundary evaluatorPanic (.initial evaluatorPanic.request () () {} false false) := by
  have hpanics : panicsOf (evaluatorPanic.after
      (.initial evaluatorPanic.request () () {} false false)).log = [.evaluator] := rfl
  refine (panic_boundary_iff evaluatorPanic () () {} false false (by simp [hpanics])).mpr ?_
  refine ⟨by simp [hpanics, PanicSite.isCaught, PanicSite.inDriver], fun _ => ?_⟩
  exact ⟨_, List.mem_of_getLast? rfl, rfl⟩

/-- A sink that panics at every submit. -/
def panickingSink : AuditSink Unit where
  submit s _ := (.unwinds, s)
  registerWaker s _ := s
  tryTake s _ := (none, s)
  cancel s _ := s

/-- The sink panics when it is given Started. -/
def startedPanic : Call Unit Unit :=
  ⟨requestOf budget100KiB, oneStepCore (.done .value), some panickingSink, false, 5⟩

/-- The panic of the sink at Started unwinds the run: the context is left running and is not
poisoned. -/
theorem started_panic_unwinds :
    (startedPanic.runAudited.run (.initial startedPanic.request () () {} false false)).1 =
        .error .unwound ∧
      (startedPanic.run.run (.initial startedPanic.request () () {} false false)).1 =
        .error .unwound ∧
      (startedPanic.after (.initial startedPanic.request () () {} false false)).running = true ∧
      (startedPanic.after (.initial startedPanic.request () () {} false false)).poisoned = false ∧
      panicsOf (startedPanic.after (.initial startedPanic.request () () {} false false)).log ≠ [] ∧
      ¬ KeepsBoundary startedPanic (.initial startedPanic.request () () {} false false) := by
  refine ⟨rfl, rfl, rfl, rfl, List.cons_ne_nil _ _, fun h => ?_⟩
  exact absurd h.poisoned Bool.false_ne_true

end Tsumugi.Audit
