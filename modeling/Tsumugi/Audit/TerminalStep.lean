import Tsumugi.Audit.Panics
import Tsumugi.Audit.Drive

/-!
# How a run comes to its Terminal

A Terminal is appended in two places: when Started gets no ack, and when the driver
has returned an outcome. Between the driver and the end of the run the core is only
asked for the resource of a budget stop, and for interrupts while the ack is awaited.

Results:
1. `started_ends`: how Started and the driver end.
2. `terminal_comes`: a Terminal of a run whose driver did not panic comes in one of the
   two ways.
-/

namespace Tsumugi.Audit

open Budget Run PanicLemmas StreamLawLemmas TallyLemmas

variable {C S V : Type}

/-! ## Started -/

section

variable (rq : AuditedRequest) (executionId : Nat) (core : Core C) (sink : AuditSink S)

/-- The envelope of Started. -/
def startedEnvelope : AuditEnvelope := envelope rq executionId 0 (startedEvent rq)

/-- The sink acknowledges Started at once. -/
def answersStarted (s : S) : Bool :=
  match (sink.submit s [startedEnvelope rq executionId]).1 with
  | .ack ack => ackOk executionId ack 0
  | _ => false

/-- Started has been appended and submitted. -/
structure Opened (st u : RunState C S) : Prop where
  core : u.core = st.core
  journal : ∃ seq, st.journal.appendNormal (startedEnvelope rq executionId) = .ok (seq, u.journal)
  log : ∃ entries, u.log = st.log ++ [.appended (startedEnvelope rq executionId)] ++ entries ∧
    (∀ entry ∈ entries, Unacked (startedEnvelope rq executionId) entry) ∧ panicsOf entries = []

/-- The answer of the driver, for the Terminal step. -/
def AuditDrive.answer : AuditDrive → Except AuditedOutcome ExecutionOutcome
  | .terminal outcome => .ok outcome
  | .failed withheld failure => .error (.auditFailed withheld failure)

/-- How Started and the driver end. -/
inductive StartedEnds (fuel : Nat) (st : RunState C S) :
    Except Stop (Except AuditedOutcome ExecutionOutcome) → RunState C S → Prop
  /-- The journal has no room. -/
  | refused (failure : AuditFailure) :
      StartedEnds fuel st (.ok (.error (.auditFailed .internalFailure failure))) st
  /-- The sink panics. -/
  | unwound {entries : List LogEntry} {stop : Stop} {t : RunState C S} :
      t.log = st.log ++ [.appended (startedEnvelope rq executionId)] ++ entries →
      (∀ entry ∈ entries, Unacked (startedEnvelope rq executionId) entry) →
      panicsOf entries ≠ [] → StartedEnds fuel st (.error stop) t
  /-- There is no ack. -/
  | unacked {u t : RunState C S} {r : Except Stop AuditedOutcome} :
      answersStarted rq executionId sink st.sink = false → Opened rq executionId st u →
      (failStarted rq executionId sink).run u = (r, t) → StartedEnds fuel st (r.map .error) t
  /-- The driver runs. -/
  | driven {u t : RunState C S} {r : Except Stop AuditDrive} :
      answersStarted rq executionId sink st.sink = true → Opened rq executionId st u →
      (guardedDriver rq executionId core sink fuel).run
        { u with log := u.log ++ [.acked (startedEnvelope rq executionId)] } = (r, t) →
      StartedEnds fuel st (r.map AuditDrive.answer) t

theorem submit_answers {st u : RunState C S} {env : AuditEnvelope} {answer : AuditSubmit}
    (h : (submit sink env).run st = (.ok answer, u)) : answer = (sink.submit st.sink [env]).1 := by
  simp only [submit, trace, Proc.bind_run, Proc.modify_run, Proc.update_run] at h
  cases hanswer : (sink.submit st.sink [env]).1 <;>
    simp only [hanswer, panics, trace, Proc.bind_run, Proc.modify_run, Proc.stop_run,
      Proc.pure_run, Prod.mk.injEq, reduceCtorEq, Except.ok.injEq, false_and] at h <;>
    exact h.1.symm

theorem started_ends {fuel : Nat} {st t : RunState C S}
    {r : Except Stop (Except AuditedOutcome ExecutionOutcome)}
    (hrun : (runStarted rq executionId core sink fuel).run st = (r, t)) :
    StartedEnds rq executionId core sink fuel st r t := by
  rw [runStarted, ← startedEnvelope] at hrun
  rcases happ : st.journal.appendNormal (startedEnvelope rq executionId) with failure | ⟨seq, j⟩
  · rw [Proc.bind_run_ok
      (Proc.attempt_run_some (f := Stop.failure) (append_run_error _ happ) rfl)] at hrun
    cases hrun
    exact .refused failure
  rw [Proc.bind_run_ok (Proc.attempt_run_ok (append_run_ok _ happ))] at hrun
  dsimp only at hrun
  rcases hs : (submit sink (startedEnvelope rq executionId)).run
    { st with journal := j, log := st.log ++ [.appended (startedEnvelope rq executionId)] }
    with ⟨stop | answer, u⟩ <;>
    obtain ⟨hjournal, entries, hlog, hok, hpanics⟩ := submit_ends sink hs
  · rw [Proc.bind_run_error hs] at hrun
    cases hrun
    exact .unwound hlog hok (hpanics.mpr ⟨_, rfl⟩)
  rw [Proc.bind_run_ok hs] at hrun
  have hsubmit : Unmoved (id : C → C)
      (submit sink (startedEnvelope rq executionId) : Run C S AuditSubmit) := unmoved_submit sink _
  have hcore : u.core = st.core := (hsubmit.ends hs).1
  have hopened : Opened rq executionId st u :=
    ⟨hcore, ⟨seq, by rw [hjournal]; exact happ⟩, entries, hlog, hok, by simpa using hpanics⟩
  have hanswer := submit_answers sink hs
  have hfail : answersStarted rq executionId sink st.sink = false →
      ((failStarted rq executionId sink >>= fun audited => pure (.error audited) :
        Run C S (Except AuditedOutcome ExecutionOutcome)).run u = (r, t)) →
      StartedEnds rq executionId core sink fuel st r t := by
    intro hno h
    rcases hf : (failStarted rq executionId sink).run u with ⟨stop | audited, v⟩
    · rw [Proc.bind_run_error hf] at h
      cases h
      exact .unacked hno hopened hf
    · rw [Proc.bind_run_ok hf] at h
      cases h
      exact .unacked hno hopened hf
  cases answer with
  | ack ack =>
    dsimp only at hrun
    split at hrun
    next hack =>
      rw [trace, Proc.bind_run_ok (Proc.modify_run _ _)] at hrun
      have hyes : answersStarted rq executionId sink st.sink = true := by
        simp [answersStarted, ← hanswer, hack]
      rcases hg : (guardedDriver rq executionId core sink fuel).run
        { u with log := u.log ++ [.acked (startedEnvelope rq executionId)] } with ⟨stop | drive, v⟩
      · rw [Proc.bind_run_error hg] at hrun
        cases hrun
        exact .driven hyes hopened hg
      · rw [Proc.bind_run_ok hg] at hrun
        cases drive with
        | terminal outcome =>
          cases hrun
          exact .driven hyes hopened hg
        | failed withheld failure =>
          cases hrun
          exact .driven hyes hopened hg
    next hack => exact hfail (by simp [answersStarted, ← hanswer, hack]) hrun
  | pending ticket => exact hfail (by simp [answersStarted, ← hanswer]) hrun
  | failed error => exact hfail (by simp [answersStarted, ← hanswer]) hrun
  | unwinds => exact hfail (by simp [answersStarted, ← hanswer]) hrun

/-! ## The Terminal step -/

/-- The emergency Terminal. -/
def emergencyEvent : AuditEvent := .terminal .auditFailure none {} none false false

/-- A part appends `event` at most, and nothing else. -/
def AppendsOnly (event : AuditEvent) (st t : RunState C S) : Prop :=
  ∃ rest, t.log = st.log ++ rest ∧ ∀ env ∈ appendedOf rest, env.event = event

theorem AppendsOnly.delta {event : AuditEvent} {st t : RunState C S} (h : AppendsOnly event st t)
    (hterminal : event.isTerminal = true) (side : Side) (resource : BudgetResource) :
    appendedDelta side resource t.log = appendedDelta side resource st.log := by
  obtain ⟨rest, hlog, hrest⟩ := h
  have hzero : appendedDelta side resource rest = 0 := by
    refine List.sum_eq_zero fun n hn => ?_
    simp only [List.map_map, List.mem_map, Function.comp] at hn
    obtain ⟨env, henv, rfl⟩ := hn
    rw [hrest env henv]
    cases event <;> simp_all [AuditEvent.isTerminal, AuditEvent.delta]
  rw [hlog, appendedDelta_append, hzero, Nat.add_zero]

theorem AppendsOnly.mem {event : AuditEvent} {st t : RunState C S} (h : AppendsOnly event st t)
    {env : AuditEnvelope} (henv : env ∈ appendedOf t.log) :
    env ∈ appendedOf st.log ∨ env.event = event := by
  obtain ⟨rest, hlog, hrest⟩ := h
  rw [hlog, appendedOf_append] at henv
  rcases List.mem_append.mp henv with henv | henv
  · exact .inl henv
  · exact .inr (hrest env henv)

theorem failStarted_ends {st t : RunState C S} {r : Except Stop AuditedOutcome}
    (hrun : (failStarted rq executionId sink).run st = (r, t)) :
    t.core = st.core ∧ AppendsOnly emergencyEvent st t := by
  rw [failStarted, Proc.bind_run_ok (Proc.gets_run _ _)] at hrun
  dsimp only at hrun
  generalize henv : envelope rq executionId st.journal.nextSequence
    (.terminal .auditFailure none {} none false false) = env at hrun
  have hevent : env.event = emergencyEvent := by rw [← henv]; rfl
  rcases happ : st.journal.appendTerminal env with failure | ⟨seq, j⟩
  · rw [Proc.bind_run_ok
      (Proc.attempt_run_some (f := Stop.failure) (append_run_error _ happ) rfl)] at hrun
    cases hrun
    exact ⟨rfl, [], by simp, by simp [appendedOf]⟩
  · rw [Proc.bind_run_ok (Proc.attempt_run_ok (append_run_ok _ happ))] at hrun
    have hsubmit : Unmoved (id : C → C) (submit sink env : Run C S AuditSubmit) :=
      unmoved_submit sink _
    have happends : ∀ {u : RunState C S} {answer},
        (submit sink env).run { st with journal := j, log := st.log ++ [.appended env] } =
          (answer, u) → u.core = st.core ∧ AppendsOnly emergencyEvent st u := by
      intro u answer hs
      obtain ⟨-, entries, hlog, hok, -⟩ := submit_ends sink hs
      refine ⟨(hsubmit.ends hs).1, .appended env :: entries, by rw [hlog]; simp, ?_⟩
      have happended : appendedOf (.appended env :: entries) = [env] := by
        rw [← List.singleton_append, appendedOf_append, (unacked_silent hok).1]
        rfl
      simp [happended, hevent]
    rcases hs : (submit sink env).run
      { st with journal := j, log := st.log ++ [.appended env] } with ⟨stop | answer, u⟩
    · rw [Proc.bind_run_error hs] at hrun
      cases hrun
      exact happends hs
    · rw [Proc.bind_run_ok hs] at hrun
      cases hrun
      exact happends hs

/-- The Terminal step takes the resource, and the core is seen no more. -/
theorem finish_ends {view : C → V} (hcancel : ∀ c, view (core.checkpointCancel c).2 = view c)
    (hdeadline : ∀ c, view (core.checkpointDeadline c).2 = view c) {outcome : ExecutionOutcome}
    {st t : RunState C S} {r : Except Stop AuditedOutcome}
    (hrun : (finish rq executionId core sink outcome).run st = (r, t)) :
    ∃ exceeded c, (exceededResource core outcome).run st = (.ok exceeded, { st with core := c }) ∧
      view t.core = view c ∧ AppendsOnly (terminalEvent rq outcome exceeded) st t := by
  obtain ⟨exceeded, c, hexceeded⟩ := exceededResource_run core outcome st
  refine ⟨exceeded, c, hexceeded, ?_⟩
  rw [finish, Proc.bind_run_ok hexceeded, Proc.bind_run_ok (Proc.gets_run _ _)] at hrun
  dsimp only at hrun
  generalize henv : envelope rq executionId st.journal.nextSequence
    (terminalEvent rq outcome exceeded) = env at hrun
  have hevent : env.event = terminalEvent rq outcome exceeded := by rw [← henv]; rfl
  rcases happ : st.journal.appendTerminal env with failure | ⟨seq, j⟩
  · have happend := append_run_error (C := C) (S := S) { st with core := c } happ
    rw [Proc.bind_run_ok (Proc.attempt_run_some (f := Stop.failure) happend rfl)] at hrun
    cases hrun
    exact ⟨rfl, [], by simp, by simp [appendedOf]⟩
  · have happend := append_run_ok (C := C) (S := S) { st with core := c } happ
    rw [Proc.bind_run_ok (Proc.attempt_run_ok happend)] at hrun
    have hends := deliver_ends executionId core sink env
      { st with core := c, journal := j, log := st.log ++ [.appended env] }
    have hview := unmoved_deliver core sink executionId hcancel hdeadline env
    rcases hd : (deliver executionId core sink env).run
      { st with core := c, journal := j, log := st.log ++ [.appended env] } with ⟨result, u⟩
    rw [hd] at hends
    obtain ⟨-, log, ⟨entries, rfl, hok, -⟩, hlog⟩ := hends
    have happends : AppendsOnly (terminalEvent rq outcome exceeded) st u := by
      refine ⟨.appended env :: entries ++ (if result.isOk then [.acked env] else []),
        by simpa using hlog, ?_⟩
      have hacked : appendedOf (if result.isOk then [LogEntry.acked env] else []) = [] := by
        split <;> rfl
      have happended : appendedOf (.appended env :: entries ++
          (if result.isOk then [.acked env] else [])) = [env] := by
        rw [List.cons_append, ← List.singleton_append, appendedOf_append, appendedOf_append,
          (unacked_silent hok).1, hacked]
        rfl
      intro env' henv'
      rw [happended] at henv'
      rw [List.mem_singleton.mp henv', hevent]
    suffices t = u by rw [this]; exact ⟨(hview.ends hd).1, happends⟩
    rcases result with stop | ⟨⟩
    · cases hstop : stop.failure with
      | some failure =>
        rw [Proc.bind_run_ok (Proc.attempt_run_some hd hstop)] at hrun
        cases hrun
        rfl
      | none =>
        rw [Proc.bind_run_error (Proc.attempt_run_none hd hstop)] at hrun
        cases hrun
        rfl
    · rw [Proc.bind_run_ok (Proc.attempt_run_ok hd)] at hrun
      cases hrun
      rfl

/-! ## The whole run -/

/-- How a run comes to the Terminal that it appends. -/
inductive TerminalComes (fuel : Nat) (view : C → V) (st t : RunState C S) : AuditEvent → Prop
  /-- Started has no ack. -/
  | emergency : answersStarted rq executionId sink st.sink = false → t.core = st.core →
      (∀ side resource, appendedDelta side resource t.log = 0) →
      TerminalComes fuel view st t emergencyEvent
  /-- The driver has returned an outcome. -/
  | delivered {u v : RunState C S} {c : C} (outcome : ExecutionOutcome)
      (exceeded : Option BudgetResource) :
      answersStarted rq executionId sink st.sink = true →
      (u.core = st.core ∧ ∀ side resource, appendedDelta side resource u.log = 0) →
      (runAuditedDriver rq executionId core sink fuel).run u = (.ok (.terminal outcome), v) →
      (exceededResource core outcome).run v = (.ok exceeded, { v with core := c }) →
      view t.core = view c →
      (∀ side resource, appendedDelta side resource t.log = appendedDelta side resource v.log) →
      TerminalComes fuel view st t (terminalEvent rq outcome exceeded)

/-- Started is all that a run has appended when it opens. -/
theorem Opened.appended {st u : RunState C S} (h : Opened rq executionId st u)
    (hempty : st.log = []) : appendedOf u.log = [startedEnvelope rq executionId] := by
  obtain ⟨entries, hlog, hok, -⟩ := h.log
  rw [hlog, hempty, List.nil_append, appendedOf_append, (unacked_silent hok).1]
  rfl

theorem appendedDelta_started {log : List LogEntry}
    (h : appendedOf log = [startedEnvelope rq executionId]) (side : Side)
    (resource : BudgetResource) : appendedDelta side resource log = 0 := by
  rw [appendedDelta, h]
  rfl

/-- The driver that unwinds has left a panic of its own in the log. -/
theorem guardedDriver_quiet {fuel : Nat} {st t : RunState C S} {r : Except Stop AuditDrive}
    (hrun : (guardedDriver rq executionId core sink fuel).run st = (r, t))
    (hstarted : st.journal.started = true)
    (hquiet : ∀ site ∈ panicsOf t.log, site.inDriver = false) :
    (runAuditedDriver rq executionId core sink fuel).run st = (r, t) := by
  have hdriver := drives_runAuditedDriver core rq executionId sink fuel st hstarted
  rcases hd : (runAuditedDriver rq executionId core sink fuel).run st with ⟨stop | drive, u⟩ <;>
    rw [hd] at hdriver <;> obtain ⟨-, entries, hlog, hok, hpanics⟩ := hdriver
  · cases hstop : stop.panic with
    | some =>
      rw [guardedDriver, Proc.bind_run_ok (Proc.attempt_run_some hd hstop)] at hrun
      cases hrun
      have hne : panicsOf entries ≠ [] := by
        rw [hpanics]
        cases stop <;> simp_all [Stop.panic, Proc.stopOf]
      obtain ⟨site, hsite⟩ := List.exists_mem_of_ne_nil _ hne
      have hin : site.inDriver = true := hok _ (mem_panicsOf.mp hsite)
      have hout := hquiet site (by rw [hlog, panicsOf_append]; exact List.mem_append_right _ hsite)
      rw [hin] at hout
      cases hout
    | none =>
      rw [guardedDriver, Proc.bind_run_error (Proc.attempt_run_none hd hstop)] at hrun
      exact hrun
  · rw [guardedDriver, Proc.bind_run_ok (Proc.attempt_run_ok hd)] at hrun
    exact hrun

/-- The end of a run, from where Started and the driver leave it. -/
def Concludes (u t : RunState C S) : Except Stop (Except AuditedOutcome ExecutionOutcome) → Prop
  | .ok (.ok outcome) => ∃ r, (finish rq executionId core sink outcome).run u = (r, t)
  | _ => t = u

/-- A Terminal, after Started and what followed it. -/
theorem terminal_after_started {view : C → V}
    (hcancel : ∀ c, view (core.checkpointCancel c).2 = view c)
    (hdeadline : ∀ c, view (core.checkpointDeadline c).2 = view c) {fuel : Nat}
    {st u t : RunState C S} {result : Except Stop (Except AuditedOutcome ExecutionOutcome)}
    (hempty : st.log = [])
    (hstarted : (runStarted rq executionId core sink fuel).run st = (result, u))
    (hlast : Concludes rq executionId core sink u t result)
    (hquiet : ∀ site ∈ panicsOf t.log, site.inDriver = false)
    {env : AuditEnvelope} (henv : env ∈ appendedOf t.log) (hterminal : env.event.isTerminal = true) :
    TerminalComes rq executionId core sink fuel view st t env.event := by
  have hopen : (startedEnvelope rq executionId).event.isTerminal = false := rfl
  -- until the Terminal step nothing but Started and the driver's events is in the journal
  have hnone : ∀ {w : RunState C S} {entries : List LogEntry},
      appendedOf w.log = [startedEnvelope rq executionId] →
      (∀ entry ∈ entries, entry.inDriver = true) →
      ∀ env ∈ appendedOf (w.log ++ entries), env.event.isTerminal = false := by
    intro w entries hw hentries env' henv'
    rw [appendedOf_append, hw] at henv'
    rcases List.mem_append.mp henv' with h | h
    · rw [List.mem_singleton.mp h, hopen]
    · have := hentries _ (mem_appendedOf.mp h)
      simp_all [LogEntry.inDriver, AuditEvent.isInner]
  have hends := started_ends rq executionId core sink hstarted
  cases hends with
  | refused failure =>
    obtain rfl : t = st := hlast
    rw [hempty] at henv
    cases henv
  | unwound hlog hok hpanics =>
    obtain rfl : t = u := hlast
    rw [hlog, hempty, List.nil_append, appendedOf_append, (unacked_silent hok).1] at henv
    rw [List.mem_singleton.mp henv, hopen] at hterminal
    cases hterminal
  | unacked hno hopened hrun =>
    rename_i w r
    obtain rfl : t = u := by
      rcases r with stop | audited <;> exact hlast
    obtain ⟨hcore, happends⟩ := failStarted_ends rq executionId sink hrun
    have happended := hopened.appended rq executionId hempty
    rcases happends.mem henv with h | h
    · rw [happended] at h
      rw [List.mem_singleton.mp h, hopen] at hterminal
      cases hterminal
    · rw [h]
      refine .emergency hno (hcore.trans hopened.core) fun side resource => ?_
      rw [happends.delta rfl, appendedDelta_started rq executionId happended]
  | driven hyes hopened hrun =>
    rename_i w r
    have happended : appendedOf (w.log ++ [.acked (startedEnvelope rq executionId)]) =
        [startedEnvelope rq executionId] := by
      rw [appendedOf_append, hopened.appended rq executionId hempty]
      rfl
    have hjournal : w.journal.started = true := by
      obtain ⟨seq, happ⟩ := hopened.journal
      obtain ⟨-, -, -, -, -, -, hj⟩ := AuditJournal.appendNormal_spec happ
      rw [hj]
      exact Bool.or_true _
    obtain ⟨-, entries, hlog, hdriver, -, -⟩ :=
      guardedDriver_ends rq executionId core sink fuel hrun hjournal
    have hstill := hnone (w := { w with log := w.log ++ [.acked (startedEnvelope rq executionId)] })
      happended hdriver
    rw [← hlog] at hstill
    -- without an outcome the journal is left as the driver left it
    have hidle : t = u → TerminalComes rq executionId core sink fuel view st t env.event := by
      rintro rfl
      rw [hstill env henv] at hterminal
      cases hterminal
    rcases r with stop | outcome | ⟨withheld, failure⟩
    · exact hidle hlast
    · obtain ⟨r, hfinish⟩ := hlast
      obtain ⟨exceeded, c, hexceeded, hview, happends⟩ :=
        finish_ends rq executionId core sink hcancel hdeadline hfinish
      have hdriven := guardedDriver_quiet rq executionId core sink hrun hjournal fun site hsite => by
        obtain ⟨rest, htlog, -⟩ := happends
        exact hquiet site (by rw [htlog, panicsOf_append]; exact List.mem_append_left _ hsite)
      rcases happends.mem henv with h | h
      · rw [hstill env h] at hterminal
        cases hterminal
      · rw [h]
        refine .delivered outcome exceeded hyes ⟨?_, ?_⟩ hdriven hexceeded hview
          fun side resource => happends.delta rfl side resource
        · exact hopened.core
        · exact appendedDelta_started rq executionId happended
    · exact hidle hlast

end

variable (rq : AuditedRequest) (core : Core C) (sink : AuditSink S)

/-- The flags of the engine are not seen. -/
theorem TerminalComes.of_flags {executionId fuel : Nat} {view : C → V} {st t : RunState C S}
    {event : AuditEvent} {running running' poisoned : Bool}
    (h : TerminalComes rq executionId core sink fuel view { st with running } t event) :
    TerminalComes rq executionId core sink fuel view st
      { t with running := running', poisoned } event := by
  cases h with
  | emergency hno hcore hdelta => exact .emergency hno hcore hdelta
  | delivered outcome exceeded hyes hstart hdriven hexceeded hview hdelta =>
    exact .delivered outcome exceeded hyes hstart hdriven hexceeded hview hdelta

theorem terminal_of_inner {fuel : Nat} {view : C → V}
    (hcancel : ∀ c, view (core.checkpointCancel c).2 = view c)
    (hdeadline : ∀ c, view (core.checkpointDeadline c).2 = view c) {st t : RunState C S}
    {result : Except Stop AuditedOutcome} (hempty : st.log = [])
    (hrun : (runAuditedInner rq core sink fuel).run st = (result, t))
    (hquiet : ∀ site ∈ panicsOf t.log, site.inDriver = false)
    {env : AuditEnvelope} (henv : env ∈ appendedOf t.log) (hterminal : env.event.isTerminal = true) :
    ∃ executionId, rq.executionId = some executionId ∧
      TerminalComes rq executionId core sink fuel view st t env.event := by
  simp only [runAuditedInner, runToOutcome, Proc.bind_run, Proc.gets_run] at hrun
  rcases hprepare : core.prepare st.core with _ | refused | _ <;> simp only [hprepare] at hrun
  · rcases hid : rq.executionId with _ | executionId <;> simp only [hid] at hrun
    · cases hrun
      rw [hempty] at henv
      cases henv
    by_cases htime : rq.timestamp.isNone = true
    · simp only [if_pos htime, panics, trace, Proc.bind_run, Proc.modify_run,
        Proc.stop_run] at hrun
      cases hrun
      rw [hempty] at henv
      cases henv
    · simp only [if_neg htime, Proc.bind_run] at hrun
      refine ⟨executionId, rfl, ?_⟩
      rcases hs : (runStarted rq executionId core sink fuel).run st
        with ⟨stop | audited | outcome, u⟩ <;> simp only [hs, Proc.pure_run, Except.map] at hrun
      · cases hrun
        exact terminal_after_started rq executionId core sink hcancel hdeadline hempty hs rfl hquiet
          henv hterminal
      · cases hrun
        exact terminal_after_started rq executionId core sink hcancel hdeadline hempty hs rfl hquiet
          henv hterminal
      · exact terminal_after_started rq executionId core sink hcancel hdeadline hempty hs
          ⟨result, hrun⟩ hquiet henv hterminal
  · cases hrun
    rw [hempty] at henv
    cases henv
  · simp only [trace, Proc.bind_run, Proc.modify_run, Proc.gets_run, Proc.pure_run] at hrun
    cases hrun
    rw [hempty] at henv
    cases henv

/-- A Terminal of a run whose driver did not panic comes from an unacknowledged Started or
from an outcome of the driver. -/
theorem terminal_comes (reentered : Bool) (fuel : Nat) {view : C → V}
    (hcancel : ∀ c, view (core.checkpointCancel c).2 = view c)
    (hdeadline : ∀ c, view (core.checkpointDeadline c).2 = view c) {st t : RunState C S}
    {result : Except Stop AuditedOutcome} (hempty : st.log = [])
    (hrun : (runAudited rq core sink reentered fuel).run st = (result, t))
    (hquiet : ∀ site ∈ panicsOf t.log, site.inDriver = false)
    {env : AuditEnvelope} (henv : env ∈ appendedOf t.log) (hterminal : env.event.isTerminal = true) :
    ∃ executionId, rq.executionId = some executionId ∧
      TerminalComes rq executionId core sink fuel view st t env.event := by
  rw [runAudited, Proc.bind_run_ok (Proc.gets_run _ _), id] at hrun
  split at hrun
  · cases hrun
    rw [hempty] at henv
    cases henv
  rw [Proc.bind_run_ok (Proc.modify_run _ _)] at hrun
  have hempty' : ({ st with running := true } : RunState C S).log = [] := hempty
  rcases hinner : (runAuditedInner rq core sink fuel).run { st with running := true }
    with ⟨stop | audited, u⟩
  · rw [Proc.bind_run_error hinner] at hrun
    cases hrun
    obtain ⟨executionId, hid, h⟩ := terminal_of_inner rq core sink hcancel hdeadline hempty' hinner
      hquiet henv hterminal
    exact ⟨executionId, hid, h.of_flags rq core sink⟩
  · rw [Proc.bind_run_ok hinner] at hrun
    cases hrun
    obtain ⟨executionId, hid, h⟩ := terminal_of_inner rq core sink hcancel hdeadline hempty' hinner
      hquiet henv hterminal
    exact ⟨executionId, hid, h.of_flags rq core sink⟩

end Tsumugi.Audit
