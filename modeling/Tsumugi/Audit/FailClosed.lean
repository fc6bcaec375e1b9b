import Tsumugi.Audit.Panics

/-!
# Audit failure is fail-closed (`embedding.rs`)

A run stops for good at the first submit that fails. What a failed run leaves behind
depends on where it failed: at Started nothing was run and the journal is closed, in the
middle of the run the journal is left without a Terminal.

Results:
1. `quiet_after_failure`: in every run, no statement and no host effect follows a submit
   that was not acknowledged.
2. `audit_failure_closed_iff`: a run that ends as AuditFailed before its Terminal is closed
   in the documented way exactly when it failed at Started.
-/

namespace Tsumugi.Audit

open Budget Word Run StreamLawLemmas DeliveryLemmas PanicLemmas

variable {C S : Type}

/-! ## The work after a failure -/

/-- Some submit of the log has no ack after it. -/
def Unanswered (log : List LogEntry) : Prop :=
  ∃ before env after, log = before ++ .submitted env :: after ∧ .acked env ∉ after

/-- No work comes after a submit that has no ack. -/
def QuietAfterFailure (log : List LogEntry) : Prop :=
  ∀ before env after, log = before ++ .submitted env :: after → .acked env ∉ after →
    .work ∉ after

namespace FailClosedLemmas

/-- Where a submit stands in a log that was extended. -/
theorem submitted_append {log entries before after : List LogEntry} {env : AuditEnvelope}
    (h : log ++ entries = before ++ .submitted env :: after) :
    (∃ mid, log = before ++ .submitted env :: mid ∧ after = mid ++ entries) ∨
      (∃ mid, entries = mid ++ .submitted env :: after) := by
  rcases List.append_eq_append_iff.mp h with ⟨mid, -, hmid⟩ | ⟨mid, rfl, hmid⟩
  · exact .inr ⟨mid, hmid⟩
  · cases mid with
    | nil => exact .inr ⟨[], by simpa using hmid.symm⟩
    | cons entry mid =>
      simp only [List.cons_append, List.cons.injEq] at hmid
      obtain ⟨rfl, hafter⟩ := hmid
      exact .inl ⟨mid, rfl, hafter⟩

theorem quiet_of_answered {log : List LogEntry} (h : ¬ Unanswered log) : QuietAfterFailure log :=
  fun before env after heq hacked => absurd ⟨before, env, after, heq, hacked⟩ h

/-- Work may be added while every submit is answered. -/
theorem answered_append {log entries : List LogEntry} (h : ¬ Unanswered log)
    (hentries : ∀ env, .submitted env ∉ entries) : ¬ Unanswered (log ++ entries) := by
  rintro ⟨before, env, after, heq, hacked⟩
  rcases submitted_append heq with ⟨mid, hlog, rfl⟩ | ⟨mid, hmid⟩
  · exact h ⟨before, env, mid, hlog, fun hmem => hacked (List.mem_append_left _ hmem)⟩
  · exact hentries env (by simp [hmid])

/-- What is not work may be added at any time. -/
theorem quiet_append {log entries : List LogEntry} (h : QuietAfterFailure log)
    (hentries : .work ∉ entries) : QuietAfterFailure (log ++ entries) := by
  intro before env after heq hacked
  rcases submitted_append heq with ⟨mid, hlog, rfl⟩ | ⟨mid, hmid⟩
  · have hmem := h before env mid hlog fun hmem => hacked (List.mem_append_left _ hmem)
    simp [hmem, hentries]
  · intro hwork
    exact hentries (by simp [hmid, hwork])

/-- A delivery that ends with the ack answers its own submits. -/
theorem answered_delivery {log entries : List LogEntry} {env : AuditEnvelope}
    (h : ¬ Unanswered log) (hok : ∀ entry ∈ entries, Unacked env entry) :
    ¬ Unanswered (log ++ (entries ++ [.acked env])) := by
  rintro ⟨before, env', after, heq, hacked⟩
  rcases submitted_append heq with ⟨mid, hlog, rfl⟩ | ⟨mid, hmid⟩
  · exact h ⟨before, env', mid, hlog, fun hmem => hacked (List.mem_append_left _ hmem)⟩
  · rcases List.append_eq_append_iff.mp hmid with ⟨rest, -, hrest⟩ | ⟨rest, hentries, hrest⟩
    · cases rest <;> simp at hrest
    · cases rest with
      | nil => simp at hrest
      | cons entry rest =>
        simp only [List.cons_append, List.cons.injEq] at hrest
        obtain ⟨rfl, rfl⟩ := hrest
        obtain rfl : env' = env := hok (.submitted env') (by simp [hentries])
        simp at hacked

end FailClosedLemmas

open FailClosedLemmas

/-- While every submit is answered a part may work; where it returns, they still are. -/
def answers : Proc.Contract (RunState C S) Stop where
  rel o st t := ¬ Unanswered st.log →
    QuietAfterFailure t.log ∧ (o = none → ¬ Unanswered t.log)
  refl := fun _ h => ⟨quiet_of_answered h, fun _ => h⟩
  trans h h' hst := h' ((h hst).2 rfl)

/-- A part that does no work. -/
def idles : Proc.Contract (RunState C S) Stop where
  rel _ st t := QuietAfterFailure st.log → QuietAfterFailure t.log
  refl := fun _ h => h
  trans h h' hst := h' (h hst)

namespace FailClosedLemmas

theorem answers_of_adds {α : Type} (ok : LogEntry → Prop) {m : Run C S α}
    (h : Proc.Meets (adds ok) m) (hsubmit : ∀ env, ¬ ok (.submitted env)) :
    Proc.Meets answers m := by
  refine Proc.Ends.mono h ?_
  rintro r st t ⟨-, entries, hlog, hok, -⟩ hanswered
  have hnone := answered_append hanswered fun env hmem => hsubmit env (hok _ hmem)
  rw [hlog]
  exact ⟨quiet_of_answered hnone, fun _ => hnone⟩

theorem answers_of_evaluates {α : Type} {m : Run C S α} (h : Evaluates m) :
    Proc.Meets answers m := answers_of_adds _ h fun _ => by simp [LogEntry.ofEvaluator]

theorem idles_onCore {α : Type} (f : C → α × C) : Proc.Meets idles (onCore f : Run C S α) :=
  Proc.meets_update fun _ h => h

theorem idles_of_adds {α : Type} (ok : LogEntry → Prop) {m : Run C S α}
    (h : Proc.Meets (adds ok) m) (hwork : ¬ ok .work) : Proc.Meets idles m := by
  refine Proc.Ends.mono h ?_
  rintro r st t ⟨-, entries, hlog, hok, -⟩ hquiet
  rw [hlog]
  exact quiet_append hquiet fun hmem => hwork (hok _ hmem)

section

variable (rq : AuditedRequest) (executionId : Nat) (core : Core C) (sink : AuditSink S)

theorem answers_deliver (env : AuditEnvelope) :
    Proc.Meets answers (deliver executionId core sink env) := by
  refine (deliver_ends executionId core sink env).mono ?_
  rintro r st t ⟨-, log, ⟨entries, rfl, hok, -⟩, hlog⟩ hanswered
  have hwork : .work ∉ entries := fun hmem => hok _ hmem
  rw [hlog]
  cases r with
  | ok _ =>
    have hnone := answered_delivery hanswered hok
    rw [← List.append_assoc] at hnone
    exact ⟨quiet_of_answered hnone, fun _ => hnone⟩
  | error stop =>
    have hquiet := quiet_append (quiet_of_answered hanswered) hwork
    exact ⟨by simpa [Except.isOk, Except.toBool] using hquiet, by simp [Proc.stopOf]⟩

theorem answers_append {env : AuditEnvelope}
    {f : AuditJournal → AuditEnvelope → Except AuditFailure (Nat × AuditJournal)} :
    Proc.Meets answers (append env f : Run C S Unit) := by
  intro st hanswered
  rcases happ : f st.journal env with failure | ⟨seq, j⟩
  · rw [append_run_error _ happ]
    exact ⟨quiet_of_answered hanswered, fun _ => hanswered⟩
  · rw [append_run_ok _ happ]
    have hnone : ¬ Unanswered (st.log ++ [.appended env]) :=
      answered_append hanswered (by simp)
    exact ⟨quiet_of_answered hnone, fun _ => hnone⟩

theorem answers_fails {α : Type} (stop : Stop) :
    Proc.Meets answers (Proc.stop stop : Run C S α) :=
  Proc.meets_stop fun _ h => ⟨quiet_of_answered h, fun _ => h⟩

theorem answers_flushEvents (fuel : Nat) :
    Proc.Meets answers (flushEvents rq executionId core sink fuel) := by
  have hevent : ∀ event, Proc.Meets answers (flushEvent rq executionId core sink event) := by
    intro event
    refine Proc.meets_bind (Proc.meets_gets _) fun j => Proc.meets_ite (answers_fails _) ?_
    refine Proc.meets_bind answers_append fun _ => ?_
    refine Proc.meets_bind (answers_deliver executionId core sink _) fun _ => ?_
    exact Proc.meets_modify fun _ h => ⟨quiet_of_answered h, fun _ => h⟩
  have heach : ∀ events, Proc.Meets answers (flushEach rq executionId core sink events) := by
    intro events
    induction events with
    | nil => exact Proc.meets_pure _
    | cons event events ih => exact Proc.meets_bind (hevent event) fun _ => ih
  induction fuel with
  | zero => exact answers_fails _
  | succ fuel ih =>
    refine Proc.meets_bind (answers_of_evaluates evaluates_drainAll) fun events => ?_
    cases events with
    | nil => exact Proc.meets_pure _
    | cons event events => exact Proc.meets_bind (heach _) fun _ => ih

/-- How a part leaves the log that may have failed on its way. -/
def Closes {α : Type} (_ : Except Stop α) (st t : RunState C S) : Prop :=
  ¬ Unanswered st.log → QuietAfterFailure t.log

theorem submit_core {env : AuditEnvelope} {st t : RunState C S} {r : Except Stop AuditSubmit}
    (hrun : (submit sink env).run st = (r, t)) : t.core = st.core := by
  simp only [submit, trace, Proc.bind_run, Proc.modify_run, Proc.update_run] at hrun
  cases hanswer : (sink.submit st.sink [env]).1 <;>
    simp only [hanswer, panics, trace, Proc.bind_run, Proc.modify_run, Proc.stop_run,
      Proc.pure_run, Prod.mk.injEq] at hrun <;>
    obtain ⟨-, rfl⟩ := hrun <;> rfl

theorem closes_bind {α β : Type} {m : Run C S α} {f : α → Run C S β}
    (hm : Proc.Meets answers m) (hf : ∀ a, Proc.Ends Closes (f a)) :
    Proc.Ends Closes (m >>= f) :=
  Proc.ends_bind hm hf (fun h h' hst => h' ((h hst).2 rfl)) fun h hst => (h hst).1

theorem closes_of_idles {α : Type} {m : Run C S α} (h : Proc.Meets idles m) :
    Proc.Ends Closes m := fun st hst => h st (quiet_of_answered hst)

/-- After a part that has failed, or may have, only idle parts may follow. -/
theorem closes_bind_idles {α β : Type} {m : Run C S α} {f : α → Run C S β}
    (hm : Proc.Ends Closes m) (hf : ∀ a, Proc.Meets idles (f a)) :
    Proc.Ends Closes (m >>= f) := by
  intro st hst
  have hm' := hm st hst
  rcases h : m.run st with ⟨stop | a, t⟩ <;> rw [h] at hm'
  · rw [Proc.bind_run_error h]
    exact hm'
  · rw [Proc.bind_run_ok h]
    exact hf a t hm'

/-- After a flush that failed only idle parts may follow. -/
theorem closes_flush (fuel : Nat) {f : Except AuditFailure Unit → Run C S AuditDrive}
    (hok : Proc.Ends Closes (f (.ok ())))
    (hfailed : ∀ failure, Proc.Meets idles (f (.error failure))) :
    Proc.Ends Closes
      ((flushEvents rq executionId core sink fuel).attempt Stop.failure >>= f) :=
  Proc.ends_bind_attempt
    (answers_flushEvents rq executionId core sink fuel) (fun _ => hok) hfailed
    (fun h h' hst => h' ((h hst).2 rfl)) (fun h h' hst => h' (h hst).1) fun h hst => (h hst).1

theorem idles_withheldAfter (slice : SliceOutcome) :
    Proc.Meets idles (withheldAfter core slice : Run C S TerminalOutcome) := by
  have hterminal : ∀ error, Proc.Meets idles (terminalFrom core error : Run C S ExecutionOutcome) := by
    intro error
    refine Proc.meets_bind (Proc.meets_gets _) fun _ => ?_
    refine Proc.meets_bind ?_ fun _ => Proc.meets_pure _
    exact Proc.meets_ite (idles_onCore _) (Proc.meets_pure _)
  cases slice with
  | terminal result =>
    refine Proc.meets_bind ?_ fun _ => Proc.meets_pure _
    cases result with
    | ok => exact Proc.meets_bind (Proc.meets_gets _) fun _ => Proc.meets_pure _
    | error error => exact hterminal error
  | _ => exact Proc.meets_bind (idles_onCore _) fun _ => Proc.meets_pure _

theorem closes_pollLoop (sliceFuel fuel : Nat) :
    Proc.Ends Closes (pollLoop rq executionId core sink sliceFuel fuel) := by
  have hreturns : ∀ drive, Proc.Ends Closes (pure drive : Run C S AuditDrive) :=
    fun _ _ h => quiet_of_answered h
  induction fuel with
  | zero => exact fun _ h => quiet_of_answered h
  | succ fuel ih =>
    refine closes_bind (answers_of_evaluates (evaluates_runSlice core _ _)) fun slice => ?_
    refine closes_flush rq executionId core sink fuel ?_ fun failure => ?_
    · cases slice with
      | terminal result =>
        refine closes_bind (answers_of_evaluates (evaluates_terminalOf core result)) fun _ => ?_
        exact closes_bind (answers_of_evaluates (meets_onCore _)) fun _ => hreturns _
      | _ => exact ih
    · refine Proc.meets_bind (idles_withheldAfter core slice) fun _ => ?_
      exact Proc.meets_bind (idles_onCore _) fun _ => Proc.meets_pure _

theorem closes_runAuditedDriver (fuel : Nat) :
    Proc.Ends Closes (runAuditedDriver rq executionId core sink fuel) := by
  have hreturns : ∀ drive, Proc.Ends Closes (pure drive : Run C S AuditDrive) :=
    fun _ _ h => quiet_of_answered h
  refine closes_bind (answers_of_evaluates (meets_onCore _)) fun cancelled => ?_
  refine closes_bind (answers_of_evaluates (evaluates_record _)) fun _ => ?_
  cases cancelled with
  | true => exact closes_bind (Proc.meets_gets _) fun _ => hreturns _
  | false =>
    refine closes_bind (answers_of_evaluates (evaluates_record _)) fun _ => ?_
    refine closes_bind (answers_of_evaluates (evaluates_beginExecution core)) fun answer => ?_
    cases answer with
    | fails error =>
      refine closes_bind (answers_of_evaluates (evaluates_terminalFrom core error)) fun _ => ?_
      refine closes_flush rq executionId core sink fuel ?_ fun _ => Proc.meets_pure _
      exact closes_bind (answers_of_evaluates (meets_onCore _)) fun _ => hreturns _
    | _ => exact closes_pollLoop rq executionId core sink _ _

theorem idles_submit (env : AuditEnvelope) :
    Proc.Meets idles (submit sink env : Run C S AuditSubmit) :=
  idles_of_adds _ (meets_submit sink env) id

theorem idles_append {env : AuditEnvelope}
    {f : AuditJournal → AuditEnvelope → Except AuditFailure (Nat × AuditJournal)} :
    Proc.Meets idles (append env f : Run C S Unit) := by
  intro st hquiet
  rcases happ : f st.journal env with failure | ⟨seq, j⟩
  · rw [append_run_error _ happ]
    exact hquiet
  · rw [append_run_ok _ happ]
    exact quiet_append hquiet (by simp)

theorem idles_attempt {α : Type} {m : Run C S α} (h : Proc.Meets idles m) :
    Proc.Meets idles (m.attempt Stop.failure) := Proc.meets_attempt h fun _ h => h

theorem idles_failStarted :
    Proc.Meets idles (failStarted rq executionId sink : Run C S AuditedOutcome) := by
  refine Proc.meets_bind (Proc.meets_gets _) fun j => ?_
  refine Proc.meets_bind (idles_attempt idles_append) fun appended => ?_
  rcases appended with failure | _
  · exact Proc.meets_pure _
  · exact Proc.meets_bind (idles_submit sink _) fun _ => Proc.meets_pure _

theorem idles_finish (outcome : ExecutionOutcome) :
    Proc.Meets idles (finish rq executionId core sink outcome) := by
  have hexceeded : Proc.Meets idles
      (exceededResource core outcome : Run C S (Option BudgetResource)) := by
    cases outcome <;> first | exact idles_onCore _ | exact Proc.meets_pure _
  refine Proc.meets_bind hexceeded fun exceeded => Proc.meets_bind (Proc.meets_gets _) fun j => ?_
  refine Proc.meets_bind (idles_attempt idles_append) fun appended => ?_
  rcases appended with failure | _
  · exact Proc.meets_pure _
  refine Proc.meets_bind (idles_attempt ?_) fun delivered => ?_
  · refine (deliver_ends executionId core sink _).mono ?_
    rintro r st t ⟨-, log, ⟨entries, rfl, hok, -⟩, hlog⟩ hquiet
    rw [hlog]
    refine quiet_append (quiet_append hquiet fun hmem => hok _ hmem) ?_
    split <;> simp
  · rcases delivered with failure | _ <;> exact Proc.meets_pure _

theorem closes_guardedDriver (fuel : Nat) :
    Proc.Ends Closes (guardedDriver rq executionId core sink fuel) := by
  refine closes_bind_idles ?_ fun drive => ?_
  · intro st hst
    have hdriver := closes_runAuditedDriver rq executionId core sink fuel st hst
    rcases h : (runAuditedDriver rq executionId core sink fuel).run st with ⟨stop | drive, t⟩ <;>
      rw [h] at hdriver
    · cases hstop : stop.panic with
      | some => rwa [Proc.attempt_run_some h hstop]
      | none => rwa [Proc.attempt_run_none h hstop]
    · rwa [Proc.attempt_run_ok h]
  · rcases drive with _ | drive
    · exact Proc.meets_bind (Proc.meets_gets _) fun _ => Proc.meets_pure _
    · exact Proc.meets_pure _

theorem closes_runStarted (fuel : Nat) :
    Proc.Ends Closes (runStarted rq executionId core sink fuel) := by
  have hfail : Proc.Meets idles (do
      let audited ← failStarted rq executionId sink
      pure (.error audited) : Run C S (Except AuditedOutcome ExecutionOutcome)) :=
    Proc.meets_bind (idles_failStarted rq executionId sink) fun _ => Proc.meets_pure _
  intro st hst
  have hquiet := quiet_of_answered hst
  rw [runStarted]
  rcases happ : st.journal.appendNormal (envelope rq executionId 0 (startedEvent rq))
    with failure | ⟨seq, j⟩
  · rw [Proc.bind_run_ok
      (Proc.attempt_run_some (f := Stop.failure) (append_run_error _ happ) rfl)]
    exact hquiet
  rw [Proc.bind_run_ok (Proc.attempt_run_ok (append_run_ok _ happ))]
  have hopened : ¬ Unanswered
      (st.log ++ [.appended (envelope rq executionId 0 (startedEvent rq))]) :=
    answered_append hst (by simp)
  generalize hu : ({ st with
    journal := j
    log := st.log ++ [.appended (envelope rq executionId 0 (startedEvent rq))] } :
      RunState C S) = u
  replace hopened : ¬ Unanswered u.log := by rwa [← hu]
  rcases hs : (submit sink (envelope rq executionId 0 (startedEvent rq))).run u
    with ⟨stop | answer, v⟩ <;>
    obtain ⟨-, entries, hlog, hok, -⟩ := submit_ends sink hs <;>
    have hafter : QuietAfterFailure v.log := by
      rw [hlog]
      exact quiet_append (quiet_of_answered hopened) fun hmem => hok _ hmem
  · rw [Proc.bind_run_error hs]
    exact hafter
  rw [Proc.bind_run_ok hs]
  cases answer with
  | ack ack =>
    dsimp only
    split
    · -- the ack answers Started, so the driver starts with nothing open
      rw [trace, Proc.bind_run_ok (Proc.modify_run _ _)]
      have hacked := answered_delivery hopened hok
      rw [← List.append_assoc, ← hlog] at hacked
      refine closes_bind_idles (closes_guardedDriver rq executionId core sink fuel)
        (fun drive => ?_) _ hacked
      cases drive <;> exact Proc.meets_pure _
    · exact hfail v hafter
  | _ => exact hfail v hafter

end

theorem closes_runAuditedInner (rq : AuditedRequest) (core : Core C) (sink : AuditSink S)
    (fuel : Nat) : Proc.Ends Closes (runAuditedInner rq core sink fuel) := by
  refine closes_bind_idles ?_ fun result => ?_
  · refine closes_bind (Proc.meets_gets _) fun answer => ?_
    cases answer with
    | unwinds =>
      refine closes_of_idles (Proc.meets_bind
        (Proc.meets_modify fun _ hquiet => quiet_append hquiet (by simp)) fun _ => ?_)
      exact Proc.meets_bind (Proc.meets_gets _) fun _ => Proc.meets_pure _
    | refused outcome => exact closes_of_idles (Proc.meets_pure _)
    | prepared =>
      dsimp only
      split
      · exact closes_of_idles (Proc.meets_pure _)
      · split
        · exact closes_of_idles
            (idles_of_adds (· ≠ .work) (meets_panics (by simp)) (by simp))
        · exact closes_bind_idles (closes_runStarted rq _ core sink fuel)
            fun _ => Proc.meets_pure _
  · rcases result with audited | ⟨executionId, outcome⟩
    · exact Proc.meets_pure _
    · exact idles_finish rq executionId core sink outcome

end FailClosedLemmas

/-- In every run, whatever its result and wherever it is cut short, nothing is executed
after a submit that was not acknowledged. -/
theorem quiet_after_failure (rq : AuditedRequest) (core : Core C) (sink : AuditSink S)
    (reentered : Bool) (fuel : Nat) (c : C) (s : S) (r : Recorder) (poisoned running : Bool) :
    QuietAfterFailure
      ((runAudited rq core sink reentered fuel).run (.initial rq c s r poisoned running)).2.log := by
  have hempty : ¬ Unanswered (RunState.initial rq c s r poisoned running).log := by
    rintro ⟨before, env, after, heq, -⟩
    simp [RunState.initial] at heq
  have hflags : ∀ f : RunState C S → RunState C S, (∀ st, (f st).log = st.log) →
      Proc.Meets idles (Proc.modify f : Run C S Unit) := fun f hf =>
    Proc.meets_modify fun st hquiet => by rwa [hf st]
  refine closes_bind (m := Proc.gets id) (Proc.meets_gets _) (fun st => ?_) _ hempty
  split
  · exact closes_of_idles (Proc.meets_pure _)
  · refine closes_bind (answers_of_adds (fun _ => False) ?_ (by simp)) fun _ => ?_
    · exact Proc.meets_modify fun _ => ⟨rfl, added_nil _ (by simp)⟩
    · refine closes_bind_idles (closes_runAuditedInner rq core sink fuel) fun audited => ?_
      exact Proc.meets_bind (hflags _ fun _ => rfl) fun _ => Proc.meets_pure _

/-! ## What a failed run leaves behind -/

/-- A Terminal with the outcome of the run was appended. The emergency Terminal has the
outcome AuditFailure. -/
def OutcomeAppended (log : List LogEntry) : Prop :=
  ∃ env ∈ appendedOf log, env.event.isTerminal = true ∧
    ∀ error usage hash committed effects,
      env.event ≠ .terminal .auditFailure error usage hash committed effects

/-- The documented end of a run whose audit has failed. What counts as language state of
the context is a parameter. -/
structure FailsClosed {L : Type} (languageState : C → L) (st t : RunState C S) : Prop where
  quiet : QuietAfterFailure t.log
  unchanged : languageState t.core = languageState st.core
  one_terminal : StartedAppended t.log →
    ((appendedOf t.log).filter (·.event.isTerminal)).length = 1

namespace FailClosedLemmas

/-- How an AuditFailed before the Terminal leaves the run: with nothing run and a closed
journal, or in the middle with no Terminal. -/
inductive FailedAt (st t : RunState C S) : Prop
  | started : t.core = st.core → ackedOf t.log = [] →
      (StartedAppended t.log → ((appendedOf t.log).filter (·.event.isTerminal)).length = 1) →
      FailedAt st t
  | midway : StartedAcked t.log → StartedAppended t.log →
      (∀ env ∈ appendedOf t.log, env.event.isTerminal = false) → FailedAt st t

section

variable (rq : AuditedRequest) (executionId : Nat) (core : Core C) (sink : AuditSink S)

/-- The emergency Terminal is always accepted, right after Started. -/
theorem failStarted_closes {st t : RunState C S} {w : TerminalOutcome} {f : AuditFailure}
    (hstarted : st.journal.started = true) (hopen : st.journal.terminated = false)
    (hnext : st.journal.nextSequence = 1)
    (hrun : (failStarted rq executionId sink).run st = (.ok (.auditFailed w f), t)) :
    t.core = st.core ∧ ackedOf t.log = ackedOf st.log ∧
      ∃ env, env.event.isTerminal = true ∧ appendedOf t.log = appendedOf st.log ++ [env] := by
  rw [failStarted, Proc.bind_run_ok (Proc.gets_run _ _)] at hrun
  dsimp only at hrun
  generalize henv : envelope rq executionId st.journal.nextSequence
    (.terminal .auditFailure none {} none false false) = env at hrun
  have hkind : env.event.isTerminal = true := by rw [← henv]; rfl
  have happ := AuditJournal.appendTerminal_eq_ok (j := st.journal) hkind hstarted hopen
    (by rw [← henv]; rfl) (by rw [hnext]; decide)
  rw [Proc.bind_run_ok (Proc.attempt_run_ok (append_run_ok _ happ))] at hrun
  rcases hs : (submit sink env).run { st with
    journal := { st.journal with
      nextSequence := st.journal.nextSequence + 1
      terminated := true }
    log := st.log ++ [.appended env] } with ⟨stop | answer, u⟩
  · rw [Proc.bind_run_error hs] at hrun
    cases hrun
  · obtain ⟨-, entries, hlog, hok, -⟩ := submit_ends sink hs
    rw [Proc.bind_run_ok hs] at hrun
    cases hrun
    obtain ⟨happended, hacked⟩ := unacked_silent hok
    have hcore := submit_core sink hs
    refine ⟨hcore, ?_, env, hkind, ?_⟩
    · rw [hlog, ackedOf_append, ackedOf_append, hacked]
      simp [ackedOf]
    · rw [hlog, appendedOf_append, appendedOf_append, happended]
      simp [appendedOf]

/-- The driver's entries follow Started and its ack, and no Terminal is among them. -/
theorem midway_entries {env : AuditEnvelope} {log driven : List LogEntry}
    (hkind : env.event.isStarted = true) (happended : appendedOf log = [env])
    (hacked : ackedOf log = [env]) (hdriver : ∀ entry ∈ driven, entry.inDriver = true) :
    StartedAcked (log ++ driven) ∧ StartedAppended (log ++ driven) ∧
      ∀ env' ∈ appendedOf (log ++ driven), env'.event.isTerminal = false := by
  refine ⟨⟨env, ?_, hkind⟩, ⟨env, ?_, hkind⟩, fun env' henv' => ?_⟩
  · exact List.mem_append_left _ (mem_ackedOf.mp (by simp [hacked]))
  · exact mem_appendedOf.mpr (List.mem_append_left _ (mem_appendedOf.mp (by simp [happended])))
  · rw [appendedOf_append, happended] at henv'
    rcases List.mem_append.mp henv' with h | h
    · obtain rfl := List.mem_singleton.mp h
      cases hevent : env'.event <;> simp_all [AuditEvent.isStarted, AuditEvent.isTerminal]
    · have := hdriver _ (mem_appendedOf.mp h)
      simp_all [LogEntry.inDriver, AuditEvent.isInner]

/-- Up to the Terminal step a run ends at Started, or midway. -/
theorem failedAt_runStarted {fuel : Nat} {st t : RunState C S}
    {result : Except AuditedOutcome ExecutionOutcome} (hempty : st.log = [])
    (hjournal : st.journal = .openJournal rq.auditBudget)
    (hrun : (runStarted rq executionId core sink fuel).run st = (.ok result, t)) :
    (∀ w f, result = .error (.auditFailed w f) → FailedAt st t) ∧
      (∀ outcome, result = .ok outcome → StartedAcked t.log ∧ StartedAppended t.log ∧
        ∀ env ∈ appendedOf t.log, env.event.isTerminal = false) := by
  rw [runStarted] at hrun
  generalize henv : envelope rq executionId 0 (startedEvent rq) = env at hrun
  have hkind : env.event.isStarted = true := by rw [← henv]; rfl
  rcases happ : st.journal.appendNormal env with failure | ⟨seq, j⟩
  · rw [Proc.bind_run_ok
      (Proc.attempt_run_some (f := Stop.failure) (append_run_error _ happ) rfl)] at hrun
    cases hrun
    refine ⟨fun w f _ => .started rfl (by rw [hempty]; rfl) ?_, fun _ h => by cases h⟩
    rintro ⟨env', henv', -⟩
    rw [hempty] at henv'
    cases henv'
  rw [Proc.bind_run_ok (Proc.attempt_run_ok (append_run_ok _ happ)), hempty, List.nil_append] at hrun
  dsimp only at hrun
  obtain ⟨-, -, -, -, -, -, hj⟩ := AuditJournal.appendNormal_spec happ
  have hstarted : j.started = true := by simp [hj, hkind]
  rcases hs : (submit sink env).run { st with journal := j, log := [.appended env] }
    with ⟨stop | answer, u⟩
  · rw [Proc.bind_run_error hs] at hrun
    cases hrun
  obtain ⟨hu, entries, hlog, hok, -⟩ := submit_ends sink hs
  obtain ⟨happended, hacked⟩ := unacked_silent hok
  have hcore := submit_core sink hs
  rw [Proc.bind_run_ok hs] at hrun
  have hfail : ((failStarted rq executionId sink >>= fun audited => pure (.error audited) :
      Run C S (Except AuditedOutcome ExecutionOutcome)).run u = (.ok result, t)) →
      (∀ w f, result = .error (.auditFailed w f) → FailedAt st t) ∧
        (∀ outcome, result = .ok outcome → StartedAcked t.log ∧ StartedAppended t.log ∧
          ∀ env ∈ appendedOf t.log, env.event.isTerminal = false) := by
    intro h
    rcases hf : (failStarted rq executionId sink).run u with ⟨stop | audited, v⟩
    · rw [Proc.bind_run_error hf] at h
      cases h
    · rw [Proc.bind_run_ok hf] at h
      cases h
      refine ⟨fun w f hresult => ?_, fun _ h => by cases h⟩
      cases hresult
      obtain ⟨hcore', hacked', term, hterm, happended'⟩ := failStarted_closes rq executionId sink
        (by rw [hu]; exact hstarted) (by rw [hu, hj, hjournal]; rfl) (by rw [hu, hj, hjournal]; rfl)
        hf
      refine .started (hcore'.trans hcore) ?_ fun _ => ?_
      · rw [hacked', hlog, ackedOf_append, hacked]
        rfl
      · rw [happended', hlog, appendedOf_append, happended]
        have hopen : env.event.isTerminal = false := by rw [← henv]; rfl
        simp [appendedOf, hterm, hopen]
  cases answer with
  | ack ack =>
    dsimp only at hrun
    split at hrun
    · rw [trace, Proc.bind_run_ok (Proc.modify_run _ _)] at hrun
      rcases hg : (guardedDriver rq executionId core sink fuel).run
        { u with log := u.log ++ [.acked env] } with ⟨stop | drive, v⟩
      · rw [Proc.bind_run_error hg] at hrun
        cases hrun
      obtain ⟨-, driven, hdriven, hdriver, -, -⟩ := guardedDriver_ends rq executionId core
        sink fuel hg (by rw [hu]; exact hstarted)
      obtain ⟨hfirst, hfirst'⟩ := firstAck_events hok
      obtain ⟨hstartedAcked, hstartedAppended, hopen⟩ :=
        midway_entries hkind hfirst hfirst' hdriver
      rw [← hlog, ← hdriven] at hstartedAcked hstartedAppended hopen
      rw [Proc.bind_run_ok hg] at hrun
      cases drive with
      | failed withheld failure =>
        cases hrun
        exact ⟨fun _ _ _ => .midway hstartedAcked hstartedAppended hopen, fun _ h => by cases h⟩
      | terminal outcome =>
        cases hrun
        exact ⟨fun _ _ h => (by cases h), fun _ _ => ⟨hstartedAcked, hstartedAppended, hopen⟩⟩
    · exact hfail hrun
  | _ => exact hfail hrun

/-- The Terminal step fails midway only when the journal refuses the Terminal. -/
theorem failedAt_finish {outcome : ExecutionOutcome} {st u t : RunState C S}
    {w : TerminalOutcome} {f : AuditFailure} (hacked : StartedAcked u.log)
    (happended : StartedAppended u.log)
    (hopen : ∀ env ∈ appendedOf u.log, env.event.isTerminal = false)
    (hrun : (finish rq executionId core sink outcome).run u = (.ok (.auditFailed w f), t))
    (hreason : ¬ OutcomeAppended t.log) : FailedAt st t := by
  obtain ⟨exceeded, c, hexceeded⟩ := exceededResource_run core outcome u
  rw [finish, Proc.bind_run_ok hexceeded, Proc.bind_run_ok (Proc.gets_run _ _)] at hrun
  dsimp only at hrun
  generalize henv : envelope rq executionId u.journal.nextSequence
    (terminalEvent rq outcome exceeded) = env at hrun
  rcases happ : u.journal.appendTerminal env with failure | ⟨seq, j⟩
  · have happend := append_run_error (C := C) (S := S) { u with core := c } happ
    rw [Proc.bind_run_ok (Proc.attempt_run_some (f := Stop.failure) happend rfl)] at hrun
    cases hrun
    exact .midway hacked happended hopen
  · -- the Terminal of the outcome is in the journal, whatever becomes of its delivery
    refine absurd ⟨env, ?_, by rw [← henv]; rfl, ?_⟩ hreason
    · have happend := append_run_ok (C := C) (S := S) { u with core := c } happ
      rw [Proc.bind_run_ok (Proc.attempt_run_ok happend)] at hrun
      have hends := deliver_ends executionId core sink env
        { u with core := c, journal := j, log := u.log ++ [.appended env] }
      rcases hd : (deliver executionId core sink env).run
        { u with core := c, journal := j, log := u.log ++ [.appended env] } with ⟨stop | _, v⟩ <;>
        rw [hd] at hends <;> obtain ⟨-, log, ⟨entries, rfl, -, -⟩, hlog⟩ := hends
      · cases hstop : stop.failure with
        | some failure =>
          rw [Proc.bind_run_ok (Proc.attempt_run_some hd hstop)] at hrun
          cases hrun
          rw [mem_appendedOf, show t.log = _ from hlog]
          simp
        | none =>
          rw [Proc.bind_run_error (Proc.attempt_run_none hd hstop)] at hrun
          cases hrun
      · rw [Proc.bind_run_ok (Proc.attempt_run_ok hd)] at hrun
        cases hrun
    · intro error usage hash committed effects heq
      rw [← henv] at heq
      simp only [envelope, terminalEvent, AuditEvent.terminal.injEq] at heq
      cases outcome <;> simp [terminalOutcomeFrom] at heq

end

theorem failedAt_runAuditedInner (rq : AuditedRequest) (core : Core C) (sink : AuditSink S)
    {fuel : Nat} {st t : RunState C S} {w : TerminalOutcome} {f : AuditFailure}
    (hempty : st.log = []) (hjournal : st.journal = .openJournal rq.auditBudget)
    (hrun : (runAuditedInner rq core sink fuel).run st = (.ok (.auditFailed w f), t))
    (hreason : ¬ OutcomeAppended t.log) : FailedAt st t := by
  simp only [runAuditedInner, runToOutcome, Proc.bind_run, Proc.gets_run] at hrun
  rcases hprepare : core.prepare st.core with _ | refused | _ <;>
    simp only [hprepare] at hrun
  · rcases hid : rq.executionId with _ | executionId <;> simp only [hid] at hrun
    · cases hrun
    by_cases htime : rq.timestamp.isNone = true
    · simp only [if_pos htime, panics, trace, Proc.bind_run, Proc.modify_run,
        Proc.stop_run] at hrun
      cases hrun
    · simp only [if_neg htime, Proc.bind_run] at hrun
      rcases hs : (runStarted rq executionId core sink fuel).run st
        with ⟨stop | audited | outcome, u⟩ <;> simp only [hs, Proc.pure_run, Except.map] at hrun
      · cases hrun
      · cases hrun
        exact (failedAt_runStarted rq executionId core sink hempty hjournal hs).1 w f rfl
      · obtain ⟨hacked, happended, hopen⟩ :=
          (failedAt_runStarted rq executionId core sink hempty hjournal hs).2 outcome rfl
        exact failedAt_finish rq executionId core sink hacked happended hopen hrun hreason
  · cases hrun
  · simp only [trace, Proc.bind_run, Proc.modify_run, Proc.gets_run, Proc.pure_run] at hrun
    cases hrun

end FailClosedLemmas

open FailClosedLemmas in
/-- A run that ends as AuditFailed without the Terminal of its outcome is closed in the
documented way exactly when Started was not acknowledged. After an ack of Started no
Terminal is appended. -/
theorem audit_failure_closed_iff {L : Type} (languageState : C → L) (rq : AuditedRequest)
    (core : Core C) (sink : AuditSink S) (reentered : Bool) (fuel : Nat) (c : C) (s : S)
    (r : Recorder) (poisoned running : Bool) {w : TerminalOutcome} {f : AuditFailure}
    {t : RunState C S}
    (hrun : (runAudited rq core sink reentered fuel).run (.initial rq c s r poisoned running) =
      (.ok (.auditFailed w f), t)) (hreason : ¬ OutcomeAppended t.log) :
    FailsClosed languageState (.initial rq c s r poisoned running) t ↔ ¬ StartedAcked t.log := by
  have hquiet := quiet_after_failure rq core sink reentered fuel c s r poisoned running
  rw [hrun] at hquiet
  have hfailed : FailedAt (RunState.initial rq c s r poisoned running) t := by
    rw [runAudited, Proc.bind_run_ok (Proc.gets_run _ _), id] at hrun
    split at hrun
    · cases hrun
    rw [Proc.bind_run_ok (Proc.modify_run _ _)] at hrun
    generalize hst : ({ RunState.initial rq c s r poisoned running with running := true } :
      RunState C S) = st at hrun
    rcases hinner : (runAuditedInner rq core sink fuel).run st with ⟨stop | audited, u⟩
    · rw [Proc.bind_run_error hinner] at hrun
      cases hrun
    rw [Proc.bind_run_ok hinner] at hrun
    cases hrun
    have hlast : FailedAt st u := failedAt_runAuditedInner rq core sink (by rw [← hst]; rfl)
      (by rw [← hst]; rfl) hinner hreason
    cases hlast with
    | started hcore hacked hone => exact .started (by rw [hcore, ← hst]) hacked hone
    | midway hacked happended hopen => exact .midway hacked happended hopen
  cases hfailed with
  | started hcore hacked hone =>
    refine ⟨fun _ => ?_, fun _ => ⟨hquiet, by rw [hcore], hone⟩⟩
    rintro ⟨env, hmem, -⟩
    rw [← mem_ackedOf, hacked] at hmem
    cases hmem
  | midway hacked happended hopen =>
    refine ⟨fun h => ?_, fun h => absurd hacked h⟩
    have hone := h.one_terminal happended
    rw [List.filter_eq_nil_iff.mpr fun env henv => by simp [hopen env henv]] at hone
    cases hone

/-! ## Concrete runs -/

/-- A sink that acknowledges as many submits as its state says, and then fails. -/
def failingSink : AuditSink Nat where
  submit
    | 0, _ => (.failed .permanent, 0)
    | n + 1, batch =>
      match batch.getLast? with
      | some env => (.ack ⟨env.executionId, env.sequence⟩, n)
      | none => (.failed .protocol, n)
  registerWaker s _ := s
  tryTake s _ := (none, s)
  cancel s _ := s

/-- A program of charges. The flag says that a session was committed. -/
def chargingCore : Core (Nat × Bool) where
  prepare _ := .prepared
  install c := (false, c)
  beginExecution c := ([], .ok, c)
  startSlice c _ := c
  next
    | (0, committed) => (.done .value, (0, committed))
    | (n + 1, committed) => (.note (.charge .fuel .statement 1 1), (n, committed))
  pendingHostCall _ := none
  finalizeSession c committed := (c.1, c.2 || committed)
  abortSession c := c
  checkpointCancel c := (true, c)
  checkpointDeadline c := (some true, c)
  takePendingExit c := (none, c)
  takePendingBudgetResource c := (none, c)
  clear c := c
  usage _ := {}

/-- The sink fails at Started. -/
theorem closed_at_started :
    FailsClosed Prod.snd (.initial (requestOf budget100KiB) (1, false) 0 {} false false)
      ((runAudited (requestOf budget100KiB) chargingCore failingSink false 5).run
        (.initial (requestOf budget100KiB) (1, false) 0 {} false false)).2 := by
  have hrun : ((runAudited (requestOf budget100KiB) chargingCore failingSink false 5).run
      (.initial (requestOf budget100KiB) (1, false) 0 {} false false)).1 =
        .ok (.auditFailed .auditFailure .sink) := by cbv
  have happended : appendedOf ((runAudited (requestOf budget100KiB) chargingCore failingSink false
      5).run (.initial (requestOf budget100KiB) (1, false) 0 {} false false)).2.log =
        [envelope (requestOf budget100KiB) 1 0 (startedEvent (requestOf budget100KiB)),
          envelope (requestOf budget100KiB) 1 1
            (.terminal .auditFailure none {} none false false)] := rfl
  have hacked : ackedOf ((runAudited (requestOf budget100KiB) chargingCore failingSink false
      5).run (.initial (requestOf budget100KiB) (1, false) 0 {} false false)).2.log = [] := rfl
  rcases hfull : (runAudited (requestOf budget100KiB) chargingCore failingSink false 5).run
    (.initial (requestOf budget100KiB) (1, false) 0 {} false false) with ⟨result, t⟩
  rw [hfull] at hrun happended hacked
  subst hrun
  refine (audit_failure_closed_iff Prod.snd (requestOf budget100KiB) chargingCore failingSink false
    5 (1, false) 0 {} false false hfull ?_).mpr ?_
  · rintro ⟨env, henv, hterminal, hother⟩
    rw [happended] at henv
    rcases List.mem_cons.mp henv with rfl | h
    · cases hterminal
    · obtain rfl := List.mem_singleton.mp h
      exact hother none {} none false false rfl
  · rintro ⟨env, hmem, -⟩
    rw [← mem_ackedOf, hacked] at hmem
    cases hmem

/-- The sink fails in the flush after the last slice: the program's state is committed, and
the journal has no Terminal. -/
theorem flush_failure_leaves_journal_open :
    ((runAudited (requestOf budget100KiB) chargingCore failingSink false 5).run
        (.initial (requestOf budget100KiB) (1, false) 1 {} false false)).1 =
      .ok (.auditFailed .completed .sink) ∧
    ((runAudited (requestOf budget100KiB) chargingCore failingSink false 5).run
        (.initial (requestOf budget100KiB) (1, false) 1 {} false false)).2.core.2 = true ∧
    (appendedOf ((runAudited (requestOf budget100KiB) chargingCore failingSink false 5).run
        (.initial (requestOf budget100KiB) (1, false) 1 {} false false)).2.log).map
          (fun env => (env.event.isStarted, env.event.isTerminal)) =
      [(true, false), (false, false)] ∧
    ¬ FailsClosed Prod.snd (.initial (requestOf budget100KiB) (1, false) 1 {} false false)
      ((runAudited (requestOf budget100KiB) chargingCore failingSink false 5).run
        (.initial (requestOf budget100KiB) (1, false) 1 {} false false)).2 := by
  have hcommitted : ((runAudited (requestOf budget100KiB) chargingCore failingSink false 5).run
      (.initial (requestOf budget100KiB) (1, false) 1 {} false false)).2.core.2 = true := by cbv
  refine ⟨by cbv, hcommitted, by cbv, fun h => ?_⟩
  have hunchanged := h.unchanged
  rw [hcommitted] at hunchanged
  cases hunchanged

end Tsumugi.Audit
