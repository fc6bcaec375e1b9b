import Tsumugi.Audit.Brackets
import Tsumugi.Audit.Reconcile

/-!
# Yields are well bracketed (`run_slice`, `record_backpressure_yield`)

The recorder keeps two yields: the last one, and the one that a wait has put aside. They
are the stack of the yields that are open. A slice opens with the Resumed of the slice
before it, and a wait closes before the next event is delivered.

Results:
1. `recording_record`: what a call of the recorder does to the stack.
2. `ensures_deliver`, `ensures_runSlice`: a delivery leaves the stack as it was, a slice
   leaves nothing open or its own yield.
3. `yields_bracketed`: every audited run whose host does not panic while an ack is awaited
   is well bracketed, its journal always is; so are the slices of a handle.
4. `wait_panic_reopens`: after a panic in a wait the Terminal can open a second wait.
-/

namespace Tsumugi.Audit

open Budget Word Run Bracket

variable {C S P : Type}

/-! ## The polls of a handle -/

/-- The polls of an execution that has no sink. Before each poll the host may do to the
program what it wants, such as deliver a host call. -/
def pollSlices (core : Core C) : List ((C → C) × Nat × Nat) → Run C S (Option SliceOutcome)
  | [] => pure none
  | (host, fuel, sliceFuel) :: polls => do
    onCore fun c => ((), host c)
    match ← runSlice core fuel sliceFuel with
    | .terminal result => pure (some (.terminal result))
    | slice => if polls.isEmpty then pure (some slice) else pollSlices core polls

/-- `reset_budget`, `begin_execution`, and the polls. -/
def runPolled (core : Core C) (polls : List ((C → C) × Nat × Nat)) :
    Run C S (Option SliceOutcome) := do
  let _ ← onCore core.install
  record fun _ => ((), {})
  match ← beginExecution core with
  | .fails _ => pure none
  | _ => pollSlices core polls

/-! ## The state of the yields -/

/-- What the core keeps: `J` holds of it, and its notes are no yields. -/
structure Core.Unmarking (core : Core C) (J : C → Prop) : Prop where
  install : ∀ c, J (core.install c).2
  begins : ∀ {c}, J c → J (core.beginExecution c).2.2 ∧
    ∀ note ∈ (core.beginExecution c).1, note.Unmarked
  startSlice : ∀ {c} n, J c → J (core.startSlice c n)
  next : ∀ {c}, J c → J (core.next c).2 ∧ ∀ note, (core.next c).1 = .note note → note.Unmarked
  finalize : ∀ {c} commit, J c → J (core.finalizeSession c commit)
  cancel : ∀ {c}, J c → J (core.checkpointCancel c).2
  deadline : ∀ {c}, J c → J (core.checkpointDeadline c).2
  exit : ∀ {c}, J c → J (core.takePendingExit c).2
  resource : ∀ {c}, J c → J (core.takePendingBudgetResource c).2
  clear : ∀ {c}, J c → J (core.clear c)

/-- The yields of the log are open as `stack` says, and those that the journal has not
accepted are in `held` and in the buffer. -/
structure Recording (J : C → Prop) (held : List (Mark Yield))
    (stack : List (YieldLevel × Yield)) (c : C) (r : Recorder) (log : List LogEntry) : Prop where
  core : J c
  unmarked : r.accumulator.Unmarked
  reads : ∃ next ≤ r.pollIndex, openYields (yieldsOf log) = some ⟨stack, next⟩
  split : (yieldsOf log).map (·.map Prod.snd) =
    journalMarks log ++ held ++ marksOf r.auditEvents

/-- The stack of a yield between slices. -/
def sliceStack (outer : Option Yield) : List (YieldLevel × Yield) :=
  (outer.map (Prod.mk YieldLevel.slice)).toList

/-- Nothing is open but the yield of the last slice. -/
def Standing (J : C → Prop) (held : List (Mark Yield)) (outer : Option Yield)
    (st : RunState C S) : Prop :=
  Recording J held (sliceStack outer) st.core st.recorder st.log ∧ st.recorder.outer = outer

/-- Standing, and no ack is awaited. -/
def Resting (J : C → Prop) (held : List (Mark Yield)) (outer : Option Yield)
    (st : RunState C S) : Prop :=
  Standing J held outer st ∧ levelAfter .slice st.log = .slice

/-- The yield of a wait is open, over the one that the recorder has put aside. -/
structure Waiting (J : C → Prop) (held : List (Mark Yield)) (outer : Option Yield)
    (env : AuditEnvelope) (st : RunState C S) : Prop where
  recording : ∃ pollIndex,
    Recording J held ((.delivery, (.auditBackpressure, pollIndex)) :: sliceStack outer)
      st.core st.recorder st.log ∧
    st.recorder.outer = some (.auditBackpressure, pollIndex)
  saved : st.recorder.savedYieldBeforeBackpressure = outer
  level : levelAfter .slice st.log = .delivery
  awaits : AwaitsAck env st.log

/-- What every log shows: the yields are well bracketed, after a panic in a wait those that
the journal has accepted. -/
structure YieldLaw (log : List LogEntry) : Prop where
  recorded : ¬ WaitPanicked log → YieldsBracketed (yieldsOf log)
  journal : ∃ o, JournalReads log o

/-- After a panic in a wait. -/
def Broken (st : RunState C S) : Prop := WaitPanicked st.log ∧ ∃ o, JournalReads st.log o

/-- Where a part may stop. A panic comes back to the run, so that it says more. -/
def Stopped (J : C → Prop) (stop : Stop) (st : RunState C S) : Prop :=
  match stop with
  | .unwound => Broken st ∨ ∃ held outer, Standing J held outer st
  | _ => YieldLaw st.log

namespace YieldLawLemmas

open BracketsLemmas StreamLawLemmas

variable {J : C → Prop} {held : List (Mark Yield)} {stack : List (YieldLevel × Yield)}
variable {outer : Option Yield} {c : C} {r : Recorder} {log : List LogEntry}

theorem Recording.journalReads (h : Recording J held stack c r log) :
    ∃ o, JournalReads log o := by
  obtain ⟨next, -, hread⟩ := h.reads
  let marks := (yieldsOf log).take (journalMarks log).length
  have hstart : marks <+: yieldsOf log := List.take_prefix _ _
  obtain ⟨o, ho⟩ := (Bracketed.of_some hread).of_start hstart
  refine ⟨o, marks, hstart, ?_, ho⟩
  rw [List.map_take, h.split, List.append_assoc, List.take_left]

theorem Recording.law (h : Recording J held stack c r log) : YieldLaw log where
  recorded _ := by
    obtain ⟨next, -, hread⟩ := h.reads
    exact .of_some hread
  journal := Recording.journalReads h

theorem Broken.law {st : RunState C S} (h : Broken st) : YieldLaw st.log :=
  ⟨fun hnone => absurd h.1 hnone, h.2⟩

theorem Stopped.law {stop : Stop} {st : RunState C S} (h : Stopped J stop st) :
    YieldLaw st.log := by
  cases stop with
  | unwound =>
    obtain h | ⟨_, _, h, -⟩ := h
    · exact Broken.law h
    · exact Recording.law h
  | _ => exact h

/-- Entries that record no yield and append none. -/
def Plain (entries : List LogEntry) : Prop :=
  (∀ level, yieldsFrom level entries = []) ∧ journalMarks entries = []

theorem plain_nil : Plain [] := ⟨fun _ => rfl, rfl⟩

theorem plain_submitted (env : AuditEnvelope) : Plain [.submitted env] := ⟨fun _ => rfl, rfl⟩

theorem plain_acked (env : AuditEnvelope) : Plain [.acked env] := ⟨fun _ => rfl, rfl⟩

theorem plain_work : Plain [.work] := ⟨fun _ => rfl, rfl⟩

theorem plain_panicked (site : PanicSite) : Plain [.panicked site] := ⟨fun _ => rfl, rfl⟩

theorem journalMarks_recorded (events : List AuditEvent) :
    journalMarks (events.map .recorded) = [] := by
  refine journalMarks_quiet fun entry hmem => ?_
  obtain ⟨event, -, rfl⟩ := List.mem_map.mp hmem
  rfl

theorem plain_recorded {events : List AuditEvent} (h : marksOf events = []) :
    Plain (events.map .recorded) :=
  ⟨fun level => by rw [yieldsFrom_recorded, h]; rfl, journalMarks_recorded events⟩

theorem plain_appended {env : AuditEnvelope} (h : env.event.yieldMark = none) :
    Plain [.appended env] := by
  refine ⟨fun _ => rfl, ?_⟩
  simp [journalMarks, marksOf, h]

theorem acked_notMem_recorded (env : AuditEnvelope) (events : List AuditEvent) :
    LogEntry.acked env ∉ events.map LogEntry.recorded := by simp

/-- Plain entries leave the yields as they are. -/
theorem recording_plain {entries : List LogEntry} (h : Recording J held stack c r log)
    (hplain : Plain entries) : Recording J held stack c r (log ++ entries) := by
  have hyields : yieldsOf (log ++ entries) = yieldsOf log := by
    rw [yieldsOf_append, hplain.1, List.append_nil]
  refine ⟨h.core, h.unmarked, ?_, ?_⟩
  · rw [hyields]
    exact h.reads
  · rw [hyields, journalMarks_append, hplain.2, List.append_nil]
    exact h.split

/-- What a call of the recorder does to the stack. -/
theorem recording_record {r' : Recorder} {events : List AuditEvent}
    {stack' : List (YieldLevel × Yield)} (h : Recording J held stack c r log)
    (hrec : Records r r' events)
    (hread : ∀ next ≤ r.pollIndex, ∃ next' ≤ r'.pollIndex,
      readAll yieldDiscipline ⟨stack, next⟩
        ((marksOf events).map (·.map (Prod.mk (levelAfter .slice log)))) =
          some ⟨stack', next'⟩) :
    Recording J held stack' c r'
      (log ++ (r'.auditEvents.drop r.auditEvents.length).map .recorded) := by
  have hnew : r'.auditEvents.drop r.auditEvents.length = events := by
    rw [hrec.buffer, List.drop_left]
  rw [hnew]
  obtain ⟨next, hle, hopen⟩ := h.reads
  obtain ⟨next', hle', hopen'⟩ := hread next hle
  have hyields : yieldsOf (log ++ events.map .recorded) =
      yieldsOf log ++ (marksOf events).map (·.map (Prod.mk (levelAfter .slice log))) := by
    rw [yieldsOf_append, yieldsFrom_recorded]
  refine ⟨h.core, hrec.unmarked h.unmarked, ⟨next', hle', ?_⟩, ?_⟩
  · rw [hyields, openYields, readAll_extend hopen, hopen']
  · rw [hyields, List.map_append, forget_levels, h.split, journalMarks_append,
      journalMarks_recorded, hrec.buffer, marksOf_append]
    simp

/-- A call of the recorder that records no yield. -/
theorem recording_unmarked {r' : Recorder} {events : List AuditEvent}
    (h : Recording J held stack c r log) (hrec : Records r r' events)
    (hmarks : marksOf events = []) :
    Recording J held stack c r'
      (log ++ (r'.auditEvents.drop r.auditEvents.length).map .recorded) := by
  refine recording_record h hrec fun next hle => ⟨next, hle.trans hrec.pollIndex, ?_⟩
  rw [hmarks]
  rfl

theorem Recording.withCore {c' : C} (h : Recording J held stack c r log) (hc : J c') :
    Recording J held stack c' r log := ⟨hc, h.unmarked, h.reads, h.split⟩

/-- The level does not change while nothing is submitted. -/
theorem levelAfter_record (level : YieldLevel) (events : List AuditEvent)
    (h : levelAfter .slice log = level) :
    levelAfter .slice (log ++ events.map .recorded) = level := by
  rw [levelAfter_append, levelAfter_recorded, h]

/-! ## Delivery -/

section

variable {core : Core C} (hJ : core.Unmarking J) {env : AuditEnvelope}

theorem stopped_of_recording {st : RunState C S} {failure : AuditFailure}
    (h : Recording J held stack st.core st.recorder st.log) :
    Stopped J (.failed failure) st := Recording.law h

theorem waiting_stopped {st : RunState C S} {failure : AuditFailure}
    (h : Waiting J held outer env st) : Stopped J (.failed failure) st := by
  obtain ⟨pollIndex, hrecording, -⟩ := h.recording
  exact stopped_of_recording hrecording

/-- The host panics while the ack is awaited. -/
theorem waiting_panicked {st : RunState C S} (h : Waiting J held outer env st) :
    Broken { st with log := st.log ++ [.panicked (.delivery env.event)] } := by
  obtain ⟨pollIndex, hrecording, -⟩ := h.recording
  obtain ⟨o, hreads⟩ := Recording.journalReads hrecording
  exact ⟨⟨st.log, env, [], rfl, h.awaits⟩, o, journalReads_append hreads (plain_panicked _).2⟩

theorem standing_panicked {st : RunState C S} (site : PanicSite)
    (h : Standing J held outer st) :
    Stopped J .unwound { st with log := st.log ++ [.panicked site] } :=
  .inr ⟨held, outer, recording_plain h.1 (plain_panicked site), h.2⟩

/-- A submit, and what a panic of the sink leaves. -/
theorem ensures_submit {sink : AuditSink S} {A B : RunState C S → Prop}
    {E : Stop → RunState C S → Prop}
    (hsubmitted : ∀ st s, A st → B { st with sink := s, log := st.log ++ [.submitted env] })
    (hpanicked : ∀ st, B st →
      E .unwound { st with log := st.log ++ [.panicked (.delivery env.event)] }) :
    Proc.Ensures A (submit sink env : Run C S AuditSubmit) (fun _ => B) E := by
  refine Proc.ensures_bind (Q := fun _ st => ∀ s, B { st with sink := s })
    (Proc.ensures_modify fun st hst s => hsubmitted st s hst) fun _ => ?_
  refine Proc.ensures_bind (Q := fun _ => B)
    (Proc.ensures_update fun st hst => hst _) fun answer => ?_
  cases answer with
  | unwinds =>
    exact Proc.ensures_bind (Q := fun _ st => E .unwound st)
      (Proc.ensures_modify fun st hst => hpanicked st hst) fun _ =>
      Proc.ensures_stop fun _ h => h
  | _ => exact Proc.ensures_pure fun _ h => h

theorem ensures_cancel {sink : AuditSink S} {ticket : Nat} {failure : AuditFailure} {α : Type}
    {A : RunState C S → Prop} {Q : α → RunState C S → Prop} {E : Stop → RunState C S → Prop}
    (h : ∀ st s, A st → E (.failed failure) { st with sink := s }) :
    Proc.Ensures A (do
      onTicket fun s => ((), sink.cancel s ticket)
      Proc.stop (.failed failure)) Q E :=
  Proc.ensures_bind (Q := fun _ => E (.failed failure))
    (Proc.ensures_update fun st hst => h st _ hst) fun _ => Proc.ensures_stop fun _ h => h

/-- The ack ends the wait. -/
theorem ensures_resumeAfterAck :
    Proc.Ensures (Waiting J held outer env) (resumeAfterAck core env : Run C S Unit)
      (fun _ => Resting J held outer) (Stopped J) := by
  refine Proc.ensures_bind (Q := fun _ => Waiting J held outer env)
    (Proc.ensures_gets fun _ h => h) fun usage => ?_
  refine Proc.ensures_bind (Q := fun _ => Standing J held outer)
    (Proc.ensures_update fun st hst => ?_) fun _ => Proc.ensures_modify fun st hst => ?_
  · obtain ⟨pollIndex, hrecording, hlast⟩ := hst.recording
    obtain ⟨hrec, hback⟩ := recordBackpressureResume_spec usage hlast
    refine ⟨recording_record hrecording hrec fun next hle =>
      ⟨next, hle.trans hrec.pollIndex, ?_⟩, hback.trans hst.saved⟩
    rw [hst.level]
    exact readAll_closes _ _ _
  · exact ⟨⟨recording_plain hst.1 (plain_acked env), hst.2⟩, by simp [levelAfter, LogEntry.level]⟩

include hJ

theorem ensures_interrupted :
    Proc.Ensures (Waiting J held outer env) (interrupted core env : Run C S Bool)
      (fun _ => Waiting J held outer env) (Stopped J) := by
  have hcore : ∀ {st : RunState C S} {c : C}, Waiting J held outer env st →
      (J st.core → J c) → Waiting J held outer env { st with core := c } := by
    intro st c h hc
    obtain ⟨pollIndex, hrecording, hlast⟩ := h.recording
    exact ⟨⟨pollIndex, Recording.withCore hrecording (hc hrecording.core), hlast⟩, h.saved,
      h.level, h.awaits⟩
  refine Proc.ensures_bind (Q := fun _ => Waiting J held outer env)
    (Proc.ensures_update fun st hst => hcore hst hJ.cancel) fun cancelOk => ?_
  refine Proc.ensures_ite (fun _ => ?_) fun _ => Proc.ensures_pure fun _ h => h
  refine Proc.ensures_bind (Q := fun _ => Waiting J held outer env)
    (Proc.ensures_update fun st hst => hcore hst hJ.deadline) fun deadlineOk => ?_
  cases deadlineOk with
  | some ok => exact Proc.ensures_pure fun _ h => h
  | none =>
    exact Proc.ensures_bind (Q := fun _ => Stopped J .unwound)
      (Proc.ensures_modify fun st hst => .inl (waiting_panicked hst)) fun _ =>
      Proc.ensures_stop fun _ h => h

theorem ensures_awaitAck (executionId : Nat) (sink : AuditSink S) (resends ticket : Nat) :
    Proc.Ensures (Waiting J held outer env) (awaitAck executionId core sink env resends ticket)
      (fun _ => Resting J held outer) (Stopped J) := by
  have hsink : ∀ {st : RunState C S} (s : S), Waiting J held outer env st →
      Waiting J held outer env { st with sink := s } :=
    fun s h => ⟨h.recording, h.saved, h.level, h.awaits⟩
  have hcancel : ∀ ticket failure, Proc.Ensures (Waiting J held outer env)
      (do
        onTicket fun s => ((), sink.cancel s ticket)
        Proc.stop (.failed failure) : Run C S Unit)
      (fun _ => Resting J held outer) (Stopped J) :=
    fun ticket failure => ensures_cancel fun st s hst => waiting_stopped (hsink s hst)
  have hfails : ∀ failure, Proc.Ensures (Waiting J held outer env)
      (Proc.stop (.failed failure) : Run C S Unit) (fun _ => Resting J held outer) (Stopped J) :=
    fun failure => Proc.ensures_stop fun _ => waiting_stopped
  induction resends generalizing ticket with
  | zero => exact hcancel ticket _
  | succ resends ih =>
    refine Proc.ensures_bind (ensures_interrupted hJ) fun stops => ?_
    refine Proc.ensures_ite (fun _ => hcancel ticket _) fun _ => ?_
    refine Proc.ensures_bind (Q := fun _ => Waiting J held outer env)
      (Proc.ensures_update fun st hst => hsink _ hst) fun taken => ?_
    rcases taken with _ | ⟨error | ack⟩
    · refine Proc.ensures_bind (Q := fun _ => Waiting J held outer env)
        (ensures_submit (fun st s hst => ?_) fun st hst => .inl (waiting_panicked hst))
        fun answer => ?_
      · obtain ⟨pollIndex, hrecording, hlast⟩ := hst.recording
        exact ⟨⟨pollIndex, recording_plain hrecording (plain_submitted env), hlast⟩, hst.saved,
          by simp [levelAfter, LogEntry.level], awaitsAck_append hst.awaits (by simp)⟩
      · cases answer with
        | ack ack =>
          exact Proc.ensures_ite (fun _ => ensures_resumeAfterAck) fun _ => hfails _
        | pending next =>
          exact Proc.ensures_bind (Q := fun _ => Waiting J held outer env)
            (Proc.ensures_update fun st hst => hsink _ hst) fun _ => ih next
        | failed error => exact hfails _
        | unwinds => exact hfails _
    · exact hfails _
    · exact Proc.ensures_ite (fun _ => ensures_resumeAfterAck) fun _ => hfails _

/-- A delivery leaves the yields that are open as they were. -/
theorem ensures_deliver (executionId : Nat) (sink : AuditSink S) :
    Proc.Ensures (Standing J held outer) (deliver executionId core sink env)
      (fun _ => Resting J held outer) (Stopped J) := by
  -- just submitted: a wait is about to begin
  let Sent : RunState C S → Prop := fun st => Standing J held outer st ∧
    levelAfter .slice st.log = .delivery ∧ ∃ before, st.log = before ++ [.submitted env]
  have hfails : ∀ failure, Proc.Ensures Sent (Proc.stop (.failed failure) : Run C S Unit)
      (fun _ => Resting J held outer) (Stopped J) :=
    fun failure => Proc.ensures_stop fun _ h => stopped_of_recording h.1.1
  refine Proc.ensures_bind (Q := fun _ => Sent)
    (ensures_submit (fun st s hst => ?_) fun st hst => standing_panicked _ hst.1) fun answer => ?_
  · exact ⟨⟨recording_plain hst.1 (plain_submitted env), hst.2⟩,
      by simp [levelAfter, LogEntry.level], st.log, rfl⟩
  cases answer with
  | ack ack =>
    refine Proc.ensures_ite (fun _ => Proc.ensures_modify fun st hst => ?_) fun _ => hfails _
    exact ⟨⟨recording_plain hst.1.1 (plain_acked env), hst.1.2⟩,
      by simp [levelAfter, LogEntry.level]⟩
  | pending ticket =>
    refine Proc.ensures_bind (Q := fun _ => Sent) (Proc.ensures_gets fun _ h => h) fun usage => ?_
    refine Proc.ensures_bind (Q := fun recorded st =>
        if recorded then Waiting J held outer env st else Standing J held outer st)
      (Proc.ensures_update fun st hst => ?_) fun recorded => ?_
    · obtain ⟨⟨hrecording, hlast⟩, hlevel, before, hlog⟩ := hst
      rcases recordBackpressureYield_spec usage hrecording.unmarked with
        ⟨events, r', heq, hrec, hmarks, hpoll, houter', hsaved⟩ |
        ⟨events, r', heq, hrec, hmarks, houter'⟩
      · -- the yield opens over the one of the last slice
        have hnests : yieldDiscipline.nests (sliceStack outer)
            (.delivery, (.auditBackpressure, st.recorder.pollIndex)) = true := by
          cases outer <;> simp [yieldDiscipline, sliceStack]
        have hopened : Recording J held
            ((.delivery, (.auditBackpressure, st.recorder.pollIndex)) :: sliceStack outer)
            st.core r'
            (st.log ++ (r'.auditEvents.drop st.recorder.auditEvents.length).map .recorded) := by
          refine recording_record hrecording hrec fun next hle =>
            ⟨st.recorder.pollIndex + 1, hpoll.ge, ?_⟩
          rw [hlevel, marksOf_append, hmarks]
          exact readAll_opens (o := ⟨sliceStack outer, next⟩) hle hnests
        have hdrop : r'.auditEvents.drop st.recorder.auditEvents.length =
            events ++ [.yielded .auditBackpressure st.recorder.pollIndex usage] := by
          rw [hrec.buffer, List.drop_left]
        simp only [heq]
        refine ⟨⟨st.recorder.pollIndex, hopened, houter'⟩, hsaved.trans hlast,
          levelAfter_record _ _ hlevel, before,
          (r'.auditEvents.drop st.recorder.auditEvents.length).map .recorded, ?_,
          acked_notMem_recorded env _, .auditBackpressure, st.recorder.pollIndex, usage,
          by rw [hdrop]; simp⟩
        rw [hlog, List.append_assoc]
        rfl
      · simp only [heq]
        exact ⟨recording_unmarked hrecording hrec hmarks, houter'.trans hlast⟩
    · cases recorded with
      | true =>
        refine Proc.ensures_bind (Q := fun _ => Waiting J held outer env)
          (Proc.ensures_update fun st hst => ⟨hst.recording, hst.saved, hst.level, hst.awaits⟩)
          fun _ => ensures_awaitAck hJ executionId sink _ ticket
      | false => exact ensures_cancel fun st s hst => stopped_of_recording hst.1
  | failed error => exact hfails _
  | unwinds => exact hfails _

end

/-! ## Flush -/

section

variable {core : Core C} (hJ : core.Unmarking J) (rq : AuditedRequest) (executionId : Nat)
variable (sink : AuditSink S)

/-- An append, and what its refusal leaves. -/
theorem ensures_append {env : AuditEnvelope}
    {f : AuditJournal → AuditEnvelope → Except AuditFailure (Nat × AuditJournal)}
    {A B : RunState C S → Prop} {E : Stop → RunState C S → Prop}
    (hok : ∀ st j, A st → B { st with journal := j, log := st.log ++ [.appended env] })
    (hrefused : ∀ st failure, A st → E (.failed failure) st) :
    Proc.Ensures A (append env f : Run C S Unit) (fun _ => B) E := by
  intro st hst
  rcases happ : f st.journal env with failure | ⟨seq, j⟩
  · rw [append_run_error _ happ]
    exact hrefused st failure hst
  · rw [append_run_ok _ happ]
    exact hok st j hst

include hJ in
theorem ensures_flushEvent (event : AuditEvent) :
    Proc.Ensures (Standing J (event.yieldMark.toList ++ held) outer)
      (flushEvent rq executionId core sink event)
      (fun _ => Resting J held outer) (Stopped J) := by
  refine Proc.ensures_bind (Q := fun _ => Standing J (event.yieldMark.toList ++ held) outer)
    (Proc.ensures_gets fun _ h => h) fun j => ?_
  refine Proc.ensures_ite (fun _ => Proc.ensures_stop fun _ h => stopped_of_recording h.1)
    fun _ => ?_
  refine Proc.ensures_bind (Q := fun _ => Standing J held outer)
    (ensures_append (fun st j' hst => ?_) fun _ _ h => stopped_of_recording h.1) fun _ => ?_
  · -- the mark of the event moves to those of the journal
    obtain ⟨h, hlast⟩ := hst
    have hyields : yieldsOf (st.log ++ [.appended (envelope rq executionId j.nextSequence event)]) =
        yieldsOf st.log := by
      rw [yieldsOf_append]
      exact List.append_nil _
    refine ⟨⟨h.core, h.unmarked, by rw [hyields]; exact h.reads, ?_⟩, hlast⟩
    rw [hyields, h.split, journalMarks_append]
    cases hmark : event.yieldMark <;> simp [journalMarks, marksOf, envelope, hmark]
  · refine Proc.ensures_bind (ensures_deliver hJ executionId sink) fun _ => ?_
    exact Proc.ensures_modify fun st h =>
      ⟨⟨⟨h.1.1.core, h.1.1.unmarked, h.1.1.reads, h.1.1.split⟩, h.1.2⟩, h.2⟩

include hJ in
theorem ensures_flushEach (events : List AuditEvent) :
    Proc.Ensures (Resting J (marksOf events) outer) (flushEach rq executionId core sink events)
      (fun _ => Resting J [] outer) (Stopped J) := by
  induction events with
  | nil => exact Proc.ensures_pure fun _ h => h
  | cons event events ih =>
    have hmarks : marksOf (event :: events) = event.yieldMark.toList ++ marksOf events := by
      simp only [marksOf, List.filterMap_cons]
      cases event.yieldMark <;> rfl
    rw [hmarks]
    refine Proc.ensures_bind
      (Proc.Ensures.conseq (ensures_flushEvent hJ rq executionId sink event) (fun _ h => h.1)
        (fun _ _ h => h) fun _ _ h => h) fun _ => ih

/-- What was in the buffer is about to be delivered. -/
theorem ensures_drainAll :
    Proc.Ensures (Resting J [] outer) (drainAll : Run C S (List AuditEvent))
      (fun events st => Resting J (marksOf events) outer st ∧ st.recorder.auditEvents = [])
      (Stopped J) := by
  let Drained (held : List (Mark Yield)) : RunState C S → Prop := fun st =>
    Resting J held outer st ∧ st.recorder.auditEvents = []
  refine Proc.ensures_bind (Q := fun events => Drained (marksOf events))
    (Proc.ensures_update fun st hst => ?_) fun events => ?_
  · obtain ⟨⟨h, hlast⟩, hlevel⟩ := hst
    refine ⟨⟨⟨⟨h.core, h.unmarked, h.reads, ?_⟩, hlast⟩, hlevel⟩, rfl⟩
    simpa [Recorder.drainAuditEvents] using h.split
  refine Proc.ensures_bind (Q := fun charges st => Drained (marksOf events) st ∧
    marksOf charges = []) (Proc.ensures_update fun st hst => ?_) fun charges => ?_
  · obtain ⟨⟨⟨h, hlast⟩, hlevel⟩, hbuffer⟩ := hst
    exact ⟨⟨⟨⟨⟨h.core, unmarked_empty, h.reads, h.split⟩, hlast⟩, hlevel⟩, hbuffer⟩,
      marksOf_flush h.unmarked⟩
  refine Proc.ensures_bind (Q := fun _ st => Drained (marksOf events) st ∧
    marksOf charges = []) (Proc.ensures_modify fun st hst => ?_) fun _ => ?_
  · obtain ⟨⟨⟨⟨h, hlast⟩, hlevel⟩, hbuffer⟩, hcharges⟩ := hst
    exact ⟨⟨⟨⟨recording_plain h (plain_recorded hcharges), hlast⟩,
      levelAfter_record _ _ hlevel⟩, hbuffer⟩, hcharges⟩
  refine Proc.ensures_bind (Q := fun _ st => Drained (marksOf events) st ∧
    marksOf charges = []) (Proc.ensures_modify fun st hst => ?_) fun _ =>
    Proc.ensures_pure fun st hst => ?_
  · have hframe : ∀ (charges : List AuditEvent) (r : Recorder),
        charges.foldl Recorder.auditQueueAdmit r =
          { r with auditQueue := (charges.foldl Recorder.auditQueueAdmit r).auditQueue } := by
      intro charges
      induction charges with
      | nil => exact fun _ => rfl
      | cons charge charges ih => exact fun r => by rw [List.foldl_cons, ih]; rfl
    obtain ⟨⟨⟨⟨h, hlast⟩, hlevel⟩, hbuffer⟩, hcharges⟩ := hst
    rw [hframe]
    exact ⟨⟨⟨⟨⟨h.core, h.unmarked, h.reads, h.split⟩, hlast⟩, hlevel⟩, hbuffer⟩, hcharges⟩
  · rw [marksOf_append, hst.2, List.append_nil]
    exact hst.1

/-- Nothing is left to deliver. -/
def Flushed (J : C → Prop) (outer : Option Yield) (st : RunState C S) : Prop :=
  Resting J [] outer st ∧ st.recorder.auditEvents = []

include hJ in
theorem ensures_flushEvents (fuel : Nat) :
    Proc.Ensures (Resting J [] outer) (flushEvents rq executionId core sink fuel)
      (fun _ => Flushed J outer) (Stopped J) := by
  induction fuel with
  | zero => exact Proc.ensures_stop fun _ h => Recording.law h.1.1
  | succ fuel ih =>
    refine Proc.ensures_bind ensures_drainAll fun events => ?_
    cases events with
    | nil => exact Proc.ensures_pure fun _ h => h
    | cons event events =>
      refine Proc.ensures_bind (Proc.Ensures.conseq
        (ensures_flushEach hJ rq executionId sink (event :: events)) (fun _ h => h.1)
        (fun _ _ h => h) fun _ _ h => h) fun _ => ih

end

/-! ## Slices -/

section

variable {core : Core C} (hJ : core.Unmarking J)

theorem ensures_onCore {α : Type} {f : C → α × C} (hf : ∀ c, J c → J (f c).2)
    {E : Stop → RunState C S → Prop} :
    Proc.Ensures (Resting J held outer) (onCore f : Run C S α)
      (fun _ => Resting J held outer) E :=
  Proc.ensures_update fun _ h =>
    ⟨⟨Recording.withCore h.1.1 (hf _ h.1.1.core), h.1.2⟩, h.2⟩

/-- A call of the recorder that records no yield. -/
theorem ensures_record {α : Type} {f : Recorder → α × Recorder}
    (hf : ∀ r, r.accumulator.Unmarked → ∃ events, Records r (f r).2 events ∧
      marksOf events = [] ∧ (f r).2.outer = r.outer)
    {E : Stop → RunState C S → Prop} :
    Proc.Ensures (Resting J held outer) (record f : Run C S α)
      (fun _ => Resting J held outer) E := by
  refine Proc.ensures_update fun st h => ?_
  obtain ⟨events, hrec, hmarks, houter⟩ := hf st.recorder h.1.1.unmarked
  exact ⟨⟨recording_unmarked h.1.1 hrec hmarks, houter.trans h.1.2⟩,
    levelAfter_record _ _ h.2⟩

/-- A call of the recorder that only sets a flag. -/
theorem ensures_flag {α : Type} {f : Recorder → α × Recorder}
    (hf : ∀ r, (f r).2.auditEvents = r.auditEvents ∧ (f r).2.accumulator = r.accumulator ∧
      (f r).2.pollIndex = r.pollIndex ∧ (f r).2.outer = r.outer)
    {E : Stop → RunState C S → Prop} :
    Proc.Ensures (Resting J held outer) (record f : Run C S α)
      (fun _ => Resting J held outer) E := by
  refine ensures_record fun r h => ⟨[], ?_, rfl, (hf r).2.2.2⟩
  obtain ⟨hbuffer, hacc, hpoll, -⟩ := hf r
  exact ⟨by rw [hbuffer, List.append_nil], fun _ => by rw [hacc]; exact h, hpoll.ge⟩

theorem ensures_panics {α : Type} {site : PanicSite} {Q : α → RunState C S → Prop} :
    Proc.Ensures (Resting J held outer) (panics site : Run C S α) Q (Stopped J) :=
  Proc.ensures_bind (Q := fun _ => Stopped J .unwound)
    (Proc.ensures_modify fun _ h => standing_panicked site h.1) fun _ =>
    Proc.ensures_stop fun _ h => h

theorem ensures_work {E : Stop → RunState C S → Prop} :
    Proc.Ensures (Resting J held outer) (trace [.work] : Run C S Unit)
      (fun _ => Resting J held outer) E :=
  Proc.ensures_modify fun _ h => ⟨⟨recording_plain h.1.1 plain_work, h.1.2⟩, by
    simpa [levelAfter, LogEntry.level] using h.2⟩

theorem ensures_read {α : Type} {f : RunState C S → α} {A : RunState C S → Prop}
    {E : Stop → RunState C S → Prop} :
    Proc.Ensures A (Proc.gets f : Run C S α) (fun _ => A) E := Proc.ensures_gets fun _ h => h

include hJ

theorem ensures_runDriver (fuel : Nat) :
    Proc.Ensures (Resting J [] none) (runDriver core fuel : Run C S DriveOutcome)
      (fun _ => Resting J [] none) (Stopped J) := by
  induction fuel with
  | zero => exact Proc.ensures_stop fun _ h => Recording.law h.1.1
  | succ fuel ih =>
    refine Proc.ensures_bind ensures_work fun _ => ?_
    refine Proc.ensures_bind (Q := fun action st => Resting J [] none st ∧
      ∀ note, action = .note note → note.Unmarked) (Proc.ensures_update fun st h => ?_)
      fun action => ?_
    · obtain ⟨hnext, hnote⟩ := hJ.next h.1.1.core
      exact ⟨⟨⟨Recording.withCore h.1.1 hnext, h.1.2⟩, h.2⟩, hnote⟩
    -- only a note says something about the action
    have hdrop : ∀ {α : Type} {m : Run C S α} {Q : α → RunState C S → Prop},
        Proc.Ensures (Resting J [] none) m Q (Stopped J) →
        Proc.Ensures (fun st => Resting J [] none st ∧
          ∀ note, action = .note note → note.Unmarked) m Q (Stopped J) :=
      fun h => h.conseq (fun _ h => h.1) (fun _ _ h => h) fun _ _ h => h
    cases action with
    | note note =>
      intro st hst
      have hnote := hst.2 note rfl
      exact Proc.ensures_bind (ensures_record fun r _ => take_spec hnote) (fun _ => ih) st hst.1
    | progress => exact hdrop (Proc.ensures_bind (ensures_flag fun _ => ⟨rfl, rfl, rfl, rfl⟩)
        fun _ => ih)
    | boundary =>
      refine hdrop (Proc.ensures_bind ensures_read fun exceeded => ?_)
      refine Proc.ensures_ite (fun _ => ?_) fun _ => ih
      exact Proc.ensures_bind (ensures_flag fun _ => ⟨rfl, rfl, rfl, rfl⟩) fun _ =>
        Proc.ensures_pure fun _ h => h
    | yields => exact hdrop (Proc.ensures_pure fun _ h => h)
    | done result => exact hdrop (Proc.ensures_pure fun _ h => h)
    | fails error => exact hdrop (Proc.ensures_pure fun _ h => h)
    | unwinds => exact hdrop ensures_panics

/-- What a slice leaves open: nothing when it is terminal, else at most its own yield. -/
def AfterSlice (J : C → Prop) (slice : SliceOutcome) (st : RunState C S) : Prop :=
  match slice with
  | .terminal _ => Resting J [] none st
  | _ => ∃ outer, Resting J [] outer st

omit hJ in
theorem AfterSlice.open {slice : SliceOutcome} {st : RunState C S} (h : AfterSlice J slice st) :
    ∃ outer, Resting J [] outer st := by
  cases slice with
  | terminal result => exact ⟨none, h⟩
  | _ => exact h

theorem ensures_yieldSlice (slice : SliceOutcome) (reason : AuditYieldReason)
    (hslice : auditYieldReasonFrom slice = some reason) :
    Proc.Ensures (Resting J [] none) (yieldSlice core slice reason : Run C S SliceOutcome)
      (AfterSlice J) (Stopped J) := by
  refine Proc.ensures_bind (ensures_record fun r h => ?_) fun _ => ?_
  · obtain ⟨events, hrec, hmarks, -, houter, -⟩ := flushCharges_spec h
    exact ⟨events, hrec, hmarks, houter⟩
  refine Proc.ensures_bind ensures_read fun usage => ?_
  refine Proc.ensures_bind (Q := fun allocated st =>
      if allocated then ∃ outer, Resting J [] outer st else Resting J [] none st)
    (Proc.ensures_update fun st h => ?_) fun allocated => ?_
  · rcases halloc : st.recorder.allocPollIndex with _ | ⟨pollIndex, r'⟩
    · simp only [halloc]
      exact ⟨⟨recording_unmarked h.1.1 ⟨(List.append_nil _).symm, id, Nat.le_refl _⟩ rfl, h.1.2⟩,
        levelAfter_record _ _ h.2⟩
    · obtain ⟨rfl, hrec, hnext, hlast, -⟩ := recordYield_spec halloc reason usage
      simp only [halloc]
      refine ⟨some (reason, st.recorder.pollIndex), ⟨?_, hlast⟩, levelAfter_record _ _ h.2⟩
      refine recording_record h.1.1 hrec fun next hle =>
        ⟨st.recorder.pollIndex + 1, hnext.ge, ?_⟩
      rw [h.2]
      exact readAll_opens (o := ⟨[], next⟩) hle rfl
  · cases allocated with
    | true =>
      refine Proc.ensures_pure fun st h => ?_
      cases slice with
      | terminal result => simp [auditYieldReasonFrom] at hslice
      | _ => exact h
    | false =>
      exact Proc.ensures_bind (ensures_onCore fun _ => hJ.finalize false) fun _ =>
        Proc.ensures_pure fun _ h => h

theorem ensures_runSlice (fuel sliceFuel : Nat) :
    Proc.Ensures (fun st => ∃ outer, Resting J [] outer st)
      (runSlice core fuel sliceFuel : Run C S SliceOutcome) (AfterSlice J) (Stopped J) := by
  refine Proc.ensures_exists fun outer => ?_
  refine Proc.ensures_bind ensures_read fun usage => ?_
  refine Proc.ensures_bind (Q := fun _ => Resting J [] none)
    (Proc.ensures_update fun st h => ?_) fun _ => ?_
  · -- the slice before it is closed
    obtain ⟨hrec, hnone⟩ := recordResume_spec st.recorder usage
    rw [h.1.2] at hrec
    refine ⟨⟨recording_record h.1.1 hrec fun next hle => ⟨next, hle.trans hrec.pollIndex, ?_⟩,
      hnone⟩, levelAfter_record _ _ h.2⟩
    rw [h.2]
    cases outer with
    | none => rfl
    | some y => exact readAll_closes _ _ _
  refine Proc.ensures_bind (ensures_onCore fun _ => hJ.startSlice sliceFuel) fun _ => ?_
  refine Proc.ensures_bind (ensures_flag fun _ => ⟨rfl, rfl, rfl, rfl⟩) fun _ => ?_
  refine Proc.ensures_bind (ensures_runDriver hJ fuel) fun outcome => ?_
  cases outcome with
  | yielded =>
    refine Proc.ensures_bind (ensures_flag fun _ => ⟨rfl, rfl, rfl, rfl⟩) fun queueYield => ?_
    refine Proc.ensures_bind ensures_read fun pending => ?_
    dsimp only
    split
    next reason hreason => exact ensures_yieldSlice hJ _ _ hreason
    next hreason =>
      exfalso
      revert hreason
      unfold sliceYield
      cases pending <;> cases queueYield <;> simp [auditYieldReasonFrom]
  | done result =>
    exact Proc.ensures_bind (ensures_onCore fun _ => hJ.finalize _) fun _ =>
      Proc.ensures_pure fun _ h => h
  | fails error =>
    exact Proc.ensures_bind (ensures_onCore fun _ => hJ.finalize _) fun _ =>
      Proc.ensures_pure fun _ h => h

end

/-! ## The driver -/

section

variable {core : Core C} (hJ : core.Unmarking J) (rq : AuditedRequest) (executionId : Nat)
variable (sink : AuditSink S)

/-- The outcome of a terminal slice is read off the core. -/
theorem ensures_terminalFrom {A : RunState C S → Prop} {E : Stop → RunState C S → Prop}
    (hexit : ∀ st, A st → A { st with core := (core.takePendingExit st.core).2 })
    (error : TsumugiError) :
    Proc.Ensures A (terminalFrom core error : Run C S ExecutionOutcome) (fun _ => A) E := by
  refine Proc.ensures_bind ensures_read fun usage => ?_
  refine Proc.ensures_bind (Q := fun _ => A) ?_ fun _ => Proc.ensures_pure fun _ h => h
  exact Proc.ensures_ite (fun _ => Proc.ensures_update fun st h => hexit st h) fun _ =>
    Proc.ensures_pure fun _ h => h

theorem ensures_terminalOf {A : RunState C S → Prop} {E : Stop → RunState C S → Prop}
    (hexit : ∀ st, A st → A { st with core := (core.takePendingExit st.core).2 })
    (result : Except TsumugiError Unit) :
    Proc.Ensures A (terminalOf core result : Run C S ExecutionOutcome) (fun _ => A) E := by
  cases result with
  | ok => exact Proc.ensures_bind ensures_read fun _ => Proc.ensures_pure fun _ h => h
  | error error => exact ensures_terminalFrom hexit error

/-- After a flush that failed the log stays as it is. -/
theorem ensures_withheldAfter {E : Stop → RunState C S → Prop} (slice : SliceOutcome) :
    Proc.Ensures (fun st => YieldLaw st.log) (withheldAfter core slice : Run C S TerminalOutcome)
      (fun _ st => YieldLaw st.log) E := by
  cases slice with
  | terminal result =>
    exact Proc.ensures_bind (ensures_terminalOf (fun _ h => h) result) fun _ =>
      Proc.ensures_pure fun _ h => h
  | _ =>
    exact Proc.ensures_bind (Q := fun _ st => YieldLaw st.log)
      (Proc.ensures_update fun _ h => h) fun _ => Proc.ensures_pure fun _ h => h

/-- What the driver leaves: an outcome comes with all yields closed and delivered. -/
def AfterDrive (J : C → Prop) (drive : AuditDrive) (st : RunState C S) : Prop :=
  match drive with
  | .terminal _ => Flushed J none st
  | .failed .. => YieldLaw st.log

theorem flushed_core {st : RunState C S} {c : C} (h : Flushed J outer st) (hc : J c) :
    Flushed J outer { st with core := c } :=
  ⟨⟨⟨Recording.withCore h.1.1.1 hc, h.1.1.2⟩, h.1.2⟩, h.2⟩

include hJ

theorem flushed_exit (st : RunState C S) (h : Flushed J outer st) :
    Flushed J outer { st with core := (core.takePendingExit st.core).2 } :=
  flushed_core h (hJ.exit h.1.1.1.core)

/-- A flush whose failures come back: the yields are closed, or it has failed. -/
theorem ensures_flush_attempt (fuel : Nat) {outer : Option Yield} :
    Proc.Ensures (Resting J [] outer)
      ((flushEvents rq executionId core sink fuel).attempt Stop.failure)
      (fun result st =>
        match result with
        | .ok () => Flushed J outer st
        | .error _ => YieldLaw st.log) (Stopped J) := by
  refine Proc.ensures_attempt (ensures_flushEvents hJ rq executionId sink fuel)
    (fun _ _ h => h) (fun stop _ st hstop h => ?_) fun stop st _ h => h
  cases stop with
  | failed failure => exact h
  | _ => cases hstop

theorem ensures_pollLoop (sliceFuel fuel : Nat) :
    Proc.Ensures (fun st => ∃ outer, Resting J [] outer st)
      (pollLoop rq executionId core sink sliceFuel fuel) (AfterDrive J) (Stopped J) := by
  induction fuel with
  | zero => exact Proc.ensures_stop fun _ ⟨_, h⟩ => Recording.law h.1.1
  | succ fuel ih =>
    refine Proc.ensures_bind (ensures_runSlice hJ fuel sliceFuel) fun slice => ?_
    -- what a flush leaves after this slice
    refine Proc.ensures_bind (Q := fun result st =>
        match result with
        | .ok () => ∃ outer, Flushed J outer st ∧ AfterSlice J slice st
        | .error _ => YieldLaw st.log) ?_ fun flushed => ?_
    · cases slice with
      | terminal result =>
        refine Proc.Ensures.conseq (ensures_flush_attempt hJ rq executionId sink fuel)
          (fun _ h => h) (fun flushed st h => ?_) fun _ _ h => h
        cases flushed with
        | ok _ => exact ⟨none, h, h.1⟩
        | error failure => exact h
      | _ =>
        refine Proc.ensures_exists fun outer => ?_
        refine Proc.Ensures.conseq (ensures_flush_attempt hJ rq executionId sink fuel)
          (fun _ h => h) (fun flushed st h => ?_) fun _ _ h => h
        cases flushed with
        | ok _ => exact ⟨outer, h, outer, h.1⟩
        | error failure => exact h
    rcases flushed with failure | _
    · refine Proc.ensures_bind (ensures_withheldAfter slice) fun withheld => ?_
      exact Proc.ensures_bind (Q := fun _ st => YieldLaw st.log)
        (Proc.ensures_update fun _ h => h) fun _ =>
        Proc.ensures_pure fun st h => show YieldLaw st.log from h
    · cases slice with
      | terminal result =>
        refine Proc.ensures_bind (Q := fun _ => Flushed J none) ?_ fun outcome => ?_
        · refine Proc.Ensures.conseq (ensures_terminalOf (flushed_exit hJ) result) ?_
            (fun _ _ h => h) fun _ _ h => h
          rintro st ⟨outer, h, hclosed⟩
          exact ⟨hclosed, h.2⟩
        · exact Proc.ensures_bind (Q := fun _ => Flushed J none)
            (Proc.ensures_update fun _ h => flushed_core h (hJ.clear h.1.1.1.core)) fun _ =>
            Proc.ensures_pure fun _ h => h
      | _ =>
        exact Proc.Ensures.conseq ih (fun _ ⟨_, _, h⟩ => h) (fun _ _ h => h) fun _ _ h => h

theorem ensures_beginExecution :
    Proc.Ensures (Resting J [] none) (beginExecution core : Run C S BeginAnswer)
      (fun _ => Resting J [] none) (Stopped J) := by
  refine Proc.ensures_bind ensures_work fun _ => ?_
  refine Proc.ensures_bind (Q := fun answer st => Resting J [] none st ∧
    ∀ note ∈ answer.1, note.Unmarked) (Proc.ensures_update fun st h => ?_) fun answer => ?_
  · obtain ⟨hcore, hnotes⟩ := hJ.begins h.1.1.core
    exact ⟨⟨⟨Recording.withCore h.1.1 hcore, h.1.2⟩, h.2⟩, hnotes⟩
  · obtain ⟨notes, answer⟩ := answer
    intro st hst
    refine Proc.ensures_bind (ensures_record fun r _ => takes_spec hst.2 r) (fun _ => ?_) st hst.1
    cases answer with
    | unwinds => exact ensures_panics
    | _ => exact Proc.ensures_pure fun _ h => h

/-- No yield has been recorded yet. The recorder may be that of the execution before. -/
def Fresh (st : RunState C S) : Prop :=
  yieldsOf st.log = [] ∧ journalMarks st.log = [] ∧ levelAfter .slice st.log = .slice

omit hJ in
/-- `reset_budget` empties the recorder. -/
theorem fresh_install {st : RunState C S} {c : C} (h : Fresh st) (hc : J c) :
    Flushed J none
      { st with
        core := c
        recorder := {}
        log := st.log ++
          (([] : List AuditEvent).drop st.recorder.auditEvents.length).map .recorded } := by
  obtain ⟨hyields, hjournal, hlevel⟩ := h
  rw [List.drop_nil, List.map_nil, List.append_nil]
  refine ⟨⟨⟨⟨hc, unmarked_empty, ⟨0, Nat.le_refl _, ?_⟩, ?_⟩, rfl⟩, hlevel⟩, rfl⟩
  · rw [hyields]
    rfl
  · rw [hyields, hjournal]
    rfl

theorem ensures_runAuditedDriver (fuel : Nat) :
    Proc.Ensures Fresh (runAuditedDriver rq executionId core sink fuel) (AfterDrive J)
      (Stopped J) := by
  refine Proc.ensures_bind (Q := fun _ st => Fresh st ∧ J st.core)
    (Proc.ensures_update fun st h => ⟨h, hJ.install _⟩) fun cancelled => ?_
  refine Proc.ensures_bind (Q := fun _ => Flushed J none)
    (Proc.ensures_update fun st h => fresh_install h.1 h.2) fun _ => ?_
  refine Proc.ensures_ite (fun _ => ?_) fun _ => ?_
  · exact Proc.ensures_bind ensures_read fun _ => Proc.ensures_pure fun _ h => h
  refine Proc.ensures_bind (Proc.Ensures.conseq (P := Resting J [] none)
    (ensures_flag fun _ => ⟨rfl, rfl, rfl, rfl⟩) (fun _ h => h.1) (fun _ _ h => h)
    fun _ _ h => h) fun _ => ?_
  refine Proc.ensures_bind (ensures_beginExecution hJ) fun answer => ?_
  cases answer with
  | fails error =>
    refine Proc.ensures_bind (ensures_terminalFrom (fun st h => ?_) error) fun outcome => ?_
    · exact ⟨⟨Recording.withCore h.1.1 (hJ.exit h.1.1.core), h.1.2⟩, h.2⟩
    refine Proc.ensures_bind (ensures_flush_attempt hJ rq executionId sink fuel) fun flushed => ?_
    rcases flushed with failure | _
    · exact Proc.ensures_pure fun _ h => h
    · exact Proc.ensures_bind (Q := fun _ => Flushed J none)
        (Proc.ensures_update fun _ h => flushed_core h (hJ.clear h.1.1.1.core)) fun _ =>
        Proc.ensures_pure fun _ h => h
  | ok =>
    exact Proc.Ensures.conseq (ensures_pollLoop hJ rq executionId sink _ fuel)
      (fun _ h => ⟨none, h⟩) (fun _ _ h => h) fun _ _ h => h
  | unwinds =>
    exact Proc.Ensures.conseq (ensures_pollLoop hJ rq executionId sink _ fuel)
      (fun _ h => ⟨none, h⟩) (fun _ _ h => h) fun _ _ h => h

end

/-! ## The run -/

/-- The yields are closed, those that were recorded and those of the journal. -/
structure Closed (log : List LogEntry) : Prop where
  recorded : ∃ next, openYields (yieldsOf log) = some ⟨[], next⟩
  journal : ∃ next, JournalReads log ⟨[], next⟩

/-- The outcome says that the implementation or the host has failed. -/
def IsInternal (outcome : ExecutionOutcome) : Prop := ∃ usage, outcome = .internalFailure usage

/-- What a run leaves that has returned. -/
def Concluded (audited : AuditedOutcome) (st : RunState C S) : Prop :=
  YieldLaw st.log ∧ ∀ outcome, audited = .outcome outcome → ¬ IsInternal outcome → Closed st.log

section

theorem quietStable_journalReads (o : Reading (YieldLevel × Yield)) :
    QuietStable fun _ log => JournalReads log o :=
  fun _ _ _ h hquiet => journalReads_append h (journalMarks_quiet hquiet)

theorem quietStable_broken :
    QuietStable fun _ log => WaitPanicked log ∧ ∃ o, JournalReads log o := by
  rintro _ log entries ⟨hpanicked, o, hreads⟩ hquiet
  exact ⟨waitPanicked_append hpanicked entries, o,
    journalReads_append hreads (journalMarks_quiet hquiet)⟩

/-- When all is delivered the journal has accepted all yields. -/
theorem journalReads_of_flushed {st : RunState C S} (h : Flushed J outer st) :
    ∃ next, JournalReads st.log ⟨sliceStack outer, next⟩ := by
  obtain ⟨next, -, hread⟩ := h.1.1.1.reads
  refine ⟨next, yieldsOf st.log, List.prefix_rfl, ?_, hread⟩
  rw [h.1.1.1.split, h.2]
  simp

variable {core : Core C} (hJ : core.Unmarking J) (rq : AuditedRequest) (executionId : Nat)
variable (sink : AuditSink S)

theorem terminalEvent_unmarked (outcome : ExecutionOutcome) (exceeded : Option BudgetResource) :
    (terminalEvent rq outcome exceeded).yieldMark = none := rfl

include hJ in
/-- The Terminal is delivered, over the yields that a panic has left open. -/
theorem ensures_finish (outcome : ExecutionOutcome) (held : List (Mark Yield))
    (outer : Option Yield) :
    Proc.Ensures (fun st => Standing J held outer st ∧
        (IsInternal outcome ∨ outer = none ∧ ∃ next, JournalReads st.log ⟨[], next⟩))
      (finish rq executionId core sink outcome) Concluded (fun _ st => YieldLaw st.log) := by
  let Settled : AuditJournal → List LogEntry → Prop := fun _ log =>
    IsInternal outcome ∨ outer = none ∧ ∃ next, JournalReads log ⟨[], next⟩
  have hstable : ∀ j j' {log entries}, Settled j log → journalMarks entries = [] →
      Settled j' (log ++ entries) := by
    rintro - - log entries (h | ⟨hnone, next, h⟩) hentries
    · exact .inl h
    · exact .inr ⟨hnone, next, journalReads_append h hentries⟩
  have hquiet : QuietStable Settled := fun j _ _ h hq =>
    hstable j j h (journalMarks_quiet hq)
  let A : RunState C S → Prop := fun st => Standing J held outer st ∧ Settled st.journal st.log
  have hlaw : ∀ {st : RunState C S}, A st → YieldLaw st.log := fun h => Recording.law h.1.1
  refine Proc.ensures_bind (Q := fun _ => A) ?_ fun exceeded => ?_
  · unfold exceededResource
    split
    · exact Proc.ensures_update fun st h =>
        ⟨⟨Recording.withCore h.1.1 (hJ.resource h.1.1.core), h.1.2⟩, h.2⟩
    · exact Proc.ensures_pure fun _ h => h
  refine Proc.ensures_bind (Q := fun _ => A) (Proc.ensures_gets fun _ h => h) fun j => ?_
  have hplain : Plain [.appended (envelope rq executionId j.nextSequence
    (terminalEvent rq outcome exceeded))] := plain_appended rfl
  refine Proc.ensures_bind (Q := fun _ => A) (Proc.ensures_attempt (Q := fun _ => A)
    (E := fun _ => A) (ensures_append (fun st j' h => ?_) fun _ _ h => h)
    (fun _ _ h => h) (fun _ _ _ _ h => h) fun _ _ _ h => hlaw h) fun appended => ?_
  · exact ⟨⟨recording_plain h.1.1 hplain, h.1.2⟩, hstable st.journal j' h.2 hplain.2⟩
  rcases appended with failure | _
  · exact Proc.ensures_pure fun _ h => ⟨hlaw h, by simp⟩
  -- the delivery of the Terminal
  have hdelivered : Proc.Ensures (Standing J held outer)
      (deliver executionId core sink (envelope rq executionId j.nextSequence
        (terminalEvent rq outcome exceeded)))
      (fun _ => Resting J held outer) (Stopped J) := ensures_deliver hJ executionId sink
  have hdeliver := hdelivered.and_keeps (keeps_deliver executionId core sink hquiet _)
  refine Proc.ensures_bind (Q := fun result st => YieldLaw st.log ∧ (result = .ok () → A st))
    (Proc.ensures_attempt hdeliver (fun _ _ h => ⟨Recording.law h.1.1.1, fun _ => ⟨h.1.1, h.2⟩⟩)
      (fun _ _ _ _ h => ⟨Stopped.law h, by simp⟩) fun _ _ _ h => Stopped.law h)
    fun delivered => ?_
  rcases delivered with failure | _
  · exact Proc.ensures_pure fun _ h => ⟨h.1, by simp⟩
  · refine Proc.ensures_pure fun st h => ⟨h.1, fun o ho hinternal => ?_⟩
    cases ho
    obtain ⟨⟨hrecording, -⟩, hsettled⟩ := h.2 rfl
    obtain ⟨rfl, hjournal⟩ := hsettled.resolve_left hinternal
    obtain ⟨next, -, hread⟩ := hrecording.reads
    exact ⟨⟨next, hread⟩, hjournal⟩

/-- After a panic in a wait nothing that follows reaches the journal but the Terminal. -/
theorem keeps_finish_broken (outcome : ExecutionOutcome) :
    Proc.Keeps Broken (finish rq executionId core sink outcome : Run C S AuditedOutcome) := by
  let B : AuditJournal → List LogEntry → Prop := fun _ log =>
    WaitPanicked log ∧ ∃ o, JournalReads log o
  change Proc.Keeps (Holds B) _
  refine Proc.keeps_bind ?_ fun exceeded => ?_
  · unfold exceededResource
    split
    · exact keeps_onCore _
    · exact Proc.keeps_pure _
  refine Proc.keeps_bind (Proc.keeps_gets _) fun j => ?_
  refine Proc.keeps_bind (Proc.keeps_attempt (keeps_append ?_)) fun appended => ?_
  · rintro j j' log seq ⟨hpanicked, o, hreads⟩ -
    exact ⟨waitPanicked_append hpanicked _, o, journalReads_append hreads (plain_appended rfl).2⟩
  rcases appended with failure | _
  · exact Proc.keeps_pure _
  · refine Proc.keeps_bind (Proc.keeps_attempt
      (keeps_deliver executionId core sink quietStable_broken _)) fun delivered => ?_
    rcases delivered with failure | _ <;> exact Proc.keeps_pure _

/-- The outcome that is delivered is the one that was to be shown. -/
theorem finish_outcome (outcome : ExecutionOutcome) :
    Proc.Triple (fun _ => True) (finish rq executionId core sink outcome)
      fun audited _ => ∀ o, audited = .outcome o → o = outcome := by
  have hany : ∀ {α : Type} (m : Run C S α), Proc.Triple (fun _ => True) m fun _ _ => True :=
    fun _ _ _ _ _ _ => trivial
  refine Proc.triple_bind (hany _) fun _ => Proc.triple_bind (hany _) fun _ => ?_
  refine Proc.triple_bind (hany _) fun appended => ?_
  rcases appended with failure | _
  · exact Proc.triple_pure fun _ _ => by simp
  · refine Proc.triple_bind (hany _) fun delivered => ?_
    rcases delivered with failure | _
    · exact Proc.triple_pure fun _ _ => by simp
    · exact Proc.triple_pure fun _ _ o ho => by cases ho; rfl

/-- What the guarded driver leaves: an outcome is that of a flushed driver, or a panic has
been caught. -/
def AfterGuard (J : C → Prop) (drive : AuditDrive) (st : RunState C S) : Prop :=
  match drive with
  | .terminal outcome => Flushed J none st ∨
      IsInternal outcome ∧ (Broken st ∨ ∃ held outer, Standing J held outer st)
  | .failed .. => YieldLaw st.log

include hJ in
theorem ensures_guardedDriver (fuel : Nat) :
    Proc.Ensures Fresh (guardedDriver rq executionId core sink fuel) (AfterGuard J)
      (fun _ st => YieldLaw st.log) := by
  refine Proc.ensures_bind (Q := fun result st =>
      (∀ drive, result = .ok drive → AfterDrive J drive st) ∧
        (result = .error () → Broken st ∨ ∃ held outer, Standing J held outer st))
    (Proc.ensures_attempt (ensures_runAuditedDriver hJ rq executionId sink fuel)
      (fun drive _ h => ⟨fun _ hd => Except.ok.inj hd ▸ h, fun hd => (by cases hd)⟩)
      (fun stop _ st hstop h => ⟨fun _ hd => (by cases hd), fun _ => ?_⟩)
      fun _ _ _ h => Stopped.law h) fun result => ?_
  · cases stop with
    | unwound => exact h
    | _ => cases hstop
  rcases result with _ | drive
  · exact Proc.ensures_bind ensures_read fun usage =>
      Proc.ensures_pure fun _ h => .inr ⟨⟨usage, rfl⟩, h.2 rfl⟩
  · cases drive with
    | terminal outcome => exact Proc.ensures_pure fun _ h => .inl (h.1 _ rfl)
    | failed withheld failure =>
      exact Proc.ensures_pure fun st h => show YieldLaw st.log from h.1 _ rfl

/-- Before the driver: no yield is there. -/
def Unyielded (st : RunState C S) : Prop := yieldsOf st.log = [] ∧ journalMarks st.log = []

theorem unyielded_plain {st : RunState C S} {entries : List LogEntry} (h : Unyielded st)
    (hplain : Plain entries) :
    yieldsOf (st.log ++ entries) = [] ∧ journalMarks (st.log ++ entries) = [] := by
  rw [yieldsOf_append, journalMarks_append, hplain.1, hplain.2, h.1, h.2]
  exact ⟨rfl, rfl⟩

theorem unyielded_law {log : List LogEntry} (h : yieldsOf log = [] ∧ journalMarks log = []) :
    YieldLaw log where
  recorded _ := by
    rw [h.1]
    exact .of_some (readAll_nil _)
  journal := ⟨{}, [], List.nil_prefix, by rw [h.2]; rfl, rfl⟩

theorem unyielded_closed {st : RunState C S} (h : Unyielded st) : Closed st.log where
  recorded := ⟨0, by rw [h.1]; rfl⟩
  journal := ⟨0, [], List.nil_prefix, by rw [h.2]; rfl, rfl⟩

theorem ensures_failStarted :
    Proc.Ensures Unyielded (failStarted rq executionId sink : Run C S AuditedOutcome) Concluded
      (fun _ st => YieldLaw st.log) := by
  refine Proc.ensures_bind (Q := fun _ => Unyielded) (Proc.ensures_gets fun _ h => h) fun j => ?_
  refine Proc.ensures_bind (Q := fun _ => Unyielded) (Proc.ensures_attempt (Q := fun _ => Unyielded)
    (E := fun _ => Unyielded) (ensures_append
      (fun st j' h => unyielded_plain h (plain_appended rfl)) fun _ _ h => h)
    (fun _ _ h => h) (fun _ _ _ _ h => h) fun _ _ _ h => unyielded_law h) fun appended => ?_
  rcases appended with failure | _
  · exact Proc.ensures_pure fun _ h => ⟨unyielded_law h, by simp⟩
  · refine Proc.ensures_bind (Q := fun _ => Unyielded) (ensures_submit
      (fun st s h => unyielded_plain h (plain_submitted _))
      fun st h => unyielded_law
        (unyielded_plain h (plain_panicked _))) fun _ => ?_
    exact Proc.ensures_pure fun _ h => ⟨unyielded_law h, by simp⟩

/-- Before the Terminal. -/
def BeforeTerminal (J : C → Prop) (result : Except AuditedOutcome ExecutionOutcome)
    (st : RunState C S) : Prop :=
  match result with
  | .error audited => Concluded audited st
  | .ok outcome => AfterGuard J (.terminal outcome) st

include hJ in
theorem ensures_runStarted (fuel : Nat) :
    Proc.Ensures Unyielded (runStarted rq executionId core sink fuel) (BeforeTerminal J)
      (fun _ st => YieldLaw st.log) := by
  refine Proc.ensures_bind (Q := fun _ => Unyielded) (Proc.ensures_attempt (Q := fun _ => Unyielded)
    (E := fun _ => Unyielded) (ensures_append
      (fun st j' h => unyielded_plain h (plain_appended rfl)) fun _ _ h => h)
    (fun _ _ h => h) (fun _ _ _ _ h => h) fun _ _ _ h => unyielded_law h) fun appended => ?_
  rcases appended with failure | _
  · exact Proc.ensures_pure fun _ h => ⟨unyielded_law h, by simp⟩
  refine Proc.ensures_bind (Q := fun _ => Unyielded) (ensures_submit
    (fun st s h => unyielded_plain h (plain_submitted _))
    fun st h => unyielded_law
      (unyielded_plain h (plain_panicked _))) fun answer => ?_
  have hfailed : Proc.Ensures Unyielded (do
        let audited ← failStarted rq executionId sink
        pure (.error audited) : Run C S (Except AuditedOutcome ExecutionOutcome))
      (BeforeTerminal J) (fun _ st => YieldLaw st.log) :=
    Proc.ensures_bind (ensures_failStarted rq executionId sink) fun _ =>
      Proc.ensures_pure fun _ h => h
  cases answer with
  | ack ack =>
    refine Proc.ensures_ite (fun _ => ?_) fun _ => hfailed
    refine Proc.ensures_bind (Q := fun _ => Fresh) (Proc.ensures_modify fun st h => ?_) fun _ => ?_
    · obtain ⟨hyields, hjournal⟩ := unyielded_plain h (plain_acked _)
      exact ⟨hyields, hjournal, by simp [levelAfter, LogEntry.level]⟩
    refine Proc.ensures_bind (ensures_guardedDriver hJ rq executionId sink fuel) fun drive => ?_
    cases drive with
    | terminal outcome => exact Proc.ensures_pure fun _ h => h
    | failed withheld failure =>
      exact Proc.ensures_pure fun st h => ⟨h, by simp⟩
  | _ => exact hfailed

include hJ in
theorem ensures_runAuditedInner (fuel : Nat) :
    Proc.Ensures Unyielded (runAuditedInner rq core sink fuel) Concluded
      (fun _ st => YieldLaw st.log) := by
  have hreturns : ∀ outcome, Proc.Ensures Unyielded
      (pure (.error (.outcome outcome)) :
        Run C S (Except AuditedOutcome (Nat × ExecutionOutcome)))
      (fun result => BeforeTerminal J (result.map (·.2))) (fun _ st => YieldLaw st.log) :=
    fun outcome => Proc.ensures_pure fun _ h => ⟨unyielded_law h, fun _ _ _ => unyielded_closed h⟩
  refine Proc.ensures_bind (Q := fun result => BeforeTerminal J (result.map (·.2))) ?_
    fun result => ?_
  · refine Proc.ensures_bind (Q := fun _ => Unyielded) (Proc.ensures_gets fun _ h => h)
      fun answer => ?_
    cases answer with
    | unwinds =>
      refine Proc.ensures_bind (Q := fun _ => Unyielded) (Proc.ensures_modify fun st h =>
        unyielded_plain h (plain_panicked _)) fun _ => ?_
      exact Proc.ensures_bind (Q := fun _ => Unyielded) (Proc.ensures_gets fun _ h => h)
        fun _ => hreturns _
    | refused outcome => exact hreturns outcome
    | prepared =>
      cases rq.executionId with
      | none => exact hreturns _
      | some executionId =>
        refine Proc.ensures_ite (fun _ => ?_) fun _ => ?_
        · exact Proc.ensures_bind (Q := fun _ => Unyielded) (Proc.ensures_modify fun st h =>
            unyielded_plain h (plain_panicked _)) fun _ =>
            Proc.ensures_stop fun _ h => unyielded_law h
        · refine Proc.ensures_bind (ensures_runStarted hJ rq executionId sink fuel)
            fun result => Proc.ensures_pure fun _ h => ?_
          cases result <;> exact h
  · rcases result with audited | ⟨executionId, outcome⟩
    · exact Proc.ensures_pure fun _ h => h
    · -- the Terminal: after a driver that has flushed, or after a panic
      rintro st (h | ⟨hinternal, hbroken | ⟨held, outer, h⟩⟩)
      · exact ensures_finish hJ rq executionId sink outcome [] none st
          ⟨h.1.1, .inr ⟨rfl, journalReads_of_flushed h⟩⟩
      · have hkept : Broken ((finish rq executionId core sink outcome).run st).2 :=
          keeps_finish_broken rq executionId sink outcome st hbroken
        rcases hrun : (finish rq executionId core sink outcome).run st with ⟨stop | audited, t⟩ <;>
          rw [hrun] at hkept
        · exact Broken.law hkept
        · refine ⟨Broken.law hkept, fun o ho hnot => ?_⟩
          rw [finish_outcome rq executionId sink outcome st trivial audited t hrun o ho] at hnot
          exact absurd hinternal hnot
      · exact ensures_finish hJ rq executionId sink outcome held outer st ⟨h, .inl hinternal⟩

end

section

variable {core : Core C} (hJ : core.Unmarking J) (rq : AuditedRequest) (sink : AuditSink S)

include hJ

theorem ensures_runAudited (reentered : Bool) (fuel : Nat) :
    Proc.Ensures Unyielded (runAudited rq core sink reentered fuel) Concluded
      (fun _ st => YieldLaw st.log) := by
  refine Proc.ensures_bind (Q := fun _ => Unyielded) (Proc.ensures_gets fun _ h => h) fun st => ?_
  refine Proc.ensures_ite (fun _ => ?_) fun _ => ?_
  · exact Proc.ensures_pure fun _ h => ⟨unyielded_law h, fun _ _ _ => unyielded_closed h⟩
  refine Proc.ensures_bind (Q := fun _ => Unyielded) (Proc.ensures_modify fun _ h => h) fun _ => ?_
  refine Proc.ensures_bind (ensures_runAuditedInner hJ rq sink fuel) fun audited => ?_
  exact Proc.ensures_bind (Q := fun _ => Concluded audited)
    (Proc.ensures_modify fun _ h => h) fun _ => Proc.ensures_pure fun _ h => h

/-- What the polls leave. -/
def AfterPolls (J : C → Prop) (last : Option SliceOutcome) (st : RunState C S) : Prop :=
  match last with
  | some slice => AfterSlice J slice st
  | none => ∃ outer, Resting J [] outer st

theorem ensures_pollSlices {polls : List ((C → C) × Nat × Nat)}
    (hhost : ∀ poll ∈ polls, ∀ c, J c → J (poll.1 c)) :
    Proc.Ensures (fun st => ∃ outer, Resting J [] outer st)
      (pollSlices core polls : Run C S (Option SliceOutcome)) (AfterPolls J) (Stopped J) := by
  induction polls with
  | nil => exact Proc.ensures_pure fun _ h => h
  | cons poll polls ih =>
    obtain ⟨host, fuel, sliceFuel⟩ := poll
    refine Proc.ensures_bind (Q := fun _ st => ∃ outer, Resting J [] outer st)
      (Proc.ensures_exists fun outer => ?_) fun _ => ?_
    · exact (ensures_onCore (hhost (host, fuel, sliceFuel) (by simp))).conseq (fun _ h => h) (fun _ _ h => ⟨outer, h⟩)
        fun _ _ h => h
    refine Proc.ensures_bind (ensures_runSlice hJ fuel sliceFuel) fun slice => ?_
    have hrest := ih fun poll hmem => hhost poll (by simp [hmem])
    cases slice with
    | terminal result => exact Proc.ensures_pure fun _ h => h
    | _ => exact Proc.ensures_ite (fun _ => Proc.ensures_pure fun _ h => h) fun _ => hrest

theorem ensures_runPolled {polls : List ((C → C) × Nat × Nat)}
    (hhost : ∀ poll ∈ polls, ∀ c, J c → J (poll.1 c)) :
    Proc.Ensures Fresh (runPolled core polls : Run C S (Option SliceOutcome)) (AfterPolls J)
      (Stopped J) := by
  refine Proc.ensures_bind (Q := fun _ st => Fresh st ∧ J st.core)
    (Proc.ensures_update fun st h => ⟨h, hJ.install _⟩) fun _ => ?_
  refine Proc.ensures_bind (Q := fun _ => Resting J [] none)
    (Proc.ensures_update fun st h => (fresh_install h.1 h.2).1) fun _ => ?_
  refine Proc.ensures_bind (ensures_beginExecution hJ) fun answer => ?_
  have hpolls : Proc.Ensures (Resting J [] none) (pollSlices core polls : Run C S _)
      (AfterPolls J) (Stopped J) :=
    (ensures_pollSlices hJ hhost).conseq (fun _ h => ⟨none, h⟩) (fun _ _ h => h) fun _ _ h => h
  cases answer with
  | fails error => exact Proc.ensures_pure fun _ h => ⟨none, h⟩
  | ok => exact hpolls
  | unwinds => exact hpolls

end

end YieldLawLemmas

/-! ## The ledger reports no yield -/

/-- The calls of the accumulator that wait are charges and releases. -/
def BudgetLedger.Unmarked (l : BudgetLedger) : Prop := ∀ note ∈ l.noted, note.Unmarked

namespace YieldLawLemmas

open Charge BracketsLemmas

theorem unmarked_of_noted {l l' : BudgetLedger} (h : BudgetLedger.Unmarked l)
    (hnoted : l'.noted = l.noted) : BudgetLedger.Unmarked l' := by
  rw [BudgetLedger.Unmarked, hnoted]
  exact h

theorem unmarked_note {l : BudgetLedger} {note : Note} (h : BudgetLedger.Unmarked l)
    (hnote : note.Unmarked) : BudgetLedger.Unmarked (l.note note) := by
  intro n hmem
  rcases List.mem_append.mp hmem with hmem | hmem
  · exact h n hmem
  · obtain rfl := List.mem_singleton.mp hmem
    exact hnote

theorem unmarked_checkCancel : Proc.Keeps BudgetLedger.Unmarked checkCancel := by
  refine Proc.keeps_bind (Proc.keeps_gets _) fun l => ?_
  refine Proc.keeps_bind (Proc.keeps_modify fun _ h => unmarked_of_noted h rfl) fun _ => ?_
  exact Proc.keeps_ite (Proc.keeps_stop _) (Proc.keeps_pure _)

theorem unmarked_checkDeadline : Proc.Keeps BudgetLedger.Unmarked checkDeadline := by
  refine Proc.keeps_bind (Proc.keeps_gets _) fun l => ?_
  cases l.clock with
  | none => exact Proc.keeps_pure _
  | some clock =>
    refine Proc.keeps_bind (Proc.keeps_modify fun _ h => unmarked_of_noted h rfl) fun _ => ?_
    exact Proc.keeps_ite (Proc.keeps_stop _) (Proc.keeps_pure _)

theorem unmarked_reserveAll (requests : List CumulativeRequest) (phase : ExecutionPhase) :
    Proc.Keeps BudgetLedger.Unmarked (reserveAll requests phase) := by
  refine Proc.keeps_bind unmarked_checkCancel fun _ => ?_
  refine Proc.keeps_bind unmarked_checkDeadline fun _ => ?_
  refine Proc.keeps_bind (Proc.keeps_gets _) fun refusal => ?_
  cases refusal with
  | some exceeded => exact Proc.keeps_stop _
  | none =>
    refine Proc.keeps_modify fun l h => unmarked_of_noted h ?_
    clear h
    induction requests generalizing l with
    | nil => rfl
    | cons q requests ih => exact ih (l.addReserved q)

theorem unmarked_chargeAll (requests : List CumulativeRequest) (phase : ExecutionPhase) :
    Proc.Keeps BudgetLedger.Unmarked (chargeAll requests phase) := by
  refine Proc.keeps_bind (unmarked_reserveAll requests phase) fun _ => ?_
  induction requests with
  | nil => exact Proc.keeps_pure _
  | cons q requests ih =>
    refine Proc.keeps_bind (Proc.keeps_modify fun l h => ?_) fun _ => ih
    dsimp only
    split
    · exact unmarked_note (unmarked_of_noted h rfl) trivial
    · exact unmarked_of_noted h rfl

theorem unmarked_perItem (resource : BudgetResource) (candidate : Nat) (phase : ExecutionPhase)
    {within : Charge Unit} (h : Proc.Keeps BudgetLedger.Unmarked within) :
    Proc.Keeps BudgetLedger.Unmarked (perItem resource candidate phase within) := by
  refine Proc.keeps_bind (Proc.keeps_gets _) fun limit => Proc.keeps_ite ?_ h
  exact Proc.keeps_bind unmarked_checkCancel fun _ => Proc.keeps_stop _

theorem unmarked_heapChargeRaw (bytes : Nat) (phase : ExecutionPhase) :
    Proc.Keeps BudgetLedger.Unmarked (heapChargeRaw bytes phase) := by
  intro l h
  simp only [heapChargeRaw, onHeap]
  split <;> exact h

theorem unmarked_allocateHeapId : Proc.Keeps BudgetLedger.Unmarked allocateHeapId := by
  intro l h
  simp only [allocateHeapId, onHeap]
  split <;> exact h

theorem unmarked_chargeHeap (bytes : Nat) (phase : ExecutionPhase) :
    Proc.Keeps BudgetLedger.Unmarked (chargeHeap bytes phase) :=
  Proc.keeps_bind unmarked_checkCancel fun _ =>
    Proc.keeps_bind unmarked_checkDeadline fun _ => unmarked_heapChargeRaw bytes phase

theorem unmarked_releaseHeap (bytes : Nat) :
    Proc.Keeps BudgetLedger.Unmarked (releaseHeap bytes) := by
  refine Proc.keeps_modify fun l h => ?_
  dsimp only
  split
  · exact unmarked_note (unmarked_of_noted h rfl) trivial
  · exact unmarked_of_noted h rfl

theorem unmarked_retrack (oldBytes newBytes : Nat) (phase : ExecutionPhase) :
    Proc.Keeps BudgetLedger.Unmarked (retrack oldBytes newBytes phase) :=
  Proc.keeps_ite (unmarked_chargeHeap _ _)
    (Proc.keeps_ite (unmarked_releaseHeap _) (Proc.keeps_pure _))

theorem unmarked_newViaHandle (bytes : Nat) (phase : ExecutionPhase) :
    Proc.Keeps BudgetLedger.Unmarked (newViaHandle bytes phase) :=
  Proc.keeps_bind (unmarked_heapChargeRaw _ _) fun _ => unmarked_allocateHeapId

/-- A request that reports the peak of one item. -/
theorem unmarked_chargePeak (resource : BudgetResource) (byteLen : Nat) (phase : ExecutionPhase)
    (requests : List CumulativeRequest) {f : BudgetLedger → BudgetLedger}
    (hf : ∀ l, (f l).noted = l.noted) :
    Proc.Keeps BudgetLedger.Unmarked (perItem resource byteLen phase do
      chargeAll requests phase
      Proc.modify f) :=
  unmarked_perItem _ _ _ (Proc.keeps_bind (unmarked_chargeAll _ _) fun _ =>
    Proc.keeps_modify fun l h => unmarked_of_noted h (hf l))

theorem unmarked_chargeSource (byteLen : Nat) (phase : ExecutionPhase) :
    Proc.Keeps BudgetLedger.Unmarked (chargeSource byteLen phase) :=
  unmarked_chargePeak _ _ _ _ fun _ => rfl

theorem unmarked_ask (held : List Nat) (point : ChargePoint) :
    Proc.Keeps BudgetLedger.Unmarked (point.ask held) := by
  cases point with
  | fuel => exact unmarked_chargeAll _ _
  | builtinFuel => exact unmarked_chargeAll _ _
  | collection size =>
    refine Proc.keeps_bind unmarked_checkCancel fun _ => ?_
    refine Proc.keeps_bind (Proc.keeps_gets _) fun _ => Proc.keeps_ite (Proc.keeps_stop _) ?_
    exact Proc.keeps_modify fun _ h => unmarked_of_noted h rfl
  | string byteLen => exact unmarked_chargePeak _ _ _ _ fun _ => rfl
  | rendered bytes => exact unmarked_perItem _ _ _ (Proc.keeps_pure _)
  | builtinRendered bytes => exact unmarked_perItem _ _ _ (Proc.keeps_pure _)
  | input payloadBytes => exact unmarked_chargeAll _ _
  | output payloadBytes => exact unmarked_chargeAll _ _
  | hostRequest requestBytes => exact unmarked_chargeAll _ _
  | hostResponse responseBytes => exact unmarked_chargeAll _ _
  | tracked bytes =>
    exact Proc.keeps_bind (unmarked_chargeHeap _ _) fun _ => unmarked_allocateHeapId
  | detach bytes =>
    exact Proc.keeps_bind (unmarked_chargeHeap _ _) fun _ => unmarked_allocateHeapId
  | viaHandle bytes => exact unmarked_newViaHandle _ _
  | frame bytes => exact unmarked_chargeHeap _ _
  | resize index newBytes =>
    simp only [ChargePoint.ask]
    split
    · exact unmarked_retrack _ _ _
    · exact Proc.keeps_pure _
  | adopt oldBytes newBytes => exact unmarked_retrack _ _ _
  | collectionSize size =>
    refine Proc.keeps_bind (Proc.keeps_gets _) fun _ => ?_
    exact Proc.keeps_ite (Proc.keeps_stop _) (Proc.keeps_pure _)
  | adapter stop => exact Proc.keeps_stop _

/-- The ledger of the client reports no yield. -/
def Client.Unmarked (c : Client P) : Prop := BudgetLedger.Unmarked c.ledger

theorem unmarked_release {c : Client P} (h : Client.Unmarked c) (release : Release) :
    Client.Unmarked (c.release release) := by
  cases release with
  | drop index =>
    simp only [Client.release]
    split
    · exact unmarked_of_noted h rfl
    · exact h
  | frame =>
    simp only [Client.release]
    split
    next bytes frames hframes => exact unmarked_releaseHeap bytes c.ledger h
    next => exact h

theorem unmarked_releases {c : Client P} (h : Client.Unmarked c) (releases : List Release) :
    Client.Unmarked (releases.foldl Client.release c) := by
  induction releases generalizing c with
  | nil => exact h
  | cons release releases ih => exact ih (unmarked_release h release)

variable (prog : Program P)

theorem unmarked_convert {c : Client P} (h : Client.Unmarked c) (stop : ControlStop) (line : Nat)
    (conversion : Conversion) : Client.Unmarked (c.convert prog stop line conversion).2 := by
  cases conversion with
  | raw => exact h
  | noting => cases stop <;> exact h

theorem unmarked_charge {c : Client P} (h : Client.Unmarked c) (point : ChargePoint)
    (line : Nat) : Client.Unmarked (c.charge prog point line) := by
  have hask := unmarked_ask c.held point c.ledger h
  have hcase := charge_cases prog c point line
  generalize c.charge prog point line = c' at hcase ⊢
  cases hcase with
  | @granted ledger heq =>
    rw [heq] at hask
    rw [Client.Unmarked, (AccountLemmas.hold_ledger _ point).1]
    exact hask
  | @refused ledger stop heq =>
    rw [heq] at hask
    have hc := unmarked_convert prog (c := { c with ledger }) hask stop line point.conversion
    simp only [Client.refuse]
    split
    · exact unmarked_releases hc _
    · exact hc

theorem unmarked_asking {m : Charge Unit} (hm : Proc.Keeps BudgetLedger.Unmarked m)
    (line : Nat) : Proc.Keeps Client.Unmarked (Link.asking prog m line) := by
  intro c h
  have hm' := hm c.ledger h
  simp only [Link.asking]
  rcases hrun : m.run c.ledger with ⟨stop | ⟨⟩, ledger⟩ <;> rw [hrun] at hm'
  · exact unmarked_convert prog (c := { c with ledger }) hm' stop line .noting
  · exact hm'

theorem unmarked_chargeToken (bytes : Nat) :
    Proc.Keeps Client.Unmarked (Link.chargeToken prog bytes) :=
  Proc.keeps_bind (unmarked_asking prog (unmarked_newViaHandle _ _) _) fun _ =>
    Proc.keeps_modify fun _ h => h

theorem unmarked_chargeModules (modules : List LoadedModule) :
    Proc.Keeps Client.Unmarked (Link.chargeModules prog modules) := by
  induction modules with
  | nil => exact Proc.keeps_pure _
  | cons m modules ih =>
    refine Proc.keeps_bind ?_ fun _ => ih
    refine Proc.keeps_bind (unmarked_asking prog (unmarked_chargeSource _ _) _) fun _ => ?_
    refine Proc.keeps_bind (unmarked_asking prog (unmarked_chargeAll _ _) _) fun _ => ?_
    refine Proc.keeps_bind (unmarked_asking prog (unmarked_newViaHandle _ _) _) fun _ => ?_
    exact Proc.keeps_modify fun _ h => h

theorem unmarked_chargeLink (input : LinkInput) :
    Proc.Keeps Client.Unmarked (Link.chargeLink prog input) := by
  refine Proc.keeps_bind ?_ fun _ => ?_
  · refine Proc.keeps_bind (unmarked_asking prog (unmarked_chargeSource _ _) _) fun _ => ?_
    refine Proc.keeps_bind (unmarked_chargeModules prog _) fun _ => ?_
    exact unmarked_chargeToken prog _
  · generalize input.bodyBytes = bodies
    induction bodies with
    | nil => exact Proc.keeps_pure _
    | cons bytes bodies ih => exact Proc.keeps_bind (unmarked_chargeToken prog bytes) fun _ => ih

theorem unmarked_forget {c : Client P} (h : Client.Unmarked c) :
    Client.Unmarked (Link.forget c) := by
  refine unmarked_of_noted h ?_
  simp only [Link.forget]
  generalize c.held = held
  generalize c.ledger = l
  induction held generalizing l with
  | nil => rfl
  | cons bytes held ih => exact ih _

theorem unmarked_beginExecution {c : Client P} (h : Client.Unmarked c) :
    ∀ note ∈ (Link.beginExecution prog c).1, note.Unmarked := by
  simp only [Link.beginExecution]
  rcases hlink : prog.link c.program with ⟨input | error | _, program⟩ <;>
    simp only [hlink]
  · have hcharged := unmarked_chargeLink prog input { c with program } h
    rcases hrun : (Link.chargeLink prog input).run { c with program } with ⟨error | ⟨⟩, c'⟩ <;>
      rw [hrun] at hcharged <;> simp only
    · exact unmarked_forget hcharged
    · cases input.depthError with
      | some error => exact unmarked_forget hcharged
      | none => exact hcharged
  · exact h
  · exact h

theorem unmarked_next {c : Client P} (h : Client.Unmarked c) :
    Client.Unmarked (c.next prog).2 ∧
      ∀ note, (c.next prog).1 = .note note → note.Unmarked := by
  have hcase := next_cases prog c
  generalize hnext : c.next prog = result at hcase ⊢
  obtain ⟨action, c'⟩ := result
  have hsilent : ∀ note, Client.silent = .note note → note.Unmarked := by
    rintro note hnote
    cases hnote
    rfl
  cases hcase with
  | @taken note noted hnoted =>
    rw [Client.Unmarked, BudgetLedger.Unmarked, hnoted] at h
    refine ⟨fun n hmem => h n (List.mem_cons_of_mem _ hmem), fun n hn => ?_⟩
    cases hn
    exact h note List.mem_cons_self
  | failing => exact ⟨h, by simp⟩
  | charged point line program =>
    exact ⟨unmarked_charge prog (c := { c with program }) h point line, hsilent⟩
  | released release program =>
    exact ⟨unmarked_release (c := { c with program }) h release, hsilent⟩
  | hosted call program =>
    refine ⟨h, fun note hnote => ?_⟩
    cases hnote
    rfl
  | affected program => exact ⟨h, hsilent⟩
  | idled program _ _ hne => exact ⟨h, fun note hnote => absurd hnote (hne note)⟩

theorem unmarking_ledgerCore (config : BudgetConfig) (interrupts : Interrupts) :
    (ledgerCore prog config interrupts).Unmarking Client.Unmarked where
  install _ := fun _ hmem => by cases hmem
  begins h := ⟨fun _ hmem => (by cases hmem), unmarked_beginExecution prog h⟩
  startSlice _ h := h
  next h := unmarked_next prog h
  finalize commit h := by
    rename_i c
    have hdrops : ∀ (drops : List Nat) (c : Client P), Client.Unmarked c →
        Client.Unmarked (drops.foldl (fun c index => c.release (.drop index)) c) := by
      intro drops
      induction drops with
      | nil => exact fun _ h => h
      | cons index drops ih => exact fun c h => ih _ (unmarked_release h _)
    exact hdrops _ _ h
  cancel h := h
  deadline h := h
  exit h := h
  resource h := h
  clear h := h

end YieldLawLemmas

/-! ## The result -/

/-- A poll before which the host changes the program. -/
def hostPoll (poll : (P → P) × Nat × Nat) : (Client P → Client P) × Nat × Nat :=
  (fun c => { c with program := poll.1 c.program }, poll.2)

namespace YieldLawLemmas

open BracketsLemmas PanicLemmas

/-- Without a sink there is nothing to wait for. -/
theorem evaluates_runPolled (core : Core C) (polls : List ((C → C) × Nat × Nat)) :
    Evaluates (runPolled core polls : Run C S (Option SliceOutcome)) := by
  have hpolls : Evaluates (pollSlices core polls : Run C S (Option SliceOutcome)) := by
    induction polls with
    | nil => exact Proc.meets_pure _
    | cons poll polls ih =>
      obtain ⟨host, fuel, sliceFuel⟩ := poll
      refine Proc.meets_bind (meets_onCore _) fun _ => ?_
      refine Proc.meets_bind (evaluates_runSlice core fuel sliceFuel) fun slice => ?_
      cases slice with
      | terminal result => exact Proc.meets_pure _
      | _ => exact Proc.meets_ite (Proc.meets_pure _) ih
  refine Proc.meets_bind (meets_onCore _) fun _ => ?_
  refine Proc.meets_bind (evaluates_record _) fun _ => ?_
  refine Proc.meets_bind (evaluates_beginExecution core) fun answer => ?_
  cases answer with
  | fails error => exact Proc.meets_pure _
  | ok => exact hpolls
  | unwinds => exact hpolls

theorem not_waitPanicked_of_evaluates {α : Type} {m : Run C S α} (hm : Evaluates m)
    {st : RunState C S} (hst : st.log = []) : ¬ WaitPanicked (m.run st).2.log := by
  rintro ⟨before, env, after, hlog, -⟩
  obtain ⟨-, entries, hentries, hok, -⟩ := hm st
  rw [hst, List.nil_append] at hentries
  rw [hentries] at hlog
  simpa [LogEntry.ofEvaluator] using hok (.panicked (.delivery env.event)) (by simp [hlog])

end YieldLawLemmas

open YieldLawLemmas in
/-- In every audited run whose host does not panic while an ack is awaited, the yields that
were recorded are well bracketed; those of the journal are in every run; and a run that ends
with an outcome of the program leaves none open. So it is with the slices of a handle. -/
theorem yields_bracketed (prog : Program P) (config : BudgetConfig) (interrupts : Interrupts)
    (rq : AuditedRequest) (sink : AuditSink S) (program : P) (ledger : BudgetLedger) (s : S)
    (r : Recorder) (poisoned running reentered : Bool) (fuel : Nat)
    (polls : List ((P → P) × Nat × Nat)) :
    let core := ledgerCore prog config interrupts
    let st := RunState.initial rq (Client.initial program ledger) s r poisoned running
    let audited := (runAudited rq core sink reentered fuel).run st
    let polled := (runPolled core (polls.map hostPoll)).run st
    YieldLaw audited.2.log ∧
      (∀ outcome, audited.1 = .ok (.outcome outcome) → ¬ IsInternal outcome →
        Closed audited.2.log) ∧
      YieldsBracketed (yieldsOf polled.2.log) ∧
      ∀ result, polled.1 = .ok (some (.terminal result)) →
        ∃ next, openYields (yieldsOf polled.2.log) = some ⟨[], next⟩ := by
  intro core st audited polled
  have hJ := unmarking_ledgerCore prog config interrupts
  have haudited := ensures_runAudited hJ rq sink reentered fuel
  have hpolled : Proc.Ensures Fresh (runPolled core (polls.map hostPoll))
      (AfterPolls Client.Unmarked) (Stopped (S := S) Client.Unmarked) := by
    refine ensures_runPolled hJ ?_
    rintro poll hmem c hc
    obtain ⟨poll, -, rfl⟩ := List.mem_map.mp hmem
    exact hc
  have hnever : ¬ WaitPanicked polled.2.log :=
    not_waitPanicked_of_evaluates (evaluates_runPolled core (polls.map hostPoll)) rfl
  refine ⟨?_, ?_, ?_, ?_⟩
  · exact haudited.ends (fun _ _ h => h.1) (fun _ _ h => h) ⟨rfl, rfl⟩
  · intro outcome hrun
    exact (haudited.returns ⟨rfl, rfl⟩ hrun).2 outcome rfl
  · refine YieldLaw.recorded ?_ hnever
    refine hpolled.ends (R := fun t => YieldLaw t.log) (s := st) (fun last t h => ?_)
      (fun _ _ h => Stopped.law h) ⟨rfl, rfl, rfl⟩
    obtain ⟨outer, h⟩ : ∃ outer, Resting Client.Unmarked [] outer t := by
      cases last with
      | none => exact h
      | some slice => exact AfterSlice.open h
    exact Recording.law h.1.1
  · intro result hrun
    have h : Resting Client.Unmarked [] none polled.2 := hpolled.returns ⟨rfl, rfl, rfl⟩ hrun
    obtain ⟨next, -, hread⟩ := h.1.1.reads
    exact ⟨next, hread⟩

/-! ## A panic in a wait -/

/-- A sink that acknowledges Started, lets the first event wait, panics at its resend, and
lets the Terminal wait too. Its state counts the submits. -/
def wakingSink : AuditSink Nat where
  submit n envs :=
    (if n = 2 then .unwinds
      else if n = 1 ∨ n = 3 then .pending n
      else .ack ⟨(envs.map (·.executionId)).headD 0, (envs.map (·.sequence)).headD 0⟩, n + 1)
  registerWaker n _ := n
  tryTake n _ := (none, n)
  cancel n _ := n

/-- An empty program, with that sink. -/
def wokenRun : Except Stop AuditedOutcome × RunState (Client (List Step)) Nat :=
  (runAudited (requestOf budget100KiB) (ledgerCore (scripted false) ampleConfig undisturbed)
    wakingSink false 5).run (.initial (requestOf budget100KiB) (.initial [] (.fresh ampleConfig undisturbed.cancellation
      undisturbed.clock)) 0 {} false false)

/-- The wait of the first event is still open when the Terminal opens one. -/
theorem wait_panic_reopens :
    yieldsOf wokenRun.2.log =
        [.opens (.delivery, (.auditBackpressure, 0)), .opens (.delivery, (.auditBackpressure, 1)),
          .closes (.delivery, (.auditBackpressure, 1))] ∧
      ¬ YieldsBracketed (yieldsOf wokenRun.2.log) := by
  have hyields : yieldsOf wokenRun.2.log =
      [.opens (.delivery, (.auditBackpressure, 0)), .opens (.delivery, (.auditBackpressure, 1)),
        .closes (.delivery, (.auditBackpressure, 1))] := by cbv
  refine ⟨hyields, ?_⟩
  rw [hyields]
  decide

end Tsumugi.Audit
