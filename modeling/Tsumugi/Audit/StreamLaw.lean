import Mathlib
import Tsumugi.Audit.Facade

/-!
# The audit stream is well formed (`run_audited`)

`StreamLaw` says what the log of a run shows of its audit stream: sequence numbers,
the place of Started and of Terminal, no work before the ack of Started, room for
a Terminal, and the budget. The budget in bytes is met when the Terminal fits its
reserve; its estimate counts the names of up to 32 frames, which nothing bounds.

Results:
1. `Ledger`: what the journal's counters say about the envelopes it has accepted,
   kept by each append.
2. `stream_law`: every run whose Terminal fits the reserve, cut short anywhere, has
   a lawful stream.
3. `terminal_over_budget`: a deep recursion of a function with a long name puts more
   bytes into the journal than its budget allows.
-/

namespace Tsumugi.Audit

open Budget Word

variable {C S : Type}

/-! ## The law -/

/-- The envelopes that the journal has accepted, in order. -/
def appendedOf (log : List LogEntry) : List AuditEnvelope :=
  log.filterMap fun entry =>
    match entry with
    | .appended env => some env
    | _ => none

/-- The sum of the estimates. -/
def encodedBytes (envs : List AuditEnvelope) : Nat := (envs.map estimateEncodedBytes).sum

/-- The ack of Started is in the log. -/
def StartedAcked (log : List LogEntry) : Prop :=
  ∃ env, .acked env ∈ log ∧ env.event.isStarted = true

/-- Every work entry comes after the ack of Started. -/
def WorkAfterAck (log : List LogEntry) : Prop :=
  ∀ before after, log = before ++ .work :: after → StartedAcked before

/-- What a well-formed stream within the budget `b` is. -/
structure StreamLaw (b : AuditBudget) (st : RunState C S) : Prop where
  sequences : (appendedOf st.log).map (·.sequence) = List.range (appendedOf st.log).length
  started_first : ∀ env ∈ (appendedOf st.log).head?, env.event.isStarted = true
  work_after_ack : WorkAfterAck st.log
  terminal_last : ∀ before env after, appendedOf st.log = before ++ env :: after →
    env.event.isTerminal = true → after = []
  terminal_possible : appendedOf st.log ≠ [] →
    (∀ env ∈ appendedOf st.log, env.event.isTerminal = false) →
    ∀ env : AuditEnvelope, env.event.isTerminal = true →
      env.sequence = (appendedOf st.log).length →
      ∃ seq j, st.journal.appendTerminal env = .ok (seq, j)
  events_le : (appendedOf st.log).length ≤ b.maxEvents
  bytes_le : encodedBytes (appendedOf st.log) ≤ b.maxEncodedBytes

/-! ## The journal's ledger -/

/-- The envelopes of the log, against the counters of the journal: `normals` are the
accepted events, `last` is the Terminal or nothing. -/
structure Ledger (b : AuditBudget) (j : AuditJournal) (envs : List AuditEnvelope) : Prop where
  budget_eq : j.budget = b
  sequences : envs.map (·.sequence) = List.range envs.length
  next_eq : j.nextSequence = envs.length
  started_iff : j.started = true ↔ envs ≠ []
  started_first : ∀ env ∈ envs.head?, env.event.isStarted = true
  split : ∃ normals last, envs = normals ++ last ∧
    (∀ env ∈ normals, env.event.isTerminal = false) ∧
    j.committedEvents = normals.length ∧ j.committedBytes = encodedBytes normals ∧
    normals.length ≤ b.normalEventLimit ∧ encodedBytes normals ≤ b.normalByteLimit ∧
    (if j.terminated then ∃ env, last = [env] ∧ env.event.isTerminal = true else last = [])
  bytes_le : encodedBytes envs ≤ b.maxEncodedBytes

namespace StreamLawLemmas

@[simp] theorem appendedOf_append (log log' : List LogEntry) :
    appendedOf (log ++ log') = appendedOf log ++ appendedOf log' := List.filterMap_append

@[simp] theorem appendedOf_appended (env : AuditEnvelope) : appendedOf [.appended env] = [env] :=
  rfl

@[simp] theorem encodedBytes_append (envs envs' : List AuditEnvelope) :
    encodedBytes (envs ++ envs') = encodedBytes envs + encodedBytes envs' := by
  simp [encodedBytes]

@[simp] theorem encodedBytes_singleton (env : AuditEnvelope) :
    encodedBytes [env] = estimateEncodedBytes env := by
  simp [encodedBytes]

theorem validate_ok {b : AuditBudget} (h : b.validate = .ok ()) :
    2 ≤ b.maxEvents ∧ b.terminalReserveEvents = 1 ∧ 64 * KIB ≤ b.terminalReserveBytes := by
  unfold AuditBudget.validate at h
  split at h
  · cases h
  split at h
  · cases h
  split at h
  · cases h
  refine ⟨by omega, by omega, by omega⟩

theorem normalEventLimit_lt {b : AuditBudget} (h : b.validate = .ok ()) :
    b.normalEventLimit < b.maxEvents := by
  obtain ⟨hevents, hreserve, -⟩ := validate_ok h
  simp only [AuditBudget.normalEventLimit, satSub]
  omega

theorem estimateEncodedBytes_pos (env : AuditEnvelope) : 0 < estimateEncodedBytes env := by
  simp only [estimateEncodedBytes, estimateEnvelopeOverheadBytes, satAdd, maxU64]
  omega

theorem ledger_open (b : AuditBudget) : Ledger b (.openJournal b) [] where
  budget_eq := rfl
  sequences := rfl
  next_eq := rfl
  started_iff := by simp [AuditJournal.openJournal]
  started_first := by simp
  split := ⟨[], [], rfl, by simp, rfl, rfl, Nat.zero_le _, Nat.zero_le _, rfl⟩
  bytes_le := Nat.zero_le _

theorem ledger_sequences {envs : List AuditEnvelope} {env : AuditEnvelope}
    (h : envs.map (·.sequence) = List.range envs.length) (hseq : env.sequence = envs.length) :
    (envs ++ [env]).map (·.sequence) = List.range (envs ++ [env]).length := by
  simp [h, hseq, List.range_succ]

/-- An accepted normal envelope keeps the ledger. -/
theorem ledger_appendNormal {b : AuditBudget} {j j' : AuditJournal} {envs : List AuditEnvelope}
    {env : AuditEnvelope} {seq : Nat} (h : Ledger b j envs)
    (happ : j.appendNormal env = .ok (seq, j')) : Ledger b j' (envs ++ [env]) := by
  obtain ⟨hterm, hkind, hseq, horder, hevents, hbytes, rfl⟩ := AuditJournal.appendNormal_spec happ
  obtain ⟨normals, last, rfl, hnormals, hcount, hsize, -, -, hlast⟩ := h.split
  obtain rfl : last = [] := by simpa [hterm] using hlast
  simp only [List.append_nil] at h ⊢
  rw [h.budget_eq] at hevents hbytes
  refine ⟨h.budget_eq, ledger_sequences h.sequences (hseq.trans h.next_eq), by simp [h.next_eq],
    ?_, ?_, ?_, ?_⟩
  · have := h.started_iff
    cases hs : j.started
    · simp_all [AuditJournal.startedInOrder]
    · simp
  · cases normals with
    | nil =>
      have hfresh : j.started = false := by simpa using h.started_iff
      intro env' henv'
      obtain rfl : env = env' := by simpa using henv'
      simp only [AuditJournal.startedInOrder, hfresh] at horder
      split at horder
      · assumption
      · cases horder
    | cons first rest =>
      intro env' henv'
      exact h.started_first env' (by simpa using henv')
  · refine ⟨normals ++ [env], [], by simp, ?_, by simp [hcount], by simp [hsize], ?_, ?_, ?_⟩
    · simpa [or_imp, forall_and, hkind] using hnormals
    · simp only [List.length_append, List.length_singleton]
      omega
    · simp only [encodedBytes_append, encodedBytes_singleton]
      omega
    · simp [hterm]
  · have hle : b.normalByteLimit ≤ b.maxEncodedBytes := Nat.sub_le _ _
    simp only [encodedBytes_append, encodedBytes_singleton]
    omega

/-- An accepted Terminal that fits the reserve keeps the ledger. -/
theorem ledger_appendTerminal {b : AuditBudget} {j j' : AuditJournal} {envs : List AuditEnvelope}
    {env : AuditEnvelope} {seq : Nat} (h : Ledger b j envs)
    (hfits : estimateEncodedBytes env ≤ b.terminalReserveBytes)
    (happ : j.appendTerminal env = .ok (seq, j')) : Ledger b j' (envs ++ [env]) := by
  obtain ⟨hkind, hstarted, hterm, hseq, rfl⟩ := AuditJournal.appendTerminal_spec happ
  obtain ⟨normals, last, rfl, hnormals, hcount, hsize, hevents, hbytes, hlast⟩ := h.split
  obtain rfl : last = [] := by simpa [hterm] using hlast
  simp only [List.append_nil] at h ⊢
  have hne : normals ≠ [] := h.started_iff.mp hstarted
  refine ⟨h.budget_eq, ledger_sequences h.sequences (hseq.trans h.next_eq), by simp [h.next_eq],
    by simp [hstarted], ?_, ?_, ?_⟩
  · intro env' henv'
    refine h.started_first env' ?_
    rwa [List.head?_append_of_ne_nil _ hne] at henv'
  · exact ⟨normals, [env], rfl, hnormals, hcount, hsize, hevents, hbytes, by simp [hkind]⟩
  · -- Started takes bytes, so the limit is positive and the reserve is below the budget
    obtain ⟨first, rest, rfl⟩ := List.exists_cons_of_ne_nil hne
    have hpos := estimateEncodedBytes_pos first
    simp only [AuditBudget.normalByteLimit, satSub, encodedBytes, List.map_cons, List.sum_cons,
      List.map_append, List.sum_append, List.map_nil, List.sum_nil] at hbytes ⊢
    omega

end StreamLawLemmas

/-! ## What the parts of a run keep -/

/-- A log entry that neither appends to the journal nor works on the program. -/
def LogEntry.isQuiet : LogEntry → Bool
  | .appended _ | .work => false
  | _ => true

/-- A property of the journal and the log that quiet entries do not disturb. -/
def QuietStable (P : AuditJournal → List LogEntry → Prop) : Prop :=
  ∀ j log entries, P j log → (∀ entry ∈ entries, entry.isQuiet = true) → P j (log ++ entries)

/-- The property of a state of the run. -/
def Holds (P : AuditJournal → List LogEntry → Prop) (st : RunState C S) : Prop :=
  P st.journal st.log

/-- A property that the driver keeps: quiet entries, normal appends and work. -/
structure DriverStable (P : AuditJournal → List LogEntry → Prop) : Prop where
  quiet : QuietStable P
  append : ∀ j j' log env seq, P j log → j.appendNormal env = .ok (seq, j') →
    P j' (log ++ [.appended env])
  work : ∀ j log, P j log → P j (log ++ [.work])

namespace StreamLawLemmas

open Run

variable {P : AuditJournal → List LogEntry → Prop}

theorem keeps_trace {entries : List LogEntry} (hP : QuietStable P)
    (h : ∀ entry ∈ entries, entry.isQuiet = true) :
    Proc.Keeps (Holds P) (trace entries : Run C S Unit) :=
  Proc.keeps_modify fun st hst => hP st.journal st.log entries hst h

theorem keeps_panics {α : Type} (hP : QuietStable P) (site : PanicSite) :
    Proc.Keeps (Holds P) (panics site : Run C S α) :=
  Proc.keeps_bind (keeps_trace hP (by simp [LogEntry.isQuiet])) fun _ => Proc.keeps_stop _

theorem keeps_onCore {α : Type} (f : C → α × C) :
    Proc.Keeps (Holds P) (onCore f : Run C S α) := Proc.keeps_update fun _ hst => hst

theorem keeps_onTicket {α : Type} (f : S → α × S) :
    Proc.Keeps (Holds P) (onTicket f : Run C S α) := Proc.keeps_update fun _ hst => hst

theorem keeps_record {α : Type} (hP : QuietStable P) (f : Recorder → α × Recorder) :
    Proc.Keeps (Holds P) (record f : Run C S α) := by
  refine Proc.keeps_update fun st hst => hP _ _ _ hst ?_
  intro entry hentry
  obtain ⟨event, -, rfl⟩ := List.mem_map.mp hentry
  rfl

section

variable (rq : AuditedRequest) (executionId : Nat) (core : Core C) (sink : AuditSink S)

theorem keeps_submit (hP : QuietStable P) (env : AuditEnvelope) :
    Proc.Keeps (Holds P) (submit sink env : Run C S AuditSubmit) := by
  refine Proc.keeps_bind (keeps_trace hP (by simp [LogEntry.isQuiet])) fun _ => ?_
  refine Proc.keeps_bind (Proc.keeps_update fun _ hst => hst) fun answer => ?_
  cases answer <;> first | exact Proc.keeps_pure _ | exact keeps_panics hP _

theorem keeps_resumeAfterAck (hP : QuietStable P) (env : AuditEnvelope) :
    Proc.Keeps (Holds P) (resumeAfterAck core env : Run C S Unit) := by
  refine Proc.keeps_bind (Proc.keeps_gets _) fun _ => ?_
  refine Proc.keeps_bind (keeps_record hP _) fun _ => ?_
  exact keeps_trace hP (by simp [LogEntry.isQuiet])

theorem keeps_interrupted (hP : QuietStable P) (env : AuditEnvelope) :
    Proc.Keeps (Holds P) (interrupted core env : Run C S Bool) := by
  refine Proc.keeps_bind (keeps_onCore _) fun _ => Proc.keeps_ite ?_ (Proc.keeps_pure _)
  refine Proc.keeps_bind (keeps_onCore _) fun answer => ?_
  cases answer with
  | none => exact keeps_panics hP _
  | some deadlineOk => exact Proc.keeps_pure _

theorem keeps_cancelAndStop (ticket : Nat) (failure : AuditFailure) :
    Proc.Keeps (Holds P) (do
      onTicket fun s => ((), sink.cancel s ticket)
      Proc.stop (.failed failure) : Run C S Unit) :=
  Proc.keeps_bind (keeps_onTicket _) fun _ => Proc.keeps_stop _

theorem keeps_awaitAck (hP : QuietStable P) (env : AuditEnvelope) (resends ticket : Nat) :
    Proc.Keeps (Holds P) (awaitAck executionId core sink env resends ticket) := by
  induction resends generalizing ticket with
  | zero => exact keeps_cancelAndStop sink ticket _
  | succ resends ih =>
    refine Proc.keeps_bind (keeps_interrupted core hP env) fun _ => ?_
    refine Proc.keeps_ite (keeps_cancelAndStop sink ticket _) ?_
    refine Proc.keeps_bind (keeps_onTicket _) fun taken => ?_
    have hack : ∀ ack : AuditAck, Proc.Keeps (Holds P) (if ackOk executionId ack env.sequence
        then resumeAfterAck core env else Proc.stop (.failed .sink) : Run C S Unit) := fun _ =>
      Proc.keeps_ite (keeps_resumeAfterAck core hP env) (Proc.keeps_stop _)
    rcases taken with _ | error | ack
    · refine Proc.keeps_bind (keeps_submit sink hP env) fun answer => ?_
      cases answer with
      | ack ack => exact hack ack
      | pending next => exact Proc.keeps_bind (keeps_onTicket _) fun _ => ih next
      | failed error => exact Proc.keeps_stop _
      | unwinds => exact Proc.keeps_stop _
    · exact Proc.keeps_stop _
    · exact hack ack

theorem keeps_deliver (hP : QuietStable P) (env : AuditEnvelope) :
    Proc.Keeps (Holds P) (deliver executionId core sink env) := by
  refine Proc.keeps_bind (keeps_submit sink hP env) fun answer => ?_
  cases answer with
  | ack ack =>
    exact Proc.keeps_ite (keeps_trace hP (by simp [LogEntry.isQuiet])) (Proc.keeps_stop _)
  | pending ticket =>
    refine Proc.keeps_bind (Proc.keeps_gets _) fun _ => ?_
    refine Proc.keeps_bind (keeps_record hP _) fun _ => ?_
    refine Proc.keeps_ite ?_ (keeps_cancelAndStop sink ticket _)
    exact Proc.keeps_bind (keeps_onTicket _) fun _ =>
      keeps_awaitAck executionId core sink hP env _ _
  | failed error => exact Proc.keeps_stop _
  | unwinds => exact Proc.keeps_stop _

section

variable {env : AuditEnvelope}
  {f : AuditJournal → AuditEnvelope → Except AuditFailure (Nat × AuditJournal)}

theorem append_run_error (st : RunState C S) {failure : AuditFailure}
    (h : f st.journal env = .error failure) :
    (append env f : Run C S Unit).run st = (.error (.failed failure), st) := by
  simp [append, Proc.bind_run, h]

theorem append_run_ok (st : RunState C S) {seq : Nat} {j : AuditJournal}
    (h : f st.journal env = .ok (seq, j)) :
    (append env f : Run C S Unit).run st =
      (.ok (), { st with journal := j, log := st.log ++ [.appended env] }) := by
  simp [append, Proc.bind_run, h]

/-- An append keeps what the journal's own function keeps. -/
theorem keeps_append
    (hf : ∀ j j' log seq, P j log → f j env = .ok (seq, j') → P j' (log ++ [.appended env])) :
    Proc.Keeps (Holds P) (append env f : Run C S Unit) := by
  intro st hst
  rcases h : f st.journal env with failure | ⟨seq, j⟩
  · rw [append_run_error _ h]
    exact hst
  · rw [append_run_ok _ h]
    exact hf _ _ _ _ hst h

end

theorem keeps_flushEvent (hP : DriverStable P) (event : AuditEvent) :
    Proc.Keeps (Holds P) (flushEvent rq executionId core sink event) := by
  refine Proc.keeps_bind (Proc.keeps_gets _) fun j => Proc.keeps_ite (Proc.keeps_stop _) ?_
  refine Proc.keeps_bind (keeps_append fun _ _ _ _ => hP.append _ _ _ _ _) fun _ => ?_
  refine Proc.keeps_bind (keeps_deliver executionId core sink hP.quiet _) fun _ => ?_
  exact Proc.keeps_modify fun _ hst => hst

theorem keeps_flushEach (hP : DriverStable P) (events : List AuditEvent) :
    Proc.Keeps (Holds P) (flushEach rq executionId core sink events) := by
  induction events with
  | nil => exact Proc.keeps_pure _
  | cons event events ih =>
    exact Proc.keeps_bind (keeps_flushEvent rq executionId core sink hP event) fun _ => ih

theorem keeps_drainAll (hP : QuietStable P) :
    Proc.Keeps (Holds P) (drainAll : Run C S (List AuditEvent)) := by
  refine Proc.keeps_bind (Proc.keeps_update fun _ hst => hst) fun _ => ?_
  refine Proc.keeps_bind (Proc.keeps_update fun _ hst => hst) fun charges => ?_
  refine Proc.keeps_bind (keeps_trace hP ?_) fun _ => ?_
  · intro entry hentry
    obtain ⟨event, -, rfl⟩ := List.mem_map.mp hentry
    rfl
  · exact Proc.keeps_bind (Proc.keeps_modify fun _ hst => hst) fun _ => Proc.keeps_pure _

theorem keeps_flushEvents (hP : DriverStable P) (fuel : Nat) :
    Proc.Keeps (Holds P) (flushEvents rq executionId core sink fuel) := by
  induction fuel with
  | zero => exact Proc.keeps_stop _
  | succ fuel ih =>
    refine Proc.keeps_bind (keeps_drainAll hP.quiet) fun events => ?_
    cases events with
    | nil => exact Proc.keeps_pure _
    | cons event events =>
      exact Proc.keeps_bind (keeps_flushEach rq executionId core sink hP _) fun _ => ih

theorem keeps_work (hP : DriverStable P) :
    Proc.Keeps (Holds P) (trace [.work] : Run C S Unit) :=
  Proc.keeps_modify fun st hst => hP.work st.journal st.log hst

theorem keeps_runDriver (hP : DriverStable P) (fuel : Nat) :
    Proc.Keeps (Holds P) (runDriver core fuel : Run C S DriveOutcome) := by
  induction fuel with
  | zero => exact Proc.keeps_stop _
  | succ fuel ih =>
    refine Proc.keeps_bind (keeps_work hP) fun _ => ?_
    refine Proc.keeps_bind (keeps_onCore _) fun action => ?_
    cases action with
    | note note => exact Proc.keeps_bind (keeps_record hP.quiet _) fun _ => ih
    | progress => exact Proc.keeps_bind (keeps_record hP.quiet _) fun _ => ih
    | boundary =>
      refine Proc.keeps_bind (Proc.keeps_gets _) fun _ => Proc.keeps_ite ?_ ih
      exact Proc.keeps_bind (keeps_record hP.quiet _) fun _ => Proc.keeps_pure _
    | yields => exact Proc.keeps_pure _
    | done result => exact Proc.keeps_pure _
    | fails error => exact Proc.keeps_pure _
    | unwinds => exact keeps_panics hP.quiet _

theorem keeps_yieldSlice (hP : QuietStable P) (slice : SliceOutcome) (reason : AuditYieldReason) :
    Proc.Keeps (Holds P) (yieldSlice core slice reason : Run C S SliceOutcome) := by
  refine Proc.keeps_bind (keeps_record hP _) fun _ => ?_
  refine Proc.keeps_bind (Proc.keeps_gets _) fun _ => ?_
  refine Proc.keeps_bind (keeps_record hP _) fun _ => Proc.keeps_ite (Proc.keeps_pure _) ?_
  exact Proc.keeps_bind (keeps_onCore _) fun _ => Proc.keeps_pure _

theorem keeps_runSlice (hP : DriverStable P) (fuel sliceFuel : Nat) :
    Proc.Keeps (Holds P) (runSlice core fuel sliceFuel : Run C S SliceOutcome) := by
  refine Proc.keeps_bind (Proc.keeps_gets _) fun _ => ?_
  refine Proc.keeps_bind (keeps_record hP.quiet _) fun _ => ?_
  refine Proc.keeps_bind (keeps_onCore _) fun _ => ?_
  refine Proc.keeps_bind (keeps_record hP.quiet _) fun _ => ?_
  refine Proc.keeps_bind (keeps_runDriver core hP fuel) fun outcome => ?_
  cases outcome with
  | yielded =>
    refine Proc.keeps_bind (keeps_record hP.quiet _) fun queueYield => ?_
    refine Proc.keeps_bind (Proc.keeps_gets _) fun pending => ?_
    dsimp only
    split
    · exact keeps_yieldSlice core hP.quiet _ _
    · exact Proc.keeps_pure _
  | done result => exact Proc.keeps_bind (keeps_onCore _) fun _ => Proc.keeps_pure _
  | fails error => exact Proc.keeps_bind (keeps_onCore _) fun _ => Proc.keeps_pure _

theorem keeps_terminalFrom (error : TsumugiError) :
    Proc.Keeps (Holds P) (terminalFrom core error : Run C S ExecutionOutcome) := by
  refine Proc.keeps_bind (Proc.keeps_gets _) fun _ => ?_
  refine Proc.keeps_bind ?_ fun _ => Proc.keeps_pure _
  exact Proc.keeps_ite (keeps_onCore _) (Proc.keeps_pure _)

theorem keeps_terminalOf (result : Except TsumugiError Unit) :
    Proc.Keeps (Holds P) (terminalOf core result : Run C S ExecutionOutcome) := by
  cases result with
  | ok => exact Proc.keeps_bind (Proc.keeps_gets _) fun _ => Proc.keeps_pure _
  | error error => exact keeps_terminalFrom core error

theorem keeps_withheldAfter (slice : SliceOutcome) :
    Proc.Keeps (Holds P) (withheldAfter core slice : Run C S TerminalOutcome) := by
  cases slice with
  | terminal result =>
    exact Proc.keeps_bind (keeps_terminalOf core result) fun _ => Proc.keeps_pure _
  | _ => exact Proc.keeps_bind (keeps_onCore _) fun _ => Proc.keeps_pure _

theorem keeps_pollLoop (hP : DriverStable P) (sliceFuel fuel : Nat) :
    Proc.Keeps (Holds P) (pollLoop rq executionId core sink sliceFuel fuel) := by
  induction fuel with
  | zero => exact Proc.keeps_stop _
  | succ fuel ih =>
    refine Proc.keeps_bind (keeps_runSlice core hP fuel sliceFuel) fun slice => ?_
    refine Proc.keeps_bind
      (Proc.keeps_attempt (keeps_flushEvents rq executionId core sink hP fuel)) fun flushed => ?_
    rcases flushed with failure | _
    · refine Proc.keeps_bind (keeps_withheldAfter core slice) fun _ => ?_
      exact Proc.keeps_bind (keeps_onCore _) fun _ => Proc.keeps_pure _
    · cases slice with
      | terminal result =>
        refine Proc.keeps_bind (keeps_terminalOf core result) fun _ => ?_
        exact Proc.keeps_bind (keeps_onCore _) fun _ => Proc.keeps_pure _
      | _ => exact ih

theorem keeps_beginExecution (hP : DriverStable P) :
    Proc.Keeps (Holds P) (beginExecution core : Run C S BeginAnswer) := by
  refine Proc.keeps_bind (keeps_work hP) fun _ => ?_
  refine Proc.keeps_bind (keeps_onCore _) fun result => ?_
  obtain ⟨notes, answer⟩ := result
  refine Proc.keeps_bind (keeps_record hP.quiet _) fun _ => ?_
  cases answer <;> first | exact Proc.keeps_pure _ | exact keeps_panics hP.quiet _

theorem keeps_runAuditedDriver (hP : DriverStable P) (fuel : Nat) :
    Proc.Keeps (Holds P) (runAuditedDriver rq executionId core sink fuel) := by
  refine Proc.keeps_bind (keeps_onCore _) fun _ => ?_
  refine Proc.keeps_bind (keeps_record hP.quiet _) fun _ => ?_
  refine Proc.keeps_ite (Proc.keeps_bind (Proc.keeps_gets _) fun _ => Proc.keeps_pure _) ?_
  refine Proc.keeps_bind (keeps_record hP.quiet _) fun _ => ?_
  refine Proc.keeps_bind (keeps_beginExecution core hP) fun answer => ?_
  cases answer with
  | fails error =>
    refine Proc.keeps_bind (keeps_terminalFrom core error) fun _ => ?_
    refine Proc.keeps_bind
      (Proc.keeps_attempt (keeps_flushEvents rq executionId core sink hP fuel)) fun flushed => ?_
    rcases flushed with failure | _
    · exact Proc.keeps_pure _
    · exact Proc.keeps_bind (keeps_onCore _) fun _ => Proc.keeps_pure _
  | _ => exact keeps_pollLoop rq executionId core sink hP _ _

theorem keeps_guardedDriver (hP : DriverStable P) (fuel : Nat) :
    Proc.Keeps (Holds P) (guardedDriver rq executionId core sink fuel) := by
  refine Proc.keeps_bind
    (Proc.keeps_attempt (keeps_runAuditedDriver rq executionId core sink hP fuel)) fun drive => ?_
  rcases drive with _ | drive
  · exact Proc.keeps_bind (Proc.keeps_gets _) fun _ => Proc.keeps_pure _
  · exact Proc.keeps_pure _

end

/-! ## The two phases of a run -/

/-- What holds of the journal and the log throughout a run. -/
def Lawful (b : AuditBudget) (j : AuditJournal) (log : List LogEntry) : Prop :=
  Ledger b j (appendedOf log) ∧ WorkAfterAck log

/-- What holds from the ack of Started on. -/
def Working (b : AuditBudget) (j : AuditJournal) (log : List LogEntry) : Prop :=
  Lawful b j log ∧ StartedAcked log

theorem appendedOf_quiet {entries : List LogEntry}
    (h : ∀ entry ∈ entries, entry.isQuiet = true) : appendedOf entries = [] := by
  refine List.filterMap_eq_nil_iff.mpr fun entry hentry => ?_
  have := h entry hentry
  cases entry <;> simp_all [LogEntry.isQuiet]

theorem startedAcked_append {log : List LogEntry} (entries : List LogEntry)
    (h : StartedAcked log) : StartedAcked (log ++ entries) := by
  obtain ⟨env, hmem, hstarted⟩ := h
  exact ⟨env, List.mem_append_left _ hmem, hstarted⟩

/-- Entries that are not work do not disturb the order of work and ack. -/
theorem workAfterAck_append {log entries : List LogEntry} (h : WorkAfterAck log)
    (hentries : .work ∉ entries) : WorkAfterAck (log ++ entries) := by
  intro before after heq
  rcases List.append_eq_append_iff.mp heq with ⟨mid, rfl, hmid⟩ | ⟨mid, rfl, hmid⟩
  · exact absurd (hmid ▸ List.mem_append_right _ List.mem_cons_self) hentries
  · cases mid with
    | nil =>
      refine absurd ?_ hentries
      simp only [List.nil_append] at hmid
      exact hmid ▸ List.mem_cons_self
    | cons entry mid =>
      simp only [List.cons_append, List.cons.injEq] at hmid
      obtain ⟨rfl, -⟩ := hmid
      exact h before mid rfl

theorem workAfterAck_work {log : List LogEntry} (h : WorkAfterAck log) (hack : StartedAcked log) :
    WorkAfterAck (log ++ [.work]) := by
  intro before after heq
  rcases List.append_eq_append_iff.mp heq with ⟨mid, rfl, -⟩ | ⟨mid, rfl, hmid⟩
  · exact startedAcked_append mid hack
  · cases mid with
    | nil => simpa using hack
    | cons entry mid =>
      simp only [List.cons_append, List.cons.injEq] at hmid
      obtain ⟨rfl, -⟩ := hmid
      exact h before mid rfl

theorem lawful_quiet (b : AuditBudget) : QuietStable (Lawful b) := by
  intro j log entries ⟨hledger, hwork⟩ hquiet
  refine ⟨by simpa [appendedOf_quiet hquiet] using hledger, workAfterAck_append hwork ?_⟩
  intro hmem
  cases hquiet _ hmem

theorem lawful_appended {b : AuditBudget} {j j' : AuditJournal} {log : List LogEntry}
    {env : AuditEnvelope} (h : Lawful b j log) (hledger : Ledger b j' (appendedOf log ++ [env])) :
    Lawful b j' (log ++ [.appended env]) :=
  ⟨by simpa using hledger, workAfterAck_append h.2 (by simp)⟩

theorem working_stable (b : AuditBudget) : DriverStable (Working b) where
  quiet := fun j log entries h hquiet =>
    ⟨lawful_quiet b j log entries h.1 hquiet, startedAcked_append entries h.2⟩
  append := fun _ _ _ _ _ h happ =>
    ⟨lawful_appended h.1 (ledger_appendNormal h.1.1 happ), startedAcked_append _ h.2⟩
  work := fun _ _ h =>
    ⟨⟨by simpa [appendedOf] using h.1.1, workAfterAck_work h.1.2 h.2⟩, startedAcked_append _ h.2⟩

section

variable (rq : AuditedRequest) (executionId : Nat) (core : Core C) (sink : AuditSink S)

theorem keeps_appendTerminal {b : AuditBudget} {env : AuditEnvelope}
    (hfits : estimateEncodedBytes env ≤ b.terminalReserveBytes) :
    Proc.Keeps (Holds (Lawful b)) (append env AuditJournal.appendTerminal : Run C S Unit) :=
  keeps_append fun _ _ _ _ h happ => lawful_appended h (ledger_appendTerminal h.1 hfits happ)

/-- The emergency Terminal carries no error and fits every valid reserve. -/
theorem emergency_fits (h : rq.auditBudget.validate = .ok ()) (sequence : Nat) :
    estimateEncodedBytes (envelope rq executionId sequence
      (.terminal .auditFailure none {} none false false)) ≤
      rq.auditBudget.terminalReserveBytes := by
  obtain ⟨-, -, hreserve⟩ := validate_ok h
  have hbytes : estimateEncodedBytes (envelope rq executionId sequence
      (.terminal .auditFailure none {} none false false)) =
      satAdd (estimateEnvelopeOverheadBytes rq.languageRevision.asStr) (satAdd 128 0) := rfl
  rw [hbytes]
  refine le_trans ?_ hreserve
  cases rq.languageRevision <;> decide

theorem keeps_failStarted (h : rq.auditBudget.validate = .ok ()) :
    Proc.Keeps (Holds (Lawful rq.auditBudget))
      (failStarted rq executionId sink : Run C S AuditedOutcome) := by
  refine Proc.keeps_bind (Proc.keeps_gets _) fun j => ?_
  refine Proc.keeps_bind (Proc.keeps_attempt
    (keeps_appendTerminal (emergency_fits rq executionId h _))) fun appended => ?_
  rcases appended with failure | _
  · exact Proc.keeps_pure _
  · exact Proc.keeps_bind (keeps_submit sink (lawful_quiet _) _) fun _ => Proc.keeps_pure _

/-- From the ack of Started on, the driver works. -/
theorem keeps_ackedDriver {α : Type} {env : AuditEnvelope} (b : AuditBudget)
    (henv : env.event.isStarted = true) (fuel : Nat) (f : AuditDrive → Run C S α)
    (hf : ∀ drive, Proc.Keeps (Holds (Lawful b)) (f drive)) :
    Proc.Keeps (Holds (Lawful b)) (do
      trace [.acked env]
      let drive ← guardedDriver rq executionId core sink fuel
      f drive) := by
  intro st hst
  have hworking : Holds (Working b) { st with log := st.log ++ [.acked env] } :=
    ⟨lawful_quiet b st.journal st.log _ hst (by simp [LogEntry.isQuiet]), env, by simp, henv⟩
  have hdriven := keeps_guardedDriver rq executionId core sink (working_stable b) fuel _ hworking
  rw [Proc.bind_run_ok (t := { st with log := st.log ++ [.acked env] }) (a := ()) rfl]
  rcases hrun : (guardedDriver rq executionId core sink fuel).run
    { st with log := st.log ++ [.acked env] } with ⟨stop | drive, st'⟩ <;> rw [hrun] at hdriven
  · rw [Proc.bind_run_error hrun]
    exact hdriven.1
  · rw [Proc.bind_run_ok hrun]
    exact hf drive st' hdriven.1

theorem keeps_runStarted (h : rq.auditBudget.validate = .ok ()) (fuel : Nat) :
    Proc.Keeps (Holds (Lawful rq.auditBudget)) (runStarted rq executionId core sink fuel) := by
  refine Proc.keeps_bind (Proc.keeps_attempt (keeps_append fun _ _ _ _ hst happ =>
    lawful_appended hst (ledger_appendNormal hst.1 happ))) fun appended => ?_
  rcases appended with failure | _
  · exact Proc.keeps_pure _
  refine Proc.keeps_bind (keeps_submit sink (lawful_quiet _) _) fun answer => ?_
  have hfail : Proc.Keeps (Holds (Lawful rq.auditBudget)) (do
      let audited ← failStarted rq executionId sink
      pure (.error audited) : Run C S (Except AuditedOutcome ExecutionOutcome)) :=
    Proc.keeps_bind (keeps_failStarted rq executionId sink h) fun _ => Proc.keeps_pure _
  cases answer with
  | ack ack =>
    refine Proc.keeps_ite ?_ hfail
    refine keeps_ackedDriver rq executionId core sink _ rfl fuel _ fun drive => ?_
    cases drive <;> exact Proc.keeps_pure _
  | _ => exact hfail

theorem keeps_runToOutcome (h : rq.auditBudget.validate = .ok ()) (fuel : Nat) :
    Proc.Keeps (Holds (Lawful rq.auditBudget)) (runToOutcome rq core sink fuel) := by
  refine Proc.keeps_bind (Proc.keeps_gets _) fun answer => ?_
  cases answer with
  | unwinds =>
    refine Proc.keeps_bind (keeps_trace (lawful_quiet _) (by simp [LogEntry.isQuiet])) fun _ => ?_
    exact Proc.keeps_bind (Proc.keeps_gets _) fun _ => Proc.keeps_pure _
  | refused outcome => exact Proc.keeps_pure _
  | prepared =>
    cases hid : rq.executionId with
    | none => simpa only [hid] using Proc.keeps_pure _
    | some executionId =>
      simpa only [hid] using Proc.keeps_ite (keeps_panics (lawful_quiet _) _)
        (Proc.keeps_bind (keeps_runStarted rq executionId core sink h fuel)
          fun _ => Proc.keeps_pure _)

theorem keeps_finish (b : AuditBudget) (outcome : ExecutionOutcome)
    (hfits : ∀ sequence exceeded, estimateEncodedBytes
      (envelope rq executionId sequence (terminalEvent rq outcome exceeded)) ≤
        b.terminalReserveBytes) :
    Proc.Keeps (Holds (Lawful b)) (finish rq executionId core sink outcome) := by
  have hexceeded : Proc.Keeps (Holds (Lawful b))
      (exceededResource core outcome : Run C S (Option BudgetResource)) := by
    cases outcome <;> first | exact keeps_onCore _ | exact Proc.keeps_pure _
  refine Proc.keeps_bind hexceeded fun exceeded => Proc.keeps_bind (Proc.keeps_gets _) fun j => ?_
  refine Proc.keeps_bind (Proc.keeps_attempt
    (keeps_appendTerminal (hfits _ _))) fun appended => ?_
  rcases appended with failure | _
  · exact Proc.keeps_pure _
  refine Proc.keeps_bind (Proc.keeps_attempt
    (keeps_deliver executionId core sink (lawful_quiet b) _)) fun delivered => ?_
  rcases delivered with failure | _ <;> exact Proc.keeps_pure _

end

/-- A lawful journal and log make a lawful stream. -/
theorem streamLaw_of_lawful {b : AuditBudget} {st : RunState C S} (hb : b.validate = .ok ())
    (h : Holds (Lawful b) st) : StreamLaw b st := by
  obtain ⟨hledger, hwork⟩ := h
  obtain ⟨normals, last, henvs, hnormals, hcount, hsize, hevents, hbytes, hlast⟩ := hledger.split
  have hlimit := normalEventLimit_lt hb
  refine ⟨hledger.sequences, hledger.started_first, hwork, ?_, ?_, ?_, hledger.bytes_le⟩
  · intro before env after heq hterminal
    rw [henvs] at heq
    rcases List.append_eq_append_iff.mp heq with ⟨mid, rfl, hmid⟩ | ⟨mid, rfl, hmid⟩
    · split at hlast
      · obtain ⟨t, rfl, -⟩ := hlast
        cases mid with
        | nil => simp_all
        | cons _ _ => simp at hmid
      · subst hlast
        simp at hmid
    · cases mid with
      | nil =>
        simp only [List.nil_append] at hmid
        split at hlast
        · obtain ⟨t, rfl, -⟩ := hlast
          simp_all
        · subst hlast
          simp at hmid
      | cons first mid =>
        simp only [List.cons_append, List.cons.injEq] at hmid
        obtain ⟨rfl, -⟩ := hmid
        have := hnormals env (by simp)
        simp_all
  · intro hne hopen env hkind hseq
    have hterm : st.journal.terminated = false := by
      by_contra hterm
      rw [Bool.not_eq_false] at hterm
      simp only [hterm, if_true] at hlast
      obtain ⟨t, rfl, hkind'⟩ := hlast
      exact absurd hkind' (by simp [hopen t (by simp [henvs])])
    simp only [hterm, Bool.false_eq_true, if_false] at hlast
    subst hlast
    rw [List.append_nil] at henvs
    refine ⟨_, _, AuditJournal.appendTerminal_eq_ok hkind (hledger.started_iff.mpr hne) hterm
      (hseq.trans hledger.next_eq.symm) ?_⟩
    have := b.maxEvents_le
    rw [hledger.next_eq, henvs]
    omega
  · rw [henvs, List.length_append]
    split at hlast
    · obtain ⟨t, rfl, -⟩ := hlast
      simp only [List.length_singleton]
      omega
    · subst hlast
      simp only [List.length_nil]
      omega

end StreamLawLemmas

/-! ## The run -/

/-- The estimate of the Terminal that shows an outcome. -/
def terminalBytes (rq : AuditedRequest) (outcome : ExecutionOutcome) : Nat :=
  satAdd (estimateEnvelopeOverheadBytes rq.languageRevision.asStr)
    (satAdd 128 (estimateErrorBytes (auditErrorPayloadFrom outcome)))

/-- The outcome that the Terminal step of the run finds, if it comes to that step, has a
Terminal within the reserve. -/
def TerminalFits (rq : AuditedRequest) (core : Core C) (sink : AuditSink S) (fuel : Nat)
    (st : RunState C S) : Prop :=
  ∀ executionId outcome st',
    (runToOutcome rq core sink fuel).run { st with running := true } =
      (.ok (.ok (executionId, outcome)), st') →
    terminalBytes rq outcome ≤ rq.auditBudget.terminalReserveBytes

open StreamLawLemmas in
/-- The stream of a run is lawful, wherever the run is cut short, when the Terminal it
comes to append fits the reserve. -/
theorem stream_law (rq : AuditedRequest) (core : Core C) (sink : AuditSink S) (reentered : Bool)
    (fuel : Nat) (c : C) (s : S) (r : Recorder) (poisoned running : Bool)
    (hvalid : rq.auditBudget.validate = .ok ())
    (hfits : TerminalFits rq core sink fuel (.initial rq c s r poisoned running)) :
    StreamLaw rq.auditBudget
      ((runAudited rq core sink reentered fuel).run (.initial rq c s r poisoned running)).2 := by
  have hinit : Holds (Lawful rq.auditBudget) (RunState.initial rq c s r poisoned running) :=
    ⟨ledger_open _, fun before after heq => by simp [RunState.initial] at heq⟩
  refine streamLaw_of_lawful hvalid ?_
  rw [runAudited, Proc.bind_run_ok (a := RunState.initial rq c s r poisoned running) rfl]
  split
  · exact hinit
  -- the first phase keeps the law without a condition, the Terminal step with it
  rw [Proc.bind_run_ok (a := ()) (t := { RunState.initial rq c s r poisoned running with
    running := true }) rfl]
  have hinner : Holds (Lawful rq.auditBudget) ((runAuditedInner rq core sink fuel).run
      { RunState.initial rq c s r poisoned running with running := true }).2 := by
    have hfirst := keeps_runToOutcome rq core sink hvalid fuel
      { RunState.initial rq c s r poisoned running with running := true } hinit
    rw [runAuditedInner, Proc.bind_run]
    rcases hrun : (runToOutcome rq core sink fuel).run
      { RunState.initial rq c s r poisoned running with running := true }
      with ⟨stop | audited | ⟨executionId, outcome⟩, st'⟩ <;> rw [hrun] at hfirst
    · exact hfirst
    · exact hfirst
    · exact keeps_finish rq executionId core sink _ outcome
        (fun _ _ => hfits executionId outcome st' hrun) st' hfirst
  rcases hrun : (runAuditedInner rq core sink fuel).run
    { RunState.initial rq c s r poisoned running with running := true } with ⟨stop | audited, st'⟩
    <;> rw [hrun] at hinner
  · rw [Proc.bind_run_error hrun]
    exact hinner
  · rw [Proc.bind_run_ok hrun]
    exact hinner

/-! ## Concrete runs -/

/-- A sink that acknowledges at once (`SyncAuditSink`). -/
def syncSink : AuditSink Unit where
  submit _ batch :=
    match batch.getLast? with
    | some env => (.ack ⟨env.executionId, env.sequence⟩, ())
    | none => (.failed .protocol, ())
  registerWaker s _ := s
  tryTake s _ := (none, s)
  cancel s _ := s

/-- A program whose first statement ends the run as `action` says. -/
def oneStepCore (action : Action) : Core Unit where
  prepare _ := .prepared
  install c := (false, c)
  beginExecution c := ([], .ok, c)
  startSlice c _ := c
  next c := (action, c)
  pendingHostCall _ := none
  finalizeSession c _ := c
  abortSession c := c
  checkpointCancel c := (true, c)
  checkpointDeadline c := (some true, c)
  takePendingExit c := (none, c)
  takePendingBudgetResource c := (none, c)
  clear c := c
  usage _ := {}

/-- An audit budget of `maxEvents` events and `maxEncodedBytes` bytes, else the default. -/
def auditBudgetOf (maxEvents maxEncodedBytes : Nat) (he : maxEvents ≤ maxU64)
    (hb : maxEncodedBytes ≤ maxU64) : AuditBudget :=
  ⟨maxEvents, maxEncodedBytes, 1024 * KIB, 1, 64 * KIB, 2, 128 * KIB, he, hb⟩

/-- A request with the audit budget `b`. -/
def requestOf (b : AuditBudget) : AuditedRequest where
  executionId := some 1
  sourceHash := []
  languageRevision := .v0_21
  importGraphHash := []
  capabilityPolicyHash := []
  redactionPolicyId := "default-r1"
  engineVersion := "0.1.0"
  backend := .treeWalk
  timestamp := some 0
  budget := ⟨1, 1000000, 1000000, 1000, 1000000, 1000000, 10, 1000000, 1000000, 10, 1000000,
    1000, 10, 1000, 10, 1000, 10, 1000, 1000, 1000, ⟨1, 1000⟩, by decide, by decide⟩
  auditBudget := b
  auditSliceFuel := none

/-- 100,000 events in 100 KiB, with the reserves at their least. -/
def budget100KiB : AuditBudget := auditBudgetOf 100000 (100 * KIB) (by decide) (by decide)

theorem stream_law_of_completed :
    StreamLaw budget100KiB
      ((runAudited (requestOf budget100KiB) (oneStepCore (.done .value)) syncSink false 5).run
        (.initial (requestOf budget100KiB) () () {} false false)).2 := by
  refine stream_law (requestOf budget100KiB) (oneStepCore (.done .value)) syncSink false 5 () () {}
    false false rfl fun executionId outcome st' hrun => ?_
  have hresult := congrArg Prod.fst hrun
  rw [show ((runToOutcome (requestOf budget100KiB) (oneStepCore (.done .value)) syncSink 5).run
    { RunState.initial (requestOf budget100KiB) () () {} false false with running := true }).1 =
      .ok (.ok (1, .completed {})) from rfl] at hresult
  cases hresult
  decide

/-- A function name of `n` bytes. -/
def longName (n : Nat) : String := String.ofList (List.replicate n 'f')

theorem longName_size (n : Nat) : (longName n).utf8ByteSize = n := by
  induction n with
  | zero => rfl
  | succ n ih =>
    rw [longName, List.replicate_succ, ← List.singleton_append, String.ofList_append,
      String.utf8ByteSize_append, show (String.ofList ['f']).utf8ByteSize = 1 from rfl]
    rw [longName] at ih
    omega

/-- The error of a recursion of `name` that is too deep, with 40 of its frames. -/
def deepRecursion (name : String) : TsumugiError :=
  .runtime 1 "スタックオーバーフロー" .stackOverflow (List.replicate 40 ⟨name, 1⟩) none


/-- What the run of that recursion appends: Started, and a Terminal with 32 frames. -/
theorem deepRecursion_appended (name : String) :
    appendedOf ((runAudited (requestOf budget100KiB)
      (oneStepCore (.fails (deepRecursion name))) syncSink false 5).run
        (.initial (requestOf budget100KiB) () () {} false false)).2.log =
      [envelope (requestOf budget100KiB) 1 0 (startedEvent (requestOf budget100KiB)),
        envelope (requestOf budget100KiB) 1 1 (terminalEvent (requestOf budget100KiB)
          (.runtimeError (executionErrorFrom (deepRecursion name)) {}) none)] := by
  cbv

theorem deepRecursion_errorBytes (name : String) :
    estimateErrorBytes (auditErrorPayloadFrom
      (.runtimeError (executionErrorFrom (deepRecursion name)) {})) =
      16 + 32 * (name.utf8ByteSize + 16) := by
  simp only [auditErrorPayloadFrom, ExecutionOutcome.error, executionErrorFrom, deepRecursion,
    estimateErrorBytes, Option.map_some, List.map_replicate, List.take_replicate,
    List.sum_replicate_nat, show (ErrorKind.stackOverflow.asStr).utf8ByteSize = 8 from rfl, show min 32 40 = 32 from rfl]

/-- The claimed law fails: the Terminal of a deep recursion is beyond the reserve, and
with the events before it beyond the budget. -/
theorem terminal_over_budget :
    ¬ ∀ (b : AuditBudget) (core : Core Unit) (sink : AuditSink Unit) (fuel : Nat),
      b.validate = .ok () →
      StreamLaw b ((runAudited (requestOf b) core sink false fuel).run
        (.initial (requestOf b) () () {} false false)).2 := by
  intro h
  have hbytes := (h budget100KiB (oneStepCore (.fails (deepRecursion (longName 4000)))) syncSink 5
    rfl).bytes_le
  rw [deepRecursion_appended] at hbytes
  simp only [encodedBytes, List.map_cons, List.map_nil, List.sum_cons, List.sum_nil,
    estimateEncodedBytes, envelope, terminalEvent, estimateEventBytes, deepRecursion_errorBytes,
    longName_size] at hbytes
  revert hbytes
  decide

end Tsumugi.Audit
