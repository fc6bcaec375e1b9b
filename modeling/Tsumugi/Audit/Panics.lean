import Tsumugi.Audit.Delivery
import Tsumugi.Audit.StreamLaw

/-!
# Panics in an audited run

Every part of a run adds to the log. What it adds depends on the part: the evaluator
records and works, a delivery submits its own envelope, the driver touches no Started and
no Terminal. A panic is in what was added exactly when the part unwinds.

Results:
1. `deliver_ends`: a delivery returns when its envelope is acknowledged, and unwinds when
   the sink or the clock has panicked for it.
2. `guardedDriver_ends`: the guarded driver turns each of its panics into the outcome
   InternalFailure.
-/

namespace Tsumugi.Audit

open Run StreamLawLemmas DeliveryLemmas

variable {C S : Type}

/-! ## What is added to the log -/

/-- The places of the panics, in order. -/
def panicsOf (log : List LogEntry) : List PanicSite :=
  log.filterMap fun entry =>
    match entry with
    | .panicked site => some site
    | _ => none

/-- An event that comes after Started and before Terminal. -/
def AuditEvent.isInner (event : AuditEvent) : Bool := !event.isStarted && !event.isTerminal

/-- A panic in this place unwinds the driver. -/
def PanicSite.inDriver : PanicSite → Bool
  | .evaluator => true
  | .delivery event => event.isInner
  | _ => false

/-- An entry of the driver. -/
def LogEntry.inDriver : LogEntry → Bool
  | .appended env | .submitted env | .acked env => env.event.isInner
  | .recorded _ | .work => true
  | .panicked site => site.inDriver

/-- An entry of the evaluator. -/
def LogEntry.ofEvaluator : LogEntry → Bool
  | .recorded _ | .work | .panicked .evaluator => true
  | _ => false

/-- An entry of a delivery that has not succeeded yet. -/
def Unacked (env : AuditEnvelope) : LogEntry → Prop
  | .recorded _ => True
  | .submitted env' => env' = env
  | .panicked site => site = .delivery env.event
  | _ => False

/-- Started has been appended. -/
def StartedAppended (log : List LogEntry) : Prop :=
  ∃ env ∈ appendedOf log, env.event.isStarted = true

/-- A part has added entries, all of them `ok`; a panic is one of them exactly when the
part unwinds. -/
def Added (ok : LogEntry → Prop) (o : Option Stop) (log log' : List LogEntry) : Prop :=
  ∃ entries, log' = log ++ entries ∧ (∀ entry ∈ entries, ok entry) ∧
    (panicsOf entries ≠ [] ↔ o = some .unwound)

namespace PanicLemmas

@[simp] theorem panicsOf_append (log log' : List LogEntry) :
    panicsOf (log ++ log') = panicsOf log ++ panicsOf log' := List.filterMap_append

@[simp] theorem panicsOf_recorded (events : List AuditEvent) :
    panicsOf (events.map .recorded) = [] := by
  simp [panicsOf, List.filterMap_map]

theorem mem_filterMap_iff {α β : Type} {f : α → Option β} {a : α} {b : β}
    (h : ∀ x, f x = some b ↔ x = a) (l : List α) : b ∈ l.filterMap f ↔ a ∈ l := by
  simp [List.mem_filterMap, h]

theorem mem_panicsOf {log : List LogEntry} {site : PanicSite} :
    site ∈ panicsOf log ↔ .panicked site ∈ log :=
  mem_filterMap_iff (by rintro (_ | _) <;> simp) log

theorem mem_appendedOf {log : List LogEntry} {env : AuditEnvelope} :
    env ∈ appendedOf log ↔ .appended env ∈ log :=
  mem_filterMap_iff (by rintro (_ | _) <;> simp) log

theorem mem_ackedOf {log : List LogEntry} {env : AuditEnvelope} :
    env ∈ ackedOf log ↔ .acked env ∈ log :=
  mem_filterMap_iff (by rintro (_ | _) <;> simp) log

theorem added_trans {ok : LogEntry → Prop} {o : Option Stop} {log₁ log₂ log₃ : List LogEntry}
    (h : Added ok none log₁ log₂) (h' : Added ok o log₂ log₃) : Added ok o log₁ log₃ := by
  obtain ⟨entries, rfl, hok, hpanics⟩ := h
  obtain ⟨entries', rfl, hok', hpanics'⟩ := h'
  refine ⟨entries ++ entries', by rw [List.append_assoc], ?_, ?_⟩
  · simpa [or_imp, forall_and] using ⟨hok, hok'⟩
  · have hnone : panicsOf entries = [] := by simpa using hpanics
    simpa [hnone] using hpanics'

theorem added_mono {ok ok' : LogEntry → Prop} {o : Option Stop} {log log' : List LogEntry}
    (h : Added ok o log log') (himp : ∀ entry, ok entry → ok' entry) : Added ok' o log log' := by
  obtain ⟨entries, hlog, hok, hpanics⟩ := h
  exact ⟨entries, hlog, fun entry hentry => himp entry (hok entry hentry), hpanics⟩

theorem added_nil {ok : LogEntry → Prop} {o : Option Stop} (log : List LogEntry)
    (ho : o ≠ some .unwound) : Added ok o log log :=
  ⟨[], by simp, by simp, by simpa [panicsOf] using ho⟩

end PanicLemmas

open PanicLemmas

/-- The journal stays as it is and `ok` entries are added. -/
def adds (ok : LogEntry → Prop) : Proc.Contract (RunState C S) Stop where
  rel o st t := t.journal = st.journal ∧ Added ok o st.log t.log
  refl st := ⟨rfl, added_nil _ (by simp)⟩
  trans h h' := ⟨h'.1.trans h.1, added_trans h.2 h'.2⟩

/-- From Started on, the journal stays started and the entries are the driver's. -/
def drives : Proc.Contract (RunState C S) Stop where
  rel o st t := st.journal.started = true →
    t.journal.started = true ∧ Added (·.inDriver = true) o st.log t.log
  refl st h := ⟨h, added_nil _ (by simp)⟩
  trans h h' hst := ⟨(h' (h hst).1).1, added_trans (h hst).2 (h' (h hst).1).2⟩

namespace PanicLemmas

variable {ok : LogEntry → Prop}

theorem meets_trace {entries : List LogEntry} (hok : ∀ entry ∈ entries, ok entry)
    (hpanics : panicsOf entries = []) :
    Proc.Meets (adds ok) (trace entries : Run C S Unit) :=
  Proc.meets_modify fun _ => ⟨rfl, entries, rfl, hok, by simp [hpanics]⟩

theorem meets_panics {α : Type} {site : PanicSite} (hok : ok (.panicked site)) :
    Proc.Meets (adds ok) (panics site : Run C S α) := fun _ =>
  ⟨rfl, [.panicked site], rfl, by simpa using hok, by simp [panicsOf, Proc.stopOf, panics, trace,
    Proc.bind_run]⟩

theorem meets_quiet {α : Type} {f : RunState C S → α × RunState C S}
    (hlog : ∀ st, (f st).2.log = st.log) (hjournal : ∀ st, (f st).2.journal = st.journal) :
    Proc.Meets (adds ok) (Proc.update f : Run C S α) :=
  Proc.meets_update fun st => ⟨hjournal st, by rw [hlog]; exact added_nil _ (by simp)⟩

theorem meets_onCore {α : Type} (f : C → α × C) : Proc.Meets (adds ok) (onCore f : Run C S α) :=
  meets_quiet (fun _ => rfl) fun _ => rfl

theorem meets_onTicket {α : Type} (f : S → α × S) :
    Proc.Meets (adds ok) (onTicket f : Run C S α) :=
  meets_quiet (fun _ => rfl) fun _ => rfl

theorem meets_record {α : Type} (hok : ∀ event, ok (.recorded event))
    (f : Recorder → α × Recorder) : Proc.Meets (adds ok) (record f : Run C S α) := by
  refine Proc.meets_update fun st => ⟨rfl, _, rfl, ?_, by simp [-List.map_drop]⟩
  intro entry hentry
  obtain ⟨event, -, rfl⟩ := List.mem_map.mp hentry
  exact hok event

theorem meets_fails {α : Type} (failure : AuditFailure) :
    Proc.Meets (adds ok) (Proc.stop (.failed failure) : Run C S α) :=
  Proc.meets_stop fun _ => ⟨rfl, added_nil _ (by simp)⟩

theorem meets_outOfFuel {α : Type} :
    Proc.Meets (adds ok) (Proc.stop .outOfFuel : Run C S α) :=
  Proc.meets_stop fun _ => ⟨rfl, added_nil _ (by simp)⟩

/-! ## Deliveries -/

section

variable (executionId : Nat) (core : Core C) (sink : AuditSink S) (env : AuditEnvelope)

theorem meets_submit :
    Proc.Meets (adds (Unacked env)) (submit sink env : Run C S AuditSubmit) := by
  refine Proc.meets_bind (meets_trace (by simp [Unacked]) rfl) fun _ => ?_
  refine Proc.meets_bind (meets_quiet (fun _ => rfl) fun _ => rfl) fun answer => ?_
  cases answer with
  | unwinds => exact meets_panics rfl
  | _ => exact Proc.meets_pure _

/-- A submit that panics does so at its own envelope. -/
theorem submit_ends {env : AuditEnvelope} {st t : RunState C S} {r : Except Stop AuditSubmit}
    (hrun : (submit sink env).run st = (r, t)) :
    t.journal = st.journal ∧ ∃ entries, t.log = st.log ++ entries ∧
      (∀ entry ∈ entries, Unacked env entry) ∧ (panicsOf entries ≠ [] ↔ ∃ e, r = .error e) := by
  obtain ⟨hjournal, entries, hlog, hok, hpanics⟩ := meets_submit sink env st
  rw [hrun] at hjournal hlog hpanics
  refine ⟨hjournal, entries, hlog, hok, hpanics.trans ?_⟩
  simp only [submit, trace, Proc.bind_run, Proc.modify_run, Proc.update_run] at hrun
  cases hanswer : (sink.submit st.sink [env]).1 <;>
    simp only [hanswer, panics, trace, Proc.bind_run, Proc.modify_run, Proc.stop_run,
      Proc.pure_run, Prod.mk.injEq] at hrun <;>
    obtain ⟨rfl, -⟩ := hrun <;> simp [Proc.stopOf]

theorem meets_interrupted :
    Proc.Meets (adds (Unacked env)) (interrupted core env : Run C S Bool) := by
  refine Proc.meets_bind (meets_onCore _) fun _ => Proc.meets_ite ?_ (Proc.meets_pure _)
  refine Proc.meets_bind (meets_onCore _) fun answer => ?_
  cases answer with
  | none => exact meets_panics rfl
  | some _ => exact Proc.meets_pure _

end

/-- How a delivery ends: on a return the last entry is the ack of its envelope, otherwise
the envelope has no ack. -/
def Delivers (env : AuditEnvelope) (r : Except Stop Unit) (st t : RunState C S) : Prop :=
  t.journal = st.journal ∧ ∃ log, Added (Unacked env) (Proc.stopOf r) st.log log ∧
    t.log = log ++ (if r.isOk then [.acked env] else [])

section

variable (executionId : Nat) (core : Core C) (sink : AuditSink S) {env : AuditEnvelope}

theorem delivers_bind {α : Type} {m : Run C S α} {f : α → Run C S Unit}
    (hm : Proc.Meets (adds (Unacked env)) m) (hf : ∀ a, Proc.Ends (Delivers env) (f a)) :
    Proc.Ends (Delivers env) (m >>= f) := by
  refine Proc.ends_bind hm hf ?_ ?_
  · rintro r st t u ⟨hjournal, hadded⟩ ⟨hjournal', log, hadded', hlog⟩
    exact ⟨hjournal'.trans hjournal, log, added_trans hadded hadded', hlog⟩
  · rintro e st t ⟨hjournal, hadded⟩
    exact ⟨hjournal, t.log, hadded, by simp [Except.isOk, Except.toBool]⟩

theorem delivers_ite {p : Prop} [Decidable p] {m n : Run C S Unit}
    (hm : Proc.Ends (Delivers env) m) (hn : Proc.Ends (Delivers env) n) :
    Proc.Ends (Delivers env) (if p then m else n) := by
  split <;> assumption

theorem delivers_fails (failure : AuditFailure) :
    Proc.Ends (Delivers env) (Proc.stop (.failed failure) : Run C S Unit) := fun st =>
  ⟨rfl, st.log, added_nil _ (by simp [Proc.stopOf]), by simp [Except.isOk, Except.toBool]⟩

theorem delivers_ack : Proc.Ends (Delivers env) (trace [.acked env] : Run C S Unit) := fun st =>
  ⟨rfl, st.log, added_nil _ (by simp [Proc.stopOf, trace]), by
    simp [trace, Except.isOk, Except.toBool]⟩

theorem delivers_resumeAfterAck :
    Proc.Ends (Delivers env) (resumeAfterAck core env : Run C S Unit) := by
  refine delivers_bind (Proc.meets_gets _) fun _ => ?_
  exact delivers_bind (meets_record (fun _ => trivial) _) fun _ => delivers_ack

theorem delivers_cancel (ticket : Nat) (failure : AuditFailure) :
    Proc.Ends (Delivers env) (do
      onTicket fun s => ((), sink.cancel s ticket)
      Proc.stop (.failed failure) : Run C S Unit) :=
  delivers_bind (meets_onTicket _) fun _ => delivers_fails _

theorem delivers_awaitAck (resends ticket : Nat) :
    Proc.Ends (Delivers env) (awaitAck executionId core sink env resends ticket) := by
  induction resends generalizing ticket with
  | zero => exact delivers_cancel sink ticket _
  | succ resends ih =>
    refine delivers_bind (meets_interrupted core env) fun _ => ?_
    refine delivers_ite (delivers_cancel sink ticket _) ?_
    refine delivers_bind (meets_onTicket _) fun taken => ?_
    have hack : ∀ ack : AuditAck, Proc.Ends (Delivers env) (if ackOk executionId ack env.sequence
        then resumeAfterAck core env else Proc.stop (.failed .sink) : Run C S Unit) := fun _ =>
      delivers_ite (delivers_resumeAfterAck core) (delivers_fails _)
    rcases taken with _ | error | ack
    · refine delivers_bind (meets_submit sink env) fun answer => ?_
      cases answer with
      | ack ack => exact hack ack
      | pending next => exact delivers_bind (meets_onTicket _) fun _ => ih next
      | failed error => exact delivers_fails _
      | unwinds => exact delivers_fails _
    · exact delivers_fails _
    · exact hack ack

end

/-- What a delivery adds before the ack appends nothing and acknowledges nothing. -/
theorem unacked_silent {env : AuditEnvelope} {entries : List LogEntry}
    (h : ∀ entry ∈ entries, Unacked env entry) : appendedOf entries = [] ∧ ackedOf entries = [] := by
  constructor <;> refine List.filterMap_eq_nil_iff.mpr fun entry hentry => ?_ <;>
    have := h entry hentry <;> cases entry <;> simp_all [Unacked]

theorem exceededResource_run (core : Core C) (outcome : ExecutionOutcome) (st : RunState C S) :
    ∃ exceeded c, (exceededResource core outcome).run st =
      (.ok exceeded, { st with core := c }) := by
  cases outcome <;> exact ⟨_, _, rfl⟩

/-- The log of a run from its start to the first ack. -/
theorem firstAck_events {env : AuditEnvelope} {entries : List LogEntry}
    (h : ∀ entry ∈ entries, Unacked env entry) :
    appendedOf ([.appended env] ++ entries ++ [.acked env]) = [env] ∧
      ackedOf ([.appended env] ++ entries ++ [.acked env]) = [env] := by
  obtain ⟨happended, hacked⟩ := unacked_silent h
  constructor
  · rw [appendedOf_append, appendedOf_append, happended]
    rfl
  · rw [ackedOf_append, ackedOf_append, hacked]
    rfl

end PanicLemmas

section

variable (rq : AuditedRequest) (executionId : Nat) (core : Core C) (sink : AuditSink S)

/-- A delivery returns exactly when its envelope is acknowledged, and unwinds exactly when
there was a panic for it. -/
theorem deliver_ends (env : AuditEnvelope) :
    Proc.Ends (Delivers env) (deliver executionId core sink env) := by
  refine delivers_bind (meets_submit sink env) fun answer => ?_
  cases answer with
  | ack ack => exact delivers_ite delivers_ack (delivers_fails _)
  | pending ticket =>
    refine delivers_bind (Proc.meets_gets _) fun _ => ?_
    refine delivers_bind (meets_record (fun _ => trivial) _) fun _ => ?_
    refine delivers_ite ?_ (delivers_cancel sink ticket _)
    exact delivers_bind (meets_onTicket _) fun _ => delivers_awaitAck executionId core sink _ _
  | failed error => exact delivers_fails _
  | unwinds => exact delivers_fails _

end

/-! ## The evaluator -/

namespace PanicLemmas

variable (core : Core C)

abbrev Evaluates {α : Type} (m : Run C S α) : Prop :=
  Proc.Meets (adds (·.ofEvaluator = true)) m

theorem evaluates_record {α : Type} (f : Recorder → α × Recorder) :
    Evaluates (record f : Run C S α) := meets_record (fun _ => rfl) f

theorem evaluates_runDriver (fuel : Nat) :
    Evaluates (runDriver core fuel : Run C S DriveOutcome) := by
  induction fuel with
  | zero => exact meets_outOfFuel
  | succ fuel ih =>
    refine Proc.meets_bind (meets_trace (by simp [LogEntry.ofEvaluator]) rfl) fun _ => ?_
    refine Proc.meets_bind (meets_onCore _) fun action => ?_
    cases action with
    | note note => exact Proc.meets_bind (evaluates_record _) fun _ => ih
    | progress => exact Proc.meets_bind (evaluates_record _) fun _ => ih
    | boundary =>
      refine Proc.meets_bind (Proc.meets_gets _) fun _ => Proc.meets_ite ?_ ih
      exact Proc.meets_bind (evaluates_record _) fun _ => Proc.meets_pure _
    | yields => exact Proc.meets_pure _
    | done result => exact Proc.meets_pure _
    | fails error => exact Proc.meets_pure _
    | unwinds => exact meets_panics rfl

theorem evaluates_yieldSlice (slice : SliceOutcome) (reason : AuditYieldReason) :
    Evaluates (yieldSlice core slice reason : Run C S SliceOutcome) := by
  refine Proc.meets_bind (evaluates_record _) fun _ => ?_
  refine Proc.meets_bind (Proc.meets_gets _) fun _ => ?_
  refine Proc.meets_bind (evaluates_record _) fun _ => Proc.meets_ite (Proc.meets_pure _) ?_
  exact Proc.meets_bind (meets_onCore _) fun _ => Proc.meets_pure _

theorem evaluates_runSlice (fuel sliceFuel : Nat) :
    Evaluates (runSlice core fuel sliceFuel : Run C S SliceOutcome) := by
  refine Proc.meets_bind (Proc.meets_gets _) fun _ => ?_
  refine Proc.meets_bind (evaluates_record _) fun _ => ?_
  refine Proc.meets_bind (meets_onCore _) fun _ => ?_
  refine Proc.meets_bind (evaluates_record _) fun _ => ?_
  refine Proc.meets_bind (evaluates_runDriver core fuel) fun outcome => ?_
  cases outcome with
  | yielded =>
    refine Proc.meets_bind (evaluates_record _) fun queueYield => ?_
    refine Proc.meets_bind (Proc.meets_gets _) fun pending => ?_
    dsimp only
    split
    · exact evaluates_yieldSlice core _ _
    · exact Proc.meets_pure _
  | done result => exact Proc.meets_bind (meets_onCore _) fun _ => Proc.meets_pure _
  | fails error => exact Proc.meets_bind (meets_onCore _) fun _ => Proc.meets_pure _

theorem evaluates_terminalFrom (error : TsumugiError) :
    Evaluates (terminalFrom core error : Run C S ExecutionOutcome) := by
  refine Proc.meets_bind (Proc.meets_gets _) fun _ => ?_
  refine Proc.meets_bind ?_ fun _ => Proc.meets_pure _
  exact Proc.meets_ite (meets_onCore _) (Proc.meets_pure _)

theorem evaluates_terminalOf (result : Except TsumugiError Unit) :
    Evaluates (terminalOf core result : Run C S ExecutionOutcome) := by
  cases result with
  | ok => exact Proc.meets_bind (Proc.meets_gets _) fun _ => Proc.meets_pure _
  | error error => exact evaluates_terminalFrom core error

theorem evaluates_withheldAfter (slice : SliceOutcome) :
    Evaluates (withheldAfter core slice : Run C S TerminalOutcome) := by
  cases slice with
  | terminal result =>
    exact Proc.meets_bind (evaluates_terminalOf core result) fun _ => Proc.meets_pure _
  | _ => exact Proc.meets_bind (meets_onCore _) fun _ => Proc.meets_pure _

theorem evaluates_beginExecution :
    Evaluates (beginExecution core : Run C S BeginAnswer) := by
  refine Proc.meets_bind (meets_trace (by simp [LogEntry.ofEvaluator]) rfl) fun _ => ?_
  refine Proc.meets_bind (meets_onCore _) fun result => ?_
  obtain ⟨notes, answer⟩ := result
  refine Proc.meets_bind (evaluates_record _) fun _ => ?_
  cases answer <;> first | exact Proc.meets_pure _ | exact meets_panics rfl

/-! ## The driver -/

/-- What the evaluator does, the driver may do. -/
theorem drives_of_evaluates {α : Type} {m : Run C S α} (h : Evaluates m) :
    Proc.Meets drives m := by
  refine Proc.Ends.mono h ?_
  rintro r st t ⟨hjournal, hadded⟩ hstarted
  refine ⟨by rw [hjournal, hstarted], added_mono hadded fun entry hentry => ?_⟩
  cases entry with
  | panicked site => cases site <;> simp_all [LogEntry.ofEvaluator, LogEntry.inDriver,
      PanicSite.inDriver]
  | _ => simp_all [LogEntry.ofEvaluator, LogEntry.inDriver]

theorem drives_onCore {α : Type} (f : C → α × C) : Proc.Meets drives (onCore f : Run C S α) :=
  drives_of_evaluates (meets_onCore f)

theorem drives_record {α : Type} (f : Recorder → α × Recorder) :
    Proc.Meets drives (record f : Run C S α) := drives_of_evaluates (evaluates_record f)

theorem drives_fails {α : Type} (failure : AuditFailure) :
    Proc.Meets drives (Proc.stop (.failed failure) : Run C S α) :=
  drives_of_evaluates (meets_fails failure)

/-- A failure that is handled counts as a return. -/
theorem drives_attempt {α : Type} {m : Run C S α} (h : Proc.Meets drives m) :
    Proc.Meets drives (m.attempt Stop.failure) := by
  refine Proc.meets_attempt h ?_
  rintro (failure | _ | _) e' st t he hrel hstarted <;> simp only [Stop.failure] at he
  · obtain ⟨hjournal, entries, hlog, hok, hpanics⟩ := hrel hstarted
    exact ⟨hjournal, entries, hlog, hok, by simpa using hpanics⟩
  · cases he
  · cases he

variable (rq : AuditedRequest) (executionId : Nat) (sink : AuditSink S)

theorem drives_append {env : AuditEnvelope} (hinner : env.event.isInner = true) :
    Proc.Meets drives (append env AuditJournal.appendNormal : Run C S Unit) := by
  intro st hstarted
  rcases happ : st.journal.appendNormal env with failure | ⟨seq, j⟩
  · rw [append_run_error _ happ]
    exact ⟨hstarted, added_nil _ (by simp [Proc.stopOf])⟩
  · rw [append_run_ok _ happ]
    obtain ⟨-, -, -, -, -, -, rfl⟩ := AuditJournal.appendNormal_spec happ
    exact ⟨by simp [hstarted], [.appended env], rfl, by simpa [LogEntry.inDriver] using hinner,
      by simp [panicsOf, Proc.stopOf]⟩

/-- Once Started is in the journal, it takes no second one, and no Terminal this way. -/
theorem append_refuses (env : AuditEnvelope) (hinner : ¬ env.event.isInner = true)
    {st : RunState C S} (hstarted : st.journal.started = true) :
    ∃ failure, (append env AuditJournal.appendNormal : Run C S Unit).run st =
      (.error (.failed failure), st) := by
  rcases happ : st.journal.appendNormal env with failure | ⟨seq, j⟩
  · exact ⟨failure, append_run_error _ happ⟩
  · obtain ⟨-, hterminal, -, horder, -⟩ := AuditJournal.appendNormal_spec happ
    refine absurd ?_ hinner
    cases hkind : env.event.isStarted with
    | true => simp [AuditJournal.startedInOrder, hkind, hstarted] at horder
    | false => simp [AuditEvent.isInner, hkind, hterminal]

theorem drives_deliver {env : AuditEnvelope} (hinner : env.event.isInner = true) :
    Proc.Meets drives (deliver executionId core sink env) := by
  refine (deliver_ends executionId core sink env).mono ?_
  rintro r st t ⟨hjournal, log, ⟨entries, rfl, hok, hpanics⟩, hlog⟩ hstarted
  refine ⟨by rw [hjournal, hstarted], _, by rw [hlog, List.append_assoc], ?_, ?_⟩
  · intro entry hentry
    rcases List.mem_append.mp hentry with hmem | hmem
    · have := hok entry hmem
      cases entry <;> simp_all [Unacked, LogEntry.inDriver, PanicSite.inDriver]
    · cases hr : r.isOk <;> simp_all [LogEntry.inDriver]
  · cases hr : r.isOk <;> simpa [panicsOf] using hpanics

theorem drives_flushEvent (event : AuditEvent) :
    Proc.Meets drives (flushEvent rq executionId core sink event) := by
  refine Proc.meets_bind (Proc.meets_gets _) fun j => Proc.meets_ite (drives_fails _) ?_
  by_cases hinner : event.isInner = true
  · refine Proc.meets_bind (drives_append hinner) fun _ => ?_
    refine Proc.meets_bind (drives_deliver core executionId sink hinner) fun _ => ?_
    exact Proc.meets_modify fun _ hstarted => ⟨hstarted, added_nil _ (by simp)⟩
  · intro st hstarted
    obtain ⟨failure, hrun⟩ := append_refuses (envelope rq executionId j.nextSequence event)
      hinner hstarted
    rw [Proc.bind_run_error hrun]
    exact ⟨hstarted, added_nil _ (by simp [Proc.stopOf])⟩

theorem drives_flushEach (events : List AuditEvent) :
    Proc.Meets drives (flushEach rq executionId core sink events) := by
  induction events with
  | nil => exact Proc.meets_pure _
  | cons event events ih =>
    exact Proc.meets_bind (drives_flushEvent core rq executionId sink event) fun _ => ih

theorem evaluates_drainAll : Evaluates (drainAll : Run C S (List AuditEvent)) := by
  refine Proc.meets_bind (meets_quiet (fun _ => rfl) fun _ => rfl) fun _ => ?_
  refine Proc.meets_bind (meets_quiet (fun _ => rfl) fun _ => rfl) fun charges => ?_
  refine Proc.meets_bind (meets_trace ?_ (panicsOf_recorded _)) fun _ => ?_
  · intro entry hentry
    obtain ⟨event, -, rfl⟩ := List.mem_map.mp hentry
    rfl
  · exact Proc.meets_bind (Proc.meets_modify fun _ => ⟨rfl, added_nil _ (by simp)⟩)
      fun _ => Proc.meets_pure _

theorem drives_flushEvents (fuel : Nat) :
    Proc.Meets drives (flushEvents rq executionId core sink fuel) := by
  induction fuel with
  | zero => exact drives_of_evaluates meets_outOfFuel
  | succ fuel ih =>
    refine Proc.meets_bind (drives_of_evaluates evaluates_drainAll) fun events => ?_
    cases events with
    | nil => exact Proc.meets_pure _
    | cons event events =>
      exact Proc.meets_bind (drives_flushEach core rq executionId sink _) fun _ => ih

theorem drives_pollLoop (sliceFuel fuel : Nat) :
    Proc.Meets drives (pollLoop rq executionId core sink sliceFuel fuel) := by
  induction fuel with
  | zero => exact drives_of_evaluates meets_outOfFuel
  | succ fuel ih =>
    refine Proc.meets_bind (drives_of_evaluates (evaluates_runSlice core _ _)) fun slice => ?_
    refine Proc.meets_bind
      (drives_attempt (drives_flushEvents core rq executionId sink fuel)) fun flushed => ?_
    rcases flushed with failure | _
    · refine Proc.meets_bind (drives_of_evaluates (evaluates_withheldAfter core slice)) fun _ => ?_
      exact Proc.meets_bind (drives_onCore _) fun _ => Proc.meets_pure _
    · cases slice with
      | terminal result =>
        refine Proc.meets_bind (drives_of_evaluates (evaluates_terminalOf core result)) fun _ => ?_
        exact Proc.meets_bind (drives_onCore _) fun _ => Proc.meets_pure _
      | _ => exact ih

theorem drives_runAuditedDriver (fuel : Nat) :
    Proc.Meets drives (runAuditedDriver rq executionId core sink fuel) := by
  refine Proc.meets_bind (drives_onCore _) fun _ => ?_
  refine Proc.meets_bind (drives_record _) fun _ => ?_
  refine Proc.meets_ite (Proc.meets_bind (Proc.meets_gets _) fun _ => Proc.meets_pure _) ?_
  refine Proc.meets_bind (drives_record _) fun _ => ?_
  refine Proc.meets_bind (drives_of_evaluates (evaluates_beginExecution core)) fun answer => ?_
  cases answer with
  | fails error =>
    refine Proc.meets_bind (drives_of_evaluates (evaluates_terminalFrom core error)) fun _ => ?_
    refine Proc.meets_bind
      (drives_attempt (drives_flushEvents core rq executionId sink fuel)) fun flushed => ?_
    rcases flushed with failure | _
    · exact Proc.meets_pure _
    · exact Proc.meets_bind (drives_onCore _) fun _ => Proc.meets_pure _
  | _ => exact drives_pollLoop core rq executionId sink _ _

theorem ne_unwound_of_panic {stop : Stop} (h : stop.panic = none) : stop ≠ .unwound := by
  rintro rfl
  cases h

end PanicLemmas

/-- The guarded driver does not unwind: where a panic was added to the log, the driver's
outcome is InternalFailure. -/
theorem guardedDriver_ends (rq : AuditedRequest) (executionId : Nat) (core : Core C)
    (sink : AuditSink S) (fuel : Nat) {st t : RunState C S} {r : Except Stop AuditDrive}
    (hrun : (guardedDriver rq executionId core sink fuel).run st = (r, t))
    (hstarted : st.journal.started = true) :
    t.journal.started = true ∧ ∃ entries, t.log = st.log ++ entries ∧
      (∀ entry ∈ entries, entry.inDriver = true) ∧ r ≠ .error .unwound ∧
      (panicsOf entries ≠ [] → ∃ usage, r = .ok (.terminal (.internalFailure usage))) := by
  have hdriver := drives_runAuditedDriver core rq executionId sink fuel st hstarted
  rcases hd : (runAuditedDriver rq executionId core sink fuel).run st with ⟨stop | drive, u⟩ <;>
    rw [hd] at hdriver <;> obtain ⟨hjournal, entries, hlog, hok, hpanics⟩ := hdriver
  · cases hstop : stop.panic with
    | some =>
      -- the one panic of the driver is caught here
      rw [guardedDriver, Proc.bind_run_ok (Proc.attempt_run_some hd hstop)] at hrun
      cases hrun
      exact ⟨hjournal, entries, hlog, hok, by simp, fun _ => ⟨_, rfl⟩⟩
    | none =>
      rw [guardedDriver, Proc.bind_run_error (Proc.attempt_run_none hd hstop)] at hrun
      cases hrun
      have hne := ne_unwound_of_panic hstop
      exact ⟨hjournal, entries, hlog, hok, by simpa using hne,
        fun h => absurd (Option.some.inj (hpanics.mp h)) hne⟩
  · rw [guardedDriver, Proc.bind_run_ok (Proc.attempt_run_ok hd)] at hrun
    cases hrun
    exact ⟨hjournal, entries, hlog, hok, by simp, fun h => by simp [Proc.stopOf, h] at hpanics⟩

end Tsumugi.Audit
