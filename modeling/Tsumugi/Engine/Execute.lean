import Tsumugi.Engine.RunTurn
import Tsumugi.Lang.Value

/-!
# The synchronous entry points (`engine.rs`)

`execute` and `execute_repl_submission` admit a handle and poll it until it ends. The
loop goes on after every yield. What the program, the clock, the cancel token, the
adapters and the other threads do is fixed in advance, poll by poll.

Results:
1. `execute_starves`: an execution that yielded and is still registered makes a
   synchronous call poll forever.
2. `execute_returns_iff`: when nobody else acts during the call, it returns exactly when it
   is refused, or has the run-turn FIFO for itself, or is stopped in the admission queue;
   and whoever acts, it returns what the program returns alone as long as it has the turn
   at every poll.
-/

namespace Tsumugi.Engine

open Transition Scheduler Host

variable {R W : Type}

/-! ## The `Debug` texts in the messages -/

def AdmissionPhase.debug : AdmissionPhase → String
  | .created => "Created"
  | .linked => "Linked"

def YieldReason.debug : YieldReason → String
  | .admissionQueued resumeTo =>
    s!"AdmissionQueued \x7b resume_to: {AdmissionPhase.debug resumeTo} \x7d"
  | .sliceFuelExhausted => "SliceFuelExhausted"
  | .hostCallPending callId => s!"HostCallPending \x7b call_id: {callId} \x7d"
  | .explicitYield => "ExplicitYield"
  | .schedulerPreempted => "SchedulerPreempted"
  | .auditBackpressure => "AuditBackpressure"

def ResumeState.debug : ResumeState → String
  | .created => "Created"
  | .linked => "Linked"
  | .ready => "Ready"
  | .yielded reason => s!"Yielded({YieldReason.debug reason})"

def ExecutionState.debug : ExecutionState → String
  | .created => "Created"
  | .linked => "Linked"
  | .ready => "Ready"
  | .running => "Running"
  | .yielded reason => s!"Yielded({YieldReason.debug reason})"
  | .paused p =>
    s!"Paused(PausedState \x7b reason: HostRequested, resume_to: {ResumeState.debug p.resumeTo} \x7d)"
  | .terminal => "Terminal"

def HandleError.debug : HandleError → String
  | .wrongThread => "WrongThread"
  | .invalidState operation state =>
    s!"InvalidState \x7b operation: \"{operation}\", state: {ExecutionState.debug state} \x7d"
  | .terminal => "Terminal"

def StartError.debug : StartError → String
  | .backpressure active queued limit =>
    s!"Backpressure \x7b active: {active}, queued: {queued}, limit: {limit} \x7d"

/-! ## The driving loop -/

/-- What the program does: how linking ends, and how its `k`-th slice ends. -/
structure ScriptRun where
  beginExecution : Except (RunPhase × TsumugiError) Unit
  slice : Nat → SliceOutcome

/-- What happens around the loop up to its `i`-th poll. -/
structure Surroundings (R : Type) where
  cancels : Nat → Bool
  deadlinePassed : Nat → Bool
  completes : Nat → Option R
  others : Nat → SchedulerShared → SchedulerShared

/-- Nobody else touches the scheduler. -/
def Surroundings.Quiet (w : Surroundings R) : Prop := ∀ i shared, w.others i shared = shared

/-- The loop between two polls: its handle, the scheduler and the slices run so far. -/
structure Driving (R W : Type) where
  handle : ExecutionHandle R W
  shared : SchedulerShared
  slices : Nat

namespace Driving

/-- What the surroundings do before the `i`-th poll. -/
def meanwhile (w : Surroundings R) (i : Nat) (d : Driving R W) : Driving R W :=
  let evaluator :=
    { d.handle.evaluator with cancelled := d.handle.evaluator.cancelled || w.cancels i }
  let ticket := match w.completes i with
    | some result => d.handle.pendingTicket.map (complete · result)
    | none => d.handle.pendingTicket
  { d with
    handle := { d.handle with evaluator := evaluator, pendingTicket := ticket }
    shared := w.others i d.shared }

/-- The input of the `i`-th poll. -/
def input (p : ScriptRun) (w : Surroundings R) (i : Nat) (d : Driving R W) : PollInput :=
  ⟨w.deadlinePassed i, p.beginExecution, p.slice d.slices⟩

/-- The `i`-th poll. -/
def poll (p : ScriptRun) (w : Surroundings R) (i : Nat) (d : Driving R W) :
    Except HandleError PollResult × Driving R W :=
  let d := d.meanwhile w i
  let polled := d.handle.poll d.shared (d.input p w i)
  (polled.result,
    ⟨polled.handle, polled.shared, if polled.ranSlice then d.slices + 1 else d.slices⟩)

end Driving

/-- The `Result` of an outcome. -/
def ExecutionOutcome.toResult : ExecutionOutcome → Except TsumugiError ExecutionOutcome
  | .completed => .ok .completed
  | .runtimeError error | .linkError error => .error error
  | .cancelled => .error (.cancelled 0)
  | .deadlineExceeded => .error (.deadlineExceeded 0)

/-- `drive_to_outcome`, from the `i`-th poll on and for at most `fuel` polls. -/
def driveToOutcome (p : ScriptRun) (w : Surroundings R) :
    (fuel i : Nat) → Driving R W → Option (Except TsumugiError ExecutionOutcome)
  | 0, _, _ => none
  | fuel + 1, i, d =>
    match d.poll p w i with
    | (.ok (.terminal outcome), _) => some outcome.toResult
    | (.ok (.yielded _), d) | (.ok (.paused _), d) => driveToOutcome p w fuel (i + 1) d
    | (.error e, _) => some (.error (.internal 0 s!"実行 handle の誤用: {HandleError.debug e}"))

/-- The handle of a synchronous call, in the state in which the loop starts. -/
def startDriving (slot : AdmissionSlot) (transactional : Bool) (evaluator : EvaluatorView)
    (shared : SchedulerShared) : Driving R W :=
  ⟨{ ExecutionHandle.new slot .created false evaluator with transactional := transactional }, shared,
    0⟩

/-- `start_error_to_tsumugi_error`. -/
def startErrorToTsumugiError (e : StartError) : TsumugiError :=
  .internal 0 s!"実行の受理に失敗しました: {StartError.debug e}"

/-- `create_execution`, then the loop. The two entry points differ in `transactional`. -/
def executeWith (W : Type) (transactional : Bool) (p : ScriptRun) (w : Surroundings R)
    (evaluator : EvaluatorView) (shared : SchedulerShared) (fuel : Nat) :
    Option (Except TsumugiError ExecutionOutcome) :=
  match shared.admitSlot .created with
  | (.error e, _) => some (.error (startErrorToTsumugiError e))
  | (.ok slot, shared) =>
    driveToOutcome (W := W) p w fuel 0 (startDriving slot transactional evaluator shared)

/-- `Engine::execute`. -/
def execute (W : Type) (p : ScriptRun) (w : Surroundings R) :=
  executeWith W false p w

/-- `Engine::execute_repl_submission`. -/
def executeReplSubmission (W : Type) (p : ScriptRun) (w : Surroundings R) :=
  executeWith W true p w

/-! ## When it returns -/

/-- The engine without its other handles. -/
def alone (shared : SchedulerShared) : SchedulerShared :=
  { shared with active := 0, admissionQueue := [], runTurn := [] }

/-- The surroundings without the other threads. -/
def Surroundings.alone (w : Surroundings R) : Surroundings R :=
  { w with others := fun _ shared => shared }

/-- A synchronous call returns from this state, if nobody else acts: an active slot has the
FIFO for itself, and a queued one is stopped by its token or its deadline. -/
def CanReturn (w : Surroundings R) (evaluator : EvaluatorView) (shared : SchedulerShared) : Prop :=
  (shared.active < shared.limits.maxActiveExecutions → shared.runTurn = []) ∧
  (shared.limits.maxActiveExecutions ≤ shared.active →
    shared.admissionQueue.length < shared.limits.maxQueuedExecutions →
    evaluator.cancelled = true ∨ ∃ i, w.cancels i = true ∨ w.deadlinePassed i = true)

/-- The slot of the handle is active and no other handle is in the FIFO. -/
def HasTurn (h : ExecutionHandle R W) (shared : SchedulerShared) : Prop :=
  shared.slotState h.slotId = .active ∧
    shared.runTurn = if h.runTurnRegistered then [h.slotId] else []

/-- The handle has the turn at each of the next polls, as long as the loop goes on. -/
def HasTurnUntil (p : ScriptRun) (w : Surroundings R) : (fuel i : Nat) → Driving R W → Prop
  | 0, _, _ => True
  | fuel + 1, i, d =>
    HasTurn (d.meanwhile w i).handle (d.meanwhile w i).shared ∧
      match d.poll p w i with
      | (.ok (.yielded _), d) | (.ok (.paused _), d) => HasTurnUntil p w fuel (i + 1) d
      | _ => True

namespace ExecuteLemmas

/-! ### Polls of a handle that has the turn -/

/-- Two polls that the handle cannot tell apart. -/
structure SamePoll (p p' : Polled R W) : Prop where
  result : p.result = p'.result
  handle : p.handle = p'.handle
  ranSlice : p.ranSlice = p'.ranSlice

/-- What the handle keeps while the loop goes on. -/
def KeepsTurn (p : Polled R W) : Prop :=
  (∀ outcome, p.result ≠ .ok (.terminal outcome)) → HasTurn p.handle p.shared

theorem rotate_single {shared : SchedulerShared} {id : ExecutionSlotId}
    (h : shared.runTurn = [id]) : (shared.runTurnRotate id).runTurn = [id] := by
  simp [SchedulerShared.runTurnRotate, h]

theorem pollHead_turn {h : ExecutionHandle R W} {shared shared' : SchedulerShared}
    (input : PollInput) (hq : shared.runTurn = [h.slotId])
    (hcell : shared.slotState h.slotId = .active) (hreg : h.runTurnRegistered = true) :
    SamePoll (h.pollHead shared input) (h.pollHead shared' input) ∧
      KeepsTurn (h.pollHead shared input) := by
  obtain ⟨hslot, hflag, -⟩ := RunTurnLemmas.driveOneSlice_fields { h with state := .running } input
  unfold ExecutionHandle.pollHead
  generalize ({ h with state := .running } : ExecutionHandle R W).driveOneSlice input = d
    at hslot hflag
  obtain ⟨poll, g⟩ := d
  have hslot : g.slotId = h.slotId := hslot
  have hstill : g.runTurnRegistered = true := hflag.trans hreg
  rw [← hslot] at hq hcell
  cases poll with
  | yieldedSliceFuel | yieldedExplicit =>
    refine ⟨⟨rfl, rfl, rfl⟩, fun _ => ⟨?_, ?_⟩⟩
    · simpa using hcell
    · rw [show (shared.runTurnRotate g.slotId).runTurn = [g.slotId] from rotate_single hq]
      exact (if_pos hstill).symm
  | yieldedHostCall callId =>
    refine ⟨⟨rfl, rfl, rfl⟩, fun _ => ⟨hcell, ?_⟩⟩
    simp [SchedulerShared.runTurnRemove, hq]
  | terminal outcome => exact ⟨⟨rfl, rfl, rfl⟩, fun h => absurd rfl (h outcome)⟩

theorem pollRunTurn_turn {h : ExecutionHandle R W} {shared shared' : SchedulerShared}
    (input : PollInput) (ht : HasTurn h shared) (ht' : HasTurn h shared') :
    SamePoll (h.pollRunTurn shared input) (h.pollRunTurn shared' input) ∧
      KeepsTurn (h.pollRunTurn shared input) := by
  have hregister : ∀ {sh : SchedulerShared}, HasTurn h sh →
      ∃ sh', h.pollRunTurn sh input = ({ h with runTurnRegistered := true } :
        ExecutionHandle R W).pollHead sh' input ∧ sh'.runTurn = [h.slotId] ∧
        sh'.slotState h.slotId = .active := by
    intro sh ⟨hcell, hq⟩
    unfold ExecutionHandle.pollRunTurn
    cases hreg : h.runTurnRegistered with
    | true =>
      have hq : sh.runTurn = [h.slotId] := by simpa [hreg] using hq
      exact ⟨sh, by simp [SchedulerShared.isHead, hq], hq, hcell⟩
    | false =>
      have hq : sh.runTurn = [] := by simpa [hreg] using hq
      refine ⟨sh.runTurnPushBack h.slotId, ?_, ?_, ?_⟩ <;>
        simp [SchedulerShared.runTurnPushBack, SchedulerShared.isHead, hq, hcell]
  obtain ⟨sh, hpoll, hq, hcell⟩ := hregister ht
  obtain ⟨sh', hpoll', -, -⟩ := hregister ht'
  rw [hpoll, hpoll']
  exact pollHead_turn input hq hcell rfl

/-- A poll of a handle that has the turn does not see what else the scheduler holds. -/
theorem poll_turn {h : ExecutionHandle R W} {shared shared' : SchedulerShared}
    (input : PollInput) (ht : HasTurn h shared) (ht' : HasTurn h shared') :
    SamePoll (h.poll shared input) (h.poll shared' input) ∧ KeepsTurn (h.poll shared input) := by
  have hrun : ∀ g : ExecutionHandle R W, g.slotId = h.slotId →
      g.runTurnRegistered = h.runTurnRegistered →
      SamePoll (g.pollRunTurn shared input) (g.pollRunTurn shared' input) ∧
        KeepsTurn (g.pollRunTurn shared input) := by
    intro g hid hreg
    refine pollRunTurn_turn input ?_ ?_
    · simpa [HasTurn, hid, hreg] using ht
    · simpa [HasTurn, hid, hreg] using ht'
  unfold ExecutionHandle.poll
  split
  · exact ⟨⟨rfl, rfl, rfl⟩, fun _ => ht⟩
  · exact ⟨⟨rfl, rfl, rfl⟩, fun _ => ht⟩
  · next resumeTo _ =>
    unfold ExecutionHandle.pollAdmissionQueued
    split
    · exact ⟨⟨rfl, rfl, rfl⟩, fun h => absurd rfl (h _)⟩
    · rw [if_pos ht.1, if_pos ht'.1]
      exact hrun _ rfl rfl
  · next callId _ =>
    unfold ExecutionHandle.pollHostCallPending
    split
    · exact ⟨⟨rfl, rfl, rfl⟩, fun h => absurd rfl (h _)⟩
    · split
      · split
        · exact ⟨⟨rfl, rfl, rfl⟩, fun h => absurd rfl (h _)⟩
        · exact hrun _ rfl rfl
      · exact ⟨⟨rfl, rfl, rfl⟩, fun _ => ht⟩
      · exact ⟨⟨rfl, rfl, rfl⟩, fun _ => ht⟩
  · exact hrun h rfl rfl

/-! ### Runs of the loop -/

/-- What the surroundings do to a handle does not depend on the other threads. -/
theorem meanwhile_handle {w : Surroundings R} (i : Nat) {d d' : Driving R W}
    (hh : d.handle = d'.handle) :
    (d.meanwhile w i).handle = (d'.meanwhile w.alone i).handle := by
  simp only [Driving.meanwhile, Surroundings.alone, hh]

/-- A loop that always has the turn goes on as it does alone. -/
theorem drive_alone {p : ScriptRun} {w : Surroundings R} (fuel : Nat) {i : Nat} {d d' : Driving R W}
    (hh : d.handle = d'.handle) (hs : d.slices = d'.slices) (ht : HasTurnUntil p w fuel i d)
    (ht' : HasTurnUntil p w.alone fuel i d') :
    driveToOutcome p w fuel i d = driveToOutcome p w.alone fuel i d' := by
  induction fuel generalizing i d d' with
  | zero => rfl
  | succ fuel ih =>
    obtain ⟨hturn, hrest⟩ := ht
    obtain ⟨hturn', hrest'⟩ := ht'
    have hmean := meanwhile_handle (w := w) i hh
    have hinput : Driving.input p w i (d.meanwhile w i) =
        Driving.input p w.alone i (d'.meanwhile w.alone i) := by
      simp only [Driving.input, Driving.meanwhile, Surroundings.alone, hs]
    have hpoll := (poll_turn (Driving.input p w i (d.meanwhile w i)) hturn
      (by rw [hmean]; exact hturn')).1
    have hnext : d.poll p w i = ((d'.poll p w.alone i).1,
        { (d'.poll p w.alone i).2 with shared := (d.poll p w i).2.shared }) := by
      simp only [Driving.poll, ← hinput, ← hmean, ← hpoll.result, ← hpoll.handle, ← hpoll.ranSlice]
      simp only [Driving.meanwhile, hs]
    rw [driveToOutcome, driveToOutcome]
    generalize hp : d.poll p w i = q at hrest hnext
    generalize hp' : d'.poll p w.alone i = q' at hrest' hnext
    obtain ⟨result, e⟩ := q
    obtain ⟨result', e'⟩ := q'
    obtain ⟨rfl, he⟩ := Prod.mk.inj hnext
    have hhandle : e.handle = e'.handle := by rw [he]
    have hslices : e.slices = e'.slices := by rw [he]
    cases result with
    | error e => rfl
    | ok r =>
      cases r with
      | terminal outcome => rfl
      | yielded reason => exact ih hhandle hslices hrest hrest'
      | paused state => exact ih hhandle hslices hrest hrest'

/-- Without the other threads a loop that has the turn keeps it. -/
theorem hasTurnUntil_of_quiet {p : ScriptRun} {w : Surroundings R} (hw : w.Quiet) (fuel : Nat)
    {i : Nat} {d : Driving R W} (ht : HasTurn d.handle d.shared) : HasTurnUntil p w fuel i d := by
  induction fuel generalizing i d with
  | zero => trivial
  | succ fuel ih =>
    have hturn : HasTurn (d.meanwhile w i).handle (d.meanwhile w i).shared := by
      simp only [Driving.meanwhile, hw i]
      exact ht
    have hkeeps := (poll_turn (Driving.input p w i (d.meanwhile w i)) hturn hturn).2
    refine ⟨hturn, ?_⟩
    split
    · next reason e hp =>
      obtain ⟨hresult, rfl⟩ := Prod.mk.inj hp
      exact ih (hkeeps fun outcome h => by rw [h] at hresult; cases hresult)
    · next state e hp =>
      obtain ⟨hresult, rfl⟩ := Prod.mk.inj hp
      exact ih (hkeeps fun outcome h => by rw [h] at hresult; cases hresult)
    · trivial

/-- A registered handle, or a new one, behind another handle. -/
def Behind (d : Driving R W) : Prop :=
  d.handle.state = .created ∧ ∃ head rest, d.shared.runTurn = head :: rest ∧ head ≠ d.handle.slotId

/-- Behind another handle the loop polls forever. -/
theorem drive_behind {p : ScriptRun} {w : Surroundings R} (hw : w.Quiet) (fuel : Nat) {i : Nat}
    {d : Driving R W} (hd : Behind d) : driveToOutcome p w fuel i d = none := by
  induction fuel generalizing i d with
  | zero => rfl
  | succ fuel ih =>
    obtain ⟨hst, head, rest, hq, hne⟩ := hd
    have hpoll : ∃ e, d.poll p w i = (.ok (.yielded .schedulerPreempted), e) ∧ Behind e := by
      have hst' : (d.meanwhile w i).handle.state = .created := hst
      have hq' : (d.meanwhile w i).shared.runTurn = head :: rest := by
        simp only [Driving.meanwhile, hw i, hq]
      have hne' : head ≠ (d.meanwhile w i).handle.slotId := hne
      unfold Driving.poll
      generalize d.meanwhile w i = m at hst' hq' hne'
      simp only [ExecutionHandle.poll, hst', ExecutionHandle.pollRunTurn]
      generalize hsh : (if m.handle.runTurnRegistered = true then m.shared
        else m.shared.runTurnPushBack m.handle.slotId) = sh
      have hhead : ∃ rest', sh.runTurn = head :: rest' := by
        subst hsh
        split
        · exact ⟨rest, hq'⟩
        · unfold SchedulerShared.runTurnPushBack
          split
          · exact ⟨rest, hq'⟩
          · exact ⟨rest ++ [m.handle.slotId], by simp [hq']⟩
      obtain ⟨rest', hrest'⟩ := hhead
      have hnot : sh.isHead m.handle.slotId = false := by
        simp [SchedulerShared.isHead, hrest', hne']
      simp only [hnot, Bool.false_eq_true, ↓reduceIte]
      exact ⟨_, rfl, rfl, head, rest', hrest', hne'⟩
    obtain ⟨e, he, hbehind⟩ := hpoll
    rw [driveToOutcome, he]
    exact ih hbehind

/-- A handle in the admission queue. -/
def Waiting (d : Driving R W) : Prop :=
  d.handle.state = .yielded (.admissionQueued .created) ∧
    d.shared.slotState d.handle.slotId ≠ .active

/-- In the admission queue a poll ends the execution when the token or the deadline says
so, and otherwise changes nothing but the token. -/
theorem poll_waiting {p : ScriptRun} {w : Surroundings R} (hw : w.Quiet) (i : Nat)
    {d : Driving R W} (hd : Waiting d) :
    let cancelled := d.handle.evaluator.cancelled || w.cancels i
    (cancelled || w.deadlinePassed i) = true ∧
      (∃ outcome e, d.poll p w i = (.ok (.terminal outcome), e) ∧
        outcome.toResult = .error (if cancelled then .cancelled 0 else .deadlineExceeded 0)) ∨
    (cancelled || w.deadlinePassed i) = false ∧
      ∃ e, d.poll p w i = (.ok (.yielded (.admissionQueued .created)), e) ∧ Waiting e ∧
        e.handle.evaluator.cancelled = false := by
  obtain ⟨hst, hcell⟩ := hd
  have hst' : (d.meanwhile w i).handle.state = .yielded (.admissionQueued .created) := hst
  have hcell' : (d.meanwhile w i).shared.slotState (d.meanwhile w i).handle.slotId ≠ .active := by
    simp only [Driving.meanwhile, hw i]
    exact hcell
  have htoken : (d.meanwhile w i).handle.evaluator.cancelled =
    (d.handle.evaluator.cancelled || w.cancels i) := rfl
  have hpoll : d.poll p w i =
      ((ExecutionHandle.pollAdmissionQueued (d.meanwhile w i).handle (d.meanwhile w i).shared .created
          (Driving.input p w i (d.meanwhile w i))).result,
        (d.poll p w i).2) := by
    simp only [Driving.poll, ExecutionHandle.poll, hst']
  have hnext : (d.poll p w i).2.handle = (ExecutionHandle.pollAdmissionQueued (d.meanwhile w i).handle
      (d.meanwhile w i).shared .created (Driving.input p w i (d.meanwhile w i))).handle ∧
      (d.poll p w i).2.shared = (ExecutionHandle.pollAdmissionQueued (d.meanwhile w i).handle
      (d.meanwhile w i).shared .created (Driving.input p w i (d.meanwhile w i))).shared := by
    simp only [Driving.poll, ExecutionHandle.poll, hst', and_self]
  have hcheck : (d.meanwhile w i).handle.checkpointTerminal (Driving.input p w i (d.meanwhile w i)) =
      if (d.handle.evaluator.cancelled || w.cancels i) = true then some .cancelled
      else if w.deadlinePassed i = true then some .deadlineExceeded else none := rfl
  simp only [ExecutionHandle.pollAdmissionQueued, hcheck] at hpoll hnext
  dsimp only
  rcases Bool.eq_false_or_eq_true (d.handle.evaluator.cancelled || w.cancels i) with hc | hc
  · rw [hc] at hpoll
    exact .inl ⟨by rw [hc]; rfl, _, _, hpoll, by rw [hc]; rfl⟩
  rcases Bool.eq_false_or_eq_true (w.deadlinePassed i) with hdl | hdl
  · rw [hc, hdl] at hpoll
    exact .inl ⟨by rw [hc, hdl]; rfl, _, _, hpoll, by rw [hc]; rfl⟩
  · simp only [hc, hdl, Bool.false_eq_true, ↓reduceIte, hcell'] at hpoll hnext
    refine .inr ⟨by rw [hc, hdl]; rfl, _, hpoll, ⟨?_, ?_⟩, ?_⟩
    · rw [hnext.1, hst']
    · rw [hnext.1, hnext.2]
      exact hcell'
    · rw [hnext.1]
      exact htoken.trans hc

/-- What ends a wait in the admission queue from the `i`-th poll on. -/
def StopsFrom (w : Surroundings R) (i : Nat) (d : Driving R W) : Prop :=
  d.handle.evaluator.cancelled = true ∨
    ∃ j, i ≤ j ∧ (w.cancels j = true ∨ w.deadlinePassed j = true)

theorem drive_waiting_of_stops {p : ScriptRun} {w : Surroundings R} (hw : w.Quiet) {i : Nat}
    {d : Driving R W} (hd : Waiting d) (hstop : StopsFrom w i d) :
    ∃ fuel e, driveToOutcome p w fuel i d = some (.error e) := by
  have hends : ∀ (n : Nat) {i : Nat} {d : Driving R W}, Waiting d →
      (d.handle.evaluator.cancelled = true ∨ w.cancels (i + n) = true ∨
        w.deadlinePassed (i + n) = true) →
      ∃ fuel e, driveToOutcome p w fuel i d = some (.error e) := by
    intro n
    induction n with
    | zero =>
      intro i d hd hs
      rcases poll_waiting (p := p) hw i hd with ⟨_, outcome, e, hp, hout⟩ | ⟨hno, _⟩
      · exact ⟨1, _, by rw [driveToOutcome, hp]; exact congrArg some hout⟩
      · rw [Nat.add_zero] at hs
        rcases hs with hs | hs | hs <;> simp [hs] at hno
    | succ n ih =>
      intro i d hd hs
      rcases poll_waiting (p := p) hw i hd with ⟨_, outcome, e, hp, hout⟩ | ⟨hno, e, hp, he, _⟩
      · exact ⟨1, _, by rw [driveToOutcome, hp]; exact congrArg some hout⟩
      · have hs' : w.cancels (i + 1 + n) = true ∨ w.deadlinePassed (i + 1 + n) = true := by
          rw [Nat.add_assoc, Nat.add_comm 1 n]
          refine hs.resolve_left fun hc => ?_
          simp [hc] at hno
        obtain ⟨fuel, err, hrun⟩ := ih he (.inr hs')
        exact ⟨fuel + 1, err, by rw [driveToOutcome, hp]; exact hrun⟩
  rcases hstop with hs | ⟨j, hj, hs⟩
  · exact hends 0 hd (.inl hs)
  · exact hends (j - i) hd (.inr (by rwa [Nat.add_sub_cancel' hj]))

theorem stops_of_drive_waiting {p : ScriptRun} {w : Surroundings R} (hw : w.Quiet) (fuel : Nat)
    {i : Nat} {d : Driving R W} (hd : Waiting d) {r : Except TsumugiError ExecutionOutcome}
    (h : driveToOutcome p w fuel i d = some r) : StopsFrom w i d := by
  induction fuel generalizing i d with
  | zero => cases h
  | succ fuel ih =>
    rcases poll_waiting (p := p) hw i hd with ⟨hs, _⟩ | ⟨_, e, hp, he, hcancel⟩
    · simp only [Bool.or_eq_true] at hs
      rcases hs with (hs | hs) | hs
      · exact .inl hs
      · exact .inr ⟨i, le_refl i, .inl hs⟩
      · exact .inr ⟨i, le_refl i, .inr hs⟩
    · rw [driveToOutcome, hp] at h
      rcases ih he h with hs | ⟨j, hj, hs⟩
      · rw [hcancel] at hs
        cases hs
      · exact .inr ⟨j, Nat.le_of_succ_le hj, hs⟩

/-! ### Slot ids -/

/-- Every id that the engine knows has been handed out. -/
structure IdsKnown (s : EngineState R W) : Prop where
  turn : ∀ id ∈ s.shared.runTurn, id < s.shared.nextSlotId
  handles : ∀ id h, s.handles id = some h → h.slotId = id ∧ id < s.shared.nextSlotId

/-- A poll puts no other handle into the FIFO. -/
structure PollIds (h : ExecutionHandle R W) (shared : SchedulerShared) (p : Polled R W) : Prop where
  slotId : p.handle.slotId = h.slotId
  next : p.shared.nextSlotId = shared.nextSlotId
  turn : ∀ id ∈ p.shared.runTurn, id ∈ shared.runTurn ∨ id = h.slotId

theorem mem_rotate {shared : SchedulerShared} {id j : ExecutionSlotId}
    (h : j ∈ (shared.runTurnRotate id).runTurn) : j ∈ shared.runTurn := by
  unfold SchedulerShared.runTurnRotate at h
  split at h
  · exact h
  · next head rest hq =>
    split at h
    · rw [hq]
      simpa [or_comm] using h
    · exact h

theorem pollHead_ids (h : ExecutionHandle R W) (shared : SchedulerShared) (input : PollInput) :
    PollIds h shared (h.pollHead shared input) := by
  obtain ⟨hslot, -, -⟩ := RunTurnLemmas.driveOneSlice_fields { h with state := .running } input
  unfold ExecutionHandle.pollHead
  generalize ({ h with state := .running } : ExecutionHandle R W).driveOneSlice input = d at hslot
  obtain ⟨poll, g⟩ := d
  have hslot : g.slotId = h.slotId := hslot
  cases poll with
  | yieldedSliceFuel | yieldedExplicit =>
    exact ⟨hslot, by simp, fun id hid => .inl (mem_rotate hid)⟩
  | yieldedHostCall callId => exact ⟨hslot, rfl, fun id hid => .inl (List.mem_of_mem_erase hid)⟩
  | terminal outcome => exact ⟨hslot, rfl, fun id hid => .inl (List.mem_of_mem_erase hid)⟩

theorem pollRunTurn_ids (h : ExecutionHandle R W) (shared : SchedulerShared) (input : PollInput) :
    PollIds h shared (h.pollRunTurn shared input) := by
  unfold ExecutionHandle.pollRunTurn
  generalize hsh : (if h.runTurnRegistered = true then shared
    else shared.runTurnPushBack h.slotId) = sh
  have hregister : sh.nextSlotId = shared.nextSlotId ∧
      ∀ id ∈ sh.runTurn, id ∈ shared.runTurn ∨ id = h.slotId := by
    subst hsh
    unfold SchedulerShared.runTurnPushBack
    split
    · exact ⟨rfl, fun id => .inl⟩
    · split
      · exact ⟨rfl, fun id => .inl⟩
      · exact ⟨rfl, fun id hid => by simpa using hid⟩
  dsimp only
  split
  · have hhead := pollHead_ids { h with runTurnRegistered := true } sh input
    refine ⟨hhead.slotId, hhead.next.trans hregister.1, fun id hid => ?_⟩
    exact (hhead.turn id hid).elim (hregister.2 id) .inr
  · exact ⟨rfl, hregister.1, hregister.2⟩

theorem poll_ids (h : ExecutionHandle R W) (shared : SchedulerShared) (input : PollInput) :
    PollIds h shared (h.poll shared input) := by
  have hstay : ∀ {p : Polled R W}, p.handle.slotId = h.slotId → p.shared = shared →
      PollIds h shared p := fun hid hsh => ⟨hid, by rw [hsh], fun id hmem => .inl (hsh ▸ hmem)⟩
  have hend : ∀ outcome, PollIds h shared (h.endPending shared outcome) := fun outcome =>
    ⟨rfl, rfl, fun id hid => .inl (List.mem_of_mem_erase hid)⟩
  have hrun : ∀ g : ExecutionHandle R W, g.slotId = h.slotId →
      PollIds h shared (g.pollRunTurn shared input) := fun g hg => by
    have hg' := pollRunTurn_ids g shared input
    exact ⟨hg'.slotId.trans hg, hg'.next, fun id hid => hg ▸ hg'.turn id hid⟩
  unfold ExecutionHandle.poll
  split
  · exact hstay rfl rfl
  · exact hstay rfl rfl
  · unfold ExecutionHandle.pollAdmissionQueued
    split
    · exact hstay rfl rfl
    · split
      · exact hrun _ rfl
      · exact hstay rfl rfl
  · unfold ExecutionHandle.pollHostCallPending
    split
    · exact hend _
    · split
      · split
        · exact hend _
        · exact hrun _ rfl
      · exact hstay rfl rfl
      · exact hstay rfl rfl
  · exact hrun h rfl

theorem admitSlot_ids (shared : SchedulerShared) (resumeTo : AdmissionPhase) :
    (shared.admitSlot resumeTo).2.runTurn = shared.runTurn ∧
      (shared.admitSlot resumeTo).2.nextSlotId = shared.nextSlotId + 1 ∧
      ∀ slot, (shared.admitSlot resumeTo).1 = .ok slot → slot.slotId = shared.nextSlotId := by
  unfold SchedulerShared.admitSlot
  dsimp only
  split
  · exact ⟨rfl, rfl, fun slot h => by cases h; rfl⟩
  · split
    · exact ⟨rfl, rfl, fun slot h => by cases h; rfl⟩
    · exact ⟨rfl, rfl, fun slot h => by cases h⟩

theorem release_ids (shared : SchedulerShared) (r : Release) (id : ExecutionSlotId) :
    (shared.release r id).nextSlotId = shared.nextSlotId ∧
      ∀ j ∈ (shared.release r id).runTurn, j ∈ shared.runTurn := by
  have hpromote : ∀ sh : SchedulerShared, sh.promote.runTurn = sh.runTurn ∧
      sh.promote.nextSlotId = sh.nextSlotId := by
    intro sh
    unfold SchedulerShared.promote
    split <;> exact ⟨rfl, rfl⟩
  cases r with
  | active =>
    simp only [SchedulerShared.release, SchedulerShared.releaseActive]
    split
    · exact ⟨rfl, fun _ hj => hj⟩
    · refine ⟨(hpromote _).2, fun j hj => ?_⟩
      rw [(hpromote _).1] at hj
      exact List.mem_of_mem_erase hj
  | queued =>
    simp only [SchedulerShared.release, SchedulerShared.releaseQueued]
    split <;> exact ⟨rfl, fun _ hj => hj⟩

theorem idsKnown_put {s : EngineState R W} (hi : IdsKnown s) {id : ExecutionSlotId}
    {h h' : ExecutionHandle R W} (hh : s.handles id = some h) (hid : h'.slotId = h.slotId) :
    IdsKnown (s.put id h') := by
  refine ⟨hi.turn, fun j g hg => ?_⟩
  by_cases hji : j = id
  · subst hji
    obtain rfl : h' = g := by simpa [EngineState.put] using hg
    exact ⟨hid.trans (hi.handles j h hh).1, (hi.handles j h hh).2⟩
  · exact hi.handles j g (by simpa [EngineState.put, hji] using hg)

theorem idsKnown_preserved (limits : EngineLimits) :
    Preserved (engineSystem R W limits) anyStep IdsKnown := by
  intro s a t hi _ hst
  cases a with
  | create resumeTo transactional evaluator =>
    cases hst
    obtain ⟨hq, hnext, hslot⟩ := admitSlot_ids s.shared resumeTo
    unfold EngineState.create
    generalize s.shared.admitSlot resumeTo = p at hq hnext hslot
    obtain ⟨result, sh⟩ := p
    have hgrow : ∀ {id}, id < s.shared.nextSlotId → id < sh.nextSlotId := fun h =>
      h.trans_le ((Nat.le_succ _).trans_eq hnext.symm)
    have hturn : ∀ id ∈ sh.runTurn, id < sh.nextSlotId := fun id hid =>
      hgrow (hi.turn id (hq ▸ hid))
    cases result with
    | error e => exact ⟨hturn, fun id h hh => (hi.handles id h hh).imp_right hgrow⟩
    | ok slot =>
      refine ⟨hturn, fun id h hh => ?_⟩
      by_cases hid : id = slot.slotId
      · subst hid
        obtain rfl : _ = h := by simpa using hh
        exact ⟨rfl, by rw [hslot slot rfl, hnext]; exact Nat.lt_succ_self _⟩
      · exact (hi.handles id h (by simpa [hid] using hh)).imp_right hgrow
  | poll id input =>
    obtain ⟨h, hh, rfl⟩ := Option.map_eq_some_iff.mp hst
    have hpoll := poll_ids h s.shared input
    obtain ⟨hself, hlt⟩ := hi.handles id h hh
    have hput := idsKnown_put hi hh hpoll.slotId
    refine ⟨fun j hj => ?_, fun j g hg => ?_⟩
    · rw [hpoll.next]
      rcases hpoll.turn j hj with hj | rfl
      · exact hi.turn j hj
      · exact hself ▸ hlt
    · exact (hput.handles j g hg).imp_right fun hlt => by rw [hpoll.next]; exact hlt
  | pause id =>
    obtain ⟨h, hh, rfl⟩ := Option.map_eq_some_iff.mp hst
    refine idsKnown_put hi hh ?_
    unfold ExecutionHandle.pause
    split
    · rfl
    · split <;> rfl
  | resume id =>
    obtain ⟨h, hh, rfl⟩ := Option.map_eq_some_iff.mp hst
    refine idsKnown_put hi hh ?_
    unfold ExecutionHandle.resume
    split <;> rfl
  | setWaker id waker =>
    obtain ⟨h, hh, rfl⟩ := Option.map_eq_some_iff.mp hst
    refine idsKnown_put hi hh ?_
    unfold ExecutionHandle.setWaker
    split <;> rfl
  | completeTicket id result =>
    obtain ⟨h, hh, rfl⟩ := Option.map_eq_some_iff.mp hst
    exact idsKnown_put hi hh rfl
  | cancel id =>
    obtain ⟨h, hh, rfl⟩ := Option.map_eq_some_iff.mp hst
    exact idsKnown_put hi hh rfl
  | drop id =>
    obtain ⟨h, hh, rfl⟩ := Option.map_eq_some_iff.mp hst
    obtain ⟨hnext, hq⟩ := release_ids s.shared (h.slot.chooseRelease (s.shared.slotState id)) id
    refine ⟨fun j hj => by rw [EngineState.drop, hnext]; exact hi.turn j (hq j hj), fun j g hg => ?_⟩
    have hji : j ≠ id := by
      rintro rfl
      simp [EngineState.drop] at hg
    rw [EngineState.drop, hnext]
    exact hi.handles j g (by simpa [EngineState.drop, hji] using hg)

theorem idsKnown_of_reach {limits : EngineLimits} {s : EngineState R W}
    (h : Reach (engineSystem R W limits) anyStep s) : IdsKnown s := by
  refine h.invariant (fun s hs => ?_) (idsKnown_preserved limits)
  subst hs
  exact ⟨by simp [SchedulerShared.withLimits], by simp⟩

/-! ### The entry points -/

/-- A call with an active slot and an empty FIFO has the turn. -/
theorem hasTurn_start {slot : AdmissionSlot} (transactional : Bool) (evaluator : EvaluatorView)
    {shared : SchedulerShared} (hcell : shared.slotState slot.slotId = .active)
    (hq : shared.runTurn = []) :
    HasTurn (startDriving (R := R) (W := W) slot transactional evaluator shared).handle
      (startDriving (R := R) (W := W) slot transactional evaluator shared).shared :=
  ⟨hcell, hq⟩

/-- The admission of a call to which an active slot is free. -/
theorem admitSlot_active {shared : SchedulerShared}
    (h : shared.active < shared.limits.maxActiveExecutions) :
    ∃ sh, shared.admitSlot .created = (.ok ⟨.active, shared.nextSlotId⟩, sh) ∧
      sh.slotState shared.nextSlotId = .active ∧ sh.runTurn = shared.runTurn := by
  simp only [SchedulerShared.admitSlot, h, ↓reduceIte]
  exact ⟨_, rfl, Function.update_self .., rfl⟩

/-- The run that the program has alone. -/
theorem executeWith_alone (W : Type) (transactional : Bool) (p : ScriptRun) (w : Surroundings R)
    (evaluator : EvaluatorView) (shared : SchedulerShared) (fuel : Nat) :
    ∃ sh, executeWith W transactional p w.alone evaluator (alone shared) fuel =
      driveToOutcome (W := W) p w.alone fuel 0
        (startDriving ⟨.active, shared.nextSlotId⟩ transactional evaluator sh) ∧
      HasTurn (startDriving (R := R) (W := W) ⟨.active, shared.nextSlotId⟩ transactional evaluator
        sh).handle sh := by
  have hactive : (alone shared).active < (alone shared).limits.maxActiveExecutions :=
    shared.limits.maxActiveExecutions_pos
  obtain ⟨sh, hslotted, hcell, hq⟩ := admitSlot_active hactive
  refine ⟨sh, ?_, hasTurn_start transactional evaluator hcell hq⟩
  rw [executeWith, hslotted]
  rfl

theorem quiet_alone (w : Surroundings R) : w.alone.Quiet := fun _ _ => rfl

/-- A call that has the turn at every poll returns what the program returns alone. -/
theorem executeWith_eq_alone {transactional : Bool} {p : ScriptRun} {w : Surroundings R}
    {evaluator : EvaluatorView} {shared sh : SchedulerShared} {slot : AdmissionSlot}
    (hactive : shared.active < shared.limits.maxActiveExecutions)
    (hslotted : shared.admitSlot .created = (.ok slot, sh)) {fuel : Nat}
    (hturn : HasTurnUntil (W := W) p w fuel 0 (startDriving slot transactional evaluator sh)) :
    executeWith W transactional p w evaluator shared fuel =
      executeWith W transactional p w.alone evaluator (alone shared) fuel := by
  obtain ⟨sh', hslotted', _, _⟩ := admitSlot_active hactive
  obtain ⟨hslot, rfl⟩ := Prod.mk.inj (hslotted.symm.trans hslotted')
  obtain rfl := Except.ok.inj hslot
  obtain ⟨sh'', hrun, hstart⟩ := executeWith_alone W transactional p w evaluator shared fuel
  rw [executeWith, hslotted', hrun]
  exact drive_alone fuel rfl rfl hturn (hasTurnUntil_of_quiet (quiet_alone w) fuel hstart)

end ExecuteLemmas

/-- A synchronous call returns `r` after finitely many polls. -/
def Returns (W : Type) (transactional : Bool) (p : ScriptRun) (w : Surroundings R)
    (evaluator : EvaluatorView) (shared : SchedulerShared)
    (r : Except TsumugiError ExecutionOutcome) : Prop :=
  ∃ fuel, executeWith W transactional p w evaluator shared fuel = some r

open ExecuteLemmas in
/-- For both entry points, every engine and every program that ends alone. When nobody else
acts during the call it returns, with the program's outcome or an error, exactly in the
states of `CanReturn`. Whoever acts, a call that has the turn at every poll goes as the
program goes alone. -/
theorem execute_returns_iff {limits : EngineLimits} {s : EngineState R W}
    (hreach : Reach (engineSystem R W limits) anyStep s) (transactional : Bool) (p : ScriptRun)
    (w : Surroundings R) (evaluator : EvaluatorView)
    (halone : ∃ r, Returns W transactional p w.alone evaluator (alone s.shared) r) :
    (w.Quiet →
      ((∃ r, Returns W transactional p w evaluator s.shared r ∧
          (Returns W transactional p w.alone evaluator (alone s.shared) r ∨ ∃ e, r = .error e)) ↔
        CanReturn w evaluator s.shared)) ∧
    (∀ slot sh fuel, s.shared.active < s.shared.limits.maxActiveExecutions →
      s.shared.admitSlot .created = (.ok slot, sh) →
      HasTurnUntil (W := W) p w fuel 0 (startDriving slot transactional evaluator sh) →
      executeWith W transactional p w evaluator s.shared fuel =
        executeWith W transactional p w.alone evaluator (alone s.shared) fuel) := by
  refine ⟨fun hw => ⟨?_, fun hcan => ?_⟩, fun slot sh fuel hactive hslotted hturn =>
    executeWith_eq_alone hactive hslotted hturn⟩
  · rintro ⟨r, ⟨fuel, hrun⟩, -⟩
    refine ⟨fun hactive => ?_, fun hfull hroom => ?_⟩
    · -- an active slot behind another handle would poll forever
      by_contra hq
      obtain ⟨sh, hslotted, -, hturn⟩ := admitSlot_active hactive
      obtain ⟨head, rest, hhead⟩ := List.exists_cons_of_ne_nil hq
      have hne : head ≠ s.shared.nextSlotId :=
        ne_of_lt ((idsKnown_of_reach hreach).turn head (by simp [hhead]))
      rw [executeWith, hslotted] at hrun
      simp only at hrun
      rw [drive_behind hw fuel ⟨rfl, head, rest, hturn.trans hhead, hne⟩] at hrun
      cases hrun
    · rw [executeWith] at hrun
      simp only [SchedulerShared.admitSlot, Nat.not_lt.mpr hfull, hroom, ↓reduceIte] at hrun
      have hstop := stops_of_drive_waiting hw fuel ⟨rfl, by
        simp [startDriving, ExecutionHandle.new, SchedulerShared.store]⟩ hrun
      exact hstop.imp_right (Exists.imp fun _ hi => hi.2)
  · by_cases hactive : s.shared.active < s.shared.limits.maxActiveExecutions
    · obtain ⟨sh, hslotted, hcell, hturn⟩ := admitSlot_active hactive
      obtain ⟨r, fuel, hrun⟩ := halone
      have hstart : HasTurn (startDriving (R := R) (W := W) ⟨.active, s.shared.nextSlotId⟩
          transactional evaluator sh).handle sh :=
        hasTurn_start transactional evaluator hcell (hturn.trans (hcan.1 hactive))
      refine ⟨r, ⟨fuel, ?_⟩, .inl ⟨fuel, hrun⟩⟩
      rw [executeWith_eq_alone hactive hslotted (hasTurnUntil_of_quiet hw fuel hstart), hrun]
    by_cases hroom : s.shared.admissionQueue.length < s.shared.limits.maxQueuedExecutions
    · have hstop := hcan.2 (Nat.not_lt.mp hactive) hroom
      have hwait : Waiting (startDriving (R := R) (W := W) ⟨.queued, s.shared.nextSlotId⟩
          transactional evaluator (s.shared.admitSlot .created).2) := by
        simp [Waiting, startDriving, ExecutionHandle.new, SchedulerShared.admitSlot, hactive,
          hroom, SchedulerShared.store]
      obtain ⟨fuel, e, hrun⟩ := drive_waiting_of_stops (p := p) (i := 0) hw hwait
        (hstop.imp_right (Exists.imp fun i hi => ⟨Nat.zero_le i, hi⟩))
      refine ⟨.error e, ⟨fuel, ?_⟩, .inr ⟨e, rfl⟩⟩
      rw [executeWith]
      simpa only [SchedulerShared.admitSlot, hactive, hroom, ↓reduceIte] using hrun
    · refine ⟨.error (startErrorToTsumugiError (.backpressure s.shared.active
        s.shared.admissionQueue.length s.shared.limits.maxActiveExecutions)), ⟨0, ?_⟩, .inr ⟨_, rfl⟩⟩
      simp only [executeWith, SchedulerShared.admitSlot, hactive, hroom, ↓reduceIte]

/-! ## A call that never returns -/

/-- A program that ends in its first slice. -/
def oneSlice : ScriptRun := ⟨.ok (), fun _ => .terminal (.ok ())⟩

/-- Nothing happens around the loop. -/
def nothing : Surroundings Unit := ⟨fun _ => false, fun _ => false, fun _ => none, fun _ sh => sh⟩

/-- Handle 0 has yielded and is still registered. -/
def yieldedFirst : List (EngineAction Unit Unit) :=
  [.create .created false ⟨none, false⟩, .poll 0 (sliceEnds .yieldedSliceFuel)]

open ExecuteLemmas in
/-- A program that ends in one slice when it is alone is polled forever on an engine with a
yielded handle. -/
theorem execute_starves : ∃ s,
    Reach (engineSystem Unit Unit twoActive) anyStep s ∧
    (∃ r, Returns Unit false oneSlice nothing.alone ⟨none, false⟩ (alone s.shared) r) ∧
    ∀ transactional fuel,
      executeWith Unit transactional oneSlice nothing ⟨none, false⟩ s.shared fuel = none := by
  refine ⟨_, reach_of_execute rfl yieldedFirst rfl, ⟨_, 1, rfl⟩, fun transactional fuel => ?_⟩
  exact drive_behind (p := oneSlice) (w := nothing) (fun _ _ => rfl) fuel
    ⟨rfl, 0, [], rfl, Nat.zero_ne_one⟩

/-- The witness engine: handle 0 has ended. -/
def endedFirst : List (EngineAction Unit Unit) :=
  [.create .created false ⟨none, false⟩, .poll 0 (sliceEnds (.terminal (.ok ())))]

theorem execute_returns_iff_ended : ∃ s,
    (engineSystem Unit Unit twoActive).execute anyStep
      { shared := .withLimits twoActive, handles := fun _ => none } endedFirst = some s ∧
    (nothing.Quiet →
      ((∃ r, Returns Unit false oneSlice nothing ⟨none, false⟩ s.shared r ∧
          (Returns Unit false oneSlice nothing.alone ⟨none, false⟩ (alone s.shared) r ∨
            ∃ e, r = .error e)) ↔
        CanReturn nothing ⟨none, false⟩ s.shared)) :=
  have hreach : Reach (engineSystem Unit Unit twoActive) anyStep _ :=
    reach_of_execute rfl endedFirst rfl
  ⟨_, rfl, (execute_returns_iff hreach false oneSlice nothing ⟨none, false⟩ ⟨_, 1, rfl⟩).1⟩

end Tsumugi.Engine
