import Mathlib.Logic.Function.Basic
import Tsumugi.Engine.Handle
import Tsumugi.Lib.Transition
import Tsumugi.Scheduler.Admission

/-!
# The run-turn queue never stalls

All handles of one engine, and every order of their operations. Each operation
is one step. A handle in the run-turn FIFO that cannot run when it reaches the
head blocks every other one, and two paths of the source put one there: `pause`
does not take a registered handle out, and a poll out of turn takes the result
of a host call but keeps the state `hostCallPending`.

Results:
1. `run_turn_stalls`: each of the two paths breaks `RunTurnLaw` on its own.
2. `run_turn_law`: in every run that avoids both the law holds in every state.
-/

namespace Tsumugi.Engine

open Transition Scheduler Host

variable {R W : Type}

/-! ## The engine -/

/-- The scheduler and the undropped handles, by slot id. -/
structure EngineState (R W : Type) where
  shared : SchedulerShared
  handles : ExecutionSlotId → Option (ExecutionHandle R W)

/-- `completeTicket` is the adapter's side of a pending call, `cancel` the host's
side of the cancel token. -/
inductive EngineAction (R W : Type)
  | create (resumeTo : AdmissionPhase) (transactional : Bool) (evaluator : EvaluatorView)
  | poll (id : ExecutionSlotId) (input : PollInput)
  | pause (id : ExecutionSlotId)
  | resume (id : ExecutionSlotId)
  | setWaker (id : ExecutionSlotId) (waker : Option W)
  | completeTicket (id : ExecutionSlotId) (result : R)
  | cancel (id : ExecutionSlotId)
  | drop (id : ExecutionSlotId)

namespace EngineState

/-- Replace handle `id`. -/
def put (s : EngineState R W) (id : ExecutionSlotId) (h : ExecutionHandle R W) : EngineState R W :=
  { s with handles := Function.update s.handles id (some h) }

/-- `create_execution` and `start`; a refused admission makes no handle. -/
def create (s : EngineState R W) (resumeTo : AdmissionPhase) (transactional : Bool)
    (evaluator : EvaluatorView) : EngineState R W :=
  match s.shared.admitSlot resumeTo with
  | (.ok slot, shared) =>
    { shared := shared
      handles := Function.update s.handles slot.slotId
        (some (.new slot resumeTo transactional evaluator)) }
  | (.error _, shared) => { s with shared := shared }

/-- `Drop for ExecutionHandle`, then that of its slot. What it does to the ticket,
the token and the evaluator goes with the handle. -/
def drop (s : EngineState R W) (id : ExecutionSlotId) (h : ExecutionHandle R W) :
    EngineState R W :=
  { shared := s.shared.release (h.slot.chooseRelease (s.shared.slotState id)) id
    handles := Function.update s.handles id none }

def step (s : EngineState R W) : EngineAction R W → Option (EngineState R W)
  | .create resumeTo transactional evaluator => some (s.create resumeTo transactional evaluator)
  | .poll id input => (s.handles id).map fun h =>
    let p := h.poll s.shared input
    { s.put id p.handle with shared := p.shared }
  | .pause id => (s.handles id).map fun h => s.put id h.pause.2
  | .resume id => (s.handles id).map fun h => s.put id h.resume.2
  | .setWaker id waker => (s.handles id).map fun h => s.put id (h.setWaker waker).2
  | .completeTicket id result => (s.handles id).map fun h =>
    s.put id { h with pendingTicket := h.pendingTicket.map (complete · result) }
  | .cancel id => (s.handles id).map fun h =>
    s.put id { h with evaluator := { h.evaluator with cancelled := true } }
  | .drop id => (s.handles id).map fun h => s.drop id h

end EngineState

/-- The handles of one engine with the given limits. -/
def engineSystem (R W : Type) (limits : EngineLimits) :
    System (EngineState R W) (EngineAction R W) where
  init s := s = { shared := .withLimits limits, handles := fun _ => none }
  step := EngineState.step

/-! ## The law -/

/-- A state in which a handle must not be in the run-turn FIFO. -/
def ExecutionState.Blocked : ExecutionState → Prop
  | .paused _ | .terminal | .yielded (.hostCallPending _) => True
  | _ => False

/-- A poll runs a slice and then rotates the FIFO or leaves it. -/
def RunsHead (rest : List ExecutionSlotId) (id : ExecutionSlotId) (p : Polled R W) : Prop :=
  p.ranSlice = true ∧ (p.shared.runTurn = rest ++ [id] ∨ p.shared.runTurn = rest)

/-- The run-turn queue cannot stall. -/
structure RunTurnLaw (s : EngineState R W) : Prop where
  nodup : s.shared.runTurn.Nodup
  not_blocked : ∀ id ∈ s.shared.runTurn, ∃ h, s.handles id = some h ∧ ¬ h.state.Blocked
  head_runs : ∀ id rest h input, s.shared.runTurn = id :: rest → s.handles id = some h →
    RunsHead rest id (h.poll s.shared input)
  not_pending_again : ∀ id h input callId, s.handles id = some h →
    (h.poll s.shared input).result = .ok (.yielded (.hostCallPending callId)) →
    (h.poll s.shared input).ranSlice = false → h.evaluator.pendingHostCall = some callId

/-! ## The two stalls -/

/-- No handle in the run-turn FIFO is paused. -/
def NoPauseInTurn (s : EngineState R W) : EngineAction R W → Prop
  | .pause id => id ∉ s.shared.runTurn
  | _ => True

/-- A poll of `h` would take the result of its host call. -/
def ExecutionHandle.takesResult (h : ExecutionHandle R W) (input : PollInput) : Bool :=
  match h.state, h.checkpointTerminal input, h.pendingTicket with
  | .yielded (.hostCallPending _), none, some ticket => (tryTake ticket).1.isSome
  | _, _, _ => false

/-- No poll takes the result of a host call while another handle has the turn. -/
def NoTakeInTurn (s : EngineState R W) : EngineAction R W → Prop
  | .poll id input =>
    ∀ h, s.handles id = some h → h.takesResult input = true → s.shared.runTurn = []
  | _ => True

def NoStall (s : EngineState R W) (a : EngineAction R W) : Prop :=
  NoPauseInTurn s a ∧ NoTakeInTurn s a

instance : DecidableRel (NoPauseInTurn (R := R) (W := W)) := fun s a => by
  cases a <;> simp only [NoPauseInTurn] <;> infer_instance

instance : DecidableRel (NoTakeInTurn (R := R) (W := W)) := fun s a =>
  match a with
  | .poll id input =>
    match hh : s.handles id with
    | some h => decidable_of_iff (h.takesResult input = true → s.shared.runTurn = [])
        ⟨fun hp g hg => Option.some.inj (hh.symm.trans hg) ▸ hp, fun hp => hp h hh⟩
    | none => .isTrue fun g hg => by simp [hh] at hg
  | .create .. | .pause _ | .resume _ | .setWaker .. | .completeTicket .. | .cancel _ | .drop _ =>
    .isTrue trivial

instance : DecidableRel (NoStall (R := R) (W := W)) := fun s a =>
  inferInstanceAs (Decidable (NoPauseInTurn s a ∧ NoTakeInTurn s a))

/-- Two active slots and no queue. -/
def twoActive : EngineLimits := ⟨2, Nat.two_pos, 0⟩

/-- A poll in which the slice ends as `outcome`. -/
def sliceEnds (outcome : SliceOutcome) : PollInput := ⟨false, .ok (), outcome⟩

/-- Handle 0 yields and is paused: it stays at the head. -/
def pausedAtHead : List (EngineAction Unit Unit) :=
  [.create .created false ⟨none, false⟩, .poll 0 (sliceEnds .yieldedSliceFuel), .pause 0]

/-- Handle 0 awaits a host call while handle 1 has the turn; a poll of handle 0
out of turn takes the result, and from then on it reports the call as pending. -/
def takenOutOfTurn : List (EngineAction Unit Unit) :=
  [.create .created false ⟨none, false⟩, .create .created false ⟨none, false⟩,
    .poll 0 (sliceEnds (.yieldedHostCall 0)), .poll 1 (sliceEnds .yieldedSliceFuel),
    .completeTicket 0 (), .poll 0 (sliceEnds .yieldedSliceFuel),
    .poll 1 (sliceEnds (.terminal (.ok ())))]

theorem run_turn_stalls :
    (∃ s, Reach (engineSystem Unit Unit twoActive) NoTakeInTurn s ∧ ¬ RunTurnLaw s) ∧
    (∃ s, Reach (engineSystem Unit Unit twoActive) NoPauseInTurn s ∧ ¬ RunTurnLaw s) := by
  constructor
  · refine ⟨_, reach_of_execute rfl pausedAtHead rfl, fun law => ?_⟩
    exact absurd (law.head_runs 0 [] _ (sliceEnds .yieldedSliceFuel) rfl rfl).1 (by decide)
  · refine ⟨_, reach_of_execute rfl takenOutOfTurn rfl, fun law => ?_⟩
    exact absurd (law.head_runs 0 [] _ (sliceEnds .yieldedSliceFuel) rfl rfl).1 (by decide)

/-! ## The invariant -/

namespace RunTurnLemmas

/-- The state to which a paused handle goes back. -/
def effective : ExecutionState → ExecutionState
  | .paused p => ExecutionHandle.ResumeState.toState p.resumeTo
  | s => s

/-- A state in which a handle may be in the run-turn FIFO. -/
def Turnable : ExecutionState → Prop
  | .paused _ | .terminal | .yielded (.hostCallPending _) | .yielded (.admissionQueued _) => False
  | _ => True

/-- A state that is reached without an active slot. -/
def Slotless : ExecutionState → Prop
  | .terminal | .yielded (.admissionQueued _) => True
  | _ => False

/-- What the scheduler says about handle `id`. -/
structure HandleInv (shared : SchedulerShared) (id : ExecutionSlotId)
    (h : ExecutionHandle R W) : Prop where
  slotId : h.slotId = id
  lt : id < shared.nextSlotId
  turn : id ∈ shared.runTurn ↔ h.runTurnRegistered = true ∧ h.state ≠ .terminal
  turnable : id ∈ shared.runTurn → Turnable h.state
  cell : ¬ Slotless (effective h.state) → shared.slotState id = .active
  pending : ∀ callId, effective h.state = .yielded (.hostCallPending callId) →
    h.pendingTicket.isSome ∧ h.evaluator.pendingHostCall = some callId

/-- What an operation on `id` does to the others. -/
structure Frame (shared shared' : SchedulerShared) (id : ExecutionSlotId) : Prop where
  next : shared.nextSlotId ≤ shared'.nextSlotId
  turn : ∀ j ≠ id, j ∈ shared'.runTurn ↔ j ∈ shared.runTurn
  cell : ∀ j ≠ id, shared.slotState j = .active → shared'.slotState j = .active

theorem Frame.refl (shared : SchedulerShared) (id : ExecutionSlotId) : Frame shared shared id :=
  ⟨le_refl _, fun _ _ => Iff.rfl, fun _ _ hc => hc⟩

theorem HandleInv.frame {shared shared' : SchedulerShared} {id j : ExecutionSlotId}
    {h : ExecutionHandle R W} (hi : HandleInv shared j h) (hf : Frame shared shared' id)
    (hne : j ≠ id) : HandleInv shared' j h where
  slotId := hi.slotId
  lt := lt_of_lt_of_le hi.lt hf.next
  turn := (hf.turn j hne).trans hi.turn
  turnable hj := hi.turnable ((hf.turn j hne).mp hj)
  cell hs := hf.cell j hne (hi.cell hs)
  pending := hi.pending

structure Inv (s : EngineState R W) : Prop where
  nodup : s.shared.runTurn.Nodup
  known : ∀ id ∈ s.shared.runTurn, ∃ h, s.handles id = some h
  handles : ∀ id h, s.handles id = some h → HandleInv s.shared id h

/-- The invariant after an operation on handle `id`. -/
theorem Inv.put {s : EngineState R W} (hi : Inv s) {id : ExecutionSlotId}
    {h : ExecutionHandle R W} {shared : SchedulerShared} (hf : Frame s.shared shared id)
    (hnd : shared.runTurn.Nodup) (hh : HandleInv shared id h) :
    Inv { shared := shared, handles := Function.update s.handles id (some h) } where
  nodup := hnd
  known j hj := by
    by_cases hji : j = id
    · exact ⟨h, by simp [hji]⟩
    · obtain ⟨g, hg⟩ := hi.known j ((hf.turn j hji).mp hj)
      exact ⟨g, by simpa [hji] using hg⟩
  handles j g hg := by
    by_cases hji : j = id
    · subst hji
      obtain rfl : h = g := by simpa using hg
      exact hh
    · exact (hi.handles j g (by simpa [hji] using hg)).frame hf hji

/-! ### One poll -/

theorem driveOneSlice_fields (h : ExecutionHandle R W) (input : PollInput) :
    (h.driveOneSlice input).2.slotId = h.slotId ∧
      (h.driveOneSlice input).2.runTurnRegistered = h.runTurnRegistered ∧
      ∀ callId, (h.driveOneSlice input).1 = .yieldedHostCall callId →
        (h.driveOneSlice input).2.evaluator.pendingHostCall = some callId := by
  unfold ExecutionHandle.driveOneSlice
  split
  · exact ⟨rfl, rfl, fun _ hc => by cases hc⟩
  · split <;> refine ⟨rfl, rfl, fun _ hc => ?_⟩ <;> cases hc
    rfl

/-- What a poll of handle `id` leaves behind. -/
structure PollInv (shared : SchedulerShared) (id : ExecutionSlotId) (p : Polled R W) : Prop where
  frame : Frame shared p.shared id
  nodup : p.shared.runTurn.Nodup
  handle : HandleInv p.shared id p.handle

theorem Turnable.effective {st : ExecutionState} (h : Turnable st) :
    effective st = st ∧ ¬ Slotless st ∧ st ≠ .terminal ∧
      ∀ callId, st ≠ .yielded (.hostCallPending callId) := by
  match st with
  | .created | .linked | .ready | .running | .yielded .sliceFuelExhausted
  | .yielded .explicitYield | .yielded .schedulerPreempted | .yielded .auditBackpressure =>
    simp [RunTurnLemmas.effective, Slotless]
  | .paused _ | .terminal | .yielded (.hostCallPending _) | .yielded (.admissionQueued _) =>
    exact h.elim

/-- A handle in the FIFO. -/
theorem HandleInv.of_turnable {shared : SchedulerShared} {id : ExecutionSlotId}
    {h : ExecutionHandle R W} (hid : h.slotId = id) (hlt : id < shared.nextSlotId)
    (hcell : shared.slotState id = .active) (hmem : id ∈ shared.runTurn)
    (hreg : h.runTurnRegistered = true) (hst : Turnable h.state) : HandleInv shared id h where
  slotId := hid
  lt := hlt
  turn := ⟨fun _ => ⟨hreg, hst.effective.2.2.1⟩, fun _ => hmem⟩
  turnable _ := hst
  cell _ := hcell
  pending callId hc := absurd (hst.effective.1.symm.trans hc) (hst.effective.2.2.2 callId)

/-- A handle that has ended. -/
theorem HandleInv.of_terminal {shared : SchedulerShared} {id : ExecutionSlotId}
    {h : ExecutionHandle R W} (hid : h.slotId = id) (hlt : id < shared.nextSlotId)
    (hmem : id ∉ shared.runTurn) (hst : h.state = .terminal) : HandleInv shared id h where
  slotId := hid
  lt := hlt
  turn := ⟨fun hm => absurd hm hmem, fun hr => absurd hst hr.2⟩
  turnable hm := absurd hm hmem
  cell hs := absurd (by simp [hst, effective, Slotless]) hs
  pending callId hc := by simp [hst, effective] at hc

/-- A handle that awaits a host call. -/
theorem HandleInv.of_pending {shared : SchedulerShared} {id : ExecutionSlotId}
    {h : ExecutionHandle R W} (hid : h.slotId = id) (hlt : id < shared.nextSlotId)
    (hcell : shared.slotState id = .active) (hmem : id ∉ shared.runTurn)
    (hreg : h.runTurnRegistered = false) {callId : Nat}
    (hst : h.state = .yielded (.hostCallPending callId)) (hticket : h.pendingTicket.isSome)
    (hpending : h.evaluator.pendingHostCall = some callId) : HandleInv shared id h where
  slotId := hid
  lt := hlt
  turn := ⟨fun hm => absurd hm hmem, fun hr => by simp [hreg] at hr⟩
  turnable hm := absurd hm hmem
  cell _ := hcell
  pending c hc := by
    obtain rfl : callId = c := by simpa [hst, effective] using hc
    exact ⟨hticket, hpending⟩

@[simp] theorem runTurnRotate_slotState (shared : SchedulerShared) (id : ExecutionSlotId) :
    (shared.runTurnRotate id).slotState = shared.slotState := by
  unfold SchedulerShared.runTurnRotate
  split
  · rfl
  · split <;> rfl

@[simp] theorem runTurnRotate_nextSlotId (shared : SchedulerShared) (id : ExecutionSlotId) :
    (shared.runTurnRotate id).nextSlotId = shared.nextSlotId := by
  unfold SchedulerShared.runTurnRotate
  split
  · rfl
  · split <;> rfl

/-- The head goes to the tail. -/
theorem rotate_inv {shared : SchedulerShared} {id : ExecutionSlotId} {rest : List ExecutionSlotId}
    (hturn : shared.runTurn = id :: rest) (hnd : shared.runTurn.Nodup) :
    (shared.runTurnRotate id).runTurn = rest ++ [id] ∧ (rest ++ [id]).Nodup ∧
      Frame shared (shared.runTurnRotate id) id := by
  have hrotate : (shared.runTurnRotate id).runTurn = rest ++ [id] := by
    simp [SchedulerShared.runTurnRotate, hturn]
  refine ⟨hrotate, ?_, by simp, fun j hj => ?_, fun j _ hc => by simpa using hc⟩
  · rw [hturn] at hnd
    exact (List.perm_append_singleton id rest).nodup_iff.mpr hnd
  · rw [hrotate, hturn]
    simp [hj]

/-- A slot leaves the FIFO. -/
theorem remove_inv {shared : SchedulerShared} (id : ExecutionSlotId)
    (hnd : shared.runTurn.Nodup) :
    id ∉ (shared.runTurnRemove id).runTurn ∧ (shared.runTurnRemove id).runTurn.Nodup ∧
      Frame shared (shared.runTurnRemove id) id := by
  refine ⟨hnd.not_mem_erase, hnd.erase id, le_refl _, fun j hj => ?_, fun _ _ hc => hc⟩
  exact List.mem_erase_of_ne hj

/-- The head runs its slice and rotates or leaves. -/
theorem pollHead_inv {shared : SchedulerShared} {id : ExecutionSlotId}
    {rest : List ExecutionSlotId} {h : ExecutionHandle R W} (input : PollInput)
    (hturn : shared.runTurn = id :: rest) (hnd : shared.runTurn.Nodup) (hid : h.slotId = id)
    (hlt : id < shared.nextSlotId) (hcell : shared.slotState id = .active)
    (hreg : h.runTurnRegistered = true) :
    PollInv shared id (h.pollHead shared input) ∧ RunsHead rest id (h.pollHead shared input) := by
  obtain ⟨hslot, hflag, hcall⟩ := driveOneSlice_fields { h with state := .running } input
  obtain ⟨hrot, hrotnd, hrotf⟩ := rotate_inv hturn hnd
  obtain ⟨hout, houtnd, houtf⟩ := remove_inv id hnd
  have hremove : (shared.runTurnRemove id).runTurn = rest := by
    simp [SchedulerShared.runTurnRemove, hturn]
  unfold ExecutionHandle.pollHead
  generalize hd : ({ h with state := .running } : ExecutionHandle R W).driveOneSlice input = d
    at hslot hflag hcall
  obtain ⟨poll, h'⟩ := d
  obtain rfl : h'.slotId = id := hslot.trans hid
  cases poll with
  | yieldedSliceFuel | yieldedExplicit =>
    refine ⟨⟨hrotf, hrot ▸ hrotnd, .of_turnable rfl (by simpa using hlt) (by simpa using hcell)
      (by simp [hrot]) (hflag.trans hreg) trivial⟩, rfl, .inl hrot⟩
  | yieldedHostCall callId =>
    exact ⟨⟨houtf, houtnd, .of_pending rfl hlt hcell hout rfl rfl rfl (hcall callId rfl)⟩, rfl,
      .inr hremove⟩
  | terminal outcome =>
    exact ⟨⟨houtf, houtnd, .of_terminal rfl hlt hout rfl⟩, rfl, .inr hremove⟩

/-- The state of the FIFO once handle `id` is registered. -/
theorem pushBack_inv {shared : SchedulerShared} {id : ExecutionSlotId} {registered : Bool}
    (hnd : shared.runTurn.Nodup) (hturn : id ∈ shared.runTurn ↔ registered = true)
    {shared' : SchedulerShared}
    (hs : shared' = if registered then shared else shared.runTurnPushBack id) :
    id ∈ shared'.runTurn ∧ shared'.runTurn.Nodup ∧ Frame shared shared' id ∧
      shared'.slotState = shared.slotState ∧ shared'.nextSlotId = shared.nextSlotId ∧
      (shared.runTurn = [] → shared'.runTurn = [id]) := by
  subst hs
  cases registered with
  | true =>
    have hmem : id ∈ shared.runTurn := hturn.mpr rfl
    refine ⟨hmem, hnd, .refl _ _, rfl, rfl, fun hnil => ?_⟩
    rw [hnil] at hmem
    cases hmem
  | false =>
    have hmem : id ∉ shared.runTurn := fun hm => by simpa using hturn.mp hm
    simp only [Bool.false_eq_true, ↓reduceIte, SchedulerShared.runTurnPushBack, hmem]
    refine ⟨by simp, ?_, ⟨le_refl _, fun j hj => by simp [hj], fun _ _ hc => hc⟩, trivial, trivial,
      fun hnil => by simp [hnil]⟩
    exact (List.perm_append_singleton id shared.runTurn).nodup_iff.mpr
      (List.nodup_cons.mpr ⟨hmem, hnd⟩)

/-- Registering and, at the head, running. Out of turn the state is kept, so it
must be one that may wait in the FIFO, unless the FIFO is empty. -/
theorem pollRunTurn_inv {shared : SchedulerShared} {id : ExecutionSlotId}
    {h : ExecutionHandle R W} (input : PollInput) (hnd : shared.runTurn.Nodup) (hid : h.slotId = id)
    (hlt : id < shared.nextSlotId) (hcell : shared.slotState id = .active)
    (hturn : id ∈ shared.runTurn ↔ h.runTurnRegistered = true)
    (hst : Turnable h.state ∨ shared.runTurn = []) :
    PollInv shared id (h.pollRunTurn shared input) := by
  subst hid
  unfold ExecutionHandle.pollRunTurn
  generalize hs : (if h.runTurnRegistered = true then shared
    else shared.runTurnPushBack h.slotId) = shared'
  obtain ⟨hmem, hnd', hf, hcells, hnext, hempty⟩ := pushBack_inv hnd hturn hs.symm
  have hlt' : h.slotId < shared'.nextSlotId := hnext ▸ hlt
  have hcell' : shared'.slotState h.slotId = .active := hcells ▸ hcell
  dsimp only
  split
  · next hhead =>
    obtain ⟨rest, hrest⟩ : ∃ rest, shared'.runTurn = h.slotId :: rest := by
      cases hq : shared'.runTurn with
      | nil => simp [SchedulerShared.isHead, hq] at hhead
      | cons x rest =>
        obtain rfl : x = h.slotId := by simpa [SchedulerShared.isHead, hq] using hhead
        exact ⟨rest, rfl⟩
    have hpoll := (pollHead_inv (h := { h with runTurnRegistered := true }) input hrest hnd' rfl
      hlt' hcell' rfl).1
    refine ⟨⟨le_trans hf.next hpoll.frame.next,
      fun j hj => (hpoll.frame.turn j hj).trans (hf.turn j hj),
      fun j hj hc => hpoll.frame.cell j hj (hf.cell j hj hc)⟩, hpoll.nodup, hpoll.handle⟩
  · next hhead =>
    refine ⟨hf, hnd', .of_turnable rfl hlt' hcell' hmem rfl (hst.resolve_right fun hnil => ?_)⟩
    simp [SchedulerShared.isHead, hempty hnil] at hhead

/-- A handle that ends while it waits. -/
theorem endPending_inv {shared : SchedulerShared} {id : ExecutionSlotId}
    {h : ExecutionHandle R W} (hnd : shared.runTurn.Nodup) (hid : h.slotId = id)
    (hlt : id < shared.nextSlotId) (outcome : ExecutionOutcome) :
    PollInv shared id (h.endPending shared outcome) := by
  subst hid
  obtain ⟨hout, houtnd, houtf⟩ := remove_inv h.slotId hnd
  exact ⟨houtf, houtnd, .of_terminal rfl hlt hout rfl⟩

theorem not_slotless_hostCallPending (callId : Nat) :
    ¬ Slotless (.yielded (.hostCallPending callId)) := id

/-- One poll keeps the invariant, provided that it takes a host-call result only
when the FIFO is empty. -/
theorem poll_inv {shared : SchedulerShared} {id : ExecutionSlotId} {h : ExecutionHandle R W}
    (hi : HandleInv shared id h) (hnd : shared.runTurn.Nodup) (input : PollInput)
    (hok : h.takesResult input = true → shared.runTurn = []) :
    PollInv shared id (h.poll shared input) := by
  have hstay : PollInv shared id (⟨.error .terminal, h, shared, false⟩ : Polled R W) :=
    ⟨.refl _ _, hnd, hi⟩
  have hrun : effective h.state = h.state → Turnable h.state →
      PollInv shared id (h.pollRunTurn shared input) := by
    intro heff hst
    have hcell := hi.cell (by rw [heff]; exact hst.effective.2.1)
    refine pollRunTurn_inv input hnd hi.slotId hi.lt hcell ?_ (.inl hst)
    exact hi.turn.trans ⟨fun hr => hr.1, fun hr => ⟨hr, hst.effective.2.2.1⟩⟩
  unfold ExecutionHandle.poll
  split
  · exact hstay
  · exact ⟨.refl _ _, hnd, hi⟩
  · next resumeTo hst =>
    have hout : id ∉ shared.runTurn := fun hm => by simpa [hst, Turnable] using hi.turnable hm
    have hflag : h.runTurnRegistered ≠ true := fun hr => hout (hi.turn.mpr ⟨hr, by simp [hst]⟩)
    unfold ExecutionHandle.pollAdmissionQueued
    split
    · exact ⟨.refl _ _, hnd, .of_terminal hi.slotId hi.lt hout rfl⟩
    · split
      · next hactive =>
        rw [hi.slotId] at hactive
        refine pollRunTurn_inv input hnd hi.slotId hi.lt hactive
          ⟨fun hm => absurd hm hout, fun hr => absurd hr hflag⟩ (.inl ?_)
        cases resumeTo <;> trivial
      · exact ⟨.refl _ _, hnd, hi⟩
  · next callId hst =>
    have hout : id ∉ shared.runTurn := fun hm => by simpa [hst, Turnable] using hi.turnable hm
    have hflag : h.runTurnRegistered ≠ true := fun hr => hout (hi.turn.mpr ⟨hr, by simp [hst]⟩)
    have hcell := hi.cell (by simp [hst, effective, Slotless])
    obtain ⟨hticket, hpending⟩ := hi.pending callId (by simp [hst, effective])
    obtain ⟨ticket, hticket⟩ := Option.isSome_iff_exists.mp hticket
    unfold ExecutionHandle.pollHostCallPending
    split
    · exact endPending_inv hnd hi.slotId hi.lt _
    · next hgo =>
      cases htake : tryTake ticket with
      | mk result ticket' =>
        simp only [hticket, Option.map_some, htake]
        cases result with
        | none =>
          exact ⟨.refl _ _, hnd, .of_pending hi.slotId hi.lt hcell hout (by simpa using hflag) hst
            rfl hpending⟩
        | some r =>
          have hempty := hok (by simp [ExecutionHandle.takesResult, hst, hgo, hticket, htake])
          simp only [EvaluatorView.resumeHostCall, hpending, ↓reduceIte]
          exact pollRunTurn_inv input hnd hi.slotId hi.lt hcell
            ⟨fun hm => absurd hm hout, fun hr => absurd hr hflag⟩ (.inr hempty)
  · next hnt hnp hna hnh =>
    refine hrun ?_ ?_
    · cases hst : h.state <;> first | rfl | exact absurd hst (hnp _)
    · cases hst : h.state with
      | terminal => exact hnt hst
      | paused p => exact hnp p hst
      | yielded reason =>
        cases reason with
        | admissionQueued resumeTo => exact hna resumeTo hst
        | hostCallPending callId => exact hnh callId hst
        | _ => trivial
      | _ => trivial

/-! ### The other operations -/

/-- An operation that changes neither the scheduler nor what it sees of the
handle. -/
theorem HandleInv.congr {shared : SchedulerShared} {id : ExecutionSlotId}
    {h h' : ExecutionHandle R W} (hi : HandleInv shared id h) (hid : h'.slotId = h.slotId)
    (hreg : h'.runTurnRegistered = h.runTurnRegistered) (hst : h'.state = h.state)
    (hticket : h'.pendingTicket.isSome = h.pendingTicket.isSome)
    (hpending : h'.evaluator.pendingHostCall = h.evaluator.pendingHostCall) :
    HandleInv shared id h' where
  slotId := hid.trans hi.slotId
  lt := hi.lt
  turn := by rw [hreg, hst]; exact hi.turn
  turnable hm := by rw [hst]; exact hi.turnable hm
  cell hs := hi.cell (by rwa [hst] at hs)
  pending callId hc := by
    rw [hst] at hc
    rw [hticket, hpending]
    exact hi.pending callId hc

theorem pause_inv {shared : SchedulerShared} {id : ExecutionSlotId} {h : ExecutionHandle R W}
    (hi : HandleInv shared id h) (hout : id ∉ shared.runTurn) : HandleInv shared id h.pause.2 := by
  unfold ExecutionHandle.pause
  split
  · exact hi
  · next hnt =>
    split
    · next resumeTo hto =>
      have heff : effective (.paused ⟨.hostRequested, resumeTo⟩) = effective h.state := by
        cases hst : h.state <;> simp [ExecutionHandle.resumeTarget, hst] at hto <;> subst hto <;> rfl
      refine ⟨hi.slotId, hi.lt, ⟨fun hm => absurd hm hout, fun hr => ?_⟩, fun hm => absurd hm hout,
        fun hs => hi.cell (heff ▸ hs), fun callId hc => hi.pending callId (heff ▸ hc)⟩
      exact absurd (hi.turn.mpr ⟨hr.1, hnt⟩) hout
    · exact hi

theorem resume_inv {shared : SchedulerShared} {id : ExecutionSlotId} {h : ExecutionHandle R W}
    (hi : HandleInv shared id h) : HandleInv shared id h.resume.2 := by
  unfold ExecutionHandle.resume
  split
  · exact hi
  · next p hst =>
    have hout : id ∉ shared.runTurn := fun hm => by simpa [hst, Turnable] using hi.turnable hm
    have hflag : h.runTurnRegistered ≠ true := fun hr => hout (hi.turn.mpr ⟨hr, by simp [hst]⟩)
    have heff : effective (ExecutionHandle.ResumeState.toState p.resumeTo) = effective h.state := by
      obtain ⟨_, resumeTo⟩ := p
      rw [hst]
      cases resumeTo <;> rfl
    exact ⟨hi.slotId, hi.lt, ⟨fun hm => absurd hm hout, fun hr => absurd hr.1 hflag⟩,
      fun hm => absurd hm hout, fun hs => hi.cell (heff ▸ hs),
      fun callId hc => hi.pending callId (heff ▸ hc)⟩
  · exact hi

theorem setWaker_inv {shared : SchedulerShared} {id : ExecutionSlotId} {h : ExecutionHandle R W}
    (hi : HandleInv shared id h) (waker : Option W) :
    HandleInv shared id (h.setWaker waker).2 := by
  unfold ExecutionHandle.setWaker
  split
  · exact hi
  · refine hi.congr rfl rfl rfl ?_ rfl
    cases waker <;> simp

/-- What a release does to the FIFO and to the other cells. -/
theorem release_frame (shared : SchedulerShared) (r : Release) (id : ExecutionSlotId)
    (hnd : shared.runTurn.Nodup) :
    Frame shared (shared.release r id) id ∧ (shared.release r id).runTurn.Nodup ∧
      ((shared.release r id).runTurn = shared.runTurn ∨
        (shared.release r id).runTurn = shared.runTurn.erase id) := by
  have hpromote : ∀ sh : SchedulerShared, sh.promote.runTurn = sh.runTurn ∧
      sh.promote.nextSlotId = sh.nextSlotId := by
    intro sh
    unfold SchedulerShared.promote
    split <;> exact ⟨rfl, rfl⟩
  have hshape : (shared.release r id).nextSlotId = shared.nextSlotId ∧
      ((shared.release r id).runTurn = shared.runTurn ∨
        (shared.release r id).runTurn = shared.runTurn.erase id) := by
    cases r with
    | active =>
      simp only [SchedulerShared.release, SchedulerShared.releaseActive]
      split
      · exact ⟨rfl, .inl rfl⟩
      · exact ⟨(hpromote _).2, .inr (hpromote _).1⟩
    | queued =>
      simp only [SchedulerShared.release, SchedulerShared.releaseQueued]
      split <;> exact ⟨rfl, .inl rfl⟩
  refine ⟨⟨hshape.1.ge, fun j hj => ?_,
    fun j hj hc => AdmissionLemmas.release_keeps_active r hj hc⟩, ?_, hshape.2⟩
  · rcases hshape.2 with hq | hq <;> rw [hq]
    exact List.mem_erase_of_ne hj
  · rcases hshape.2 with hq | hq <;> rw [hq]
    · exact hnd
    · exact hnd.erase id

theorem drop_inv {s : EngineState R W} (hi : Inv s) {id : ExecutionSlotId}
    {h : ExecutionHandle R W} (hh : s.handles id = some h) : Inv (s.drop id h) := by
  have hinv := hi.handles id h hh
  obtain ⟨hf, hnd, hq⟩ := release_frame s.shared (h.slot.chooseRelease (s.shared.slotState id)) id
    hi.nodup
  have hout : id ∉ (s.drop id h).shared.runTurn := by
    by_cases hm : id ∈ s.shared.runTurn
    · -- a slot in the FIFO is active, so it is the active release that runs
      have hst := hinv.turnable hm
      have hcell := hinv.cell (by rw [hst.effective.1]; exact hst.effective.2.1)
      have hchoose : h.slot.chooseRelease (s.shared.slotState id) = .active := by
        unfold AdmissionSlot.chooseRelease
        split <;> simp [hcell]
      have hrelease : (s.shared.release .active id).runTurn = s.shared.runTurn.erase id := by
        simp only [SchedulerShared.release, SchedulerShared.releaseActive, hcell, reduceCtorEq,
          ↓reduceIte]
        unfold SchedulerShared.promote
        split <;> rfl
      show id ∉ (s.shared.release (h.slot.chooseRelease (s.shared.slotState id)) id).runTurn
      rw [hchoose, hrelease]
      exact hi.nodup.not_mem_erase
    · show id ∉ (s.shared.release (h.slot.chooseRelease (s.shared.slotState id)) id).runTurn
      rcases hq with hq | hq <;> rw [hq]
      · exact hm
      · exact fun hmem => hm (List.mem_of_mem_erase hmem)
  refine ⟨hnd, fun j hj => ?_, fun j g hg => ?_⟩
  · have hji : j ≠ id := fun he => hout (he ▸ hj)
    obtain ⟨g, hg⟩ := hi.known j ((hf.turn j hji).mp hj)
    exact ⟨g, by simpa [EngineState.drop, hji] using hg⟩
  · have hji : j ≠ id := by
      rintro rfl
      simp [EngineState.drop] at hg
    exact (hi.handles j g (by simpa [EngineState.drop, hji] using hg)).frame hf hji

theorem create_inv {s : EngineState R W} (hi : Inv s) (resumeTo : AdmissionPhase)
    (transactional : Bool) (evaluator : EvaluatorView) :
    Inv (s.create resumeTo transactional evaluator) := by
  have hnext : s.shared.nextSlotId ∉ s.shared.runTurn := by
    intro hm
    obtain ⟨h, hh⟩ := hi.known _ hm
    exact absurd (hi.handles _ h hh).lt (lt_irrefl _)
  have hshape : (s.shared.admitSlot resumeTo).2.runTurn = s.shared.runTurn ∧
      (s.shared.admitSlot resumeTo).2.nextSlotId = s.shared.nextSlotId + 1 := by
    unfold SchedulerShared.admitSlot
    dsimp only
    split
    · exact ⟨rfl, rfl⟩
    · split <;> exact ⟨rfl, rfl⟩
  have hcells := AdmissionLemmas.admitSlot_cells s.shared resumeTo
  unfold EngineState.create
  generalize hadm : s.shared.admitSlot resumeTo = p at hshape hcells
  obtain ⟨res, sh⟩ := p
  obtain ⟨hrun, hsucc⟩ : sh.runTurn = s.shared.runTurn ∧
    sh.nextSlotId = s.shared.nextSlotId + 1 := hshape
  have hlt : s.shared.nextSlotId < sh.nextSlotId := hsucc ▸ Nat.lt_succ_self _
  rcases hcells with ⟨kind, cell, rfl, hcell, hkind⟩ | ⟨e, rfl, hcell⟩
  · have hcell : sh.slotState = Function.update s.shared.slotState s.shared.nextSlotId cell := hcell
    have hframe : Frame s.shared sh s.shared.nextSlotId :=
      ⟨hlt.le, fun j _ => by rw [hrun],
        fun j hj hc => by rw [hcell, Function.update_of_ne hj, hc]⟩
    refine hi.put hframe (hrun ▸ hi.nodup)
      ⟨rfl, hlt, ?_, fun hm => absurd (hrun ▸ hm) hnext, fun hs => ?_, ?_⟩
    · exact ⟨fun hm => absurd (hrun ▸ hm) hnext, fun hr => by cases hr.1⟩
    · cases kind with
      | active => exact (congrFun hcell _).trans (by simp [hkind rfl])
      | queued => exact absurd trivial hs
    · intro callId hc
      cases kind <;> cases resumeTo <;> cases hc
  · have hcell : sh.slotState = s.shared.slotState := hcell
    have hf : ∀ j, Frame s.shared sh j := fun j =>
      ⟨hlt.le, fun _ _ => by rw [hrun], fun _ _ hc => by rw [hcell, hc]⟩
    refine ⟨hrun ▸ hi.nodup, fun j hj => hi.known j (hrun ▸ hj), fun j g hg => ?_⟩
    exact (hi.handles j g hg).frame (hf (j + 1)) (Nat.succ_ne_self j).symm

theorem Inv.init (limits : EngineLimits) :
    Inv ({ shared := .withLimits limits, handles := fun _ => none } : EngineState R W) where
  nodup := .nil
  known := by simp [SchedulerShared.withLimits]
  handles := by simp

theorem Inv.preserved (R W : Type) (limits : EngineLimits) :
    Preserved (engineSystem R W limits) NoStall Inv := by
  intro s a t hi hok hst
  have hput : ∀ {id : ExecutionSlotId} {h h' : ExecutionHandle R W}, s.handles id = some h →
      HandleInv s.shared id h' → Inv (s.put id h') :=
    fun _ hh' => hi.put (.refl _ _) hi.nodup hh'
  cases a with
  | create resumeTo transactional evaluator =>
    cases hst
    exact create_inv hi resumeTo transactional evaluator
  | poll id input =>
    obtain ⟨h, hh, rfl⟩ := Option.map_eq_some_iff.mp hst
    have hpoll := poll_inv (hi.handles id h hh) hi.nodup input (hok.2 h hh)
    exact hi.put hpoll.frame hpoll.nodup hpoll.handle
  | pause id =>
    obtain ⟨h, hh, rfl⟩ := Option.map_eq_some_iff.mp hst
    exact hput hh (pause_inv (hi.handles id h hh) hok.1)
  | resume id =>
    obtain ⟨h, hh, rfl⟩ := Option.map_eq_some_iff.mp hst
    exact hput hh (resume_inv (hi.handles id h hh))
  | setWaker id waker =>
    obtain ⟨h, hh, rfl⟩ := Option.map_eq_some_iff.mp hst
    exact hput hh (setWaker_inv (hi.handles id h hh) waker)
  | completeTicket id result =>
    obtain ⟨h, hh, rfl⟩ := Option.map_eq_some_iff.mp hst
    exact hput hh ((hi.handles id h hh).congr rfl rfl rfl (by simp) rfl)
  | cancel id =>
    obtain ⟨h, hh, rfl⟩ := Option.map_eq_some_iff.mp hst
    exact hput hh ((hi.handles id h hh).congr rfl rfl rfl rfl rfl)
  | drop id =>
    obtain ⟨h, hh, rfl⟩ := Option.map_eq_some_iff.mp hst
    exact drop_inv hi hh

/-- A poll that reports a pending call has run the slice that made the call. -/
def ReportsOwn (p : Polled R W) : Prop :=
  ∀ callId, p.result = .ok (.yielded (.hostCallPending callId)) → p.ranSlice = true

theorem pollRunTurn_reports (h : ExecutionHandle R W) (shared : SchedulerShared)
    (input : PollInput) : ReportsOwn (h.pollRunTurn shared input) := by
  have hhead : ∀ (g : ExecutionHandle R W) (sh : SchedulerShared),
      (g.pollHead sh input).ranSlice = true := by
    intro g sh
    unfold ExecutionHandle.pollHead
    split <;> rfl
  unfold ExecutionHandle.pollRunTurn
  dsimp only
  generalize (if h.runTurnRegistered = true then shared
    else shared.runTurnPushBack h.slotId) = shared'
  split
  · exact fun _ _ => hhead _ _
  · exact fun _ hr => by cases hr

theorem pollHostCallPending_reports (h : ExecutionHandle R W) (shared : SchedulerShared)
    (callId : Nat) (input : PollInput) (c : Nat)
    (hr : (h.pollHostCallPending shared callId input).result =
      .ok (.yielded (.hostCallPending c))) :
    (h.pollHostCallPending shared callId input).ranSlice = true ∨ callId = c := by
  revert hr
  unfold ExecutionHandle.pollHostCallPending
  split
  · exact fun hr => by cases hr
  · split
    · split
      · exact fun hr => by cases hr
      · exact fun hr => .inl (pollRunTurn_reports _ _ _ c hr)
    · exact fun hr => by cases hr; exact .inr rfl
    · exact fun hr => by cases hr; exact .inr rfl

/-- A poll that reports a pending call without running a slice has not taken its
result. -/
theorem reports_pending {shared : SchedulerShared} {id : ExecutionSlotId}
    {h : ExecutionHandle R W} (hi : HandleInv shared id h) (input : PollInput) (callId : Nat) :
    (h.poll shared input).result = .ok (.yielded (.hostCallPending callId)) →
      (h.poll shared input).ranSlice = false → h.evaluator.pendingHostCall = some callId := by
  have hown : ∀ p : Polled R W, ReportsOwn p →
      p.result = .ok (.yielded (.hostCallPending callId)) → p.ranSlice = false →
      h.evaluator.pendingHostCall = some callId := fun p hp hr hs => by simp [hp callId hr] at hs
  unfold ExecutionHandle.poll
  split
  · exact hown _ fun _ hr => by cases hr
  · exact hown _ fun _ hr => by cases hr
  · refine hown _ ?_
    unfold ExecutionHandle.pollAdmissionQueued
    split
    · exact fun _ hr => by cases hr
    · split
      · exact pollRunTurn_reports _ _ _
      · exact fun _ hr => by cases hr
  · next c hst =>
    intro hr hs
    have hpend := (hi.pending c (by simp [hst, effective])).2
    rcases pollHostCallPending_reports h shared c input callId hr with hran | rfl
    · simp [hran] at hs
    · exact hpend
  · exact hown _ (pollRunTurn_reports _ _ _)

theorem Inv.law {s : EngineState R W} (hi : Inv s) : RunTurnLaw s where
  nodup := hi.nodup
  not_blocked id hm := by
    obtain ⟨h, hh⟩ := hi.known id hm
    refine ⟨h, hh, fun hb => ?_⟩
    have hst := (hi.handles id h hh).turnable hm
    match hs : h.state with
    | .paused _ | .terminal | .yielded (.hostCallPending _) => simp [hs, Turnable] at hst
    | .created | .linked | .ready | .running | .yielded .sliceFuelExhausted
    | .yielded .explicitYield | .yielded .schedulerPreempted | .yielded .auditBackpressure
    | .yielded (.admissionQueued _) => simp [hs, ExecutionState.Blocked] at hb
  head_runs id rest h input hq hh := by
    have hinv := hi.handles id h hh
    have hmem : id ∈ s.shared.runTurn := by simp [hq]
    have hst := hinv.turnable hmem
    have hreg := (hinv.turn.mp hmem).1
    have hcell := hinv.cell (by rw [hst.effective.1]; exact hst.effective.2.1)
    have hpoll : h.poll s.shared input = h.pollHead s.shared input := by
      have hrun : h.pollRunTurn s.shared input = h.pollHead s.shared input := by
        have hself : { h with runTurnRegistered := true } = h := by
          cases h
          simp_all
        have hhead : s.shared.isHead h.slotId = true := by
          simp [SchedulerShared.isHead, hq, hinv.slotId]
        simp only [ExecutionHandle.pollRunTurn, hreg, ↓reduceIte, hhead, hself]
      unfold ExecutionHandle.poll
      split <;> simp_all [Turnable]
    rw [hpoll]
    exact (pollHead_inv input hq hi.nodup hinv.slotId hinv.lt hcell hreg).2
  not_pending_again id h input callId hh := reports_pending (hi.handles id h hh) input callId

end RunTurnLemmas

open RunTurnLemmas in
/-- In every run that pauses no registered handle and takes host-call results
only when no handle has the turn, the run-turn queue cannot stall. -/
theorem run_turn_law (R W : Type) (limits : EngineLimits) (s : EngineState R W)
    (h : Reach (engineSystem R W limits) NoStall s) : RunTurnLaw s :=
  (h.invariant (fun _ hs => hs ▸ Inv.init limits) (Inv.preserved R W limits)).law

/-- A host call is answered while no other handle has the turn. -/
theorem run_turn_law_of_answered : ∃ s,
    (engineSystem Unit Unit twoActive).execute NoStall
      { shared := .withLimits twoActive, handles := fun _ => none }
      [.create .created false ⟨none, false⟩, .poll 0 (sliceEnds (.yieldedHostCall 0)), .pause 0,
        .completeTicket 0 (), .resume 0, .poll 0 (sliceEnds .yieldedSliceFuel)] = some s ∧
    RunTurnLaw s :=
  ⟨_, rfl, run_turn_law Unit Unit twoActive _ (reach_of_execute rfl
    [.create .created false ⟨none, false⟩, .poll 0 (sliceEnds (.yieldedHostCall 0)), .pause 0,
      .completeTicket 0 (), .resume 0, .poll 0 (sliceEnds .yieldedSliceFuel)] rfl)⟩

end Tsumugi.Engine
