import Mathlib.Logic.Function.Basic
import Mathlib.Data.List.Basic

/-!
# The engine-wide scheduler state (`scheduler.rs`)

`SchedulerShared` is what one mutex protects: the count of active executions,
the admission queue and the run-turn FIFO. Every handle shares its `SlotState`
cell with the scheduler; the cells are one function from slot ids, because each
admission makes a fresh cell for the id it hands out. Each definition below is the
body of one critical section.
-/

namespace Tsumugi.Scheduler

/-- `ExecutionSlotId`: ids are handed out in increasing order and never reused. -/
abbrev ExecutionSlotId := Nat

/-- The value of a `SlotState` cell (`SLOT_QUEUED`, `SLOT_ACTIVE`, `SLOT_RELEASED`). -/
inductive SlotState
  | queued
  | active
  | released
deriving DecidableEq, Repr

/-- The phase an execution returns to once it leaves the admission queue. -/
inductive AdmissionPhase
  | created
  | linked
deriving DecidableEq, Repr

/-- `EngineLimits`. `maxActiveExecutions` is a `NonZeroUsize` in the source. -/
structure EngineLimits where
  maxActiveExecutions : Nat
  maxActiveExecutions_pos : 0 < maxActiveExecutions
  maxQueuedExecutions : Nat

/-- An entry of the admission queue. -/
structure QueuedEntry where
  slotId : ExecutionSlotId
  resumeTo : AdmissionPhase
deriving DecidableEq, Repr

/-- What kind of slot an admission handed out. It is never rewritten, a promotion
only shows in the `SlotState` cell. -/
inductive AdmissionSlotKind
  | active
  | queued
deriving DecidableEq, Repr

/-- The RAII token that a handle owns. -/
structure AdmissionSlot where
  kind : AdmissionSlotKind
  slotId : ExecutionSlotId
deriving DecidableEq, Repr

/-- Why an admission was refused. -/
inductive StartError
  | backpressure (active queued limit : Nat)
deriving DecidableEq, Repr

/-- `SchedulerShared`, together with the `SlotState` cells that it writes. -/
structure SchedulerShared where
  limits : EngineLimits
  active : Nat
  admissionQueue : List QueuedEntry
  runTurn : List ExecutionSlotId
  nextSlotId : ExecutionSlotId
  slotState : ExecutionSlotId → SlotState

namespace SchedulerShared

/-- `SchedulerShared::with_limits`. No cell exists yet; an id that was never
handed out reads as released. -/
def withLimits (limits : EngineLimits) : SchedulerShared where
  limits := limits
  active := 0
  admissionQueue := []
  runTurn := []
  nextSlotId := 0
  slotState := fun _ => .released

/-- The `store` of a `SlotState` cell. -/
def store (s : SchedulerShared) (id : ExecutionSlotId) (kind : SlotState) : SchedulerShared :=
  { s with slotState := Function.update s.slotState id kind }

/-- `SchedulerShared::admit` (the bare word is reserved in Lean): an active slot while there is one, else a place in the queue, else
back-pressure. The id is used up in every case. -/
def admitSlot (s : SchedulerShared) (resumeTo : AdmissionPhase) :
    Except StartError AdmissionSlot × SchedulerShared :=
  let slotId := s.nextSlotId
  let s := { s with nextSlotId := s.nextSlotId + 1 }
  if s.active < s.limits.maxActiveExecutions then
    (.ok ⟨.active, slotId⟩, store { s with active := s.active + 1 } slotId .active)
  else if s.admissionQueue.length < s.limits.maxQueuedExecutions then
    (.ok ⟨.queued, slotId⟩,
      store { s with admissionQueue := s.admissionQueue ++ [⟨slotId, resumeTo⟩] } slotId .queued)
  else
    (.error (.backpressure s.active s.admissionQueue.length s.limits.maxActiveExecutions), s)

/-- The FIFO promotion at the end of `release_active`. -/
def promote (s : SchedulerShared) : SchedulerShared :=
  match s.admissionQueue with
  | [] => s
  | entry :: rest =>
    store { s with active := s.active + 1, admissionQueue := rest } entry.slotId .active

/-- `release_active`: a no-op on a released slot. -/
def releaseActive (s : SchedulerShared) (id : ExecutionSlotId) : SchedulerShared :=
  if s.slotState id = .released then s
  else
    let s := s.store id .released
    promote { s with active := s.active - 1, runTurn := s.runTurn.erase id }

/-- `release_queued`: a no-op on a released slot. The `active` count is not
touched, whatever the cell says. -/
def releaseQueued (s : SchedulerShared) (id : ExecutionSlotId) : SchedulerShared :=
  if s.slotState id = .released then s
  else
    store { s with admissionQueue := s.admissionQueue.eraseP (·.slotId = id) } id .released

/-- `run_turn_push_back`. -/
def runTurnPushBack (s : SchedulerShared) (id : ExecutionSlotId) : SchedulerShared :=
  if id ∈ s.runTurn then s else { s with runTurn := s.runTurn ++ [id] }

/-- `is_head`. -/
def isHead (s : SchedulerShared) (id : ExecutionSlotId) : Bool :=
  s.runTurn.head? == some id

/-- `run_turn_rotate`. -/
def runTurnRotate (s : SchedulerShared) (id : ExecutionSlotId) : SchedulerShared :=
  match s.runTurn with
  | [] => s
  | head :: rest => if head = id then { s with runTurn := rest ++ [head] } else s

/-- `run_turn_remove`. -/
def runTurnRemove (s : SchedulerShared) (id : ExecutionSlotId) : SchedulerShared :=
  { s with runTurn := s.runTurn.erase id }

end SchedulerShared

/-- Which release `Drop for AdmissionSlot` performs. -/
inductive Release
  | active
  | queued
deriving DecidableEq, Repr

/-- The unlocked decision of `Drop for AdmissionSlot`: a slot that was handed
out active needs no load, a queued one reads its cell. -/
def AdmissionSlot.chooseRelease (slot : AdmissionSlot) (cell : SlotState) : Release :=
  match slot.kind with
  | .active => .active
  | .queued => if cell = .active then .active else .queued

/-- The locked half of `Drop for AdmissionSlot`. -/
def SchedulerShared.release (s : SchedulerShared) (r : Release) (id : ExecutionSlotId) :
    SchedulerShared :=
  match r with
  | .active => s.releaseActive id
  | .queued => s.releaseQueued id

end Tsumugi.Scheduler
