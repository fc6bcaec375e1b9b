import Mathlib.Logic.Function.Basic
import Mathlib.Tactic.Common
import Tsumugi.Lib.Transition

/-!
# Pending tickets (`host_pending.rs`, and the audit ticket of `audit.rs`)

A ticket and its completer share one mutex-protected record and a `ready` flag
that is written outside the mutex. The calls of any number of threads interleave
at the grain of one lock section or one load or store of the flag; a wake is a
step of its own. `HostCallTicket` and `AuditTicket` run the same protocol, they
differ in what a result is and in that only the former has a `Drop`.

Result: `last_returned_law_fails`. Of two overlapping registrations the one that
returns last may be the one that was replaced, and it is never woken; and a
`try_take` may return the result between the store of the flag and the wake.
-/

namespace Tsumugi.Host

open Transition

variable {R W : Type}

/-! ## The shared record -/

/-- `TicketState`: the mutex-protected part. -/
structure TicketState (R W : Type) where
  result : Option R
  waker : Option W
  cancelled : Bool

/-- `TicketShared`. -/
structure TicketShared (R W : Type) where
  state : TicketState R W
  ready : Bool

/-- `new_ticket` / `new_audit_ticket`. -/
def newTicket : TicketShared R W := ⟨⟨none, none, false⟩, false⟩

namespace TicketState

/-- The lock section of `register_waker`. -/
def saveWaker (st : TicketState R W) (waker : W) : TicketState R W :=
  { st with waker := some waker }

/-- The lock section of `try_take`: a cancelled ticket discards a late result. -/
def take (st : TicketState R W) : Option R × TicketState R W :=
  (if st.cancelled then none else st.result, { st with result := none })

/-- The lock section of `cancel` and of `Drop for HostCallTicket`. -/
def cancel (st : TicketState R W) : TicketState R W :=
  { st with cancelled := true, result := none }

/-- The first lock section of `complete`: a second result is refused. -/
def saveResult (st : TicketState R W) (result : R) : Option (TicketState R W) :=
  if st.result.isSome then none else some { st with result := some result }

end TicketState

/-! ## Calls and their steps -/

inductive Op (R W : Type)
  | registerWaker (waker : W)
  | tryTake
  | cancel
  | drop
  | complete (result : R)
deriving DecidableEq

/-- Where a call stands: the step it takes next, or what it returned. -/
inductive Pc (R W : Type)
  | saveWaker
  | recheckReady
  | wakeNew
  | saveResult
  | storeReady
  | readWaker
  | wakeRead (waker : Option W)
  | loadReady
  | takeLocked
  | cancelLocked
  | returned (taken : Option R)
deriving DecidableEq

/-- The first step of a call. -/
def Op.entry : Op R W → Pc R W
  | .registerWaker _ => .saveWaker
  | .tryTake => .loadReady
  | .cancel => .cancelLocked
  | .drop => .cancelLocked
  | .complete _ => .saveResult

def Op.isComplete : Op R W → Bool
  | .complete _ => true
  | _ => false

/-- A call. `afterClose` records whether a cancel or drop had returned when the
call started. -/
structure Call (R W : Type) where
  op : Op R W
  pc : Pc R W
  afterClose : Bool

/-- The call returned a result. -/
def Call.took (c : Call R W) : Prop := ∃ r, c.pc = .returned (some r)

/-- A wake of `waker`, with the ticket as it was at that moment and whether some
`try_take` had already returned the result. -/
structure WakeUp (R W : Type) where
  waker : W
  ticket : TicketShared R W
  alreadyTaken : Prop

/-- The ticket, all calls so far, and what the properties below observe of the
run: the call that consumed the completer, whether a cancel or drop has
returned, the wakes, the registration that saved its waker last and the one that
returned last, and whether two registrations ever overlapped. -/
structure TicketRun (R W : Type) where
  ticket : TicketShared R W
  calls : Nat → Option (Call R W)
  nextCall : Nat
  completer : Option Nat
  closed : Bool
  wakes : List (WakeUp R W)
  lastSaved : Option Nat
  lastReturned : Option Nat
  registering : Nat
  overlapped : Bool

namespace TicketRun

def new : TicketRun R W where
  ticket := newTicket
  calls := fun _ => none
  nextCall := 0
  completer := none
  closed := false
  wakes := []
  lastSaved := none
  lastReturned := none
  registering := 0
  overlapped := false

/-- Some call returned the result. -/
def Taken (s : TicketRun R W) : Prop := ∃ i c, s.calls i = some c ∧ c.took

/-- A new call of `op`. A `complete` consumes the completer. -/
def enter (s : TicketRun R W) (op : Op R W) : TicketRun R W :=
  { s with
    calls := Function.update s.calls s.nextCall (some ⟨op, op.entry, s.closed⟩)
    nextCall := s.nextCall + 1
    completer := if op.isComplete then some s.nextCall else s.completer }

/-- Start a call. Once the completer is consumed no other `complete` can start. -/
def begin (s : TicketRun R W) (op : Op R W) : Option (TicketRun R W) :=
  match op with
  | .registerWaker _ => some { s.enter op with
      registering := s.registering + 1
      overlapped := s.overlapped || decide (0 < s.registering) }
  | .complete _ => if s.completer.isSome then none else some (s.enter op)
  | _ => some (s.enter op)

def goto (s : TicketRun R W) (i : Nat) (c : Call R W) (pc : Pc R W) : TicketRun R W :=
  { s with calls := Function.update s.calls i (some { c with pc := pc }) }

def setState (s : TicketRun R W) (st : TicketState R W) : TicketRun R W :=
  { s with ticket := { s.ticket with state := st } }

def wake (s : TicketRun R W) (waker : W) : TicketRun R W :=
  { s with wakes := ⟨waker, s.ticket, s.Taken⟩ :: s.wakes }

/-- A registration returns. -/
def returnRegister (s : TicketRun R W) (i : Nat) (c : Call R W) : TicketRun R W :=
  { s.goto i c (.returned none) with
    lastReturned := some i, registering := s.registering - 1 }

/-- The next step of call `i`. -/
def advance (s : TicketRun R W) (i : Nat) : Option (TicketRun R W) :=
  match s.calls i with
  | none => none
  | some c =>
    match c.op, c.pc with
    | .registerWaker w, .saveWaker =>
      some { (s.setState (s.ticket.state.saveWaker w)).goto i c .recheckReady with
        lastSaved := some i }
    | .registerWaker _, .recheckReady =>
      if s.ticket.ready then some (s.goto i c .wakeNew) else some (s.returnRegister i c)
    | .registerWaker w, .wakeNew => some ((s.wake w).returnRegister i c)
    | .complete r, .saveResult =>
      match s.ticket.state.saveResult r with
      | none => some (s.goto i c (.returned none))
      | some st => some ((s.setState st).goto i c .storeReady)
    | .complete _, .storeReady =>
      some { s.goto i c .readWaker with ticket := { s.ticket with ready := true } }
    | .complete _, .readWaker => some (s.goto i c (.wakeRead s.ticket.state.waker))
    | .complete _, .wakeRead none => some (s.goto i c (.returned none))
    | .complete _, .wakeRead (some w) => some ((s.wake w).goto i c (.returned none))
    | .tryTake, .loadReady =>
      if s.ticket.ready then some (s.goto i c .takeLocked)
      else some (s.goto i c (.returned none))
    | .tryTake, .takeLocked =>
      some ((s.setState s.ticket.state.take.2).goto i c (.returned s.ticket.state.take.1))
    | .cancel, .cancelLocked =>
      some { (s.setState s.ticket.state.cancel).goto i c (.returned none) with closed := true }
    | .drop, .cancelLocked =>
      some { (s.setState s.ticket.state.cancel).goto i c (.returned none) with closed := true }
    | _, _ => none

end TicketRun

inductive TicketAction (R W : Type)
  | begin (op : Op R W)
  | advance (i : Nat)

/-- All interleavings of calls on one ticket. `hasDrop` says whether the ticket
type has a `Drop`. -/
def ticketSystem (R W : Type) (hasDrop : Bool) : System (TicketRun R W) (TicketAction R W) where
  init s := s = .new
  step s
    | .begin .drop => if hasDrop then s.begin .drop else none
    | .begin op => s.begin op
    | .advance i => s.advance i

/-- `HostCallTicket<T>` and its completer. -/
abbrev hostCallTicket (R W : Type) := ticketSystem R W true

/-- `AuditTicket` and its completer. -/
abbrev auditTicket (R W : Type) := ticketSystem R W false

/-! ## The laws -/

/-- A moment at which a `try_take` returns the result. -/
def WakeUp.Visible (k : WakeUp R W) : Prop :=
  k.ticket.ready = true ∧ k.ticket.state.cancelled = false ∧ k.ticket.state.result.isSome

/-- A moment at which a `try_take` returns the result, unless a cancel, a drop or
an earlier `try_take` has disposed of it. -/
def WakeUp.Settled (k : WakeUp R W) : Prop :=
  k.ticket.ready = true ∧
    (k.ticket.state.result.isSome ∨ k.ticket.state.cancelled = true ∨ k.alreadyTaken)

namespace TicketRun

/-- Where the call that consumed the completer stands. -/
def completerPc (s : TicketRun R W) : Option (Pc R W) :=
  s.completer.bind fun i => (s.calls i).map Call.pc

/-- `complete` has returned. -/
def Completed (s : TicketRun R W) : Prop := s.completerPc = some (.returned none)

/-- Call `i` registered `w` and has returned. -/
def Registered (s : TicketRun R W) (i : Nat) (w : W) : Prop :=
  ∃ c, s.calls i = some c ∧ c.op = .registerWaker w ∧ c.pc = .returned none

/-- What holds of the result: one `try_take` at most returns it, none that
started after a cancel or drop, and it is the result that was completed. -/
structure ResultLaw (s : TicketRun R W) : Prop where
  taken_once : ∀ i j c d, s.calls i = some c → s.calls j = some d → c.took → d.took → i = j
  not_after_close : ∀ i c, s.calls i = some c → c.afterClose = true → ¬ c.took
  taken_completed : ∀ i c r, s.calls i = some c → c.pc = .returned (some r) →
    ∃ j d, s.completer = some j ∧ s.calls j = some d ∧ d.op = .complete r

/-- The waker whose registration returned last is woken at a moment at which the
result is visible. -/
structure LastReturnedLaw (s : TicketRun R W) : Prop extends ResultLaw s where
  woken : s.Completed → ∀ i w, s.lastReturned = some i → s.Registered i w →
    ∃ k ∈ s.wakes, k.waker = w ∧ k.Visible

/-- The waker that was saved last is woken, at a moment at which the result is
visible or disposed of. Registrations that do not overlap return in the order in
which they save. -/
structure LastSavedLaw (s : TicketRun R W) : Prop extends ResultLaw s where
  woken : s.Completed → ∀ i w, s.lastSaved = some i → s.Registered i w →
    ∃ k ∈ s.wakes, k.waker = w ∧ k.Settled
  last_saved : s.overlapped = false → s.registering = 0 → s.lastSaved = s.lastReturned

end TicketRun

/-! ## Where the stronger law fails -/

/-- Registrations 0 and 1 overlap: 0 saves first and returns last. -/
def overlappingRegistrations : List (TicketAction Unit Bool) :=
  [.begin (.registerWaker false), .begin (.registerWaker true), .advance 0, .advance 1, .advance 1,
    .advance 0, .begin (.complete ()), .advance 2, .advance 2, .advance 2, .advance 2]

/-- A `try_take` returns the result after the flag is raised and before the
completer wakes. -/
def takenBeforeWake : List (TicketAction Unit Bool) :=
  [.begin (.registerWaker true), .advance 0, .advance 0, .begin (.complete ()), .advance 1,
    .advance 1, .begin .tryTake, .advance 2, .advance 2, .advance 1, .advance 1]

theorem last_returned_law_fails :
    (∃ s, Reach (hostCallTicket Unit Bool) anyStep s ∧ s.closed = false ∧ ¬ s.Taken ∧
      ¬ s.LastReturnedLaw) ∧
    (∃ s, Reach (hostCallTicket Unit Bool) anyStep s ∧ s.closed = false ∧ s.overlapped = false ∧
      ¬ s.LastReturnedLaw) := by
  constructor
  · refine ⟨_, reach_of_execute rfl overlappingRegistrations rfl, rfl, ?_, fun law => ?_⟩
    · rintro ⟨i, c, hc, r, hr⟩
      match i with
      | 0 | 1 | 2 => cases hc; cases hr
      | _ + 3 => cases hc
    · obtain ⟨k, hk, hw, _⟩ := law.woken rfl 0 false rfl ⟨_, rfl, rfl, rfl⟩
      obtain rfl := List.mem_singleton.mp hk
      cases hw
  · refine ⟨_, reach_of_execute rfl takenBeforeWake rfl, rfl, rfl, fun law => ?_⟩
    obtain ⟨k, hk, _, _, _, hresult⟩ := law.woken rfl 0 true rfl ⟨_, rfl, rfl, rfl⟩
    obtain rfl := List.mem_singleton.mp hk
    cases hresult

end Tsumugi.Host
