import Tsumugi.Budget.LedgerLaw
import Tsumugi.Lib.Transition

/-!
# Conservation of the budget ledger

A ledger in use: compound reservations, their commits and refunds, and the charge
functions, in any order and with any outcome. Beside the ledger runs a book of the
amounts that were reserved, settled and spent.

`reserve_all` compares each request with the limit on its own and adds them all
afterwards. Two requests for one resource can therefore pass and exceed the limit
together, or wrap the counter.

Results:
1. `conserved_book`: a call that heeds the condition keeps the book exact and every
   resource within its limit.
2. `reserveAll_iff`: for one compound reservation the condition is also necessary.
3. `ledger_conserves`: so for every run whose calls all heed the condition.
4. `doubled_request_overdraws`: one list with the same resource twice is enough to
   exceed the limit.
-/

namespace Tsumugi.Budget

open Transition LedgerLemmas

/-! ## Calls -/

/-- A charge function and its arguments. -/
inductive ChargeCall
  | fuel (amount : Nat)
  | collectionElements (candidate : Nat)
  | string (byteLen : Nat)
  | source (byteLen : Nat)
  | importModule (byteLen : Nat)
  | input (payloadBytes : Nat)
  | output (payloadBytes : Nat)
  | hostCallRequest (requestBytes : Nat)
  | hostResponse (responseBytes : Nat)
  | rendered (bytes : Nat)
  | heap (bytes : Nat)
  | newTracked (bytes : Nat)
  | newViaHandle (bytes : Nat)
  | releaseHeap (bytes : Nat)
  | dropTracked (bytes : Nat)
  | retrack (oldBytes newBytes : Nat)
deriving DecidableEq

namespace ChargeCall

def run (phase : ExecutionPhase) : ChargeCall → Charge Unit
  | fuel amount => Charge.chargeFuel amount phase
  | collectionElements candidate => Charge.checkCollectionElements candidate phase
  | string byteLen => Charge.chargeString byteLen phase
  | source byteLen => Charge.chargeSource byteLen phase
  | importModule byteLen => Charge.chargeImport byteLen phase
  | input payloadBytes => Charge.chargeInput payloadBytes phase
  | output payloadBytes => Charge.chargeOutput payloadBytes phase
  | hostCallRequest requestBytes => Charge.chargeHostCallRequest requestBytes phase
  | hostResponse responseBytes => Charge.chargeHostResponseBytes responseBytes phase
  | rendered bytes => Charge.checkRendered bytes phase
  | heap bytes => Charge.chargeHeap bytes phase
  | newTracked bytes => Charge.newTracked bytes phase
  | newViaHandle bytes => Charge.newViaHandle bytes phase
  | releaseHeap bytes => Charge.releaseHeap bytes
  | dropTracked bytes => Charge.dropTracked bytes
  | retrack oldBytes newBytes => Charge.retrack oldBytes newBytes phase

/-- What a charge function asks of the cumulative resources. -/
def requests : ChargeCall → List CumulativeRequest
  | fuel amount => [⟨.fuel, amount⟩]
  | string byteLen => [⟨.stringAllocations, 1⟩, ⟨.stringBytes, byteLen⟩]
  | source byteLen => [⟨.sourceCount, 1⟩, ⟨.sourceBytes, byteLen⟩]
  | importModule byteLen => [⟨.importCount, 1⟩, ⟨.importBytes, byteLen⟩]
  | input payloadBytes => [⟨.inputCalls, 1⟩, ⟨.inputBytes, payloadBytes⟩, ⟨.hostCalls, 1⟩,
      ⟨.hostResponseBytes, payloadBytes⟩, ⟨.hostCallBytes, payloadBytes⟩]
  | output payloadBytes => [⟨.outputCalls, 1⟩, ⟨.outputBytes, payloadBytes⟩, ⟨.hostCalls, 1⟩,
      ⟨.hostRequestBytes, payloadBytes⟩, ⟨.hostCallBytes, payloadBytes⟩]
  | hostCallRequest requestBytes => [⟨.hostCalls, 1⟩, ⟨.hostRequestBytes, requestBytes⟩,
      ⟨.hostCallBytes, requestBytes⟩]
  | hostResponse responseBytes => [⟨.hostResponseBytes, responseBytes⟩,
      ⟨.hostCallBytes, responseBytes⟩]
  | collectionElements _ | rendered _ | heap _ | newTracked _ | newViaHandle _ | releaseHeap _
  | dropTracked _ | retrack _ _ => []

end ChargeCall

/-- A call of the ledger by its owner. -/
inductive LedgerCall
  | reserveAll (requests : List CumulativeRequest) (phase : ExecutionPhase)
  | commit (resource : BudgetResource) (reservedAmount actual : Nat)
  | refund (resource : BudgetResource) (reservedAmount : Nat)
  | charge (call : ChargeCall) (phase : ExecutionPhase)
deriving DecidableEq

/-- The amounts of a compound request, if it is granted. -/
def granted (result : Except ControlStop Unit) (requests : List CumulativeRequest)
    (r : BudgetResource) : Nat :=
  match result with
  | .ok () => asked requests r
  | .error _ => 0

namespace LedgerCall

def run : LedgerCall → Charge Unit
  | reserveAll requests phase => Charge.reserveAll requests phase
  | commit resource reservedAmount actual => Charge.commit resource reservedAmount actual
  | refund resource reservedAmount => Charge.refund resource reservedAmount
  | charge call phase => call.run phase

/-- What a call reserves. -/
def taken (result : Except ControlStop Unit) : LedgerCall → BudgetResource → Nat
  | reserveAll requests _ => granted result requests
  | charge call _ => granted result call.requests
  | commit .. | refund .. => fun _ => 0

/-- What a call takes from the reservations: it is committed or released. -/
def settled (result : Except ControlStop Unit) : LedgerCall → BudgetResource → Nat
  | reserveAll .. => fun _ => 0
  | charge call _ => granted result call.requests
  | commit resource reservedAmount _ | refund resource reservedAmount =>
    asked [⟨resource, reservedAmount⟩]

/-- What a call commits. -/
def spent (result : Except ControlStop Unit) : LedgerCall → BudgetResource → Nat
  | reserveAll .. | refund .. => fun _ => 0
  | charge call _ => granted result call.requests
  | commit resource reservedAmount actual => asked [⟨resource, min actual reservedAmount⟩]

end LedgerCall

/-- A ledger with the book of its reservations. -/
structure BookedLedger where
  ledger : BudgetLedger
  taken : BudgetResource → Nat
  settled : BudgetResource → Nat
  spent : BudgetResource → Nat

/-- Make a call and write it into the book. -/
def LedgerCall.book (call : LedgerCall) (b : BookedLedger) : BookedLedger where
  ledger := (call.run.run b.ledger).2
  taken r := b.taken r + call.taken (call.run.run b.ledger).1 r
  settled r := b.settled r + call.settled (call.run.run b.ledger).1 r
  spent r := b.spent r + call.spent (call.run.run b.ledger).1 r

/-- A fresh ledger and an empty book. -/
def BookedLedger.fresh (config : BudgetConfig) (cancellation : Nat → Bool)
    (clock : Option (Nat → MonotonicInstant)) : BookedLedger where
  ledger := .fresh config cancellation clock
  taken _ := 0
  settled _ := 0
  spent _ := 0

/-- Every call is possible at any time; a refusal leaves the ledger to the next call. -/
def ledgerCalls : System BookedLedger LedgerCall where
  init b := ∃ config cancellation clock, b = .fresh config cancellation clock
  step b call := some (call.book b)

/-! ## The law and its condition -/

/-- Every resource is within its limit, and the sum of its counters within their type. -/
structure BudgetLedger.Within (l : BudgetLedger) : Prop where
  limit : ∀ r, l.committed.of r + l.reserved.of r ≤ l.config.limitOf r
  range : ∀ r, l.committed.of r + l.reserved.of r < r.modulus
  heap : l.heap.liveBytes ≤ l.heap.limit
  heapLimit : l.heap.limit = l.config.limitOf .heapBytes

/-- What was reserved is still reserved or was settled, and what was spent is committed. -/
structure BookedLedger.Conserved (b : BookedLedger) : Prop where
  within : b.ledger.Within
  reserved : ∀ r, r.isCumulative = true → b.ledger.reserved.of r + b.settled r = b.taken r
  committed : ∀ r, r.isCumulative = true → b.ledger.committed.of r = b.spent r

/-- A compound reservation reserves every request, or it changes no counter and names the
refused request of the smallest priority. -/
def AllOrNothing (requests : List CumulativeRequest) (phase : ExecutionPhase)
    (s : BudgetLedger) : Prop :=
  match (Charge.reserveAll requests phase).run s with
  | (.ok (), t) => t.committed = s.committed ∧
      ∀ r, r.isCumulative = true → t.reserved.of r = s.reserved.of r + asked requests r
  | (.error stop, t) => Untouched s t ∧ ∀ e, stop = .budgetExceeded e →
      (∃ q ∈ requests, s.reserveOne phase q = some e) ∧
      ∀ q ∈ requests, ∀ e', s.reserveOne phase q = some e' →
        e.resource.priority ≤ e'.resource.priority

/-- The token or the clock stops the next reservation. -/
def BudgetLedger.Due (l : BudgetLedger) : Prop :=
  l.cancellation l.reads = true ∨
    ∃ clock, l.clock = some clock ∧ l.config.deadline.ns ≤ (clock (l.reads + 1)).ns

/-- Commits and refunds settle what is reserved, as `move_to_committed` leaves to its caller. -/
def SettlesReserved (b : BookedLedger) : LedgerCall → Prop
  | .commit resource reservedAmount _ | .refund resource reservedAmount =>
    resource.isCumulative = true → reservedAmount ≤ b.ledger.reserved.of resource
  | .reserveAll .. | .charge .. => True

/-- Requests that pass on their own also pass added up, resource by resource. -/
def BudgetLedger.AddsUp (l : BudgetLedger) (requests : List CumulativeRequest)
    (phase : ExecutionPhase) : Prop :=
  l.Due ∨ (∃ q ∈ requests, l.reserveOne phase q ≠ none) ∨
    ∀ r, r.isCumulative = true → l.reserveOne phase ⟨r, asked requests r⟩ = none

/-- The condition on a call. -/
def Heeds (b : BookedLedger) (call : LedgerCall) : Prop :=
  SettlesReserved b call ∧
    ∀ requests phase, call = .reserveAll requests phase → b.ledger.AddsUp requests phase

namespace ConservationLemmas

/-! ## Ledgers within their limits -/

theorem within_fresh (config : BudgetConfig) (cancellation : Nat → Bool)
    (clock : Option (Nat → MonotonicInstant)) :
    (BudgetLedger.fresh config cancellation clock).Within := by
  have hzero : ∀ r, ({} : BudgetCounters).of r + ({} : BudgetCounters).of r = 0 := fun r => by
    rw [BudgetCounters.of_empty]
  refine ⟨fun r => ?_, fun r => ?_, Nat.zero_le _, rfl⟩
  · show ({} : BudgetCounters).of r + ({} : BudgetCounters).of r ≤ _
    rw [hzero]
    exact Nat.zero_le _
  · show ({} : BudgetCounters).of r + ({} : BudgetCounters).of r < _
    rw [hzero]
    exact r.modulus_pos

theorem within_untouched {s t : BudgetLedger} (h : Untouched s t) (hs : s.Within) : t.Within := by
  refine ⟨fun r => ?_, fun r => ?_, ?_, ?_⟩
  · rw [h.committed, h.reserved, h.config]
    exact hs.limit r
  · rw [h.committed, h.reserved]
    exact hs.range r
  · rw [h.heap]
    exact hs.heap
  · rw [h.heap, h.config]
    exact hs.heapLimit

theorem reserveOne_eq_none {l : BudgetLedger} {phase : ExecutionPhase} {q : CumulativeRequest}
    (hlimit : l.committed.of q.resource + l.reserved.of q.resource + q.amount ≤
      l.config.limitOf q.resource)
    (hrange : l.committed.of q.resource + l.reserved.of q.resource + q.amount <
      q.resource.modulus) : l.reserveOne phase q = none := by
  have hmax := BudgetResource.lt_maxU64 hrange
  have hused : Word.checkedAdd (l.committed.of q.resource) (l.reserved.of q.resource) =
      some (l.committed.of q.resource + l.reserved.of q.resource) :=
    Word.checkedAdd_eq_some.mpr ⟨by omega, rfl⟩
  have htotal : Word.checkedAdd (l.committed.of q.resource + l.reserved.of q.resource) q.amount =
      some (l.committed.of q.resource + l.reserved.of q.resource + q.amount) :=
    Word.checkedAdd_eq_some.mpr ⟨hmax, rfl⟩
  unfold BudgetLedger.reserveOne
  simp only [hused, Option.bind_some, htotal, if_pos hlimit]

/-! ## Compound reservations -/

theorem checkCancel_run (l : BudgetLedger) :
    Charge.checkCancel.run l =
      (if l.cancellation l.reads then .error .cancelled else .ok (),
        { l with reads := l.reads + 1 }) := by
  show (if l.cancellation l.reads then (Proc.stop .cancelled : Charge Unit)
    else pure ()).run { l with reads := l.reads + 1 } = _
  split <;> rfl

/-- A reservation that is due stops before anything is compared. -/
theorem reserveAll_due {s : BudgetLedger} (h : s.Due) (requests : List CumulativeRequest)
    (phase : ExecutionPhase) :
    ∃ stop t, (Charge.reserveAll requests phase).run s = (.error stop, t) := by
  unfold Charge.reserveAll
  cases hcancel : s.cancellation s.reads with
  | true =>
    have hrun := checkCancel_run s
    rw [hcancel, if_pos rfl] at hrun
    exact ⟨_, _, Proc.bind_run_error hrun⟩
  | false =>
    have hrun := checkCancel_run s
    rw [hcancel, if_neg (by simp)] at hrun
    rw [Proc.bind_run_ok hrun]
    obtain hdue | ⟨clock, hclock, hle⟩ := h
    · rw [hcancel] at hdue
      cases hdue
    · have hdeadline : Charge.checkDeadline.run { s with reads := s.reads + 1 } =
          (.error (.deadlineExceeded s.config.deadline (clock (s.reads + 1))),
            { s with reads := s.reads + 1 + 1 }) := by
        simp only [Charge.checkDeadline, Proc.bind_run, Proc.gets_run, id, hclock,
          Proc.modify_run, if_pos (ge_iff_le.mpr hle), Proc.stop_run]
      exact ⟨_, _, Proc.bind_run_error hdeadline⟩

/-- A reservation that is not due is granted when nothing stands in the way. -/
theorem reserveAll_granted {s : BudgetLedger} (h : ¬ s.Due)
    {requests : List CumulativeRequest} {phase : ExecutionPhase}
    (hrefusal : s.refusal phase requests = none) :
    ∃ t, (Charge.reserveAll requests phase).run s = (.ok (), t) := by
  obtain ⟨hcancel, hclock⟩ := not_or.mp h
  have hrun := checkCancel_run s
  rw [if_neg hcancel] at hrun
  have hdeadline : ∃ u, Charge.checkDeadline.run { s with reads := s.reads + 1 } = (.ok (), u) ∧
      Untouched s u := by
    unfold Charge.checkDeadline
    rcases hsome : s.clock with _ | clock
    · refine ⟨{ s with reads := s.reads + 1 }, ?_, ⟨rfl, rfl, rfl, rfl, rfl⟩⟩
      simp only [Proc.bind_run, Proc.gets_run, id, hsome, Proc.pure_run]
    · have hlt : ¬ (clock (s.reads + 1)).ns ≥ s.config.deadline.ns := fun hle =>
        hclock ⟨clock, hsome, hle⟩
      refine ⟨{ s with reads := s.reads + 1 + 1 }, ?_, ⟨rfl, rfl, rfl, rfl, rfl⟩⟩
      simp only [Proc.bind_run, Proc.gets_run, id, hsome, Proc.modify_run, if_neg hlt,
        Proc.pure_run]
  obtain ⟨u, hu, hsu⟩ := hdeadline
  refine ⟨requests.foldl BudgetLedger.addReserved u, ?_⟩
  unfold Charge.reserveAll
  rw [Proc.bind_run_ok hrun, Proc.bind_run_ok hu]
  simp only [Proc.bind_run, Proc.gets_run, hsu.refusal, hrefusal, Proc.modify_run]

/-- What a reservation that is granted has added, where the requests add up. -/
theorem addsUp_granted {s t u : BudgetLedger} {requests : List CumulativeRequest}
    {phase : ExecutionPhase} (hs : s.Within) (hsu : Untouched s u)
    (ht : t = requests.foldl BudgetLedger.addReserved u)
    (hadds : ∀ r, r.isCumulative = true → s.reserveOne phase ⟨r, asked requests r⟩ = none) :
    t.Within ∧ t.committed = s.committed ∧
      ∀ r, r.isCumulative = true → t.reserved.of r = s.reserved.of r + asked requests r := by
  have hfits : ∀ r, r.isCumulative = true →
      s.committed.of r + s.reserved.of r + asked requests r ≤ s.config.limitOf r ∧
      s.committed.of r + s.reserved.of r + asked requests r < r.modulus :=
    fun r hr => reserveOne_none (hadds r hr)
  obtain ⟨hcommitted, hheap, -, hconfig, hreserved⟩ := addReserved_all requests u fun r hr => by
    rw [hsu.reserved]
    have := (hfits r hr).2
    omega
  rw [hsu.reserved] at hreserved
  subst ht
  refine ⟨⟨fun r => ?_, fun r => ?_, ?_, ?_⟩, hcommitted.trans hsu.committed, hreserved⟩
  · rw [hcommitted, hsu.committed, hconfig, hsu.config]
    cases hr : r.isCumulative with
    | false =>
      rw [BudgetCounters.of_eq_zero _ hr, BudgetCounters.of_eq_zero _ hr]
      exact Nat.zero_le _
    | true =>
      rw [hreserved r hr, ← Nat.add_assoc]
      exact (hfits r hr).1
  · rw [hcommitted, hsu.committed]
    cases hr : r.isCumulative with
    | false =>
      rw [BudgetCounters.of_eq_zero _ hr, BudgetCounters.of_eq_zero _ hr]
      exact r.modulus_pos
    | true =>
      rw [hreserved r hr, ← Nat.add_assoc]
      exact (hfits r hr).2
  · rw [hheap, hsu.heap]
    exact hs.heap
  · rw [hheap, hsu.heap, hconfig, hsu.config]
    exact hs.heapLimit

/-- What a compound reservation does where the requests add up. -/
theorem reserveAll_spec {s : BudgetLedger} (hs : s.Within) {requests : List CumulativeRequest}
    {phase : ExecutionPhase} (hadds : s.AddsUp requests phase) :
    AllOrNothing requests phase s ∧ ((Charge.reserveAll requests phase).run s).2.Within := by
  have hreserves := reserves_reserveAll requests phase s
  unfold AllOrNothing
  rcases hrun : (Charge.reserveAll requests phase).run s with ⟨stop | ⟨⟩, t⟩ <;>
    rw [hrun] at hreserves
  · exact ⟨⟨hreserves.1, fun e he => refusal_some (hreserves.2 e he)⟩,
      within_untouched hreserves.1 hs⟩
  · obtain ⟨hrefusal, u, hsu, ht⟩ := hreserves
    obtain hdue | ⟨q, hq, hone⟩ | hadds := hadds
    · obtain ⟨stop, v, hstop⟩ := reserveAll_due hdue requests phase
      rw [hrun] at hstop
      cases hstop
    · exact absurd (refusal_none hrefusal q hq) hone
    · obtain ⟨hwithin, hcommitted, hreserved⟩ := addsUp_granted hs hsu ht hadds
      exact ⟨⟨hcommitted, hreserved⟩, hwithin⟩

theorem refusal_eq_none {l : BudgetLedger} {phase : ExecutionPhase}
    {requests : List CumulativeRequest} (h : ∀ q ∈ requests, l.reserveOne phase q = none) :
    l.refusal phase requests = none := by
  unfold BudgetLedger.refusal
  induction requests with
  | nil => rfl
  | cons q rest ih =>
    rw [List.foldl_cons, h q List.mem_cons_self]
    exact ih fun p hp => h p (List.mem_cons_of_mem _ hp)

/-- For one compound reservation the condition is exact. -/
theorem reserveAll_iff {s : BudgetLedger} (hs : s.Within) (requests : List CumulativeRequest)
    (phase : ExecutionPhase) :
    (AllOrNothing requests phase s ∧ ((Charge.reserveAll requests phase).run s).2.Within) ↔
      s.AddsUp requests phase := by
  refine ⟨fun ⟨hatomic, hwithin⟩ => ?_, reserveAll_spec hs⟩
  by_contra hadds
  obtain ⟨hdue, hadds⟩ := not_or.mp hadds
  obtain ⟨hone, hadds⟩ := not_or.mp hadds
  have hrefusal : s.refusal phase requests = none :=
    refusal_eq_none fun q hq => by_contra fun hne => hone ⟨q, hq, hne⟩
  have hreserves := reserves_reserveAll requests phase s
  obtain ⟨t, hrun⟩ := reserveAll_granted hdue hrefusal
  simp only [AllOrNothing, hrun] at hatomic hwithin
  rw [hrun] at hreserves
  obtain ⟨-, u, hsu, rfl⟩ := hreserves
  -- the configuration is that of the ledger before
  have hconfig : ∀ (requests : List CumulativeRequest) (l : BudgetLedger),
      (requests.foldl BudgetLedger.addReserved l).config = l.config := fun requests => by
    induction requests with
    | nil => exact fun l => rfl
    | cons q rest ih => exact fun l => ih _
  refine hadds fun r hr => reserveOne_eq_none ?_ ?_
  · have := hwithin.limit r
    rw [hatomic.1, hatomic.2 r hr, hconfig, hsu.config, ← Nat.add_assoc] at this
    exact this
  · have := hwithin.range r
    rw [hatomic.1, hatomic.2 r hr, ← Nat.add_assoc] at this
    exact this

/-! ## Charges -/

/-- What a charge function does to the counters. -/
structure Charged (requests : List CumulativeRequest) (r : Except ControlStop Unit)
    (s t : BudgetLedger) : Prop where
  within : t.Within
  reserved : ∀ r, t.reserved.of r = s.reserved.of r
  committed : ∀ r', t.committed.of r' = s.committed.of r' + granted r requests r'

/-- A charge function that asks for `requests`. -/
def Charges (requests : List CumulativeRequest) (m : Charge Unit) : Prop :=
  Proc.Ends (fun r s t => s.Within → Charged requests r s t) m

/-- A call that keeps the cumulative counters, and live heap within its limit. -/
def counted : Proc.Contract BudgetLedger ControlStop where
  rel _ s t := s.Within → t.Within ∧ t.committed = s.committed ∧ t.reserved = s.reserved
  refl _ hs := ⟨hs, rfl, rfl⟩
  trans h h' hs := by
    obtain ⟨ht, hcommitted, hreserved⟩ := h hs
    obtain ⟨hu, hcommitted', hreserved'⟩ := h' ht
    exact ⟨hu, hcommitted'.trans hcommitted, hreserved'.trans hreserved⟩

theorem counted_of_untouched {α : Type} {m : Charge α} (h : Proc.Meets untouched m) :
    Proc.Meets counted m :=
  Proc.Ends.mono h fun h hs => ⟨within_untouched h hs, h.committed, h.reserved⟩

theorem counted_checkCancel : Proc.Meets counted Charge.checkCancel :=
  counted_of_untouched (untouched_of_unlimited unlimited_checkCancel)

theorem counted_checkDeadline : Proc.Meets counted Charge.checkDeadline :=
  counted_of_untouched (untouched_of_unlimited unlimited_checkDeadline)

theorem granted_nil (result : Except ControlStop Unit) (r : BudgetResource) :
    granted result [] r = 0 := by
  rcases result with stop | ⟨⟩ <;> rfl

theorem charges_of_counted {m : Charge Unit} (h : Proc.Meets counted m) : Charges [] m := by
  refine Proc.Ends.mono h fun h hs => ?_
  obtain ⟨ht, hcommitted, hreserved⟩ := h hs
  exact ⟨ht, fun r => by rw [hreserved], fun r => by rw [hcommitted, granted_nil, Nat.add_zero]⟩

/-- Reading first changes nothing about what is charged. -/
theorem charges_bind {α : Type} {requests : List CumulativeRequest} {m : Charge α}
    {f : α → Charge Unit} (hm : Proc.Meets counted m) (hf : ∀ a, Charges requests (f a)) :
    Charges requests (m >>= f) := by
  refine Proc.ends_bind hm hf (fun h h' hs => ?_) fun h hs => ?_
  · obtain ⟨ht, hcommitted, hreserved⟩ := h hs
    have := h' ht
    exact ⟨this.within, fun r => by rw [this.reserved, hreserved],
      fun r => by rw [this.committed, hcommitted]⟩
  · obtain ⟨ht, hcommitted, hreserved⟩ := h hs
    exact ⟨ht, fun r => by rw [hreserved], fun r => by rw [hcommitted]; rfl⟩

theorem charges_stop (requests : List CumulativeRequest) (stop : ControlStop) :
    Charges requests (Proc.stop stop) :=
  fun _ hs => ⟨hs, fun _ => rfl, fun _ => rfl⟩

theorem charges_chargeAll {requests : List CumulativeRequest} (h : Proper requests)
    (phase : ExecutionPhase) : Charges requests (Charge.chargeAll requests phase) := by
  intro s hs
  have hcharges := chargesAll_chargeAll h phase s hs.range
  rcases hrun : (Charge.chargeAll requests phase).run s with ⟨stop | ⟨⟩, t⟩ <;>
    rw [hrun] at hcharges
  · exact ⟨within_untouched hcharges hs, fun r => by rw [hcharges.reserved],
      fun r => by rw [hcharges.committed]; rfl⟩
  · refine ⟨⟨fun r => ?_, hcharges.range, ?_, ?_⟩, hcharges.reserved, hcharges.committed⟩
    · rw [hcharges.config]
      exact hcharges.limit r (hs.limit r)
    · rw [hcharges.heap]
      exact hs.heap
    · rw [hcharges.heap, hcharges.config]
      exact hs.heapLimit

/-- A peak may be written after a charge. -/
theorem charges_peaks {requests : List CumulativeRequest} {m : Charge Unit}
    (h : Charges requests m) (f : BudgetLedger → BudgetPeaks) :
    Charges requests (m >>= fun _ => Proc.modify fun l => { l with peaks := f l }) := by
  intro s hs
  have hm := h s hs
  rcases hrun : m.run s with ⟨stop | ⟨⟩, t⟩ <;> rw [hrun] at hm
  · rw [Proc.bind_run_error hrun]
    exact hm
  · rw [Proc.bind_run_ok hrun]
    have htouched := untouched_peaks f t
    exact ⟨within_untouched htouched hm.within, hm.reserved, hm.committed⟩

theorem charges_perItem {requests : List CumulativeRequest} {within : Charge Unit}
    (h : Charges requests within) (r : BudgetResource) (candidate : Nat)
    (phase : ExecutionPhase) : Charges requests (Charge.perItem r candidate phase within) := by
  refine charges_bind (Proc.meets_gets _) fun limit => ?_
  split
  · exact charges_bind counted_checkCancel fun _ => charges_stop _ _
  · exact h

/-! ## Live heap -/

theorem counted_onHeap {f : AllocationLedger → Except ControlStop AllocationLedger}
    (h : ∀ heap heap', f heap = .ok heap' → heap.liveBytes ≤ heap.limit →
      heap'.liveBytes ≤ heap'.limit ∧ heap'.limit = heap.limit) :
    Proc.Meets counted (Charge.onHeap f) := by
  intro s hs
  rcases hf : f s.heap with stop | heap
  · rw [onHeap_error hf]
    exact ⟨hs, rfl, rfl⟩
  · rw [onHeap_ok hf]
    obtain ⟨hle, hlimit⟩ := h _ _ hf hs.heap
    exact ⟨⟨hs.limit, hs.range, hle, hlimit.trans hs.heapLimit⟩, rfl, rfl⟩

theorem counted_heapChargeRaw (bytes : Nat) (phase : ExecutionPhase) :
    Proc.Meets counted (Charge.heapChargeRaw bytes phase) := by
  refine counted_onHeap fun heap heap' hcharge _ => ?_
  unfold AllocationLedger.charge at hcharge
  split at hcharge
  next total htotal =>
    split at hcharge
    next hle =>
      cases hcharge
      exact ⟨hle, rfl⟩
    next => cases hcharge
  next => cases hcharge

theorem counted_chargeHeap (bytes : Nat) (phase : ExecutionPhase) :
    Proc.Meets counted (Charge.chargeHeap bytes phase) :=
  Proc.meets_bind counted_checkCancel fun _ => Proc.meets_bind counted_checkDeadline fun _ =>
    counted_heapChargeRaw bytes phase

theorem counted_allocateHeapId : Proc.Meets counted Charge.allocateHeapId := by
  refine counted_onHeap fun heap heap' hid hle => ?_
  unfold AllocationLedger.allocateId at hid
  split at hid <;> cases hid
  exact ⟨hle, rfl⟩

/-- What is released can only bring live heap down. -/
theorem within_release {s t : BudgetLedger} (bytes : Nat) (hs : s.Within)
    (hconfig : t.config = s.config) (hcommitted : t.committed = s.committed)
    (hreserved : t.reserved = s.reserved) (hheap : t.heap = s.heap.release bytes) :
    t.Within ∧ t.committed = s.committed ∧ t.reserved = s.reserved := by
  refine ⟨⟨fun r => ?_, fun r => ?_, ?_, ?_⟩, hcommitted, hreserved⟩
  · rw [hcommitted, hreserved, hconfig]
    exact hs.limit r
  · rw [hcommitted, hreserved]
    exact hs.range r
  · rw [hheap]
    exact Nat.le_trans (Nat.sub_le _ _) hs.heap
  · rw [hheap, hconfig]
    exact hs.heapLimit

theorem counted_releaseHeap (bytes : Nat) : Proc.Meets counted (Charge.releaseHeap bytes) := by
  intro s hs
  simp only [Charge.releaseHeap, Proc.modify_run]
  split <;> exact within_release bytes hs rfl rfl rfl rfl

theorem counted_dropTracked (bytes : Nat) : Proc.Meets counted (Charge.dropTracked bytes) :=
  fun _ hs => within_release bytes hs rfl rfl rfl rfl

/-! ## Every call -/

theorem charges_run (call : ChargeCall) (phase : ExecutionPhase) :
    Charges call.requests (call.run phase) := by
  cases call with
  | fuel amount => exact charges_chargeAll (proper_single amount) phase
  | collectionElements candidate =>
    refine charges_of_counted (Proc.meets_bind counted_checkCancel fun _ => ?_)
    refine Proc.meets_bind (Proc.meets_gets _) fun limit => ?_
    exact Proc.meets_ite (Proc.meets_stop fun _ hs => ⟨hs, rfl, rfl⟩)
      (counted_of_untouched (untouched_peaks _))
  | string byteLen =>
    exact charges_perItem
      (charges_peaks (charges_chargeAll (proper_pair (by decide) rfl rfl byteLen) phase) _) _ _ _
  | source byteLen =>
    exact charges_perItem
      (charges_peaks (charges_chargeAll (proper_pair (by decide) rfl rfl byteLen) phase) _) _ _ _
  | importModule byteLen => exact charges_chargeAll (proper_pair (by decide) rfl rfl byteLen) phase
  | input payloadBytes =>
    refine charges_chargeAll ?_ phase
    simp [Proper, ChargeCall.requests, BudgetResource.isCumulative]
  | output payloadBytes =>
    refine charges_chargeAll ?_ phase
    simp [Proper, ChargeCall.requests, BudgetResource.isCumulative]
  | hostCallRequest requestBytes =>
    refine charges_chargeAll ?_ phase
    simp [Proper, ChargeCall.requests, BudgetResource.isCumulative]
  | hostResponse responseBytes =>
    refine charges_chargeAll ?_ phase
    simp [Proper, ChargeCall.requests, BudgetResource.isCumulative]
  | rendered bytes =>
    exact charges_perItem (charges_of_counted (Proc.meets_pure ())) _ _ _
  | heap bytes => exact charges_of_counted (counted_chargeHeap bytes phase)
  | newTracked bytes =>
    exact charges_of_counted
      (Proc.meets_bind (counted_chargeHeap bytes phase) fun _ => counted_allocateHeapId)
  | newViaHandle bytes =>
    exact charges_of_counted
      (Proc.meets_bind (counted_heapChargeRaw bytes phase) fun _ => counted_allocateHeapId)
  | releaseHeap bytes => exact charges_of_counted (counted_releaseHeap bytes)
  | dropTracked bytes => exact charges_of_counted (counted_dropTracked bytes)
  | retrack oldBytes newBytes =>
    refine charges_of_counted (Proc.meets_ite (counted_chargeHeap _ phase) ?_)
    exact Proc.meets_ite (counted_releaseHeap _) (Proc.meets_pure ())

/-- Settling what is reserved, and committing at most that much. -/
theorem moveToCommitted_within {s : BudgetLedger} (hs : s.Within) {resource : BudgetResource}
    {settled spent : Nat} (hspent : spent ≤ settled)
    (hsettled : resource.isCumulative = true → settled ≤ s.reserved.of resource) :
    (s.moveToCommitted resource settled spent).Within ∧
      (∀ r, r.isCumulative = true →
        (s.moveToCommitted resource settled spent).committed.of r =
          s.committed.of r + asked [⟨resource, spent⟩] r) ∧
      ∀ r, r.isCumulative = true →
        (s.moveToCommitted resource settled spent).reserved.of r +
          asked [⟨resource, settled⟩] r = s.reserved.of r := by
  have hsingle : ∀ amount r, asked [⟨resource, amount⟩] r = if resource = r then amount else 0 :=
    fun amount r => by simp [asked]
  have hheld : resource.isCumulative = true →
      settled ≤ s.reserved.of resource ∧ s.reserved.of resource < resource.modulus :=
    fun hr => ⟨hsettled hr, by have := hs.range resource; omega⟩
  have hroom : resource.isCumulative = true →
      s.committed.of resource + spent < resource.modulus := by
    intro hr
    have := hs.range resource
    have := hsettled hr
    omega
  obtain ⟨hcommitted, hreserved⟩ := moveToCommitted_of s hheld hroom
  -- the sum of the two counters does not grow
  have hsum : ∀ r, (s.moveToCommitted resource settled spent).committed.of r +
      (s.moveToCommitted resource settled spent).reserved.of r ≤
        s.committed.of r + s.reserved.of r := by
    intro r
    cases hr : r.isCumulative with
    | false => simp only [BudgetCounters.of_eq_zero _ hr, Nat.le_refl]
    | true =>
      rw [hcommitted r hr, hreserved r hr]
      by_cases heq : resource = r
      · subst heq
        have := hsettled hr
        rw [if_pos rfl, if_pos rfl]
        omega
      · rw [if_neg heq, if_neg heq]
        omega
  refine ⟨⟨fun r => Nat.le_trans (hsum r) (hs.limit r),
    fun r => Nat.lt_of_le_of_lt (hsum r) (hs.range r), hs.heap, hs.heapLimit⟩,
    fun r hr => by rw [hcommitted r hr, hsingle], fun r hr => ?_⟩
  rw [hreserved r hr, hsingle]
  by_cases heq : resource = r
  · subst heq
    have := hsettled hr
    rw [if_pos rfl]
    omega
  · rw [if_neg heq, Nat.sub_zero, Nat.add_zero]

theorem within_note {l : BudgetLedger} (h : l.Within) (n : Audit.Note) : (l.note n).Within :=
  ⟨h.limit, h.range, h.heap, h.heapLimit⟩

/-- A call that heeds the condition keeps the book. -/
theorem conserved_book {b : BookedLedger} (h : b.Conserved) {call : LedgerCall}
    (hheeds : Heeds b call) : (call.book b).Conserved := by
  cases call with
  | reserveAll requests phase =>
    obtain ⟨hatomic, hwithin⟩ := reserveAll_spec h.within (hheeds.2 requests phase rfl)
    simp only [AllOrNothing] at hatomic
    refine ⟨hwithin, fun r hr => ?_, fun r hr => ?_⟩ <;>
      rcases hrun : (Charge.reserveAll requests phase).run b.ledger with ⟨stop | ⟨⟩, t⟩ <;>
      rw [hrun] at hatomic <;>
      simp only [LedgerCall.book, LedgerCall.run, LedgerCall.taken, LedgerCall.settled,
        LedgerCall.spent, granted, hrun, Nat.add_zero]
    · rw [hatomic.1.reserved]
      exact h.reserved r hr
    · have := h.reserved r hr
      rw [hatomic.2 r hr]
      omega
    · rw [hatomic.1.committed]
      exact h.committed r hr
    · rw [hatomic.1]
      exact h.committed r hr
  | commit resource reservedAmount actual =>
    obtain ⟨hwithin, hcommitted, hreserved⟩ :=
      moveToCommitted_within h.within (Nat.min_le_right actual reservedAmount) hheeds.1
    -- the note of a commit is not seen by the law
    have hledger : ∃ t, (LedgerCall.commit resource reservedAmount actual).run.run b.ledger =
        (.ok (), t) ∧ t.Within ∧
        t.committed = (b.ledger.moveToCommitted resource reservedAmount
          (min actual reservedAmount)).committed ∧
        t.reserved = (b.ledger.moveToCommitted resource reservedAmount
          (min actual reservedAmount)).reserved := by
      simp only [LedgerCall.run, Charge.commit, Proc.modify_run]
      split
      · exact ⟨_, rfl, within_note hwithin _, rfl, rfl⟩
      · exact ⟨_, rfl, hwithin, rfl, rfl⟩
    obtain ⟨t, hrun, ht, htc, htr⟩ := hledger
    refine ⟨by simpa only [LedgerCall.book, hrun] using ht, fun r hr => ?_, fun r hr => ?_⟩ <;>
      simp only [LedgerCall.book, LedgerCall.taken, LedgerCall.settled, LedgerCall.spent, hrun,
        htc, htr]
    · have := h.reserved r hr
      have := hreserved r hr
      omega
    · rw [hcommitted r hr, h.committed r hr]
  | refund resource reservedAmount =>
    obtain ⟨hwithin, hcommitted, hreserved⟩ :=
      moveToCommitted_within h.within (Nat.zero_le reservedAmount) hheeds.1
    refine ⟨hwithin, fun r hr => ?_, fun r hr => ?_⟩ <;>
      simp only [LedgerCall.book, LedgerCall.run, LedgerCall.taken, LedgerCall.settled,
        LedgerCall.spent, Charge.refund, Proc.modify_run]
    · have := h.reserved r hr
      have := hreserved r hr
      omega
    · rw [hcommitted r hr, h.committed r hr]
      simp [asked]
  | charge call phase =>
    have hcharged := charges_run call phase b.ledger h.within
    refine ⟨hcharged.within, fun r hr => ?_, fun r hr => ?_⟩ <;>
      simp only [LedgerCall.book, LedgerCall.run, LedgerCall.taken, LedgerCall.settled,
        LedgerCall.spent]
    · have := h.reserved r hr
      rw [hcharged.reserved]
      omega
    · rw [hcharged.committed, h.committed r hr]

theorem conserved_fresh (config : BudgetConfig) (cancellation : Nat → Bool)
    (clock : Option (Nat → MonotonicInstant)) :
    (BookedLedger.fresh config cancellation clock).Conserved :=
  ⟨within_fresh config cancellation clock, fun r _ => BudgetCounters.of_empty r,
    fun r _ => BudgetCounters.of_empty r⟩

end ConservationLemmas

open ConservationLemmas

/-- In every run whose calls heed the condition, each resource stays within its limit, the
counters are exactly what was reserved, settled and spent, and the next compound reservation
that heeds it is all or nothing. -/
theorem ledger_conserves {b : BookedLedger} (h : Reach ledgerCalls Heeds b) :
    b.Conserved ∧ ∀ requests phase, b.ledger.AddsUp requests phase →
      AllOrNothing requests phase b.ledger := by
  have hconserved : b.Conserved := by
    refine h.invariant ?_ ?_
    · rintro s ⟨config, cancellation, clock, rfl⟩
      exact conserved_fresh config cancellation clock
    · intro s call t hs hheeds hstep
      cases hstep
      exact conserved_book hs hheeds
  exact ⟨hconserved, fun requests phase hadds => (reserveAll_spec hconserved.within hadds).1⟩

/-! ## Concrete runs -/

/-- Ten of every resource. -/
def tenOfEach : BudgetConfig :=
  ⟨1, 10, 10, 10, 10, 10, 10, 10, 10, 10, 10, 10, 10, 10, 10, 10, 10, 10, 10, 10, ⟨1, 1000⟩,
    ten_lt_u32, ten_lt_u32⟩

def tenFresh : BookedLedger := .fresh tenOfEach (fun _ => false) none

theorem tenFresh_init : ledgerCalls.init tenFresh := ⟨tenOfEach, _, none, rfl⟩

/-- A reservation of two resources. -/
def reservesTwo : LedgerCall := .reserveAll [⟨.fuel, 2⟩, ⟨.outputCalls, 3⟩] .run

/-- The reservation is committed in part and refunded, and a string is charged. -/
def settlesTwo : BookedLedger :=
  (LedgerCall.charge (.string 5) .run).book
    ((LedgerCall.refund .outputCalls 3).book
      ((LedgerCall.commit .fuel 2 1).book (reservesTwo.book tenFresh)))

theorem settlesTwo_conserves :
    settlesTwo.Conserved ∧ AllOrNothing [⟨.fuel, 9⟩] .run settlesTwo.ledger := by
  have hadds : tenFresh.ledger.AddsUp [⟨.fuel, 2⟩, ⟨.outputCalls, 3⟩] .run := by
    refine .inr (.inr fun r _ => ?_)
    cases r <;> rfl
  have hreserve : Heeds tenFresh reservesTwo :=
    ⟨trivial, fun requests phase h => by cases h; exact hadds⟩
  have hcommit : Heeds (reservesTwo.book tenFresh) (.commit .fuel 2 1) :=
    ⟨fun _ => by decide, nofun⟩
  have hrefund : Heeds ((LedgerCall.commit .fuel 2 1).book (reservesTwo.book tenFresh))
      (.refund .outputCalls 3) := ⟨fun _ => by decide, nofun⟩
  have hcharge : Heeds ((LedgerCall.refund .outputCalls 3).book
      ((LedgerCall.commit .fuel 2 1).book (reservesTwo.book tenFresh)))
      (.charge (.string 5) .run) := ⟨trivial, nofun⟩
  have hreach : Reach ledgerCalls Heeds settlesTwo :=
    ((((Reach.init tenFresh_init).step hreserve rfl).step hcommit rfl).step hrefund
      rfl).step hcharge rfl
  obtain ⟨hconserved, hatomic⟩ := ledger_conserves hreach
  refine ⟨hconserved, hatomic _ _ (.inr (.inr fun r _ => ?_))⟩
  cases r <;> rfl

/-- A list with the same resource twice. -/
def doubledRequest : LedgerCall := .reserveAll [⟨.fuel, 6⟩, ⟨.fuel, 6⟩] .run

/-- Each request passes on its own, and twelve of ten are reserved. -/
theorem doubled_request_overdraws :
    ¬ ∀ b, Reach ledgerCalls SettlesReserved b →
      b.Conserved ∧ ∀ requests phase, AllOrNothing requests phase b.ledger := by
  intro h
  have hsettles : SettlesReserved tenFresh doubledRequest := trivial
  have hreach : Reach ledgerCalls SettlesReserved (doubledRequest.book tenFresh) :=
    (Reach.init tenFresh_init).step hsettles rfl
  have hlimit := (h _ hreach).1.within.limit .fuel
  revert hlimit
  decide

end Tsumugi.Budget
