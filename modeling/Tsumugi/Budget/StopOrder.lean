import Tsumugi.Budget.Conservation

/-!
# Which stop comes first (`budget.rs` §7)

A reservation looks at the token, then at the clock, then at the limits. The functions
with a limit for a single item compare that limit first: past it they look at the token
alone. The check of a collection never looks at the clock, and the charge through a
handle looks at neither.

Results:
1. `inOrder_chargeAll`: every compound charge stops in the order that is promised.
2. `stops_in_order_iff`: for each charge, the ledgers on which it does.
3. `late_string_names_limit`: past the deadline a string that is too long is a spent
   budget.
-/

namespace Tsumugi.Budget

open Word LedgerLemmas ConservationLemmas

/-! ## The order -/

/-- The token is set. -/
def BudgetLedger.Cancelled (l : BudgetLedger) : Prop := l.cancellation l.reads = true

/-- The clock, read after the token, has reached the deadline. -/
def BudgetLedger.Late (l : BudgetLedger) : Prop :=
  ∃ clock, l.clock = some clock ∧ l.config.deadline.ns ≤ (clock (l.reads + 1)).ns

/-- The stop that comes before every limit: the token, then the clock. -/
inductive BudgetLedger.Stops (l : BudgetLedger) : ControlStop → Prop
  | cancelled : l.Cancelled → l.Stops .cancelled
  | late {clock : Nat → MonotonicInstant} : ¬ l.Cancelled → l.clock = some clock →
      l.config.deadline.ns ≤ (clock (l.reads + 1)).ns →
      l.Stops (.deadlineExceeded l.config.deadline (clock (l.reads + 1)))

/-- Only the number of reads has changed. -/
def OnlyRead (s t : BudgetLedger) : Prop := t = { s with reads := t.reads }

/-- How a charge may end: by the stop that is due, or else granted or past a limit. An error
changes no counter. -/
def StopsInOrder (m : Charge Unit) (l : BudgetLedger) : Prop :=
  match m.run l with
  | (.ok (), _) => ¬ l.Due
  | (.error stop, t) =>
    OnlyRead l t ∧ (l.Stops stop ∨ ¬ l.Due ∧ ∃ exceeded, stop = .budgetExceeded exceeded)

/-- The calls that charge: `retrack` does when the backing grows. -/
def LedgerCall.charges : LedgerCall → Bool
  | .reserveAll .. => true
  | .commit .. | .refund .. => false
  | .charge (.releaseHeap _) _ | .charge (.dropTracked _) _ => false
  | .charge (.retrack oldBytes newBytes) _ => decide (oldBytes < newBytes)
  | .charge _ _ => true

/-- An id for a new backing is left, or its bytes are refused before. -/
def BudgetLedger.Numbers (l : BudgetLedger) (bytes : Nat) : Prop :=
  l.heap.nextId + 1 ≤ maxU64 ∨ ¬ l.heap.liveBytes + bytes ≤ min l.heap.limit maxU64

/-- When a call looks at everything it should: a single item is within its limit, or the clock
would not stop it. -/
def LedgerCall.Checks (l : BudgetLedger) : LedgerCall → Prop
  | .charge (.string byteLen) _ =>
    byteLen ≤ l.config.maxSingleStringBytes ∨ l.Cancelled ∨ ¬ l.Late
  | .charge (.source byteLen) _ =>
    byteLen ≤ l.config.maxSingleSourceBytes ∨ l.Cancelled ∨ ¬ l.Late
  | .charge (.rendered bytes) _ =>
    if bytes ≤ l.config.maxSingleStringBytes then ¬ l.Due else l.Cancelled ∨ ¬ l.Late
  | .charge (.collectionElements _) _ => l.Cancelled ∨ ¬ l.Late
  | .charge (.newTracked bytes) _ => l.Due ∨ l.Numbers bytes
  | .charge (.newViaHandle bytes) _ => ¬ l.Due ∧ l.Numbers bytes
  | _ => True

namespace StopOrderLemmas

open Charge BudgetLedger

variable {l : BudgetLedger}

theorem due_iff : l.Due ↔ l.Cancelled ∨ l.Late := Iff.rfl

theorem due_of_stops {stop : ControlStop} (h : l.Stops stop) : l.Due := by
  cases h with
  | cancelled h => exact .inl h
  | late _ hclock hle => exact .inr ⟨_, hclock, hle⟩

theorem stops_ne_exceeded {exceeded : BudgetExceeded} : ¬ l.Stops (.budgetExceeded exceeded) :=
  nofun

theorem stops_ne_internal {failure : InternalFailure} : ¬ l.Stops (.internalFailure failure) :=
  nofun

theorem inOrder_ok {m : Charge Unit} {t : BudgetLedger} (hrun : m.run l = (.ok (), t)) :
    StopsInOrder m l ↔ ¬ l.Due := by
  rw [StopsInOrder, hrun]

theorem inOrder_error {m : Charge Unit} {stop : ControlStop} {t : BudgetLedger}
    (hrun : m.run l = (.error stop, t)) :
    StopsInOrder m l ↔ OnlyRead l t ∧
      (l.Stops stop ∨ ¬ l.Due ∧ ∃ exceeded, stop = .budgetExceeded exceeded) := by
  rw [StopsInOrder, hrun]

/-- The two reads that come before every limit. -/
def checks : Charge Unit := do
  checkCancel
  checkDeadline

theorem onlyRead_reads (l : BudgetLedger) (n : Nat) : OnlyRead l { l with reads := n } := rfl

/-- How the two reads end. -/
theorem checks_cases (l : BudgetLedger) :
    (∃ stop n, l.Stops stop ∧ checks.run l = (.error stop, { l with reads := n })) ∨
      ¬ l.Due ∧ ∃ n, checks.run l = (.ok (), { l with reads := n }) := by
  have hrun := checkCancel_run l
  by_cases hcancel : l.Cancelled
  · rw [if_pos (show l.cancellation l.reads = true from hcancel)] at hrun
    exact .inl ⟨_, _, .cancelled hcancel, Proc.bind_run_error hrun⟩
  rw [if_neg (show ¬ l.cancellation l.reads = true from hcancel)] at hrun
  rw [checks, Proc.bind_run_ok hrun]
  unfold checkDeadline
  rcases hclock : l.clock with _ | clock
  · refine .inr ⟨?_, l.reads + 1, ?_⟩
    · rintro (h | ⟨clock, h, -⟩)
      · exact hcancel h
      · cases hclock.symm.trans h
    · simp only [Proc.bind_run, Proc.gets_run, id, Proc.pure_run]
  by_cases hlate : (clock (l.reads + 1)).ns ≥ l.config.deadline.ns
  · refine .inl ⟨_, l.reads + 1 + 1, .late hcancel hclock hlate, ?_⟩
    simp only [Proc.bind_run, Proc.gets_run, id, Proc.modify_run, if_pos hlate,
      Proc.stop_run]
  · refine .inr ⟨?_, l.reads + 1 + 1, ?_⟩
    · rintro (h | ⟨clock', h, hle⟩)
      · exact hcancel h
      · cases hclock.symm.trans h
        exact hlate hle
    · simp only [Proc.bind_run, Proc.gets_run, id, Proc.modify_run, if_neg hlate,
        Proc.pure_run]

/-- What is granted, or stops past a limit and changes nothing. -/
def Limits (m : Charge Unit) : Prop :=
  ∀ s, (∃ exceeded, m.run s = (.error (.budgetExceeded exceeded), s)) ∨
    ∃ t, m.run s = (.ok (), t)

theorem limits_bind {m n : Charge Unit} (hm : Limits m) (hn : ∀ s, ∃ t, n.run s = (.ok (), t)) :
    Limits (m >>= fun _ => n) := by
  intro s
  obtain ⟨exceeded, hrun⟩ | ⟨t, hrun⟩ := hm s
  · exact .inl ⟨exceeded, Proc.bind_run_error hrun⟩
  · rw [Proc.bind_run_ok hrun]
    exact .inr (hn t)

theorem bind_assoc_run {m n k : Charge Unit} (s : BudgetLedger) :
    (m >>= fun _ => n >>= fun _ => k).run s = ((m >>= fun _ => n) >>= fun _ => k).run s := by
  rcases hm : m.run s with ⟨stop | ⟨⟩, t⟩
  · rw [Proc.bind_run_error hm, Proc.bind_run_error (Proc.bind_run_error hm)]
  · rw [Proc.bind_run_ok hm]
    rcases hn : n.run t with ⟨stop | ⟨⟩, u⟩
    · rw [Proc.bind_run_error hn,
        Proc.bind_run_error ((Proc.bind_run_ok hm).trans hn)]
    · rw [Proc.bind_run_ok hn, Proc.bind_run_ok ((Proc.bind_run_ok hm).trans hn)]

/-- The two reads, and then a limit. -/
theorem inOrder_checks {m rest : Charge Unit}
    (hm : m.run l = (checks >>= fun _ => rest).run l) (hrest : Limits rest) :
    StopsInOrder m l := by
  obtain ⟨stop, n, hstops, hrun⟩ | ⟨hdue, n, hrun⟩ := checks_cases l
  · rw [Proc.bind_run_error hrun] at hm
    exact (inOrder_error hm).mpr ⟨onlyRead_reads l n, .inl hstops⟩
  · rw [Proc.bind_run_ok hrun] at hm
    obtain ⟨exceeded, hrun'⟩ | ⟨t, hrun'⟩ := hrest { l with reads := n }
    · exact (inOrder_error (hm.trans hrun')).mpr
        ⟨onlyRead_reads l n, .inr ⟨hdue, exceeded, rfl⟩⟩
    · exact (inOrder_ok (hm.trans hrun')).mpr hdue

/-- The comparison of a compound request. -/
def compare (requests : List CumulativeRequest) (phase : ExecutionPhase) : Charge Unit := do
  match ← Proc.gets fun l => l.refusal phase requests with
  | some exceeded => Proc.stop (.budgetExceeded exceeded)
  | none => Proc.modify fun l => requests.foldl addReserved l

theorem limits_compare (requests : List CumulativeRequest) (phase : ExecutionPhase) :
    Limits (compare requests phase) := by
  intro s
  cases hrefusal : s.refusal phase requests with
  | some exceeded =>
    refine .inl ⟨exceeded, ?_⟩
    simp only [compare, Proc.bind_run, Proc.gets_run, hrefusal, Proc.stop_run]
  | none =>
    refine .inr ⟨requests.foldl addReserved s, ?_⟩
    simp only [compare, Proc.bind_run, Proc.gets_run, hrefusal, Proc.modify_run]

theorem commitAll_run (requests : List CumulativeRequest) (s : BudgetLedger) :
    ∃ t, (commitAll requests).run s = (.ok (), t) := by
  induction requests generalizing s with
  | nil => exact ⟨s, rfl⟩
  | cons q requests ih =>
    rw [commitAll, Proc.bind_run_ok rfl]
    exact ih _

theorem inOrder_reserveAll (requests : List CumulativeRequest) (phase : ExecutionPhase) :
    StopsInOrder (reserveAll requests phase) l :=
  inOrder_checks (bind_assoc_run l) (limits_compare requests phase)

/-- What follows a reservation and is always granted. -/
theorem inOrder_chargeAll (requests : List CumulativeRequest) (phase : ExecutionPhase)
    {after : Charge Unit} (hafter : ∀ s, ∃ t, after.run s = (.ok (), t)) :
    StopsInOrder (chargeAll requests phase >>= fun _ => after) l := by
  have hcommits : ∀ s, ∃ t, (commitAll requests >>= fun _ => after).run s = (.ok (), t) := by
    intro s
    obtain ⟨t, hrun⟩ := commitAll_run requests s
    rw [Proc.bind_run_ok hrun]
    exact hafter t
  have hlimits : Limits (compare requests phase >>= fun _ =>
      commitAll requests >>= fun _ => after) :=
    limits_bind (limits_compare requests phase) hcommits
  refine inOrder_checks ?_ hlimits
  have hreserve : (reserveAll requests phase).run l =
      (checks >>= fun _ => compare requests phase).run l := bind_assoc_run l
  rw [bind_assoc_run, chargeAll, ← bind_assoc_run, Proc.bind_run, hreserve, ← Proc.bind_run]

theorem inOrder_chargeAll_pure (requests : List CumulativeRequest) (phase : ExecutionPhase) :
    StopsInOrder (chargeAll requests phase) l := by
  have h : StopsInOrder (chargeAll requests phase >>= fun _ => pure ()) l :=
    inOrder_chargeAll requests phase fun s => ⟨s, rfl⟩
  have hrun : (chargeAll requests phase >>= fun _ => (pure () : Charge Unit)).run l =
      (chargeAll requests phase).run l := by
    rcases hrun : (chargeAll requests phase).run l with ⟨stop | ⟨⟩, t⟩
    · rw [Proc.bind_run_error hrun]
    · rw [Proc.bind_run_ok hrun]
      rfl
  rwa [StopsInOrder, hrun] at h

/-- A limit for a single item, which is compared before the token and the clock. -/
theorem inOrder_perItem {resource : BudgetResource} {candidate : Nat} {phase : ExecutionPhase}
    {within : Charge Unit} :
    StopsInOrder (perItem resource candidate phase within) l ↔
      if candidate ≤ l.config.limitOf resource then StopsInOrder within l
      else l.Cancelled ∨ ¬ l.Late := by
  by_cases hle : candidate ≤ l.config.limitOf resource
  · rw [if_pos hle]
    have hrun : (perItem resource candidate phase within).run l = within.run l := by
      simp only [perItem, Proc.bind_run, Proc.gets_run, gt_iff_lt, if_neg (Nat.not_lt.mpr hle)]
    rw [StopsInOrder, hrun]
    rfl
  rw [if_neg hle]
  have hgt : candidate > l.config.limitOf resource := Nat.lt_of_not_le hle
  have hcancel := checkCancel_run l
  by_cases hset : l.Cancelled
  · rw [if_pos (show l.cancellation l.reads = true from hset)] at hcancel
    have hrun : (perItem resource candidate phase within).run l =
        (.error .cancelled, { l with reads := l.reads + 1 }) := by
      simp only [perItem, Proc.bind_run, Proc.gets_run, if_pos hgt, hcancel]
    rw [inOrder_error hrun]
    exact iff_of_true ⟨onlyRead_reads l _, .inl (.cancelled hset)⟩ (.inl hset)
  · rw [if_neg (show ¬ l.cancellation l.reads = true from hset)] at hcancel
    have hrun : (perItem resource candidate phase within).run l =
        (.error (.budgetExceeded ⟨resource, l.config.limitOf resource, 0, 0, candidate,
          resource.unit, phase⟩), { l with reads := l.reads + 1 }) := by
      simp only [perItem, Proc.bind_run, Proc.gets_run, if_pos hgt, hcancel, Proc.stop_run]
    rw [inOrder_error hrun]
    constructor
    · rintro ⟨-, hstops | ⟨hdue, -⟩⟩
      · exact absurd hstops stops_ne_exceeded
      · exact .inr fun hlate => hdue (.inr hlate)
    · rintro (h | h)
      · exact absurd h hset
      · exact ⟨onlyRead_reads l _, .inr ⟨fun hdue => hdue.elim hset h, _, rfl⟩⟩

/-- A string or a source: the limit of the item, and then a compound request. -/
theorem inOrder_chargePeak {resource : BudgetResource} {byteLen : Nat} {phase : ExecutionPhase}
    {requests : List CumulativeRequest} {f : BudgetLedger → BudgetLedger} :
    StopsInOrder (perItem resource byteLen phase do
        chargeAll requests phase
        Proc.modify f) l ↔
      byteLen ≤ l.config.limitOf resource ∨ l.Cancelled ∨ ¬ l.Late := by
  rw [inOrder_perItem]
  by_cases hle : byteLen ≤ l.config.limitOf resource
  · rw [if_pos hle]
    exact iff_of_true (inOrder_chargeAll requests phase fun s => ⟨f s, rfl⟩) (.inl hle)
  · rw [if_neg hle, or_iff_right hle]

theorem inOrder_collectionElements {candidate : Nat} {phase : ExecutionPhase} :
    StopsInOrder (checkCollectionElements candidate phase) l ↔ l.Cancelled ∨ ¬ l.Late := by
  have hcancel := checkCancel_run l
  by_cases hset : l.Cancelled
  · rw [if_pos (show l.cancellation l.reads = true from hset)] at hcancel
    have hrun : (checkCollectionElements candidate phase).run l =
        (.error .cancelled, { l with reads := l.reads + 1 }) := Proc.bind_run_error hcancel
    rw [inOrder_error hrun]
    exact iff_of_true ⟨onlyRead_reads l _, .inl (.cancelled hset)⟩ (.inl hset)
  rw [if_neg (show ¬ l.cancellation l.reads = true from hset)] at hcancel
  have hdue : l.Due ↔ l.Late := or_iff_right hset
  rw [or_iff_right hset]
  by_cases hgt : candidate > l.config.maxCollectionElements
  · have hrun : (checkCollectionElements candidate phase).run l =
        (.error (.budgetExceeded ⟨.collectionElements, l.config.maxCollectionElements, 0, 0,
          candidate, .elements, phase⟩), { l with reads := l.reads + 1 }) := by
      simp only [checkCollectionElements, Proc.bind_run, hcancel, Proc.gets_run, if_pos hgt,
        Proc.stop_run]
    rw [inOrder_error hrun, ← hdue]
    constructor
    · rintro ⟨-, hstops | ⟨h, -⟩⟩
      · exact absurd hstops stops_ne_exceeded
      · exact h
    · exact fun h => ⟨onlyRead_reads l _, .inr ⟨h, _, rfl⟩⟩
  · have hrun : ∃ t, (checkCollectionElements candidate phase).run l = (.ok (), t) := by
      simp only [checkCollectionElements, Proc.bind_run, hcancel, Proc.gets_run, if_neg hgt,
        Proc.modify_run, Prod.mk.injEq, true_and]
      exact ⟨_, rfl⟩
    obtain ⟨t, hrun⟩ := hrun
    rw [inOrder_ok hrun, hdue]

/-! ## Live heap -/

/-- The bytes fit into live heap. -/
def Fits (l : BudgetLedger) (bytes : Nat) : Prop :=
  l.heap.liveBytes + bytes ≤ min l.heap.limit maxU64

/-- A charge of live heap is granted when the bytes fit. -/
theorem heapChargeRaw_cases (bytes : Nat) (phase : ExecutionPhase) (s : BudgetLedger) :
    (¬ Fits s bytes ∧ ∃ exceeded,
        (heapChargeRaw bytes phase).run s = (.error (.budgetExceeded exceeded), s)) ∨
      Fits s bytes ∧ ∃ t, (heapChargeRaw bytes phase).run s = (.ok (), t) ∧
        t.heap.nextId = s.heap.nextId ∧ t.heap.liveBytes = s.heap.liveBytes + bytes := by
  simp only [heapChargeRaw, onHeap, AllocationLedger.charge, checkedAdd, Fits]
  by_cases hmax : s.heap.liveBytes + bytes ≤ maxU64
  · by_cases hlimit : s.heap.liveBytes + bytes ≤ s.heap.limit
    · simp only [if_pos hmax, if_pos hlimit]
      exact .inr ⟨le_min hlimit hmax, _, rfl, rfl, rfl⟩
    · simp only [if_pos hmax, if_neg hlimit]
      exact .inl ⟨fun h => hlimit (h.trans (min_le_left _ _)), _, rfl⟩
  · simp only [if_neg hmax]
    exact .inl ⟨fun h => hmax (h.trans (min_le_right _ _)), _, rfl⟩

theorem limits_heapChargeRaw (bytes : Nat) (phase : ExecutionPhase) :
    Limits (heapChargeRaw bytes phase) := by
  intro s
  obtain ⟨-, exceeded, hrun⟩ | ⟨-, t, hrun, -⟩ := heapChargeRaw_cases bytes phase s
  · exact .inl ⟨exceeded, hrun⟩
  · exact .inr ⟨t, hrun⟩

theorem inOrder_chargeHeap (bytes : Nat) (phase : ExecutionPhase) :
    StopsInOrder (chargeHeap bytes phase) l :=
  inOrder_checks (bind_assoc_run l) (limits_heapChargeRaw bytes phase)

/-- The charge of a backing and its id: without an id the bytes stay charged. -/
theorem numbered_cases (bytes : Nat) (phase : ExecutionPhase) (s : BudgetLedger) :
    let m := heapChargeRaw bytes phase >>= fun _ => allocateHeapId
    (s.Numbers bytes ∧ ((∃ exceeded, m.run s = (.error (.budgetExceeded exceeded), s)) ∨
        ∃ t, m.run s = (.ok (), t))) ∨
      ¬ s.Numbers bytes ∧
        ∃ t, m.run s = (.error (.internalFailure .allocationIdExhausted), t) := by
  obtain ⟨hfits, exceeded, hrun⟩ | ⟨hfits, t, hrun, hid, -⟩ := heapChargeRaw_cases bytes phase s
  · exact .inl ⟨.inr hfits, .inl ⟨exceeded, Proc.bind_run_error hrun⟩⟩
  · simp only [Proc.bind_run_ok hrun, allocateHeapId, onHeap, AllocationLedger.allocateId,
      checkedAdd, hid]
    by_cases hleft : s.heap.nextId + 1 ≤ maxU64
    · simp only [if_pos hleft]
      exact .inl ⟨.inl hleft, .inr ⟨_, rfl⟩⟩
    · simp only [if_neg hleft]
      exact .inr ⟨fun h => h.elim hleft fun h => h hfits, _, rfl⟩

theorem inOrder_newViaHandle {bytes : Nat} {phase : ExecutionPhase} :
    StopsInOrder (newViaHandle bytes phase) l ↔ ¬ l.Due ∧ l.Numbers bytes := by
  have hm : newViaHandle bytes phase = heapChargeRaw bytes phase >>= fun _ => allocateHeapId := rfl
  obtain ⟨hnumbers, ⟨exceeded, hrun⟩ | ⟨t, hrun⟩⟩ | ⟨hnumbers, t, hrun⟩ :=
    numbered_cases bytes phase l <;> rw [← hm] at hrun
  · rw [inOrder_error hrun]
    constructor
    · rintro ⟨-, hstops | ⟨hdue, -⟩⟩
      · exact absurd hstops stops_ne_exceeded
      · exact ⟨hdue, hnumbers⟩
    · exact fun h => ⟨rfl, .inr ⟨h.1, exceeded, rfl⟩⟩
  · rw [inOrder_ok hrun, and_iff_left hnumbers]
  · rw [inOrder_error hrun]
    refine iff_of_false ?_ fun h => hnumbers h.2
    rintro ⟨-, hstops | ⟨-, exceeded, hexceeded⟩⟩
    · exact absurd hstops stops_ne_internal
    · cases hexceeded

theorem inOrder_newTracked {bytes : Nat} {phase : ExecutionPhase} :
    StopsInOrder (newTracked bytes phase) l ↔ l.Due ∨ l.Numbers bytes := by
  have hm : (newTracked bytes phase).run l =
      (checks >>= fun _ => heapChargeRaw bytes phase >>= fun _ => allocateHeapId).run l := by
    have hcharge : (chargeHeap bytes phase).run l =
        (checks >>= fun _ => heapChargeRaw bytes phase).run l := bind_assoc_run l
    rw [bind_assoc_run, newTracked, Proc.bind_run, hcharge, ← Proc.bind_run]
  obtain ⟨stop, n, hstops, hrun⟩ | ⟨hdue, n, hrun⟩ := checks_cases l
  · rw [Proc.bind_run_error hrun] at hm
    rw [inOrder_error hm]
    exact iff_of_true ⟨onlyRead_reads l n, .inl hstops⟩ (.inl (due_of_stops hstops))
  · rw [Proc.bind_run_ok hrun] at hm
    rw [or_iff_right hdue]
    obtain ⟨hnumbers, ⟨exceeded, hrun'⟩ | ⟨t, hrun'⟩⟩ | ⟨hnumbers, t, hrun'⟩ :=
      numbered_cases bytes phase { l with reads := n }
    · exact iff_of_true ((inOrder_error (hm.trans hrun')).mpr
        ⟨onlyRead_reads l n, .inr ⟨hdue, exceeded, rfl⟩⟩) hnumbers
    · exact iff_of_true ((inOrder_ok (hm.trans hrun')).mpr hdue) hnumbers
    · rw [inOrder_error (hm.trans hrun')]
      refine iff_of_false ?_ hnumbers
      rintro ⟨-, hstops | ⟨-, exceeded, hexceeded⟩⟩
      · exact absurd hstops stops_ne_internal
      · cases hexceeded

end StopOrderLemmas

open StopOrderLemmas in
/-- Each charge stops in the order that is promised exactly when it looks at everything it
should. -/
theorem stops_in_order_iff (l : BudgetLedger) (call : LedgerCall) (h : call.charges = true) :
    StopsInOrder call.run l ↔ call.Checks l := by
  match call with
  | .reserveAll requests phase => exact iff_of_true (inOrder_reserveAll requests phase) trivial
  | .commit .. | .refund .. => cases h
  | .charge call phase =>
    cases call with
    | string byteLen => exact inOrder_chargePeak
    | source byteLen => exact inOrder_chargePeak
    | rendered bytes =>
      refine inOrder_perItem.trans ?_
      rfl
    | collectionElements candidate => exact inOrder_collectionElements
    | heap bytes => exact iff_of_true (inOrder_chargeHeap bytes phase) trivial
    | newTracked bytes => exact inOrder_newTracked
    | newViaHandle bytes => exact inOrder_newViaHandle
    | retrack oldBytes newBytes =>
      refine iff_of_true ?_ trivial
      have hgrows : newBytes > oldBytes := of_decide_eq_true h
      have hrun : LedgerCall.run (.charge (.retrack oldBytes newBytes) phase) =
          Charge.chargeHeap (newBytes - oldBytes) phase := if_pos hgrows
      rw [hrun]
      exact inOrder_chargeHeap _ phase
    | releaseHeap bytes => cases h
    | dropTracked bytes => cases h
    | _ => exact iff_of_true (inOrder_chargeAll_pure _ phase) trivial

/-! ## A ledger past its deadline -/

/-- The deadline is long gone, and nobody has cancelled. -/
def lateTen : BudgetLedger := .fresh tenOfEach (fun _ => false) (some fun _ => ⟨1, 2000⟩)

/-- A string within its limit stops at the deadline. -/
theorem late_string_in_order : StopsInOrder (LedgerCall.charge (.string 5) .run).run lateTen :=
  (stops_in_order_iff lateTen (.charge (.string 5) .run) rfl).mpr
    (show LedgerCall.Checks lateTen (.charge (.string 5) .run) from .inl (by decide))

/-- A string that is too long is a spent budget, past the deadline too. -/
theorem late_string_names_limit :
    ¬ ∀ l call, LedgerCall.charges call = true → StopsInOrder call.run l := by
  intro h
  have horder := h lateTen (.charge (.string 11) .run) rfl
  have hrun : (LedgerCall.charge (.string 11) .run).run.run lateTen =
      (.error (.budgetExceeded ⟨.singleStringBytes, 10, 0, 0, 11, .bytes, .run⟩),
        { lateTen with reads := 1 }) := rfl
  rw [StopsInOrder, hrun] at horder
  obtain ⟨-, hstops | ⟨hdue, -⟩⟩ := horder
  · cases hstops
  · exact hdue (.inr ⟨_, rfl, by decide⟩)

end Tsumugi.Budget
