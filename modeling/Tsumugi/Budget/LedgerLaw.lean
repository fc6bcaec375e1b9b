import Tsumugi.Audit.Tally
import Tsumugi.Budget.Ledger

/-!
# What a call of the ledger moves

Every function of the ledger keeps one balance: a cumulative counter grows by what the
accumulator is told, and as long as no release was told, live heap covers what was
charged and not given back.

Results:
1. `meets_chargeAll`: a compound charge is all or nothing, and tells what it commits.
2. `moves_newTracked`, `moves_retrack` and the like: what a call does to live heap.
-/

namespace Tsumugi.Budget

open Audit (Note Side)
open Word

/-! ## Counters -/

namespace BudgetCounters

theorem of_set (c : BudgetCounters) (n : Nat) (r r' : BudgetResource) :
    (c.set n r).of r' = if r = r' ∧ r.isCumulative then n else c.of r' := by
  cases r <;> cases r' <;> rfl

@[simp] theorem of_empty (r : BudgetResource) : ({} : BudgetCounters).of r = 0 := by
  cases r <;> rfl

theorem of_eq_zero (c : BudgetCounters) {r : BudgetResource} (h : r.isCumulative = false) :
    c.of r = 0 := by
  cases r <;> first | rfl | cases h

end BudgetCounters

namespace BudgetResource

theorem modulus_pos (r : BudgetResource) : 0 < r.modulus := by cases r <;> decide

theorem lt_maxU64 {r : BudgetResource} {n : Nat} (h : n < r.modulus) : n ≤ maxU64 := by
  have hle : r.modulus ≤ 2 ^ 64 := by cases r <;> decide
  unfold maxU64
  omega

theorem cast_of_lt {r : BudgetResource} {amount : Nat} (h : amount < r.modulus) :
    r.cast amount = amount := by
  cases r <;> first | rfl | exact Nat.mod_eq_of_lt h

end BudgetResource

/-- A limit is held by the type of its counter, or by `u64`. -/
theorem BudgetConfig.lt_modulus (config : BudgetConfig) {r : BudgetResource} {n : Nat}
    (h : n ≤ config.limitOf r) (hmax : n ≤ maxU64) : n < r.modulus := by
  have hu64 : n < 2 ^ 64 := by
    unfold maxU64 at hmax
    omega
  cases r
  case sourceCount => exact Nat.lt_of_le_of_lt h config.sourceCount_lt
  case importCount => exact Nat.lt_of_le_of_lt h config.importCount_lt
  all_goals exact hu64

/-- What the accumulator has been told and the recorder has not taken. -/
def notedDelta (side : Side) (r : BudgetResource) (l : BudgetLedger) : Nat :=
  (l.noted.map (·.delta side r)).sum

/-- Between two calls nothing is reserved, and the counters are in range. -/
def BudgetLedger.Idle (l : BudgetLedger) : Prop :=
  ∀ r, l.reserved.of r = 0 ∧ l.committed.of r < r.modulus

theorem BudgetLedger.Idle.le_maxU64 {l : BudgetLedger} (h : l.Idle) (r : BudgetResource) :
    l.committed.of r ≤ maxU64 := BudgetResource.lt_maxU64 (h r).2

theorem BudgetLedger.idle_fresh (config : BudgetConfig) (cancellation : Nat → Bool)
    (clock : Option (Nat → MonotonicInstant)) : (fresh config cancellation clock).Idle := by
  intro r
  have hempty : ({} : BudgetCounters).of r = 0 := BudgetCounters.of_empty r
  refine ⟨hempty, ?_⟩
  show ({} : BudgetCounters).of r < r.modulus
  rw [hempty]
  exact r.modulus_pos

/-- The counters grow by what is told. -/
def Balances (s t : BudgetLedger) : Prop :=
  ∀ r, t.committed.of r + notedDelta .committed r s = s.committed.of r + notedDelta .committed r t

/-- No release is in the notes. -/
def BudgetLedger.Quiet (l : BudgetLedger) : Prop := notedDelta .released .heapBytes l = 0

/-- What a call does to an idle ledger when `taken` bytes of heap are charged with it and
`given` bytes are given back. -/
structure Moves (taken given : Nat) (s t : BudgetLedger) : Prop where
  idle : t.Idle
  balances : Balances s t
  quiet : t.Quiet → s.Quiet ∧ s.heap.liveBytes + taken ≤ t.heap.liveBytes + given

namespace Moves

theorem refl {s : BudgetLedger} (h : s.Idle) : Moves 0 0 s s :=
  ⟨h, fun _ => rfl, fun hq => ⟨hq, Nat.le_refl _⟩⟩

theorem trans {a b a' b' : Nat} {s t u : BudgetLedger} (h : Moves a b s t)
    (h' : Moves a' b' t u) : Moves (a + a') (b + b') s u := by
  refine ⟨h'.idle, fun r => ?_, fun hq => ?_⟩
  · have := h.balances r
    have := h'.balances r
    omega
  · obtain ⟨ht, hle'⟩ := h'.quiet hq
    obtain ⟨hs, hle⟩ := h.quiet ht
    exact ⟨hs, by omega⟩

theorem mono {a b a' b' : Nat} {s t : BudgetLedger} (h : Moves a b s t) (ha : a' ≤ a)
    (hb : b ≤ b') : Moves a' b' s t :=
  ⟨h.idle, h.balances, fun hq => ⟨(h.quiet hq).1, by have := (h.quiet hq).2; omega⟩⟩

end Moves

/-- What a call does that has nothing to do with the heap. -/
structure Steady (s t : BudgetLedger) : Prop where
  idle : t.Idle
  balances : Balances s t
  heap : t.heap = s.heap
  released : notedDelta .released .heapBytes t = notedDelta .released .heapBytes s

namespace Steady

theorem refl {s : BudgetLedger} (h : s.Idle) : Steady s s := ⟨h, fun _ => rfl, rfl, rfl⟩

theorem trans {s t u : BudgetLedger} (h : Steady s t) (h' : Steady t u) : Steady s u := by
  refine ⟨h'.idle, fun r => ?_, h'.heap.trans h.heap, h'.released.trans h.released⟩
  have := h.balances r
  have := h'.balances r
  omega

theorem moves {s t : BudgetLedger} (h : Steady s t) : Moves 0 0 s t := by
  refine ⟨h.idle, h.balances, fun hq => ⟨?_, by rw [h.heap]⟩⟩
  rw [BudgetLedger.Quiet, ← h.released]
  exact hq

end Steady

/-- No counter has changed: what is read and the peaks are not seen. -/
structure Untouched (s t : BudgetLedger) : Prop where
  config : t.config = s.config
  committed : t.committed = s.committed
  reserved : t.reserved = s.reserved
  heap : t.heap = s.heap
  noted : t.noted = s.noted

namespace Untouched

theorem refl (s : BudgetLedger) : Untouched s s := ⟨rfl, rfl, rfl, rfl, rfl⟩

theorem trans {s t u : BudgetLedger} (h : Untouched s t) (h' : Untouched t u) : Untouched s u :=
  ⟨h'.config.trans h.config, h'.committed.trans h.committed, h'.reserved.trans h.reserved,
    h'.heap.trans h.heap, h'.noted.trans h.noted⟩

theorem steady {s t : BudgetLedger} (h : Untouched s t) (hs : s.Idle) : Steady s t := by
  refine ⟨fun r => by rw [h.committed, h.reserved]; exact hs r, fun r => ?_, h.heap, ?_⟩ <;>
    simp [notedDelta, h.committed, h.noted]

theorem reserveOne {s t : BudgetLedger} (h : Untouched s t) (phase : ExecutionPhase) :
    t.reserveOne phase = s.reserveOne phase := by
  funext q
  simp only [BudgetLedger.reserveOne, h.config, h.committed, h.reserved]

theorem refusal {s t : BudgetLedger} (h : Untouched s t) (phase : ExecutionPhase)
    (requests : List CumulativeRequest) : t.refusal phase requests = s.refusal phase requests := by
  simp only [BudgetLedger.refusal, h.reserveOne]

end Untouched

/-- A call that changes no counter. -/
def untouched : Proc.Contract BudgetLedger ControlStop where
  rel _ s t := Untouched s t
  refl s := .refl s
  trans h h' := h.trans h'

/-- A call that changes no counter and stops for no limit. -/
def unlimited : Proc.Contract BudgetLedger ControlStop where
  rel o s t := Untouched s t ∧ ∀ e, o ≠ some (.budgetExceeded e)
  refl s := ⟨.refl s, fun _ => nofun⟩
  trans h h' := ⟨h.1.trans h'.1, h'.2⟩

/-- A call that does not change the limits. -/
def limited : Proc.Contract BudgetLedger ControlStop where
  rel _ s t := t.config = s.config
  refl _ := rfl
  trans h h' := h'.trans h

/-- From an idle ledger, a call that has nothing to do with the heap. -/
def steady : Proc.Contract BudgetLedger ControlStop where
  rel _ s t := s.Idle → Steady s t
  refl _ h := .refl h
  trans h h' hs := (h hs).trans (h' (h hs).idle)

namespace LedgerLemmas

open Charge BudgetLedger

/-! ## Reads -/

theorem unlimited_checkCancel : Proc.Meets unlimited checkCancel := by
  refine Proc.meets_bind (Proc.meets_gets _) fun l => ?_
  refine Proc.meets_bind (Proc.meets_modify fun s => ⟨⟨rfl, rfl, rfl, rfl, rfl⟩, fun _ => nofun⟩)
    fun _ => ?_
  exact Proc.meets_ite (Proc.meets_stop fun s => ⟨.refl s, fun _ => nofun⟩) (Proc.meets_pure _)

theorem unlimited_checkDeadline : Proc.Meets unlimited checkDeadline := by
  refine Proc.meets_bind (Proc.meets_gets _) fun l => ?_
  rcases l.clock with _ | clock
  · exact Proc.meets_pure _
  · refine Proc.meets_bind (Proc.meets_modify fun s => ⟨⟨rfl, rfl, rfl, rfl, rfl⟩, fun _ => nofun⟩)
      fun _ => ?_
    exact Proc.meets_ite (Proc.meets_stop fun s => ⟨.refl s, fun _ => nofun⟩) (Proc.meets_pure _)

theorem untouched_of_unlimited {α : Type} {m : Charge α} (h : Proc.Meets unlimited m) :
    Proc.Meets untouched m :=
  Proc.Ends.mono h fun h => h.1

theorem untouched_peaks (f : BudgetLedger → BudgetPeaks) :
    Proc.Meets untouched (Proc.modify fun l => { l with peaks := f l } : Charge Unit) :=
  Proc.meets_modify fun _ => ⟨rfl, rfl, rfl, rfl, rfl⟩

theorem meets_of_untouched {α : Type} {m : Charge α} (h : Proc.Meets untouched m) :
    Proc.Meets steady m :=
  Proc.Ends.mono h fun h hs => h.steady hs

theorem meets_checkCancel : Proc.Meets steady checkCancel :=
  meets_of_untouched (untouched_of_unlimited unlimited_checkCancel)

theorem meets_checkDeadline : Proc.Meets steady checkDeadline :=
  meets_of_untouched (untouched_of_unlimited unlimited_checkDeadline)

/-! ## Compound charges -/

/-- What the requests ask of one resource. -/
def asked (requests : List CumulativeRequest) (r : BudgetResource) : Nat :=
  (requests.map fun q => if q.resource = r then q.amount else 0).sum

/-- Requests for different resources, each of which has a counter. -/
def Proper (requests : List CumulativeRequest) : Prop :=
  (requests.map (·.resource)).Nodup ∧ ∀ q ∈ requests, q.resource.isCumulative = true

theorem asked_of_not_mem {requests : List CumulativeRequest} {r : BudgetResource}
    (h : ∀ q ∈ requests, q.resource ≠ r) : asked requests r = 0 := by
  unfold asked
  refine List.sum_eq_zero fun n hn => ?_
  obtain ⟨q, hq, rfl⟩ := List.mem_map.mp hn
  rw [if_neg (h q hq)]

@[simp] theorem asked_cons (q : CumulativeRequest) (rest : List CumulativeRequest)
    (r : BudgetResource) :
    asked (q :: rest) r = (if q.resource = r then q.amount else 0) + asked rest r := by
  simp [asked]

/-- With different resources only one request asks for each. -/
theorem asked_eq_of_mem {requests : List CumulativeRequest}
    (h : (requests.map (·.resource)).Nodup) {q : CumulativeRequest} (hq : q ∈ requests) :
    asked requests q.resource = q.amount := by
  induction requests with
  | nil => cases hq
  | cons p rest ih =>
    simp only [List.map_cons, List.nodup_cons, List.mem_map, not_exists, not_and] at h
    rw [asked_cons]
    rcases List.mem_cons.mp hq with rfl | hq
    · rw [if_pos rfl, asked_of_not_mem h.1, Nat.add_zero]
    · rw [if_neg (fun hp => h.1 q hq hp.symm), ih h.2 hq, Nat.zero_add]

/-- The reservations of a compound request, where the counters can hold their sums. -/
theorem addReserved_all (requests : List CumulativeRequest) (l : BudgetLedger)
    (hroom : ∀ r, r.isCumulative = true → l.reserved.of r + asked requests r < r.modulus) :
    (requests.foldl addReserved l).committed = l.committed ∧
      (requests.foldl addReserved l).heap = l.heap ∧
      (requests.foldl addReserved l).noted = l.noted ∧
      (requests.foldl addReserved l).config = l.config ∧
      ∀ r, r.isCumulative = true →
        (requests.foldl addReserved l).reserved.of r = l.reserved.of r + asked requests r := by
  induction requests generalizing l with
  | nil => exact ⟨rfl, rfl, rfl, rfl, fun _ _ => rfl⟩
  | cons q rest ih =>
    have hstep : ∀ r, r.isCumulative = true → (l.addReserved q).reserved.of r =
        l.reserved.of r + if q.resource = r then q.amount else 0 := by
      intro r hr
      have hq := hroom r hr
      rw [asked_cons] at hq
      simp only [addReserved, BudgetCounters.of_set]
      by_cases heq : q.resource = r
      · subst heq
        rw [if_pos rfl] at hq
        rw [if_pos ⟨rfl, hr⟩, if_pos rfl, BudgetResource.cast_of_lt (by omega),
          wrapAdd_of_lt (by omega)]
      · rw [if_neg (fun h => heq h.1), if_neg heq, Nat.add_zero]
    obtain ⟨hcommitted, hheap, hnoted, hconfig, hreserved⟩ := ih (l.addReserved q) fun r hr => by
      rw [hstep r hr, Nat.add_assoc, ← asked_cons]
      exact hroom r hr
    refine ⟨hcommitted, hheap, hnoted, hconfig, fun r hr => ?_⟩
    rw [List.foldl_cons, hreserved r hr, hstep r hr, asked_cons, Nat.add_assoc]

/-- The note of a commit. -/
theorem notedDelta_note (side : Side) (r : BudgetResource) (l : BudgetLedger) (n : Note) :
    notedDelta side r (l.note n) = notedDelta side r l + n.delta side r := by
  simp [notedDelta, note]

/-- What is settled leaves the reservation, and what is spent of it is committed. -/
theorem moveToCommitted_of (l : BudgetLedger) {resource : BudgetResource} {settled spent : Nat}
    (hreserved : resource.isCumulative = true →
      settled ≤ l.reserved.of resource ∧ l.reserved.of resource < resource.modulus)
    (hroom : resource.isCumulative = true →
      l.committed.of resource + spent < resource.modulus) :
    (∀ r, r.isCumulative = true → (l.moveToCommitted resource settled spent).committed.of r =
      l.committed.of r + if resource = r then spent else 0) ∧
    ∀ r, r.isCumulative = true → (l.moveToCommitted resource settled spent).reserved.of r =
      l.reserved.of r - if resource = r then settled else 0 := by
  refine ⟨fun r hr => ?_, fun r hr => ?_⟩ <;>
    simp only [moveToCommitted, BudgetCounters.of_set]
  · by_cases heq : resource = r
    · subst heq
      have := hroom hr
      rw [if_pos ⟨rfl, hr⟩, if_pos rfl, BudgetResource.cast_of_lt (by omega),
        wrapAdd_of_lt (by omega)]
    · rw [if_neg (fun h => heq h.1), if_neg heq, Nat.add_zero]
  · by_cases heq : resource = r
    · subst heq
      obtain ⟨hle, hlt⟩ := hreserved hr
      rw [if_pos ⟨rfl, hr⟩, if_pos rfl, BudgetResource.cast_of_lt (by omega),
        wrapSub_of_le hle hlt]
    · rw [if_neg (fun h => heq h.1), if_neg heq, Nat.sub_zero]

/-- One commit of what has been reserved. -/
theorem commit_spec (q : CumulativeRequest) (l : BudgetLedger)
    (hreserved : q.resource.isCumulative = true →
      q.amount ≤ l.reserved.of q.resource ∧ l.reserved.of q.resource < q.resource.modulus)
    (hroom : q.resource.isCumulative = true →
      l.committed.of q.resource + q.amount < q.resource.modulus) :
    ∃ m, (commit q.resource q.amount q.amount).run l = (.ok (), m) ∧ m.heap = l.heap ∧
      m.config = l.config ∧
      (∀ r, r.isCumulative = true →
        m.committed.of r = l.committed.of r + if q.resource = r then q.amount else 0) ∧
      (∀ r, r.isCumulative = true →
        m.reserved.of r = l.reserved.of r - if q.resource = r then q.amount else 0) ∧
      (∀ r, notedDelta .committed r m =
        notedDelta .committed r l + if q.resource = r then q.amount else 0) ∧
      ∀ r, notedDelta .released r m = notedDelta .released r l := by
  obtain ⟨m, hm⟩ : ∃ m, (commit q.resource q.amount q.amount).run l = (.ok (), m) := ⟨_, rfl⟩
  refine ⟨m, hm, ?_⟩
  simp only [commit, Proc.modify_run, Nat.min_self, Prod.mk.injEq, true_and] at hm
  subst hm
  obtain ⟨hcommitted, hmoved⟩ := moveToCommitted_of l hreserved hroom
  split
  next =>
    refine ⟨rfl, rfl, hcommitted, hmoved, fun r => ?_, fun r => ?_⟩
    · rw [notedDelta_note]
      rfl
    · rw [notedDelta_note]
      simp [Note.delta, Side.select, notedDelta, moveToCommitted]
  next hzero =>
    refine ⟨rfl, rfl, hcommitted, hmoved, fun r => ?_, fun r => rfl⟩
    obtain hzero : q.amount = 0 := by omega
    simp [hzero, notedDelta, moveToCommitted]

/-- The commits of what has been reserved. -/
theorem commitAll_spec (requests : List CumulativeRequest) (l : BudgetLedger)
    (hreserved : ∀ r, r.isCumulative = true →
      asked requests r ≤ l.reserved.of r ∧ l.reserved.of r < r.modulus)
    (hroom : ∀ r, r.isCumulative = true → l.committed.of r + asked requests r < r.modulus) :
    ∃ t, (commitAll requests).run l = (.ok (), t) ∧ t.heap = l.heap ∧ t.config = l.config ∧
      (∀ r, r.isCumulative = true → t.committed.of r = l.committed.of r + asked requests r) ∧
      (∀ r, r.isCumulative = true → t.reserved.of r = l.reserved.of r - asked requests r) ∧
      (∀ r, notedDelta .committed r t = notedDelta .committed r l + asked requests r) ∧
      ∀ r, notedDelta .released r t = notedDelta .released r l := by
  induction requests generalizing l with
  | nil =>
    exact ⟨l, rfl, rfl, rfl, fun _ _ => rfl, fun _ _ => rfl, fun _ => rfl, fun _ => rfl⟩
  | cons q rest ih =>
    simp only [asked_cons] at hreserved hroom
    obtain ⟨m, hm, hheap, hconfig, hcommitted, hmoved, hnoted, hreleased⟩ := commit_spec q l
      (fun hq => by
        have := hreserved q.resource hq
        rw [if_pos rfl] at this
        omega)
      (fun hq => by
        have := hroom q.resource hq
        rw [if_pos rfl] at this
        omega)
    obtain ⟨t, ht, hheap', hconfig', hcommitted', hmoved', hnoted', hreleased'⟩ := ih m
      (fun r hr => by
        rw [hmoved r hr]
        have := hreserved r hr
        omega)
      (fun r hr => by
        rw [hcommitted r hr]
        have := hroom r hr
        omega)
    refine ⟨t, by rw [commitAll, Proc.bind_run_ok hm, ht], hheap'.trans hheap,
      hconfig'.trans hconfig, fun r hr => ?_, fun r hr => ?_, fun r => ?_,
      fun r => by rw [hreleased', hreleased]⟩
    · rw [hcommitted' r hr, hcommitted r hr, asked_cons, Nat.add_assoc]
    · rw [hmoved' r hr, hmoved r hr, asked_cons, Nat.sub_sub]
    · rw [hnoted', hnoted, asked_cons, Nat.add_assoc]

/-- A request that nothing stands in the way of. -/
theorem reserveOne_none {l : BudgetLedger} {phase : ExecutionPhase} {q : CumulativeRequest}
    (h : l.reserveOne phase q = none) :
    l.committed.of q.resource + l.reserved.of q.resource + q.amount ≤ l.config.limitOf q.resource ∧
      l.committed.of q.resource + l.reserved.of q.resource + q.amount < q.resource.modulus := by
  unfold reserveOne at h
  dsimp only at h
  split at h
  next total htotal =>
    obtain ⟨v, hv, htotal⟩ := Option.bind_eq_some_iff.mp htotal
    obtain ⟨-, rfl⟩ := checkedAdd_eq_some.mp hv
    obtain ⟨hmax, rfl⟩ := checkedAdd_eq_some.mp htotal
    split at h
    next hle => exact ⟨hle, l.config.lt_modulus hle hmax⟩
    next => cases h
  next => cases h

theorem worse_eq_none {a b : Option BudgetExceeded} (h : worse a b = none) :
    a = none ∧ b = none := by
  rcases a with _ | a <;> rcases b with _ | b <;> simp_all [worse]
  split at h <;> cases h

theorem refusal_none {l : BudgetLedger} {phase : ExecutionPhase}
    {requests : List CumulativeRequest} (h : l.refusal phase requests = none) :
    ∀ q ∈ requests, l.reserveOne phase q = none := by
  have hfold : ∀ (requests : List CumulativeRequest) (worst : Option BudgetExceeded),
      requests.foldl (fun worst q => worse worst (l.reserveOne phase q)) worst = none →
        worst = none ∧ ∀ q ∈ requests, l.reserveOne phase q = none := by
    intro requests
    induction requests with
    | nil => exact fun worst h => ⟨h, by simp⟩
    | cons q rest ih =>
      intro worst h
      obtain ⟨hworse, hrest⟩ := ih _ h
      obtain ⟨hworst, hq⟩ := worse_eq_none hworse
      exact ⟨hworst, by simpa using ⟨hq, hrest⟩⟩
  exact (hfold requests none h).2

theorem worse_spec {a b : Option BudgetExceeded} {e : BudgetExceeded} {P : Prop}
    (hfrom : worse a b = some e ∨ P)
    (hmin : ∀ e', worse a b = some e' → e.resource.priority ≤ e'.resource.priority) :
    (a = some e ∨ b = some e ∨ P) ∧
      (∀ e', a = some e' → e.resource.priority ≤ e'.resource.priority) ∧
      ∀ e', b = some e' → e.resource.priority ≤ e'.resource.priority := by
  rcases a with _ | a <;> rcases b with _ | b
  · exact ⟨by simpa [worse] using hfrom, nofun, nofun⟩
  · exact ⟨.inr (by simpa [worse] using hfrom), nofun, by simpa [worse] using hmin⟩
  · exact ⟨hfrom.imp_right .inr, by simpa [worse] using hmin, nofun⟩
  · simp only [worse] at hfrom hmin
    split at hfrom
    next hlt =>
      rw [if_pos hlt] at hmin
      have hb := hmin b rfl
      refine ⟨.inr hfrom, fun e' he => ?_, fun e' he => ?_⟩
      · cases he
        omega
      · cases he
        exact hb
    next hge =>
      rw [if_neg hge] at hmin
      have ha := hmin a rfl
      refine ⟨hfrom.imp_right .inr, fun e' he => ?_, fun e' he => ?_⟩
      · cases he
        exact ha
      · cases he
        omega

/-- The refusal is that of one of the requests, and none has a smaller priority. -/
theorem refusal_some {l : BudgetLedger} {phase : ExecutionPhase}
    {requests : List CumulativeRequest} {e : BudgetExceeded}
    (h : l.refusal phase requests = some e) :
    (∃ q ∈ requests, l.reserveOne phase q = some e) ∧
      ∀ q ∈ requests, ∀ e', l.reserveOne phase q = some e' →
        e.resource.priority ≤ e'.resource.priority := by
  have hfold : ∀ (requests : List CumulativeRequest) (worst : Option BudgetExceeded),
      requests.foldl (fun worst q => worse worst (l.reserveOne phase q)) worst = some e →
        (worst = some e ∨ ∃ q ∈ requests, l.reserveOne phase q = some e) ∧
        (∀ e', worst = some e' → e.resource.priority ≤ e'.resource.priority) ∧
        ∀ q ∈ requests, ∀ e', l.reserveOne phase q = some e' →
          e.resource.priority ≤ e'.resource.priority := by
    intro requests
    induction requests with
    | nil =>
      intro worst h
      cases h
      exact ⟨.inl rfl, fun e' he => by cases he; exact Nat.le_refl _, by simp⟩
    | cons q rest ih =>
      intro worst h
      obtain ⟨hfrom, hworst, hrest⟩ := ih _ h
      obtain ⟨hfrom', hworst', hq⟩ := worse_spec hfrom hworst
      refine ⟨?_, hworst', ?_⟩
      · rcases hfrom' with hfrom' | hfrom' | ⟨p, hp, hpe⟩
        · exact .inl hfrom'
        · exact .inr ⟨q, List.mem_cons_self, hfrom'⟩
        · exact .inr ⟨p, List.mem_cons_of_mem _ hp, hpe⟩
      · intro p hp
        rcases List.mem_cons.mp hp with rfl | hp
        · exact hq
        · exact hrest p hp
  obtain ⟨hfrom, -, hmin⟩ := hfold requests none h
  rcases hfrom with hfrom | hfrom
  · cases hfrom
  · exact ⟨hfrom, hmin⟩

/-- A reservation is made as a whole, or no counter changes. -/
def Reserves (requests : List CumulativeRequest) (phase : ExecutionPhase)
    (r : Except ControlStop Unit) (s t : BudgetLedger) : Prop :=
  match r with
  | .ok () => s.refusal phase requests = none ∧ ∃ u, Untouched s u ∧ t = requests.foldl addReserved u
  | .error stop => Untouched s t ∧
      ∀ e, stop = .budgetExceeded e → s.refusal phase requests = some e

theorem reserves_bind {α : Type} {requests : List CumulativeRequest} {phase : ExecutionPhase}
    {m : Charge α} {f : α → Charge Unit} (hm : Proc.Meets unlimited m)
    (hf : ∀ a, Proc.Ends (Reserves requests phase) (f a)) :
    Proc.Ends (Reserves requests phase) (m >>= f) := by
  refine Proc.ends_bind hm hf (fun {r s t u} h h' => ?_) fun h =>
    ⟨h.1, fun e he => absurd (congrArg some he) (h.2 e)⟩
  have hrefusal := h.1.refusal phase requests
  cases r with
  | error stop => exact ⟨h.1.trans h'.1, fun e he => hrefusal ▸ h'.2 e he⟩
  | ok _ =>
    obtain ⟨hnone, v, htv, hu⟩ := h'
    exact ⟨hrefusal ▸ hnone, v, h.1.trans htv, hu⟩

theorem reserves_reserveAll (requests : List CumulativeRequest) (phase : ExecutionPhase) :
    Proc.Ends (Reserves requests phase) (reserveAll requests phase) := by
  refine reserves_bind unlimited_checkCancel fun _ => reserves_bind unlimited_checkDeadline
    fun _ => ?_
  intro s
  rcases hrefusal : s.refusal phase requests with _ | exceeded <;>
    simp only [Proc.bind_run, Proc.gets_run, hrefusal, Proc.modify_run, Proc.stop_run]
  · exact ⟨hrefusal, s, .refl s, rfl⟩
  · exact ⟨.refl s, fun e he => by cases he; exact hrefusal⟩

/-- What a compound charge does when it is granted. -/
structure Commits (requests : List CumulativeRequest) (s t : BudgetLedger) : Prop where
  config : t.config = s.config
  heap : t.heap = s.heap
  committed : ∀ r, t.committed.of r = s.committed.of r + asked requests r
  reserved : ∀ r, t.reserved.of r = s.reserved.of r
  range : ∀ r, t.committed.of r + t.reserved.of r < r.modulus
  limit : ∀ r, s.committed.of r + s.reserved.of r ≤ s.config.limitOf r →
    t.committed.of r + t.reserved.of r ≤ s.config.limitOf r
  told : ∀ r, notedDelta .committed r t = notedDelta .committed r s + asked requests r
  released : ∀ r, notedDelta .released r t = notedDelta .released r s

/-- A compound charge is all or nothing. -/
def ChargesAll (requests : List CumulativeRequest) (r : Except ControlStop Unit)
    (s t : BudgetLedger) : Prop :=
  (∀ r, s.committed.of r + s.reserved.of r < r.modulus) →
    match r with
    | .ok () => Commits requests s t
    | .error _ => Untouched s t

/-- What is asked of a counter by requests that pass on their own. -/
theorem asked_fits {requests : List CumulativeRequest} (h : Proper requests) {s : BudgetLedger}
    {phase : ExecutionPhase} (hrefusal : s.refusal phase requests = none) (r : BudgetResource) :
    asked requests r = 0 ∨
      s.committed.of r + s.reserved.of r + asked requests r ≤ s.config.limitOf r ∧
      s.committed.of r + s.reserved.of r + asked requests r < r.modulus := by
  by_cases hmem : ∃ q ∈ requests, q.resource = r
  · obtain ⟨q, hq, rfl⟩ := hmem
    rw [asked_eq_of_mem h.1 hq]
    exact .inr (reserveOne_none (refusal_none hrefusal q hq))
  · exact .inl (asked_of_not_mem (by simpa using hmem))

theorem chargesAll_chargeAll {requests : List CumulativeRequest} (h : Proper requests)
    (phase : ExecutionPhase) : Proc.Ends (ChargesAll requests) (chargeAll requests phase) := by
  intro s hs
  have hreserves := reserves_reserveAll requests phase s
  unfold chargeAll
  rcases hrun : (reserveAll requests phase).run s with ⟨stop | ⟨⟩, t⟩ <;> rw [hrun] at hreserves
  · rw [Proc.bind_run_error hrun]
    exact hreserves.1
  obtain ⟨hrefusal, u, hsu, rfl⟩ := hreserves
  rw [Proc.bind_run_ok hrun]
  have hroom : ∀ r, u.committed.of r + u.reserved.of r + asked requests r < r.modulus := by
    intro r
    rw [hsu.committed, hsu.reserved]
    rcases asked_fits h hrefusal r with hzero | hfits
    · rw [hzero]
      exact hs r
    · exact hfits.2
  have hnone : ∀ r, r.isCumulative = false → asked requests r = 0 := fun r hr =>
    asked_of_not_mem fun q hq heq => by
      have := h.2 q hq
      rw [heq, hr] at this
      cases this
  obtain ⟨hcommitted, hheap, hnoted, hconfig, hreserved⟩ := addReserved_all requests u fun r _ => by
    have := hroom r
    omega
  obtain ⟨v, hv, hheap', hconfig', hcommitted', hreserved', hnoted', hreleased'⟩ :=
    commitAll_spec requests (requests.foldl addReserved u)
      (fun r hr => by
        have := hroom r
        rw [hreserved r hr]
        omega)
      (fun r _ => by
        have := hroom r
        rw [hcommitted]
        omega)
  rw [hv]
  have hsame : ∀ side r, notedDelta side r (requests.foldl addReserved u) = notedDelta side r s :=
    fun side r => by simp [notedDelta, hnoted, hsu.noted]
  have hv_committed : ∀ r, v.committed.of r = s.committed.of r + asked requests r := by
    intro r
    cases hr : r.isCumulative with
    | false => rw [BudgetCounters.of_eq_zero _ hr, BudgetCounters.of_eq_zero _ hr, hnone r hr]
    | true => rw [hcommitted' r hr, hcommitted, hsu.committed]
  have hv_reserved : ∀ r, v.reserved.of r = s.reserved.of r := by
    intro r
    cases hr : r.isCumulative with
    | false => rw [BudgetCounters.of_eq_zero _ hr, BudgetCounters.of_eq_zero _ hr]
    | true => rw [hreserved' r hr, hreserved r hr, Nat.add_sub_cancel, hsu.reserved]
  refine ⟨hconfig'.trans (hconfig.trans hsu.config), hheap'.trans (hheap.trans hsu.heap),
    hv_committed, hv_reserved, fun r => ?_, fun r hle => ?_, fun r => by rw [hnoted', hsame],
    fun r => by rw [hreleased', hsame]⟩
  · have := hroom r
    rw [hsu.committed, hsu.reserved] at this
    rw [hv_committed, hv_reserved]
    omega
  · rw [hv_committed, hv_reserved]
    rcases asked_fits h hrefusal r with hzero | hfits
    · omega
    · omega

/-- A compound charge is all or nothing, and it tells what it commits. -/
theorem meets_chargeAll {requests : List CumulativeRequest} (h : Proper requests)
    (phase : ExecutionPhase) : Proc.Meets steady (chargeAll requests phase) := by
  intro s hs
  have hcharges := chargesAll_chargeAll h phase s fun r => by
    rw [(hs r).1]
    exact (hs r).2
  rcases hrun : (chargeAll requests phase).run s with ⟨stop | ⟨⟩, t⟩ <;> rw [hrun] at hcharges
  · exact hcharges.steady hs
  · refine ⟨fun r => ⟨by rw [hcharges.reserved, (hs r).1], ?_⟩, fun r => ?_, hcharges.heap,
      hcharges.released _⟩
    · have := hcharges.range r
      omega
    · have := hcharges.committed r
      have := hcharges.told r
      omega

/-! ## Limits -/

theorem limited_of_unlimited {α : Type} {m : Charge α} (h : Proc.Meets unlimited m) :
    Proc.Meets limited m :=
  Proc.Ends.mono h fun h => h.1.config

theorem config_addReserved_all (requests : List CumulativeRequest) (l : BudgetLedger) :
    (requests.foldl addReserved l).config = l.config := by
  induction requests generalizing l with
  | nil => rfl
  | cons q rest ih => exact ih _

theorem limited_commitAll (requests : List CumulativeRequest) :
    Proc.Meets limited (commitAll requests) := by
  induction requests with
  | nil => exact Proc.meets_pure ()
  | cons q rest ih =>
    refine Proc.meets_bind (Proc.meets_modify fun l => ?_) fun _ => ih
    show BudgetLedger.config (if _ then _ else _) = _
    split <;> rfl

theorem limited_chargeAll (requests : List CumulativeRequest) (phase : ExecutionPhase) :
    Proc.Meets limited (chargeAll requests phase) := by
  refine Proc.meets_bind ?_ fun _ => limited_commitAll requests
  refine Proc.meets_bind (limited_of_unlimited unlimited_checkCancel) fun _ => ?_
  refine Proc.meets_bind (limited_of_unlimited unlimited_checkDeadline) fun _ => ?_
  refine Proc.meets_bind (Proc.meets_gets _) fun refusal => ?_
  cases refusal with
  | some exceeded => exact Proc.meets_stop fun _ => rfl
  | none => exact Proc.meets_modify fun l => config_addReserved_all requests l

theorem limited_checkCollectionElements (candidate : Nat) (phase : ExecutionPhase) :
    Proc.Meets limited (checkCollectionElements candidate phase) := by
  refine Proc.meets_bind (limited_of_unlimited unlimited_checkCancel) fun _ => ?_
  refine Proc.meets_bind (Proc.meets_gets _) fun limit => ?_
  exact Proc.meets_ite (Proc.meets_stop fun _ => rfl) (Proc.meets_modify fun _ => rfl)

/-! ## The charge functions -/

theorem proper_single (amount : Nat) : Proper [⟨.fuel, amount⟩] := by
  simp [Proper, BudgetResource.isCumulative]

theorem proper_pair {count bytes : BudgetResource} (hne : count ≠ bytes)
    (hcount : count.isCumulative = true) (hbytes : bytes.isCumulative = true) (byteLen : Nat) :
    Proper [⟨count, 1⟩, ⟨bytes, byteLen⟩] := by
  simp [Proper, hne, hcount, hbytes]

theorem meets_chargeFuel (amount : Nat) (phase : ExecutionPhase) :
    Proc.Meets steady (chargeFuel amount phase) := meets_chargeAll (proper_single amount) phase

theorem meets_perItem (r : BudgetResource) (candidate : Nat) (phase : ExecutionPhase)
    {within : Charge Unit} (h : Proc.Meets steady within) :
    Proc.Meets steady (perItem r candidate phase within) := by
  refine Proc.meets_bind (Proc.meets_gets _) fun limit => Proc.meets_ite ?_ h
  exact Proc.meets_bind meets_checkCancel fun _ => Proc.meets_stop fun _ h => .refl h

/-- A peak is not part of the balance. -/
theorem meets_peaks (f : BudgetLedger → BudgetPeaks) :
    Proc.Meets steady (Proc.modify fun l => { l with peaks := f l } : Charge Unit) :=
  meets_of_untouched (untouched_peaks f)

theorem untouched_checkCollectionElements (candidate : Nat) (phase : ExecutionPhase) :
    Proc.Meets untouched (checkCollectionElements candidate phase) := by
  refine Proc.meets_bind (untouched_of_unlimited unlimited_checkCancel) fun _ => ?_
  refine Proc.meets_bind (Proc.meets_gets _) fun limit => ?_
  exact Proc.meets_ite (Proc.meets_stop fun _ => .refl _) (untouched_peaks _)

theorem meets_checkCollectionElements (candidate : Nat) (phase : ExecutionPhase) :
    Proc.Meets steady (checkCollectionElements candidate phase) :=
  meets_of_untouched (untouched_checkCollectionElements candidate phase)

theorem meets_chargeString (byteLen : Nat) (phase : ExecutionPhase) :
    Proc.Meets steady (chargeString byteLen phase) := by
  refine meets_perItem _ _ _ (Proc.meets_bind (meets_chargeAll ?_ _) fun _ => meets_peaks _)
  exact proper_pair (by decide) rfl rfl byteLen

theorem meets_chargeSource (byteLen : Nat) (phase : ExecutionPhase) :
    Proc.Meets steady (chargeSource byteLen phase) := by
  refine meets_perItem _ _ _ (Proc.meets_bind (meets_chargeAll ?_ _) fun _ => meets_peaks _)
  exact proper_pair (by decide) rfl rfl byteLen

theorem meets_chargeImport (byteLen : Nat) (phase : ExecutionPhase) :
    Proc.Meets steady (chargeImport byteLen phase) :=
  meets_chargeAll (proper_pair (by decide) rfl rfl byteLen) phase

theorem meets_chargeInput (payloadBytes : Nat) (phase : ExecutionPhase) :
    Proc.Meets steady (chargeInput payloadBytes phase) := by
  refine meets_chargeAll ?_ phase
  simp [Proper, BudgetResource.isCumulative]

theorem meets_chargeOutput (payloadBytes : Nat) (phase : ExecutionPhase) :
    Proc.Meets steady (chargeOutput payloadBytes phase) := by
  refine meets_chargeAll ?_ phase
  simp [Proper, BudgetResource.isCumulative]

theorem meets_chargeHostCallRequest (requestBytes : Nat) (phase : ExecutionPhase) :
    Proc.Meets steady (chargeHostCallRequest requestBytes phase) := by
  refine meets_chargeAll ?_ phase
  simp [Proper, BudgetResource.isCumulative]

theorem meets_chargeHostResponseBytes (responseBytes : Nat) (phase : ExecutionPhase) :
    Proc.Meets steady (chargeHostResponseBytes responseBytes phase) := by
  refine meets_chargeAll ?_ phase
  simp [Proper, BudgetResource.isCumulative]

theorem meets_checkRendered (rendered : Nat) (phase : ExecutionPhase) :
    Proc.Meets steady (checkRendered rendered phase) :=
  meets_perItem _ _ _ (Proc.meets_pure _)

/-! ## Live heap -/

/-- A call that charges `taken` bytes of heap when it is granted, and gives `given` back. -/
def HeapMoves (taken given : Nat) (m : Charge Unit) : Prop :=
  Proc.Ends (fun r s t => s.Idle → Moves (if r.isOk then taken else 0) given s t) m

theorem heapMoves_of_meets {m : Charge Unit} (h : Proc.Meets steady m) : HeapMoves 0 0 m :=
  Proc.Ends.mono h fun h hs => by simpa using (h hs).moves

theorem heapMoves_bind {taken given : Nat} {α : Type} {m : Charge α} {f : α → Charge Unit}
    (hm : Proc.Meets steady m) (hf : ∀ a, HeapMoves taken given (f a)) :
    HeapMoves taken given (m >>= f) :=
  Proc.ends_bind hm hf (fun h h' hs => by simpa using (h hs).moves.trans (h' (h hs).idle))
    fun h hs => (h hs).moves.mono (by simp [Except.isOk, Except.toBool]) (Nat.zero_le _)

theorem onHeap_ok {f : AllocationLedger → Except ControlStop AllocationLedger} {s : BudgetLedger}
    {heap : AllocationLedger} (h : f s.heap = .ok heap) :
    (onHeap f).run s = (.ok (), { s with heap }) := by
  simp [onHeap, h]

theorem onHeap_error {f : AllocationLedger → Except ControlStop AllocationLedger}
    {s : BudgetLedger} {stop : ControlStop} (h : f s.heap = .error stop) :
    (onHeap f).run s = (.error stop, s) := by
  simp [onHeap, h]

/-- A charge that is granted moves live heap by its size, within the range. -/
theorem charge_ok {h h' : AllocationLedger} {bytes : Nat} {phase : ExecutionPhase}
    (heq : h.charge bytes phase = .ok h') :
    h'.liveBytes = h.liveBytes + bytes ∧ h'.nextId = h.nextId := by
  unfold AllocationLedger.charge at heq
  split at heq
  next total htotal =>
    obtain ⟨-, rfl⟩ := checkedAdd_eq_some.mp htotal
    split at heq <;> cases heq
    exact ⟨rfl, rfl⟩
  next => cases heq

theorem heapMoves_heapChargeRaw (bytes : Nat) (phase : ExecutionPhase) :
    HeapMoves bytes 0 (heapChargeRaw bytes phase) := by
  intro s hs
  unfold heapChargeRaw
  rcases hcharge : s.heap.charge bytes phase with stop | heap
  · rw [onHeap_error hcharge]
    exact .refl hs
  · rw [onHeap_ok hcharge]
    refine ⟨hs, fun _ => rfl, fun hq => ⟨hq, ?_⟩⟩
    simp [Except.isOk, Except.toBool, (charge_ok hcharge).1]

theorem allocateId_ok {h h' : AllocationLedger} (heq : h.allocateId = .ok h') :
    h'.liveBytes = h.liveBytes ∧ h'.nextId = h.nextId + 1 := by
  unfold AllocationLedger.allocateId at heq
  split at heq <;> cases heq
  next htotal =>
    obtain ⟨-, rfl⟩ := checkedAdd_eq_some.mp htotal
    exact ⟨rfl, rfl⟩

theorem moves_allocateHeapId {s : BudgetLedger} (hs : s.Idle) :
    Moves 0 0 s (allocateHeapId.run s).2 := by
  unfold allocateHeapId
  rcases hid : s.heap.allocateId with stop | heap
  · rw [onHeap_error hid]
    exact .refl hs
  · rw [onHeap_ok hid]
    exact ⟨hs, fun _ => rfl, fun hq => ⟨hq, by rw [← (allocateId_ok hid).1]⟩⟩

theorem heapMoves_chargeHeap (bytes : Nat) (phase : ExecutionPhase) :
    HeapMoves bytes 0 (chargeHeap bytes phase) :=
  heapMoves_bind meets_checkCancel fun _ => heapMoves_bind meets_checkDeadline fun _ =>
    heapMoves_heapChargeRaw bytes phase

/-- A charge whose backing gets no id stays charged. -/
theorem heapMoves_allocate {bytes : Nat} {m : Charge Unit} (hm : HeapMoves bytes 0 m) :
    HeapMoves bytes 0 (m >>= fun _ => allocateHeapId) := by
  intro s hs
  have hm' := hm s hs
  rcases hrun : m.run s with ⟨stop | ⟨⟩, t⟩ <;> rw [hrun] at hm'
  · rw [Proc.bind_run_error hrun]
    exact hm'
  · rw [Proc.bind_run_ok hrun]
    have h := hm'.trans (moves_allocateHeapId hm'.idle)
    refine h.mono (le_trans ?_ (Nat.le_add_right _ _)) (Nat.le_refl _)
    split
    · exact Nat.le_refl _
    · exact Nat.zero_le _

theorem heapMoves_newTracked (bytes : Nat) (phase : ExecutionPhase) :
    HeapMoves bytes 0 (newTracked bytes phase) :=
  heapMoves_allocate (heapMoves_chargeHeap bytes phase)

theorem heapMoves_newViaHandle (bytes : Nat) (phase : ExecutionPhase) :
    HeapMoves bytes 0 (newViaHandle bytes phase) :=
  heapMoves_allocate (heapMoves_heapChargeRaw bytes phase)

theorem moves_dropTracked {s : BudgetLedger} (hs : s.Idle) (bytes : Nat) :
    Moves 0 bytes s ((dropTracked bytes).run s).2 := by
  refine ⟨hs, fun _ => rfl, fun hq => ⟨hq, ?_⟩⟩
  simp only [dropTracked, Proc.modify_run, AllocationLedger.release, satSub]
  omega

/-- A release that is told breaks the quiet, so that nothing more is promised of live heap. -/
theorem moves_releaseHeap {s : BudgetLedger} (hs : s.Idle) (bytes : Nat) :
    Moves 0 0 s ((releaseHeap bytes).run s).2 := by
  simp only [releaseHeap, Proc.modify_run]
  split
  next hpos =>
    refine ⟨hs, fun r => ?_, fun hq => ?_⟩
    · rw [notedDelta_note]
      simp [Note.delta, Side.select, notedDelta, note]
    · rw [Quiet, notedDelta_note] at hq
      simp only [Note.delta, Side.select, if_true] at hq
      omega
  next hzero =>
    obtain rfl : bytes = 0 := by omega
    exact (Untouched.steady ⟨rfl, rfl, rfl, rfl, rfl⟩ hs).moves

/-- A backing that changes its size counts with the new size afterwards. -/
theorem heapMoves_retrack (oldBytes newBytes : Nat) (phase : ExecutionPhase) :
    Proc.Ends (fun r s t => s.Idle → Moves 0 0 s t ∧ (r.isOk → Moves newBytes oldBytes s t))
      (retrack oldBytes newBytes phase) := by
  intro s hs
  unfold retrack
  split
  next hgrow =>
    have h := heapMoves_chargeHeap (newBytes - oldBytes) phase s hs
    refine ⟨h.mono (Nat.zero_le _) (Nat.le_refl _), fun hok => ?_⟩
    rw [if_pos hok] at h
    exact ⟨h.idle, h.balances, fun hq => ⟨(h.quiet hq).1, by have := (h.quiet hq).2; omega⟩⟩
  next =>
    split
    next hshrink =>
      refine ⟨moves_releaseHeap hs _, fun _ => ⟨(moves_releaseHeap hs _).idle,
        (moves_releaseHeap hs _).balances, fun hq => ?_⟩⟩
      simp only [releaseHeap, Proc.modify_run, if_pos (Nat.sub_pos_of_lt hshrink)] at hq
      rw [Quiet, notedDelta_note] at hq
      simp only [Note.delta, Side.select, if_true] at hq
      omega
    next hsame =>
      refine ⟨.refl hs, fun _ => ⟨hs, fun _ => rfl, fun hq => ⟨hq, ?_⟩⟩⟩
      simp only [Proc.pure_run]
      omega

/-- What a charge of the heap does to live heap, for every ledger. -/
theorem live_chargeHeap (bytes : Nat) (phase : ExecutionPhase) :
    Proc.Ends (fun r s t => t.heap.liveBytes = s.heap.liveBytes + if r.isOk then bytes else 0)
      (chargeHeap bytes phase) := by
  have hraw : Proc.Ends (fun r s t => t.heap.liveBytes = s.heap.liveBytes + if r.isOk then bytes else 0)
      (heapChargeRaw bytes phase) := by
    intro s
    unfold heapChargeRaw
    rcases hcharge : s.heap.charge bytes phase with stop | heap
    · rw [onHeap_error hcharge]
      rfl
    · rw [onHeap_ok hcharge]
      exact (charge_ok hcharge).1
  have hafter {α : Type} {m : Charge α} {k : α → Charge Unit} (hm : Proc.Meets untouched m)
      (hk : ∀ a, Proc.Ends (fun r s t =>
        t.heap.liveBytes = s.heap.liveBytes + if r.isOk then bytes else 0) (k a)) :
      Proc.Ends (fun r s t => t.heap.liveBytes = s.heap.liveBytes + if r.isOk then bytes else 0)
        (m >>= k) :=
    Proc.ends_bind hm hk (fun h h' => by rw [h', h.heap]) fun h => by rw [h.heap]; rfl
  exact hafter (untouched_of_unlimited unlimited_checkCancel) fun _ =>
    hafter (untouched_of_unlimited unlimited_checkDeadline) fun _ => hraw

end LedgerLemmas

end Tsumugi.Budget
