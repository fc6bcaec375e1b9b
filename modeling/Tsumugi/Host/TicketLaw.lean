import Tsumugi.Host.Ticket

/-!
# No lost results and no lost wake-ups

The invariant of a ticket follows the program counter of the one call that
consumed the completer: the result is there (or disposed of) from its first lock
section on, the flag is set from its store on, and from its read of the waker on
the saved waker has been woken or is the one it is about to wake.

Result: `ticket_law`, that every reachable state of every run has `LastSavedLaw`.
-/

namespace Tsumugi.Host

open Transition

variable {R W : Type}

/-! ## The invariant -/

namespace TicketLemmas

/-- The first lock section of `complete` is over. -/
def ResultSaved : Option (Pc R W) → Prop
  | some .storeReady | some .readWaker | some (.wakeRead _) | some (.returned _) => True
  | _ => False

/-- `complete` has stored the flag. -/
def ReadySet : Option (Pc R W) → Prop
  | some .readWaker | some (.wakeRead _) | some (.returned _) => True
  | _ => False

/-- `complete` has read the waker. -/
def WakerRead : Option (Pc R W) → Prop
  | some (.wakeRead _) | some (.returned _) => True
  | _ => False

/-- The steps that belong to an operation. -/
def Op.Has : Op R W → Pc R W → Prop
  | .registerWaker _, .saveWaker | .registerWaker _, .recheckReady
  | .registerWaker _, .wakeNew | .registerWaker _, .returned none => True
  | .complete _, .saveResult | .complete _, .storeReady | .complete _, .readWaker
  | .complete _, .wakeRead _ | .complete _, .returned none => True
  | .tryTake, .loadReady | .tryTake, .takeLocked | .tryTake, .returned _ => True
  | .cancel, .cancelLocked | .cancel, .returned none => True
  | .drop, .cancelLocked | .drop, .returned none => True
  | _, _ => False

/-- The completed result `r` is the one that the completer carries. -/
def Completes (s : TicketRun R W) (r : R) : Prop :=
  ∃ j d, s.completer = some j ∧ s.calls j = some d ∧ d.op = .complete r

/-- Which calls there are and what they do. -/
structure Shape (s : TicketRun R W) : Prop where
  fresh : ∀ i, s.nextCall ≤ i → s.calls i = none
  has : ∀ i c, s.calls i = some c → Op.Has c.op c.pc
  completer_op : ∀ i, s.completer = some i → ∃ c r, s.calls i = some c ∧ c.op = .complete r
  completer_unique : ∀ i c r, s.calls i = some c → c.op = .complete r → s.completer = some i

/-- Where the result is. -/
structure ResultInv (s : TicketRun R W) : Prop where
  ready_iff : s.ticket.ready = true ↔ ReadySet s.completerPc
  not_saved : ¬ ResultSaved s.completerPc → s.ticket.state.result = none ∧ ¬ s.Taken
  saved : ResultSaved s.completerPc →
    s.ticket.state.result.isSome ∨ s.ticket.state.cancelled = true ∨ s.Taken
  not_taken : s.ticket.state.result.isSome → ¬ s.Taken
  completes : ∀ r, s.ticket.state.result = some r → Completes s r
  taken_once : ∀ i j c d, s.calls i = some c → s.calls j = some d → c.took → d.took → i = j
  taken_completed : ∀ i c r, s.calls i = some c → c.pc = .returned (some r) → Completes s r
  closed : s.closed = true → s.ticket.state.cancelled = true
  after_close : ∀ i c, s.calls i = some c → c.afterClose = true → s.closed = true ∧ ¬ c.took

/-- `w` has been woken, or `complete` is still going to wake it if it stays the
saved waker. -/
def Awaited (s : TicketRun R W) (w : W) : Prop :=
  (∃ k ∈ s.wakes, k.waker = w ∧ k.Settled) ∨ ¬ WakerRead s.completerPc ∨
    s.completerPc = some (.wakeRead (some w))

/-- Which waker is saved, and what is known of its registration. -/
structure WakerInv (s : TicketRun R W) : Prop where
  wake_new : ∀ i c, s.calls i = some c → c.pc = .wakeNew → s.ticket.ready = true
  saved_some : ∀ i, s.lastSaved = some i → ∃ c w, s.calls i = some c ∧
    c.op = .registerWaker w ∧ c.pc ≠ .saveWaker ∧ s.ticket.state.waker = some w
  awaited : ∀ i w, s.lastSaved = some i → s.Registered i w → Awaited s w

/-- Call `i` is a registration in progress. -/
def Pending (s : TicketRun R W) (i : Nat) : Prop :=
  ∃ c w, s.calls i = some c ∧ c.op = .registerWaker w ∧ c.pc ≠ .returned none

/-- No registration is in progress. -/
structure Idle (s : TicketRun R W) : Prop where
  registering : s.registering = 0
  order : s.lastSaved = s.lastReturned
  none_pending : ∀ i, ¬ Pending s i

/-- Call `i` is the only registration in progress. -/
structure Busy (s : TicketRun R W) (i : Nat) (c : Call R W) : Prop where
  registering : s.registering = 1
  here : s.calls i = some c
  op : ∃ w, c.op = .registerWaker w
  only : ∀ j, Pending s j → j = i
  before : c.pc = .saveWaker → s.lastSaved = s.lastReturned
  after : c.pc ≠ .saveWaker → s.lastSaved = some i

/-- Without overlapping registrations the order of returns is that of saves. -/
def OrderInv (s : TicketRun R W) : Prop :=
  s.overlapped = false → Idle s ∨ ∃ i c, Busy s i c

/-! ### What the building blocks of a step change -/

@[simp] theorem goto_calls (s : TicketRun R W) (i j : Nat) (c : Call R W) (pc : Pc R W) :
    (s.goto i c pc).calls j = if j = i then some { c with pc := pc } else s.calls j := by
  simp [TicketRun.goto, Function.update_apply]

@[simp] theorem completerPc_goto (s : TicketRun R W) (i : Nat) (c : Call R W)
    (pc : Pc R W) :
    (s.goto i c pc).completerPc = if s.completer = some i then some pc else s.completerPc := by
  unfold TicketRun.completerPc
  cases hk : s.completer with
  | none => simp [TicketRun.goto, hk]
  | some k => by_cases hki : k = i <;> simp [TicketRun.goto, hk, hki]

theorem taken_goto {s : TicketRun R W} {i : Nat} {c : Call R W} (hc : s.calls i = some c)
    (hnot : ¬ c.took) (pc : Pc R W) :
    (s.goto i c pc).Taken ↔ (∃ r, pc = .returned (some r)) ∨ s.Taken := by
  simp only [TicketRun.Taken, goto_calls]
  constructor
  · rintro ⟨j, d, hd, htook⟩
    split at hd
    · cases hd
      exact .inl htook
    · exact .inr ⟨j, d, hd, htook⟩
  · rintro (hr | ⟨j, d, hd, htook⟩)
    · exact ⟨i, _, if_pos rfl, hr⟩
    · have hne : j ≠ i := by
        rintro rfl
        exact hnot (Option.some.inj (hc.symm.trans hd) ▸ htook)
      exact ⟨j, d, by rw [if_neg hne, hd], htook⟩

theorem registered_goto (s : TicketRun R W) (i j : Nat) (c : Call R W) (pc : Pc R W) (w : W) :
    (s.goto i c pc).Registered j w ↔
      if j = i then c.op = .registerWaker w ∧ pc = .returned none else s.Registered j w := by
  simp only [TicketRun.Registered, goto_calls]
  split <;> simp


section
variable (s : TicketRun R W) (i : Nat) (c : Call R W) (pc : Pc R W) (st : TicketState R W)

@[simp] theorem goto_ticket : (s.goto i c pc).ticket = s.ticket := rfl
@[simp] theorem goto_completer : (s.goto i c pc).completer = s.completer := rfl
@[simp] theorem goto_closed : (s.goto i c pc).closed = s.closed := rfl
@[simp] theorem goto_wakes : (s.goto i c pc).wakes = s.wakes := rfl
@[simp] theorem goto_lastSaved : (s.goto i c pc).lastSaved = s.lastSaved := rfl
@[simp] theorem goto_nextCall : (s.goto i c pc).nextCall = s.nextCall := rfl
@[simp] theorem setState_calls : (s.setState st).calls = s.calls := rfl
@[simp] theorem setState_completer : (s.setState st).completer = s.completer := rfl
@[simp] theorem setState_state : (s.setState st).ticket.state = st := rfl
@[simp] theorem setState_ready : (s.setState st).ticket.ready = s.ticket.ready := rfl
@[simp] theorem setState_completerPc : (s.setState st).completerPc = s.completerPc := rfl

end

theorem completerPc_eq {s : TicketRun R W} {i : Nat} {c : Call R W} (hi : s.completer = some i)
    (hc : s.calls i = some c) : s.completerPc = some c.pc := by
  simp [TicketRun.completerPc, hi, hc]

theorem not_completer {s : TicketRun R W} (h : Shape s) {i : Nat} {c : Call R W}
    (hc : s.calls i = some c) (hop : ∀ r, c.op ≠ .complete r) : s.completer ≠ some i := by
  intro hi
  obtain ⟨d, r, hd, hdop⟩ := h.completer_op i hi
  exact hop r (Option.some.inj (hc.symm.trans hd) ▸ hdop)

/-! ### Every step keeps the shape -/

theorem Shape.goto {s : TicketRun R W} (h : Shape s) {i : Nat} {c : Call R W}
    (hc : s.calls i = some c) {p : Pc R W} (hpc : Op.Has c.op p) : Shape (s.goto i c p) := by
  have hlt : i < s.nextCall := Nat.lt_of_not_le fun hle => by simp [h.fresh i hle] at hc
  obtain ⟨fresh, has, completer_op, completer_unique⟩ := h
  constructor
  · intro j hj
    rw [goto_calls, if_neg (by rintro rfl; exact absurd hj (Nat.not_le.mpr hlt))]
    exact fresh j hj
  · intro j d hd
    rw [goto_calls] at hd
    split at hd
    · cases hd
      exact hpc
    · exact has j d hd
  · intro j hj
    obtain ⟨d, r, hd, hop⟩ := completer_op j hj
    by_cases hji : j = i
    · subst hji
      obtain rfl := Option.some.inj (hc.symm.trans hd)
      exact ⟨{ c with pc := p }, r, by rw [goto_calls, if_pos rfl], hop⟩
    · exact ⟨d, r, by rw [goto_calls, if_neg hji, hd], hop⟩
  · intro j d r hd hop
    rw [goto_calls] at hd
    split at hd
    · next hji =>
      cases hd
      exact completer_unique j c r (hji ▸ hc) hop
    · exact completer_unique j d r hd hop

/-- The shape, the result and the waker invariants each read only part of the
run. -/
theorem Shape.congr {s t : TicketRun R W} (h : Shape s) (hcalls : t.calls = s.calls)
    (hnext : t.nextCall = s.nextCall) (hcompleter : t.completer = s.completer) : Shape t := by
  obtain ⟨fresh, has, completer_op, completer_unique⟩ := h
  exact ⟨hnext ▸ hcalls ▸ fresh, hcalls ▸ has, by rw [hcompleter, hcalls]; exact completer_op,
    by rw [hcompleter, hcalls]; exact completer_unique⟩

theorem ResultInv.congr {s t : TicketRun R W} (h : ResultInv s) (hcalls : t.calls = s.calls)
    (hcompleter : t.completer = s.completer) (hclosed : t.closed = s.closed)
    (hready : t.ticket.ready = s.ticket.ready)
    (hresult : t.ticket.state.result = s.ticket.state.result)
    (hcancelled : t.ticket.state.cancelled = s.ticket.state.cancelled) : ResultInv t := by
  obtain ⟨ready_iff, not_saved, saved, not_taken, completes, taken_once, taken_completed, closed,
    after_close⟩ := h
  have hpc : t.completerPc = s.completerPc := by
    simp [TicketRun.completerPc, hcompleter, hcalls]
  have htaken : t.Taken ↔ s.Taken := by simp [TicketRun.Taken, hcalls]
  have hcompletes : ∀ r, Completes t r ↔ Completes s r := by
    simp [Completes, hcompleter, hcalls]
  constructor <;> simpa only [hcalls, hclosed, hready, hresult, hcancelled, hpc, htaken, hcompletes]

theorem Completes.goto {s : TicketRun R W} {i : Nat} {c : Call R W} (hc : s.calls i = some c)
    (pc : Pc R W) {r : R} (h : Completes s r) : Completes (s.goto i c pc) r := by
  obtain ⟨j, d, hj, hd, hop⟩ := h
  by_cases hji : j = i
  · subst hji
    obtain rfl := Option.some.inj (hc.symm.trans hd)
    exact ⟨j, { c with pc := pc }, hj, by rw [goto_calls, if_pos rfl], hop⟩
  · exact ⟨j, d, hj, by rw [goto_calls, if_neg hji, hd], hop⟩

/-- A step that returns no result, leaves the mutex-protected record alone and
raises the flag just when the completer passes its store. -/
theorem ResultInv.move {s : TicketRun R W} (h : ResultInv s) {i : Nat} {c : Call R W}
    (hc : s.calls i = some c) (hnot : ¬ c.took) {p : Pc R W} {b : Bool}
    (hpc : ∀ r, p ≠ .returned (some r))
    (hsaved : s.completer = some i → (ResultSaved (some p) ↔ ResultSaved (some c.pc)))
    (hready : b = true ↔ ReadySet (s.goto i c p).completerPc) :
    ResultInv { s.goto i c p with ticket := { s.ticket with ready := b } } := by
  have htaken : (s.goto i c p).Taken ↔ s.Taken := by
    rw [taken_goto hc hnot p]
    simp [hpc]
  have hS : ResultSaved (s.goto i c p).completerPc ↔ ResultSaved s.completerPc := by
    rw [completerPc_goto]
    split
    · next hi => rw [hsaved hi, completerPc_eq hi hc]
    · rfl
  have hcalls : ∀ j d, (s.goto i c p).calls j = some d → d.took → s.calls j = some d := by
    intro j d hd htook
    rw [goto_calls] at hd
    split at hd
    · cases hd
      obtain ⟨r, hr⟩ := htook
      exact absurd hr (hpc r)
    · exact hd
  refine ⟨hready, fun hns => ?_, fun hs => ?_, fun hsome ht => h.not_taken hsome (htaken.mp ht),
    fun r hr => (h.completes r hr).goto hc p, ?_, ?_, h.closed, ?_⟩
  · obtain ⟨hnone, hnever⟩ := h.not_saved (fun hs => hns (hS.mpr hs))
    exact ⟨hnone, fun ht => hnever (htaken.mp ht)⟩
  · rcases h.saved (hS.mp hs) with hsome | hcan | ht
    · exact .inl hsome
    · exact .inr (.inl hcan)
    · exact .inr (.inr (htaken.mpr ht))
  · intro j k d e hd he htd hte
    exact h.taken_once j k d e (hcalls j d hd htd) (hcalls k e he hte) htd hte
  · intro j d r hd hr
    exact (h.taken_completed j d r (hcalls j d hd ⟨r, hr⟩) hr).goto hc p
  · intro j d hd hafter
    have hd : (s.goto i c p).calls j = some d := hd
    rw [goto_calls] at hd
    split at hd
    · cases hd
      refine ⟨(h.after_close i c hc hafter).1, ?_⟩
      rintro ⟨r, hr⟩
      exact hpc r hr
    · exact h.after_close j d hd hafter

/-- A step of a call other than `complete` that only moves on. -/
theorem ResultInv.quiet {s : TicketRun R W} (h : ResultInv s) {i : Nat} {c : Call R W}
    (hc : s.calls i = some c) (hne : s.completer ≠ some i) (hnot : ¬ c.took) {p : Pc R W}
    (hpc : ∀ r, p ≠ .returned (some r)) : ResultInv (s.goto i c p) :=
  h.move (b := s.ticket.ready) hc hnot hpc (fun hi => absurd hi hne)
    (by simpa [hne] using h.ready_iff)

/-- A step of `complete` other than its first lock section. -/
theorem ResultInv.complete {s : TicketRun R W} (h : ResultInv s) {i : Nat} {c : Call R W}
    (hc : s.calls i = some c) (hi : s.completer = some i) (hnot : ¬ c.took) {p : Pc R W} {b : Bool}
    (hpc : ∀ r, p ≠ .returned (some r)) (hold : ResultSaved (some c.pc))
    (hnew : ResultSaved (some p)) (hb : b = true ↔ ReadySet (some p)) :
    ResultInv { s.goto i c p with ticket := { s.ticket with ready := b } } :=
  h.move hc hnot hpc (fun _ => ⟨fun _ => hold, fun _ => hnew⟩) (by simpa [hi] using hb)

/-- A call that is not the completer returns nothing and disposes of the result,
or finds that there is none. -/
theorem ResultInv.discard {s : TicketRun R W} (h : ResultInv s) {i : Nat} {c : Call R W}
    (hc : s.calls i = some c) (hne : s.completer ≠ some i) (hnot : ¬ c.took)
    {u : TicketState R W} {b : Bool} (hnone : u.result = none)
    (hkeep : u.cancelled = true ∨
      u.cancelled = s.ticket.state.cancelled ∧ s.ticket.state.result = none)
    (hb : b = true → u.cancelled = true) (hmono : s.closed = true → b = true) :
    ResultInv { (s.setState u).goto i c (.returned none) with closed := b } := by
  have h := h.quiet hc hne hnot (p := .returned none) (by simp)
  obtain ⟨ready_iff, not_saved, saved, not_taken, completes, taken_once, taken_completed, closed,
    after_close⟩ := h
  refine ⟨ready_iff, fun hns => ⟨hnone, (not_saved hns).2⟩, fun hs => ?_, ?_, ?_, taken_once,
    taken_completed, hb, fun j d hd ha => ⟨hmono (after_close j d hd ha).1, (after_close j d hd ha).2⟩⟩
  · rcases hkeep with hcan | ⟨hcan, hres⟩
    · exact .inr (.inl hcan)
    · rcases saved hs with hsome | hc' | ht
      · rw [goto_ticket, hres] at hsome
        cases hsome
      · exact .inr (.inl (hcan.trans hc'))
      · exact .inr (.inr ht)
  · intro hsome
    have hsome : u.result.isSome := hsome
    rw [hnone] at hsome
    cases hsome
  · intro r hr
    have hr : u.result = some r := hr
    rw [hnone] at hr
    cases hr

/-- A `try_take` returns the result. -/
theorem ResultInv.deliver {s : TicketRun R W} (h : ResultInv s) {i : Nat} {c : Call R W}
    (hc : s.calls i = some c) (hne : s.completer ≠ some i) {r : R}
    (hresult : s.ticket.state.result = some r) (hlive : s.ticket.state.cancelled = false) :
    ResultInv ((s.setState { s.ticket.state with result := none }).goto i c
      (.returned (some r))) := by
  have hnever : ¬ s.Taken := h.not_taken (by simp [hresult])
  have hnone : ∀ j d, s.calls j = some d → ¬ d.took := fun j d hd htook => hnever ⟨j, d, hd, htook⟩
  have hcompletes := (h.completes r hresult).goto hc (.returned (some r))
  have hopen : s.closed ≠ true := fun hcl => by simpa [hlive] using h.closed hcl
  have htook : ∀ j d, (s.goto i c (.returned (some r))).calls j = some d → d.took → j = i := by
    intro j d hd ht
    by_contra hji
    rw [goto_calls, if_neg hji] at hd
    exact hnone j d hd ht
  have hsaved : ResultSaved s.completerPc := by
    by_contra hns
    simpa [hresult] using (h.not_saved hns).1
  refine ⟨by simpa [hne] using h.ready_iff, fun hns => absurd hsaved (by simpa [hne] using hns),
    fun _ => .inr (.inr ⟨i, { c with pc := .returned (some r) }, by simp, r, rfl⟩),
    fun hsome => by simp at hsome, fun r' hr' => by simp at hr', ?_, ?_, h.closed, ?_⟩
  · intro j k d e hd he htd hte
    rw [htook j d hd htd, htook k e he hte]
  · intro j d r' hd hr'
    obtain rfl := htook j d hd ⟨r', hr'⟩
    obtain rfl : { c with pc := .returned (some r) } = d := by
      simpa using hd
    cases hr'
    exact hcompletes
  · intro j d hd hafter
    refine absurd ?_ hopen
    by_cases hji : j = i
    · obtain rfl : { c with pc := .returned (some r) } = d := by
        simpa [hji] using hd
      exact (h.after_close i c hc hafter).1
    · exact (h.after_close j d (by simpa [hji] using hd) hafter).1

theorem ResultInv.takeLocked {s : TicketRun R W} (h : ResultInv s) {i : Nat} {c : Call R W}
    (hc : s.calls i = some c) (hne : s.completer ≠ some i) (hnot : ¬ c.took) :
    ResultInv ((s.setState s.ticket.state.take.2).goto i c (.returned s.ticket.state.take.1)) := by
  have hdiscard := h.discard hc hne hnot (u := s.ticket.state.take.2) (b := s.closed) rfl
  rcases hcan : s.ticket.state.cancelled with _ | _
  · cases hres : s.ticket.state.result with
    | none =>
      have htake : s.ticket.state.take.1 = none := by simp [TicketState.take, hres]
      rw [htake]
      exact hdiscard (.inr ⟨rfl, hres⟩) h.closed id
    | some r =>
      have htake : s.ticket.state.take.1 = some r := by simp [TicketState.take, hres, hcan]
      rw [htake]
      exact h.deliver hc hne hres hcan
  · have htake : s.ticket.state.take.1 = none := by simp [TicketState.take, hcan]
    rw [htake]
    exact hdiscard (.inl hcan) h.closed id

/-- The completer saves the result. -/
theorem ResultInv.saveResult {s : TicketRun R W} (h : ResultInv s) {i : Nat} {c : Call R W}
    (hc : s.calls i = some c) (hi : s.completer = some i) (hpc : c.pc = .saveResult) {r : R}
    (hop : c.op = .complete r) :
    ResultInv ((s.setState { s.ticket.state with result := some r }).goto i c .storeReady) := by
  have hold : s.completerPc = some .saveResult := hpc ▸ completerPc_eq hi hc
  obtain ⟨hnone, hnever⟩ := h.not_saved (by simp [hold, ResultSaved])
  have hnt : ∀ j d, (s.goto i c .storeReady).calls j = some d → ¬ d.took := by
    intro j d hd ht
    by_cases hji : j = i
    · obtain rfl : { c with pc := .storeReady } = d := by simpa [hji] using hd
      obtain ⟨r', hr'⟩ := ht
      cases hr'
    · exact hnever ⟨j, d, by simpa [hji] using hd, ht⟩
  have hcompletes : Completes (s.goto i c .storeReady) r := ⟨i, { c with pc := .storeReady },
    hi, by simp, hop⟩
  refine ⟨?_, fun hns => absurd ?_ hns, fun _ => .inl rfl, fun _ ⟨j, d, hd, ht⟩ => hnt j d hd ht,
    ?_, fun j k d e hd _ ht _ => absurd ht (hnt j d hd),
    fun j d r' hd hr' => absurd ⟨r', hr'⟩ (hnt j d hd), h.closed, ?_⟩
  · simpa [hi, hold, ReadySet] using h.ready_iff
  · simp [hi, ResultSaved]
  · intro r' hr'
    obtain rfl : r = r' := by simpa using hr'
    exact hcompletes
  · intro j d hd hafter
    by_cases hji : j = i
    · obtain rfl : { c with pc := .storeReady } = d := by simpa [hji] using hd
      exact ⟨(h.after_close i c hc hafter).1, hnt j _ hd⟩
    · exact ⟨(h.after_close j d (by simpa [hji] using hd) hafter).1, hnt j d hd⟩


/-! ### The start of a call -/

@[simp] theorem enter_calls (s : TicketRun R W) (op : Op R W) (j : Nat) :
    (s.enter op).calls j = if j = s.nextCall then some ⟨op, op.entry, s.closed⟩ else s.calls j := by
  simp [TicketRun.enter, Function.update_apply]

theorem Shape.ne_next {s : TicketRun R W} (h : Shape s) {i : Nat} {c : Call R W}
    (hc : s.calls i = some c) : i ≠ s.nextCall := by
  intro hi
  simp [h.fresh i (Nat.le_of_eq hi.symm)] at hc

theorem enter_old {s : TicketRun R W} (h : Shape s) (op : Op R W) {i : Nat} {c : Call R W}
    (hc : s.calls i = some c) : (s.enter op).calls i = some c := by
  rw [enter_calls, if_neg (h.ne_next hc), hc]

theorem has_entry (op : Op R W) : Op.Has op op.entry := by
  cases op <;> trivial

theorem entry_ne_returned (op : Op R W) (r : Option R) : op.entry ≠ .returned r := by
  cases op <;> simp [Op.entry]

theorem isComplete_iff {op : Op R W} : op.isComplete = true ↔ ∃ r, op = .complete r := by
  cases op <;> simp [Op.isComplete]

theorem Shape.enter {s : TicketRun R W} (h : Shape s) {op : Op R W}
    (hfree : op.isComplete = true → s.completer = none) : Shape (s.enter op) where
  fresh j hj := by
    have hj : s.nextCall + 1 ≤ j := hj
    rw [enter_calls, if_neg (by omega)]
    exact h.fresh j (by omega)
  has j d hd := by
    rw [enter_calls] at hd
    split at hd
    · cases hd
      exact has_entry op
    · exact h.has j d hd
  completer_op j hj := by
    simp only [TicketRun.enter] at hj
    split at hj
    · next hop =>
      obtain ⟨r, rfl⟩ := isComplete_iff.mp hop
      cases hj
      exact ⟨_, r, (enter_calls ..).trans (if_pos rfl), rfl⟩
    · obtain ⟨d, r, hd, hop⟩ := h.completer_op j hj
      exact ⟨d, r, enter_old h op hd, hop⟩
  completer_unique j d r hd hop := by
    rw [enter_calls] at hd
    simp only [TicketRun.enter]
    split at hd
    · next hj =>
      cases hd
      rw [if_pos (isComplete_iff.mpr ⟨r, hop⟩), hj]
    · have hold := h.completer_unique j d r hd hop
      rw [if_neg (fun hnew => by simp [hfree hnew] at hold), hold]

theorem completerPc_enter {s : TicketRun R W} (h : Shape s) {op : Op R W}
    (hfree : op.isComplete = true → s.completer = none) :
    (s.enter op).completerPc = s.completerPc ∨
      s.completerPc = none ∧ (s.enter op).completerPc = some .saveResult := by
  by_cases hop : op.isComplete = true
  · obtain ⟨r, rfl⟩ := isComplete_iff.mp hop
    refine .inr ⟨by simp [TicketRun.completerPc, hfree hop],
      completerPc_eq (c := ⟨.complete r, .saveResult, s.closed⟩) rfl ?_⟩
    exact (enter_calls ..).trans (if_pos rfl)
  · have hk : (s.enter op).completer = s.completer := if_neg hop
    refine .inl ?_
    cases hj : s.completer with
    | none => simp [TicketRun.completerPc, hk, hj]
    | some j =>
      obtain ⟨d, _, hd, _⟩ := h.completer_op j hj
      rw [completerPc_eq hj hd, completerPc_eq (hk.trans hj) (enter_old h op hd)]

theorem ResultInv.enter {s : TicketRun R W} (h : ResultInv s) (hs : Shape s) {op : Op R W}
    (hfree : op.isComplete = true → s.completer = none) : ResultInv (s.enter op) := by
  have hS : ResultSaved (s.enter op).completerPc ↔ ResultSaved s.completerPc := by
    rcases completerPc_enter hs hfree with hp | ⟨hold, hp⟩
    · rw [hp]
    · rw [hp, hold]
      simp [ResultSaved]
  have hR : ReadySet (s.enter op).completerPc ↔ ReadySet s.completerPc := by
    rcases completerPc_enter hs hfree with hp | ⟨hold, hp⟩
    · rw [hp]
    · rw [hp, hold]
      simp [ReadySet]
  have hcalls : ∀ j d, (s.enter op).calls j = some d → d.took → s.calls j = some d := by
    intro j d hd ⟨r, hr⟩
    rw [enter_calls] at hd
    split at hd
    · cases hd
      exact absurd hr (entry_ne_returned op _)
    · exact hd
  have htaken : (s.enter op).Taken → s.Taken :=
    fun ⟨j, d, hd, ht⟩ => ⟨j, d, hcalls j d hd ht, ht⟩
  have hcompletes : ∀ r, Completes s r → Completes (s.enter op) r := by
    rintro r ⟨j, d, hj, hd, hop⟩
    have hnot : ¬ op.isComplete = true := fun hnew => by simp [hfree hnew] at hj
    exact ⟨j, d, (if_neg hnot).trans hj, enter_old hs op hd, hop⟩
  refine ⟨h.ready_iff.trans hR.symm, fun hns => ?_, fun hs' => ?_,
    fun hsome ht => h.not_taken hsome (htaken ht), fun r hr => hcompletes r (h.completes r hr),
    ?_, ?_, h.closed, ?_⟩
  · obtain ⟨hnone, hnever⟩ := h.not_saved (fun hs' => hns (hS.mpr hs'))
    exact ⟨hnone, fun ht => hnever (htaken ht)⟩
  · rcases h.saved (hS.mp hs') with hsome | hcan | ⟨j, d, hd, ht⟩
    · exact .inl hsome
    · exact .inr (.inl hcan)
    · exact .inr (.inr ⟨j, d, enter_old hs op hd, ht⟩)
  · intro i j c d hc hd htc htd
    exact h.taken_once i j c d (hcalls i c hc htc) (hcalls j d hd htd) htc htd
  · intro i c r hc hr
    exact hcompletes r (h.taken_completed i c r (hcalls i c hc ⟨r, hr⟩) hr)
  · intro i c hc hafter
    rw [enter_calls] at hc
    split at hc
    · cases hc
      refine ⟨hafter, ?_⟩
      rintro ⟨r, hr⟩
      exact entry_ne_returned op _ hr
    · exact h.after_close i c hc hafter


/-! ### The saved waker -/

/-- A registration saves its waker. -/
theorem WakerInv.saveWaker {s : TicketRun R W} (h : WakerInv s) {i : Nat} {c : Call R W} {w : W}
    (hop : c.op = .registerWaker w) :
    WakerInv { (s.setState (s.ticket.state.saveWaker w)).goto i c .recheckReady with
      lastSaved := some i } := by
  have hcalls : ∀ j, ({ (s.setState (s.ticket.state.saveWaker w)).goto i c .recheckReady with
      lastSaved := some i } : TicketRun R W).calls j =
        if j = i then some { c with pc := .recheckReady } else s.calls j := by simp
  constructor
  · intro j d hd hpc
    rw [hcalls] at hd
    split at hd
    · cases hd
      cases hpc
    · exact h.wake_new j d hd hpc
  · intro j hj
    cases hj
    exact ⟨_, w, (hcalls i).trans (if_pos rfl), hop, by simp, rfl⟩
  · rintro j w' hj ⟨d, hd, _, hret⟩
    cases hj
    rw [hcalls, if_pos rfl] at hd
    cases hd
    cases hret

/-- A step of a call that is not a registration, or the start of a call. -/
theorem WakerInv.other {s t : TicketRun R W} (h : WakerInv s) (ht : Shape t)
    (hkept : ∀ i c w, s.calls i = some c → c.op = .registerWaker w → t.calls i = some c)
    (hold : ∀ i c w, t.calls i = some c → c.op = .registerWaker w →
      s.calls i = some c ∨ c.pc = .saveWaker)
    (hready : s.ticket.ready = true → t.ticket.ready = true)
    (hwaker : t.ticket.state.waker = s.ticket.state.waker)
    (hsaved : t.lastSaved = s.lastSaved)
    (hawaited : ∀ w, s.ticket.state.waker = some w → Awaited s w → Awaited t w) : WakerInv t := by
  constructor
  · intro i c hc hpc
    have hhas := ht.has i c hc
    cases hop : c.op with
    | registerWaker w =>
      rcases hold i c w hc hop with hc' | hpc'
      · exact hready (h.wake_new i c hc' hpc)
      · simp [hpc] at hpc'
    | tryTake | cancel | drop | complete => simp [hop, hpc, Op.Has] at hhas
  · intro i hi
    obtain ⟨c, w, hc, hop, hpc, hw⟩ := h.saved_some i (hsaved ▸ hi)
    exact ⟨c, w, hkept i c w hc hop, hop, hpc, hwaker.trans hw⟩
  · intro i w hi ⟨c, hc, hop, hret⟩
    have hi : s.lastSaved = some i := hsaved ▸ hi
    obtain ⟨d, w', hd, hdop, _, hw⟩ := h.saved_some i hi
    rcases hold i c w hc hop with hc' | hpc'
    · obtain rfl := Option.some.inj (hc'.symm.trans hd)
      obtain rfl : w = w' := by simpa [hop] using hdop
      exact hawaited w hw (h.awaited i w hi ⟨c, hc', hop, hret⟩)
    · simp [hret] at hpc'

/-- A step of a registration that has saved its waker. -/
theorem WakerInv.register {s t : TicketRun R W} (h : WakerInv s) {i : Nat} {c : Call R W} {w : W}
    {p : Pc R W} (hc : s.calls i = some c) (hop : c.op = .registerWaker w) (hnew : p ≠ .saveWaker)
    (hcalls : ∀ j, t.calls j = if j = i then some { c with pc := p } else s.calls j)
    (hticket : t.ticket = s.ticket) (hsaved : t.lastSaved = s.lastSaved)
    (hready : p = .wakeNew → s.ticket.ready = true)
    (hawaited : ∀ w, Awaited s w → Awaited t w)
    (hreturn : p = .returned none → Awaited t w) : WakerInv t := by
  constructor
  · intro j d hd hpc
    rw [hticket]
    rw [hcalls] at hd
    split at hd
    · cases hd
      exact hready hpc
    · exact h.wake_new j d hd hpc
  · intro j hj
    obtain ⟨d, w', hd, hdop, hdpc, hw⟩ := h.saved_some j (hsaved ▸ hj)
    rw [hticket]
    by_cases hji : j = i
    · subst hji
      obtain rfl := Option.some.inj (hc.symm.trans hd)
      exact ⟨_, w', (hcalls j).trans (if_pos rfl), hdop, hnew, hw⟩
    · exact ⟨d, w', by rw [hcalls, if_neg hji, hd], hdop, hdpc, hw⟩
  · intro j w' hj ⟨d, hd, hdop, hret⟩
    rw [hcalls] at hd
    split at hd
    · cases hd
      obtain rfl : w = w' := by simpa [hop] using hdop
      exact hreturn hret
    · exact hawaited w' (h.awaited j w' (hsaved ▸ hj) ⟨d, hd, hdop, hret⟩)

/-- What is woken stays woken, and `complete` moves on only by waking. -/
theorem Awaited.mono {s t : TicketRun R W} {w : W} (h : Awaited s w)
    (hwakes : ∀ k ∈ s.wakes, k ∈ t.wakes) (hpc : t.completerPc = s.completerPc) : Awaited t w := by
  unfold Awaited at h ⊢
  rw [hpc]
  exact h.imp_left fun ⟨k, hk, hw⟩ => ⟨k, hwakes k hk, hw⟩

/-- A wake after the flag is raised is settled. -/
theorem ResultInv.wake_settled {s : TicketRun R W} (h : ResultInv s)
    (hready : s.ticket.ready = true) (w : W) :
    ∃ k ∈ (s.wake w).wakes, k.waker = w ∧ k.Settled := by
  refine ⟨⟨w, s.ticket, s.Taken⟩, List.mem_cons_self, rfl, hready, h.saved ?_⟩
  have hset := h.ready_iff.mp hready
  revert hset
  rcases s.completerPc with _ | pc
  · exact False.elim
  · cases pc <;> simp [ReadySet, ResultSaved]

/-! ### The order of saves and returns -/

/-- A step of a call that is not a registration, or its start. -/
theorem OrderInv.other {s t : TicketRun R W} (h : OrderInv s)
    (hkept : ∀ i c w, s.calls i = some c → c.op = .registerWaker w → t.calls i = some c)
    (hold : ∀ i c w, t.calls i = some c → c.op = .registerWaker w → s.calls i = some c)
    (hregistering : t.registering = s.registering) (hoverlapped : t.overlapped = s.overlapped)
    (hsaved : t.lastSaved = s.lastSaved) (hreturned : t.lastReturned = s.lastReturned) :
    OrderInv t := by
  have hpending : ∀ i, Pending t i → Pending s i :=
    fun i ⟨c, w, hc, hop, hpc⟩ => ⟨c, w, hold i c w hc hop, hop, hpc⟩
  intro hno
  rcases h (hoverlapped ▸ hno) with hidle | ⟨i, c, hbusy⟩
  · exact .inl ⟨hregistering.trans hidle.registering, by rw [hsaved, hreturned, hidle.order],
      fun i hi => hidle.none_pending i (hpending i hi)⟩
  · obtain ⟨w, hop⟩ := hbusy.op
    exact .inr ⟨i, c, hregistering.trans hbusy.registering, hkept i c w hbusy.here hop, ⟨w, hop⟩,
      fun j hj => hbusy.only j (hpending j hj),
      fun hpc => by rw [hsaved, hreturned, hbusy.before hpc],
      fun hpc => hsaved.trans (hbusy.after hpc)⟩

/-- A registration in progress is the only one, when none has overlapped. -/
theorem OrderInv.busy {s : TicketRun R W} (h : OrderInv s) (hno : s.overlapped = false) {i : Nat}
    {c : Call R W} {w : W} (hc : s.calls i = some c) (hop : c.op = .registerWaker w)
    (hpc : c.pc ≠ .returned none) : Busy s i c := by
  rcases h hno with hidle | ⟨j, d, hbusy⟩
  · exact absurd ⟨c, w, hc, hop, hpc⟩ (hidle.none_pending i)
  · obtain rfl := hbusy.only i ⟨c, w, hc, hop, hpc⟩
    obtain rfl := Option.some.inj (hc.symm.trans hbusy.here)
    exact hbusy

/-- A registration goes on. -/
theorem OrderInv.goto {s t : TicketRun R W} (h : OrderInv s) {i : Nat} {c : Call R W} {w : W}
    {p : Pc R W} (hc : s.calls i = some c) (hop : c.op = .registerWaker w)
    (hpc : c.pc ≠ .returned none) (hnew : p ≠ .saveWaker)
    (hcalls : ∀ j, t.calls j = if j = i then some { c with pc := p } else s.calls j)
    (hregistering : t.registering = s.registering) (hoverlapped : t.overlapped = s.overlapped)
    (hsaved : Busy s i c → t.lastSaved = some i) : OrderInv t := by
  intro hno
  have hbusy := h.busy (hoverlapped ▸ hno) hc hop hpc
  refine .inr ⟨i, { c with pc := p }, hregistering.trans hbusy.registering,
    (hcalls i).trans (if_pos rfl), ⟨w, hop⟩, ?_, fun he => absurd he hnew, fun _ => hsaved hbusy⟩
  rintro j ⟨d, w', hd, hdop, hdpc⟩
  by_contra hji
  rw [hcalls, if_neg hji] at hd
  exact hji (hbusy.only j ⟨d, w', hd, hdop, hdpc⟩)

/-- A registration returns. -/
theorem OrderInv.return {s t : TicketRun R W} (h : OrderInv s) {i : Nat} {c : Call R W} {w : W}
    (hc : s.calls i = some c) (hop : c.op = .registerWaker w) (hpc : c.pc ≠ .returned none)
    (hpast : c.pc ≠ .saveWaker)
    (hcalls : ∀ j, t.calls j = if j = i then some { c with pc := .returned none } else s.calls j)
    (hregistering : t.registering = s.registering - 1) (hoverlapped : t.overlapped = s.overlapped)
    (hsaved : t.lastSaved = s.lastSaved) (hreturned : t.lastReturned = some i) : OrderInv t := by
  intro hno
  have hbusy := h.busy (hoverlapped ▸ hno) hc hop hpc
  refine .inl ⟨by rw [hregistering, hbusy.registering], by rw [hsaved, hreturned, hbusy.after hpast],
    ?_⟩
  rintro j ⟨d, w', hd, hdop, hdpc⟩
  rw [hcalls] at hd
  split at hd
  · cases hd
    exact hdpc rfl
  · next hji => exact hji (hbusy.only j ⟨d, w', hd, hdop, hdpc⟩)

/-! ### The invariant of a run -/

structure Inv (s : TicketRun R W) : Prop where
  shape : Shape s
  result : ResultInv s
  waker : WakerInv s
  order : OrderInv s

theorem Inv.new : Inv (TicketRun.new (R := R) (W := W)) where
  shape := by constructor <;> simp [TicketRun.new]
  result := by
    constructor <;> simp [TicketRun.new, newTicket, TicketRun.completerPc, ReadySet, ResultSaved,
      TicketRun.Taken]
  waker := by constructor <;> simp [TicketRun.new]
  order := fun _ => .inl ⟨rfl, rfl, fun i ⟨_, _, hc, _⟩ => by cases hc⟩

/-- The completer has not read the waker when the call starts. -/
theorem Awaited.enter {s : TicketRun R W} (h : Shape s) {op : Op R W}
    (hfree : op.isComplete = true → s.completer = none) {w : W} (hw : Awaited s w) :
    Awaited (s.enter op) w := by
  rcases completerPc_enter h hfree with hp | ⟨_, hp⟩
  · exact hw.mono (fun _ hk => hk) hp
  · exact .inr (.inl (by simp [hp, WakerRead]))

/-- The start of a call that is not a registration. -/
theorem Inv.enter {s : TicketRun R W} (h : Inv s) {op : Op R W}
    (hfree : op.isComplete = true → s.completer = none) (hop : ∀ w, op ≠ .registerWaker w) :
    Inv (s.enter op) := by
  have hold : ∀ i c w, (s.enter op).calls i = some c → c.op = .registerWaker w →
      s.calls i = some c := by
    intro i c w hc hcop
    rw [enter_calls] at hc
    split at hc
    · cases hc
      exact absurd hcop (hop w)
    · exact hc
  have hkept : ∀ i c w, s.calls i = some c → c.op = .registerWaker w →
      (s.enter op).calls i = some c := fun i c w hc _ => enter_old h.shape op hc
  have hshape := h.shape.enter hfree
  exact ⟨hshape, h.result.enter h.shape hfree,
    h.waker.other hshape hkept (fun i c w hc hop => .inl (hold i c w hc hop)) id rfl rfl
      fun w _ hw => hw.enter h.shape hfree,
    h.order.other hkept hold rfl rfl rfl rfl⟩

/-- The start of a registration. -/
theorem Inv.enterRegister {s : TicketRun R W} (h : Inv s) (w : W) :
    Inv { s.enter (.registerWaker w) with
      registering := s.registering + 1
      overlapped := s.overlapped || decide (0 < s.registering) } := by
  have hfree : (Op.registerWaker w : Op R W).isComplete = true → s.completer = none := by
    simp [Op.isComplete]
  have hshape := (h.shape.enter hfree).congr
    (t := { s.enter (.registerWaker w) with
      registering := s.registering + 1
      overlapped := s.overlapped || decide (0 < s.registering) }) rfl rfl rfl
  refine ⟨hshape, (h.result.enter h.shape hfree).congr rfl rfl rfl rfl rfl rfl, ?_, ?_⟩
  · refine h.waker.other hshape (fun i c _ hc _ => enter_old h.shape _ hc) ?_ id rfl rfl
      fun w' _ hw => (hw.enter h.shape hfree).mono (fun _ hk => hk) rfl
    intro i c w' hc hcop
    have hc : (s.enter (.registerWaker w)).calls i = some c := hc
    rw [enter_calls] at hc
    split at hc
    · cases hc
      exact .inr rfl
    · exact .inl hc
  · intro hno
    obtain ⟨hno, hzero⟩ : s.overlapped = false ∧ s.registering = 0 := by simpa using hno
    rcases h.order hno with hidle | ⟨_, _, hbusy⟩
    · refine .inr ⟨s.nextCall, ⟨.registerWaker w, .saveWaker, s.closed⟩, by simp [hzero],
        (enter_calls ..).trans (if_pos rfl), ⟨w, rfl⟩, ?_, fun _ => hidle.order,
        fun hpc => absurd rfl hpc⟩
      rintro j ⟨d, w', hd, hdop, hdpc⟩
      by_contra hj
      have hd : (s.enter (.registerWaker w)).calls j = some d := hd
      rw [enter_calls, if_neg hj] at hd
      exact hidle.none_pending j ⟨d, w', hd, hdop, hdpc⟩
    · simp [hbusy.registering] at hzero

theorem Inv.begin {s t : TicketRun R W} (h : Inv s) {op : Op R W} (hst : s.begin op = some t) :
    Inv t := by
  cases op with
  | registerWaker w =>
    cases hst
    exact h.enterRegister w
  | complete r =>
    simp only [TicketRun.begin] at hst
    split at hst
    · cases hst
    · next hnone =>
      cases hst
      exact h.enter (fun _ => by simpa using hnone) (by simp)
  | tryTake | cancel | drop =>
    cases hst
    exact h.enter (by simp [Op.isComplete]) (by simp)

/-- A step of a call that is not a registration. -/
theorem Inv.other {s t : TicketRun R W} (h : Inv s) {i : Nat} {c : Call R W} {p : Pc R W}
    (hc : s.calls i = some c) (hop : ∀ w, c.op ≠ .registerWaker w) (hpc : Op.Has c.op p)
    (hcalls : t.calls = (s.goto i c p).calls) (hnext : t.nextCall = s.nextCall)
    (hcompleter : t.completer = s.completer) (hresult : ResultInv t)
    (hready : s.ticket.ready = true → t.ticket.ready = true)
    (hwaker : t.ticket.state.waker = s.ticket.state.waker) (hsaved : t.lastSaved = s.lastSaved)
    (hreturned : t.lastReturned = s.lastReturned) (hregistering : t.registering = s.registering)
    (hoverlapped : t.overlapped = s.overlapped)
    (hawaited : ∀ w, s.ticket.state.waker = some w → Awaited s w → Awaited t w) : Inv t := by
  have hkept : ∀ j d w, s.calls j = some d → d.op = .registerWaker w → t.calls j = some d := by
    intro j d w hd hdop
    have hji : j ≠ i := by
      rintro rfl
      obtain rfl := Option.some.inj (hc.symm.trans hd)
      exact hop w hdop
    rw [hcalls, goto_calls, if_neg hji, hd]
  have hold : ∀ j d w, t.calls j = some d → d.op = .registerWaker w → s.calls j = some d := by
    intro j d w hd hdop
    rw [hcalls, goto_calls] at hd
    split at hd
    · cases hd
      exact absurd hdop (hop w)
    · exact hd
  have hshape := (h.shape.goto hc hpc).congr hcalls hnext hcompleter
  exact ⟨hshape, hresult, h.waker.other hshape hkept (fun j d w hd hdop => .inl (hold j d w hd hdop))
    hready hwaker hsaved hawaited, h.order.other hkept hold hregistering hoverlapped hsaved hreturned⟩

/-- A registration returns, possibly after a wake. -/
theorem Inv.return {s : TicketRun R W} (h : Inv s) {i : Nat} {c : Call R W} {w : W}
    (hc : s.calls i = some c) (hop : c.op = .registerWaker w) (hret : c.pc ≠ .returned none)
    (hpast : c.pc ≠ .saveWaker) (hnot : ¬ c.took) (wakes : List (WakeUp R W))
    (hwakes : ∀ k ∈ s.wakes, k ∈ wakes)
    (hdone : (∃ k ∈ wakes, k.waker = w ∧ k.Settled) ∨ ¬ WakerRead s.completerPc) :
    Inv ({ s with wakes := wakes }.returnRegister i c) := by
  have hne := not_completer h.shape hc (by simp [hop])
  have hpc : ({ s with wakes := wakes }.returnRegister i c).completerPc = s.completerPc :=
    (completerPc_goto s i c (.returned none)).trans (if_neg hne)
  have hhas : Op.Has c.op (.returned none) := by simp [hop, Op.Has]
  refine ⟨(h.shape.goto hc hhas).congr rfl rfl rfl,
    (h.result.quiet hc hne hnot (p := .returned none) (by simp)).congr rfl rfl rfl rfl rfl rfl,
    h.waker.register hc hop (p := .returned none) (by simp) (goto_calls s i · _ _) rfl rfl
      (by simp) (fun w' hw => hw.mono hwakes hpc) fun _ => ?_,
    h.order.return hc hop hret hpast (goto_calls s i · _ _) rfl rfl rfl rfl⟩
  rcases hdone with hwoken | hunread
  · exact .inl hwoken
  · exact .inr (.inl (by rw [hpc]; exact hunread))

theorem not_wakerRead {s : TicketRun R W} (h : ResultInv s) (hready : s.ticket.ready ≠ true) :
    ¬ WakerRead s.completerPc := by
  intro hread
  refine hready (h.ready_iff.mpr ?_)
  revert hread
  rcases s.completerPc with _ | pc
  · exact id
  · cases pc <;> simp [WakerRead, ReadySet]

theorem Inv.registerWaker {s t : TicketRun R W} (h : Inv s) {i : Nat} {w : W} {p : Pc R W}
    {b : Bool} (hc : s.calls i = some ⟨.registerWaker w, p, b⟩) (hst : s.advance i = some t) :
    Inv t := by
  have hne := not_completer h.shape hc (by simp)
  have hhas := h.shape.has i _ hc
  cases p with
  | saveWaker =>
    simp only [TicketRun.advance, hc] at hst
    cases hst
    have hquiet := (h.result.congr (t := s.setState (s.ticket.state.saveWaker w)) rfl rfl rfl rfl
      rfl rfl).quiet hc hne (by simp [Call.took]) (p := .recheckReady) (by simp)
    have hshape := h.shape.goto hc (p := .recheckReady) (by simp [Op.Has])
    refine ⟨hshape.congr rfl rfl rfl, hquiet.congr rfl rfl rfl rfl rfl rfl,
      h.waker.saveWaker rfl, ?_⟩
    exact h.order.goto (p := .recheckReady) hc rfl (by simp) (by simp) (fun j => by simp) rfl rfl
      fun _ => rfl
  | recheckReady =>
    simp only [TicketRun.advance, hc] at hst
    split at hst
    · next hready =>
      cases hst
      refine ⟨h.shape.goto hc (by simp [Op.Has]),
        h.result.quiet hc hne (by simp [Call.took]) (by simp),
        h.waker.register hc rfl (p := .wakeNew) (by simp) (goto_calls s i · _ _) rfl rfl
          (fun _ => hready) (fun w' hw => hw.mono (fun _ hk => hk) (by simp [hne])) (by simp), ?_⟩
      exact h.order.goto hc rfl (by simp) (by simp) (goto_calls s i · _ _) rfl rfl
        fun hbusy => hbusy.after (by simp)
    · next hready =>
      cases hst
      exact h.return hc rfl (by simp) (by simp) (by simp [Call.took]) s.wakes (fun _ hk => hk)
        (.inr (not_wakerRead h.result hready))
  | wakeNew =>
    simp only [TicketRun.advance, hc] at hst
    cases hst
    have hready := h.waker.wake_new i _ hc rfl
    exact h.return hc rfl (by simp) (by simp) (by simp [Call.took]) (s.wake w).wakes
      (fun _ hk => List.mem_cons_of_mem _ hk) (.inl (h.result.wake_settled hready w))
  | returned taken => simp [TicketRun.advance, hc] at hst
  | _ => cases hhas

theorem Inv.tryTake {s t : TicketRun R W} (h : Inv s) {i : Nat} {p : Pc R W}
    {b : Bool} (hc : s.calls i = some ⟨.tryTake, p, b⟩) (hst : s.advance i = some t) :
    Inv t := by
  have hne := not_completer h.shape hc (by simp)
  have hhas := h.shape.has i _ hc
  cases p with
  | loadReady =>
    have hmove : ∀ p, Op.Has .tryTake p → (∀ r, p ≠ .returned (some r)) →
        Inv (s.goto i ⟨.tryTake, .loadReady, b⟩ p) := fun p hpc hnone =>
      h.other hc (by simp) hpc rfl rfl rfl (h.result.quiet hc hne (by simp [Call.took]) hnone) id
        rfl rfl rfl rfl rfl fun w _ hw => hw.mono (fun _ hk => hk) (by simp [hne])
    simp only [TicketRun.advance, hc] at hst
    split at hst <;> cases hst
    · exact hmove _ trivial (by simp)
    · exact hmove _ trivial (by simp)
  | takeLocked =>
    simp only [TicketRun.advance, hc] at hst
    cases hst
    exact h.other hc (by simp) (p := .returned s.ticket.state.take.1) trivial rfl rfl rfl
      (h.result.takeLocked hc hne (by simp [Call.took])) id rfl rfl rfl rfl rfl
      fun w _ hw => hw.mono (fun _ hk => hk) (by simp [hne])
  | returned taken => simp [TicketRun.advance, hc] at hst
  | _ => cases hhas

theorem Inv.close {s : TicketRun R W} (h : Inv s) {i : Nat} {op : Op R W} {b : Bool}
    (hop : op = .cancel ∨ op = .drop) (hc : s.calls i = some ⟨op, .cancelLocked, b⟩) :
    Inv { (s.setState s.ticket.state.cancel).goto i ⟨op, .cancelLocked, b⟩ (.returned none) with
      closed := true } := by
  have hnot : ∀ w, op ≠ .registerWaker w := by rintro w rfl; simp at hop
  have hne : s.completer ≠ some i :=
    not_completer h.shape hc (by rintro r rfl; simp at hop)
  have hhas : Op.Has op (.returned none) := by rcases hop with rfl | rfl <;> trivial
  refine h.other hc hnot hhas rfl rfl rfl ?_ id rfl rfl rfl rfl rfl fun w _ hw => ?_
  · exact h.result.discard hc hne (u := s.ticket.state.cancel) (b := true) (by simp [Call.took])
      rfl (.inl rfl) (fun _ => rfl) (fun _ => rfl)
  · exact hw.mono (fun _ hk => hk)
      ((completerPc_goto (s.setState s.ticket.state.cancel) i ⟨op, .cancelLocked, b⟩
        (.returned none)).trans (if_neg hne))

theorem Inv.complete {s t : TicketRun R W} (h : Inv s) {i : Nat} {r : R} {p : Pc R W}
    {b : Bool} (hc : s.calls i = some ⟨.complete r, p, b⟩) (hst : s.advance i = some t) :
    Inv t := by
  have hi := h.shape.completer_unique i _ r hc rfl
  have hhas := h.shape.has i _ hc
  have hold := completerPc_eq hi hc
  cases p with
  | saveResult =>
    have hnone := (h.result.not_saved (by simp [hold, ResultSaved])).1
    simp only [TicketRun.advance, hc, TicketState.saveResult, hnone, Option.isSome_none,
      Bool.false_eq_true, ↓reduceIte] at hst
    cases hst
    have hnew : ((s.setState { s.ticket.state with result := some r }).goto i
        ⟨.complete r, .saveResult, b⟩ .storeReady).completerPc = some .storeReady := by simp [hi]
    exact h.other hc (by simp) (p := .storeReady) trivial rfl rfl rfl
      (h.result.saveResult hc hi rfl rfl) id rfl rfl rfl rfl rfl
      fun w _ _ => .inr (.inl (by simp [hnew, WakerRead]))
  | storeReady =>
    simp only [TicketRun.advance, hc] at hst
    cases hst
    have hnew : (s.goto i ⟨.complete r, .storeReady, b⟩ .readWaker).completerPc =
        some .readWaker := by simp [hi]
    refine h.other hc (by simp) (p := .readWaker) trivial rfl rfl rfl
      (h.result.complete hc hi (by simp [Call.took]) (by simp) trivial trivial (by simp [ReadySet]))
      (fun _ => rfl) rfl rfl rfl rfl rfl fun w _ _ => .inr (.inl ?_)
    exact fun hread => by simpa [WakerRead] using (show WakerRead (some .readWaker) from hnew ▸ hread)
  | readWaker =>
    simp only [TicketRun.advance, hc] at hst
    cases hst
    have hready : s.ticket.ready = true := h.result.ready_iff.mpr (by simp [hold, ReadySet])
    refine h.other hc (by simp) (p := .wakeRead _) trivial rfl rfl rfl
      (h.result.complete (b := s.ticket.ready) hc hi (by simp [Call.took]) (by simp) trivial trivial
        (by simp [ReadySet, hready]))
      id rfl rfl rfl rfl rfl fun w hw _ => .inr (.inr (by simp [hi, hw]))
  | wakeRead waker =>
    have hready : s.ticket.ready = true := h.result.ready_iff.mpr (by simp [hold, ReadySet])
    have hresult : ResultInv (s.goto i ⟨.complete r, .wakeRead waker, b⟩ (.returned none)) :=
      h.result.complete (b := s.ticket.ready) hc hi (by simp [Call.took]) (by simp) trivial trivial
        (by simp [ReadySet, hready])
    cases waker with
    | none =>
      simp only [TicketRun.advance, hc] at hst
      cases hst
      refine h.other hc (by simp) (p := .returned none) trivial rfl rfl rfl hresult
        id rfl rfl rfl rfl rfl fun w _ hw => ?_
      rcases hw with hwoken | hunread | hread
      · exact .inl hwoken
      · exact absurd (by simp [hold, WakerRead]) hunread
      · simp [hold] at hread
    | some w' =>
      simp only [TicketRun.advance, hc] at hst
      cases hst
      refine h.other hc (by simp) (p := .returned none) trivial rfl rfl rfl
        (hresult.congr rfl rfl rfl rfl rfl rfl) id rfl rfl rfl rfl rfl fun w _ hw => .inl ?_
      rcases hw with ⟨k, hk, hkw⟩ | hunread | hread
      · exact ⟨k, List.mem_cons_of_mem _ hk, hkw⟩
      · exact absurd (by simp [hold, WakerRead]) hunread
      · obtain rfl : w' = w := by simpa [hold] using hread
        exact h.result.wake_settled hready w'
  | returned taken => simp [TicketRun.advance, hc] at hst
  | _ => cases hhas

theorem Inv.advance {s t : TicketRun R W} (h : Inv s) {i : Nat} (hst : s.advance i = some t) :
    Inv t := by
  cases hc : s.calls i with
  | none => simp [TicketRun.advance, hc] at hst
  | some c =>
    obtain ⟨op, pc, b⟩ := c
    have hhas := h.shape.has i _ hc
    cases op with
    | registerWaker w => exact h.registerWaker hc hst
    | tryTake => exact h.tryTake hc hst
    | complete r => exact h.complete hc hst
    | cancel | drop =>
      cases pc with
      | cancelLocked =>
        simp only [TicketRun.advance, hc] at hst
        cases hst
        exact h.close (by simp) hc
      | returned taken => simp [TicketRun.advance, hc] at hst
      | _ => cases hhas

theorem Inv.preserved (R W : Type) (hasDrop : Bool) :
    Preserved (ticketSystem R W hasDrop) anyStep Inv := by
  intro s a t h _ hst
  cases a with
  | advance i => exact h.advance hst
  | begin op =>
    cases op with
    | drop =>
      cases hasDrop with
      | true => exact h.begin (show s.begin .drop = some t from hst)
      | false => cases hst
    | registerWaker w => exact h.begin (show s.begin (.registerWaker w) = some t from hst)
    | tryTake => exact h.begin (show s.begin .tryTake = some t from hst)
    | cancel => exact h.begin (show s.begin .cancel = some t from hst)
    | complete r => exact h.begin (show s.begin (.complete r) = some t from hst)

theorem Inv.law {s : TicketRun R W} (h : Inv s) : s.LastSavedLaw where
  taken_once := h.result.taken_once
  not_after_close i c hc hafter := (h.result.after_close i c hc hafter).2
  taken_completed := h.result.taken_completed
  woken := by
    intro hdone i w hi hreg
    rcases h.waker.awaited i w hi hreg with hwoken | hunread | hread
    · exact hwoken
    · rw [hdone] at hunread
      exact absurd trivial hunread
    · rw [hdone] at hread
      cases hread
  last_saved := by
    intro hno hzero
    rcases h.order hno with hidle | ⟨i, c, hbusy⟩
    · exact hidle.order
    · simp [hbusy.registering] at hzero

end TicketLemmas

open TicketLemmas in
/-- In every run the result goes to at most one `try_take`, to none that starts
after a cancel or drop, and after `complete` the waker that was saved last has
been woken once its registration is over. -/
theorem ticket_law (R W : Type) (hasDrop : Bool) (s : TicketRun R W)
    (h : Reach (ticketSystem R W hasDrop) anyStep s) : s.LastSavedLaw :=
  (h.invariant (fun _ hs => hs ▸ Inv.new) (Inv.preserved R W hasDrop)).law

/-- Two overlapping registrations: the one that was saved last is woken. -/
theorem ticket_law_of_overlap : ∃ s,
    (hostCallTicket Unit Bool).execute anyStep .new overlappingRegistrations = some s ∧
    s.LastSavedLaw :=
  ⟨_, rfl, ticket_law Unit Bool true _ (reach_of_execute rfl overlappingRegistrations rfl)⟩

end Tsumugi.Host
