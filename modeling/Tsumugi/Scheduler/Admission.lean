import Mathlib.Data.List.Sort
import Tsumugi.Lib.Transition
import Tsumugi.Scheduler.Shared

/-!
# Admission accounting under interleaving

Threads admit slots and drop them. An admission and a release are each one
critical section, but `Drop for AdmissionSlot` decides *before* it takes the
lock which release it will perform, so a drop is two steps: `load` and
`release`. Between the two, another thread's release may promote the very slot
that is being dropped; the drop then removes nothing from the queue, marks the
cell released and leaves `active` one too high for good.

Results:
1. `promotion_leaks_active`: a run of five steps after which every slot is
   dropped and `active` is still 1.
2. `accounting_of_no_promotion`: in every run in which no release meets a
   promotion that came after its load, the accounting is exact.
-/

namespace Tsumugi.Scheduler

open Transition

/-! ## The interleaving system -/

/-- A slot that is not dropped yet. `chosen` is `some r` between the load and the
release of its drop. -/
structure Held where
  slot : AdmissionSlot
  chosen : Option Release
deriving DecidableEq, Repr

def Held.slotId (h : Held) : ExecutionSlotId := h.slot.slotId

/-- The scheduler and the undropped slots, in admission order. -/
structure AdmissionState where
  shared : SchedulerShared
  held : List Held

inductive AdmissionAction
  | request (resumeTo : AdmissionPhase)
  | load (id : ExecutionSlotId)
  | release (id : ExecutionSlotId)
deriving DecidableEq, Repr

/-- The ids of a list whose cell holds `kind`. -/
def SchedulerShared.select (s : SchedulerShared) (ids : List ExecutionSlotId) (kind : SlotState) :
    List ExecutionSlotId :=
  ids.filter (s.slotState · = kind)

namespace AdmissionState

def find (s : AdmissionState) (id : ExecutionSlotId) : Option Held :=
  s.held.find? (·.slotId = id)

def request (s : AdmissionState) (resumeTo : AdmissionPhase) : AdmissionState :=
  match s.shared.admitSlot resumeTo with
  | (.ok slot, shared) => { shared := shared, held := s.held ++ [⟨slot, none⟩] }
  | (.error _, shared) => { s with shared := shared }

/-- The unlocked half of a drop: only the dropping thread learns the choice. -/
def load (s : AdmissionState) (id : ExecutionSlotId) : Option AdmissionState :=
  match s.find id with
  | some ⟨slot, none⟩ =>
    let choice := slot.chooseRelease (s.shared.slotState id)
    some { s with held := s.held.map fun h =>
      if h.slotId = id then { h with chosen := some choice } else h }
  | _ => none

/-- The locked half of a drop. -/
def release (s : AdmissionState) (id : ExecutionSlotId) : Option AdmissionState :=
  match s.find id with
  | some ⟨_, some r⟩ =>
    some { shared := s.shared.release r id, held := s.held.filter (·.slotId ≠ id) }
  | _ => none

def step (s : AdmissionState) : AdmissionAction → Option AdmissionState
  | .request resumeTo => some (s.request resumeTo)
  | .load id => s.load id
  | .release id => s.release id

/-- The ids of the undropped slots, in admission order. -/
def ids (s : AdmissionState) : List ExecutionSlotId := s.held.map Held.slotId

/-- The undropped slots whose cell holds `kind`, in admission order. -/
def idsIn (s : AdmissionState) (kind : SlotState) : List ExecutionSlotId :=
  s.shared.select s.ids kind

end AdmissionState

/-- Threads that admit and drop slots of one scheduler with the given limits. -/
def admissionSystem (limits : EngineLimits) : System AdmissionState AdmissionAction where
  init s := s = { shared := .withLimits limits, held := [] }
  step := AdmissionState.step

/-- Exact admission accounting. -/
structure Accounting (s : AdmissionState) : Prop where
  active_eq : s.shared.active = (s.idsIn .active).length
  active_le : s.shared.active ≤ s.shared.limits.maxActiveExecutions
  queue_eq : s.shared.admissionQueue.map QueuedEntry.slotId = s.idsIn .queued
  admission_order : s.ids.Pairwise (· < ·)
  queue_le : s.shared.admissionQueue.length ≤ s.shared.limits.maxQueuedExecutions
  queue_full : s.shared.admissionQueue ≠ [] →
    s.shared.active = s.shared.limits.maxActiveExecutions
  all_dropped : s.held = [] → s.shared.active = 0 ∧ s.shared.admissionQueue = []

/-- No release of a drop whose load found the slot queued meets a slot that has
been promoted since. It is a condition on the state before the step. -/
def NoPromotionInDrop (s : AdmissionState) : AdmissionAction → Prop
  | .release id =>
    ∀ h ∈ s.held, h.slotId = id → h.chosen = some .queued → s.shared.slotState id ≠ .active
  | _ => True

instance : DecidableRel NoPromotionInDrop := fun s a => by
  cases a <;> simp only [NoPromotionInDrop] <;> infer_instance

/-! ## The lost slot -/

/-- One active slot and one place in the queue. -/
def oneEach : EngineLimits := ⟨1, Nat.one_pos, 1⟩

/-- Slot 0 is active, slot 1 queued; the drop of slot 1 loads, slot 0 is dropped
and promotes slot 1, then the drop of slot 1 releases. -/
def promotionInDrop : List AdmissionAction :=
  [.request .created, .request .created, .load 1, .load 0, .release 0, .release 1]

theorem promotion_leaks_active :
    ¬ ∀ (limits : EngineLimits) (s : AdmissionState),
      Reach (admissionSystem limits) anyStep s → Accounting s := by
  intro h
  obtain ⟨s, reached, hheld, hactive⟩ : ∃ s, Reach (admissionSystem oneEach) anyStep s ∧
      s.held = [] ∧ s.shared.active = 1 :=
    ⟨_, reach_of_execute rfl promotionInDrop rfl, rfl, rfl⟩
  have leaked := ((h oneEach s reached).all_dropped hheld).1
  omega

/-! ## Exact accounting without a promotion in between -/

namespace AdmissionLemmas

/-- What the scheduler state says about a list of undropped slot ids. -/
structure Consistent (s : SchedulerShared) (ids : List ExecutionSlotId) : Prop where
  sorted : ids.Pairwise (· < ·)
  bound : ∀ id ∈ ids, id < s.nextSlotId
  live : ∀ id ∈ ids, s.slotState id ≠ .released
  active_eq : s.active = (s.select ids .active).length
  active_le : s.active ≤ s.limits.maxActiveExecutions
  queue_eq : s.admissionQueue.map QueuedEntry.slotId = s.select ids .queued
  queue_le : s.admissionQueue.length ≤ s.limits.maxQueuedExecutions
  queue_full : s.admissionQueue ≠ [] → s.active = s.limits.maxActiveExecutions

theorem Consistent.nodup {s : SchedulerShared} {ids : List ExecutionSlotId}
    (h : Consistent s ids) : ids.Nodup :=
  h.sorted.imp fun hlt => Nat.ne_of_lt hlt

theorem select_store_of_not_mem (s : SchedulerShared) {ids : List ExecutionSlotId}
    {id : ExecutionSlotId} (hid : id ∉ ids) (kind k : SlotState) :
    (s.store id kind).select ids k = s.select ids k := by
  refine List.filter_congr fun x hx => ?_
  have hne : x ≠ id := fun he => hid (he ▸ hx)
  simp [SchedulerShared.store, Function.update_of_ne hne]

/-- A slot that is in the list exactly once leaves the others where they were. -/
theorem select_store_remove (s : SchedulerShared) (ids : List ExecutionSlotId)
    (id : ExecutionSlotId) (kind k : SlotState) :
    (s.store id kind).select (ids.filter (· ≠ id)) k = (s.select ids k).filter (· ≠ id) := by
  rw [select_store_of_not_mem s (by simp) kind k]
  simp only [SchedulerShared.select, List.filter_filter]
  exact List.filter_congr fun x _ => Bool.and_comm _ _

theorem filter_ne_of_not_mem {ids : List ExecutionSlotId} {id : ExecutionSlotId} (h : id ∉ ids) :
    ids.filter (· ≠ id) = ids :=
  List.filter_eq_self.mpr fun x hx => by
    have hne : x ≠ id := fun he => h (he ▸ hx)
    simpa using hne

theorem not_mem_select {s : SchedulerShared} {ids : List ExecutionSlotId} {id : ExecutionSlotId}
    {k : SlotState} (h : s.slotState id ≠ k) : id ∉ s.select ids k := by
  simp [SchedulerShared.select, h]

theorem mem_select {s : SchedulerShared} {ids : List ExecutionSlotId} {id : ExecutionSlotId}
    {k : SlotState} (hmem : id ∈ ids) (h : s.slotState id = k) : id ∈ s.select ids k := by
  simp [SchedulerShared.select, hmem, h]

theorem length_filter_ne {l : List ExecutionSlotId} {id : ExecutionSlotId} (hnd : l.Nodup)
    (hmem : id ∈ l) : (l.filter (· ≠ id)).length = l.length - 1 := by
  rw [← List.length_erase_of_mem hmem, hnd.erase_eq_filter]
  exact congrArg _ (List.filter_congr fun x _ => by by_cases hx : x = id <;> simp [hx])

theorem map_eraseP_slotId (q : List QueuedEntry) (id : ExecutionSlotId) :
    (q.eraseP (·.slotId = id)).map QueuedEntry.slotId = (q.map QueuedEntry.slotId).erase id := by
  induction q with
  | nil => rfl
  | cons e q ih =>
    by_cases he : e.slotId = id
    · simp [he]
    · simp [he, ih]

/-- A promotion takes one id out of the queued ones ... -/
theorem select_queued_store_active (s : SchedulerShared) (ids : List ExecutionSlotId)
    (id : ExecutionSlotId) :
    (s.store id .active).select ids .queued = (s.select ids .queued).filter (· ≠ id) := by
  simp only [SchedulerShared.select, List.filter_filter]
  refine List.filter_congr fun x _ => ?_
  by_cases hx : x = id
  · simp [SchedulerShared.store, hx]
  · simp [SchedulerShared.store, hx]

/-- ... and adds one to the active ones. -/
theorem length_select_active_store_active (s : SchedulerShared) {ids : List ExecutionSlotId}
    {id : ExecutionSlotId} (hnd : ids.Nodup) (hmem : id ∈ ids) (hcell : s.slotState id ≠ .active) :
    ((s.store id .active).select ids .active).length = (s.select ids .active).length + 1 := by
  induction ids with
  | nil => cases hmem
  | cons x ids ih =>
    obtain ⟨hx, hnd⟩ := List.nodup_cons.mp hnd
    by_cases hxe : x = id
    · subst hxe
      have hrest := select_store_of_not_mem s hx .active .active
      simp only [SchedulerShared.select] at hrest ⊢
      simp [SchedulerShared.store, hcell] at hrest ⊢
      rw [hrest]
    · have hrest := ih hnd ((List.mem_cons.mp hmem).resolve_left (Ne.symm hxe))
      simp only [SchedulerShared.select, List.filter_cons] at hrest ⊢
      simp only [SchedulerShared.store, Function.update_of_ne hxe] at hrest ⊢
      split <;> simp [hrest]

/-- The scheduler state between the decrement and the promotion of
`release_active`: one active slot may be missing. -/
structure Decremented (s : SchedulerShared) (ids : List ExecutionSlotId) : Prop where
  sorted : ids.Pairwise (· < ·)
  bound : ∀ id ∈ ids, id < s.nextSlotId
  live : ∀ id ∈ ids, s.slotState id ≠ .released
  active_eq : s.active = (s.select ids .active).length
  active_lt : s.active < s.limits.maxActiveExecutions
  queue_eq : s.admissionQueue.map QueuedEntry.slotId = s.select ids .queued
  queue_le : s.admissionQueue.length ≤ s.limits.maxQueuedExecutions
  queue_full : s.admissionQueue ≠ [] → s.active + 1 = s.limits.maxActiveExecutions

theorem Decremented.promote {s : SchedulerShared} {ids : List ExecutionSlotId}
    (h : Decremented s ids) : Consistent s.promote ids := by
  unfold SchedulerShared.promote
  cases hq : s.admissionQueue with
  | nil =>
    exact ⟨h.sorted, h.bound, h.live, h.active_eq, h.active_lt.le, h.queue_eq, h.queue_le,
      fun hne => absurd hq hne⟩
  | cons entry rest =>
    have hids : entry.slotId :: rest.map QueuedEntry.slotId = s.select ids .queued := by
      rw [← h.queue_eq, hq]
      rfl
    have hhead : entry.slotId ∈ s.select ids .queued := hids ▸ List.mem_cons_self
    obtain ⟨hmem, hcell⟩ : entry.slotId ∈ ids ∧ s.slotState entry.slotId = .queued := by
      simpa [SchedulerShared.select] using hhead
    have hnd : ids.Nodup := h.sorted.imp fun hlt => Nat.ne_of_lt hlt
    have hndq : (entry.slotId :: rest.map QueuedEntry.slotId).Nodup := hids ▸ hnd.filter _
    have hfull := h.queue_full (by simp [hq])
    refine ⟨h.sorted, h.bound, ?_, ?_, hfull.le, ?_, ?_, fun _ => hfull⟩
    · intro x hx
      by_cases hxe : x = entry.slotId
      · simp [SchedulerShared.store, hxe]
      · simpa [SchedulerShared.store, Function.update_of_ne hxe] using h.live x hx
    · have hlen := length_select_active_store_active s hnd hmem (by simp [hcell])
      exact (congrArg (· + 1) h.active_eq).trans hlen.symm
    · calc rest.map QueuedEntry.slotId
          = (entry.slotId :: rest.map QueuedEntry.slotId).filter (· ≠ entry.slotId) := by
            rw [List.filter_cons_of_neg (by simp)]
            exact (filter_ne_of_not_mem (List.nodup_cons.mp hndq).1).symm
        _ = (s.store entry.slotId .active).select ids .queued := by
            rw [hids, select_queued_store_active]
    · have := h.queue_le
      rw [hq] at this
      exact Nat.le_of_succ_le this

theorem Consistent.not_mem_next {s : SchedulerShared} {ids : List ExecutionSlotId}
    (h : Consistent s ids) : s.nextSlotId ∉ ids :=
  fun hmem => Nat.lt_irrefl _ (h.bound _ hmem)

theorem Consistent.sorted_append {s : SchedulerShared} {ids : List ExecutionSlotId}
    (h : Consistent s ids) : (ids ++ [s.nextSlotId]).Pairwise (· < ·) := by
  refine List.pairwise_append.mpr ⟨h.sorted, List.pairwise_singleton _ _, fun x hx y hy => ?_⟩
  exact List.mem_singleton.mp hy ▸ h.bound x hx

theorem Consistent.bound_append {s : SchedulerShared} {ids : List ExecutionSlotId}
    (h : Consistent s ids) : ∀ id ∈ ids ++ [s.nextSlotId], id < s.nextSlotId + 1 := by
  intro x hx
  rcases List.mem_append.mp hx with hx | hx
  · exact Nat.lt_succ_of_lt (h.bound x hx)
  · exact List.mem_singleton.mp hx ▸ Nat.lt_succ_self _

theorem Consistent.live_append {s : SchedulerShared} {ids : List ExecutionSlotId}
    (h : Consistent s ids) {kind : SlotState} (hkind : kind ≠ .released) :
    ∀ id ∈ ids ++ [s.nextSlotId], (s.store s.nextSlotId kind).slotState id ≠ .released := by
  intro x hx
  by_cases hxe : x = s.nextSlotId
  · simpa [SchedulerShared.store, hxe] using hkind
  · have hmem : x ∈ ids := by simpa [hxe] using hx
    simpa [SchedulerShared.store, Function.update_of_ne hxe] using h.live x hmem

/-- A fresh slot shows up in its own list only. -/
theorem Consistent.select_append {s : SchedulerShared} {ids : List ExecutionSlotId}
    (h : Consistent s ids) (kind k : SlotState) :
    (s.store s.nextSlotId kind).select (ids ++ [s.nextSlotId]) k =
      s.select ids k ++ if kind = k then [s.nextSlotId] else [] := by
  have hold := select_store_of_not_mem s h.not_mem_next kind k
  simp only [SchedulerShared.select, List.filter_append] at hold ⊢
  rw [hold]
  by_cases hk : kind = k <;> simp [SchedulerShared.store, hk]

/-- Admission keeps the accounting, whichever of its three branches it takes. -/
theorem Consistent.admitSlot {s : SchedulerShared} {ids : List ExecutionSlotId}
    (h : Consistent s ids) (resumeTo : AdmissionPhase) :
    Consistent (s.admitSlot resumeTo).2
      (match (s.admitSlot resumeTo).1 with
        | .ok slot => ids ++ [slot.slotId]
        | .error _ => ids) := by
  unfold SchedulerShared.admitSlot
  by_cases hactive : s.active < s.limits.maxActiveExecutions
  · simp only [hactive, ↓reduceIte]
    refine ⟨h.sorted_append, h.bound_append, h.live_append (by decide), ?_, hactive, ?_,
      h.queue_le, fun hne => absurd (h.queue_full hne) hactive.ne⟩
    · have hsel := congrArg List.length (h.select_append .active .active)
      simp only [↓reduceIte, List.length_append, List.length_singleton, ← h.active_eq] at hsel
      exact hsel.symm
    · have hsel := h.select_append .active .queued
      simp only [reduceCtorEq, ↓reduceIte, List.append_nil, ← h.queue_eq] at hsel
      exact hsel.symm
  · have hfull : s.active = s.limits.maxActiveExecutions :=
      Nat.le_antisymm h.active_le (Nat.le_of_not_lt hactive)
    by_cases hqueue : s.admissionQueue.length < s.limits.maxQueuedExecutions
    · simp only [hactive, hqueue, ↓reduceIte]
      refine ⟨h.sorted_append, h.bound_append, h.live_append (by decide), ?_, h.active_le, ?_,
        ?_, fun _ => hfull⟩
      · have hsel := congrArg List.length (h.select_append .queued .active)
        simp only [reduceCtorEq, ↓reduceIte, List.append_nil, ← h.active_eq] at hsel
        exact hsel.symm
      · have hsel := h.select_append .queued .queued
        simp only [↓reduceIte, ← h.queue_eq] at hsel
        exact (List.map_append ..).trans hsel.symm
      · simpa [SchedulerShared.store] using Nat.succ_le_of_lt hqueue
    · simp only [hactive, hqueue, ↓reduceIte]
      exact ⟨h.sorted, fun x hx => Nat.lt_succ_of_lt (h.bound x hx), h.live, h.active_eq,
        h.active_le, h.queue_eq, h.queue_le, h.queue_full⟩

theorem Consistent.live_remove {s : SchedulerShared} {ids : List ExecutionSlotId}
    (h : Consistent s ids) (id : ExecutionSlotId) (kind : SlotState) :
    ∀ x ∈ ids.filter (· ≠ id), (s.store id kind).slotState x ≠ .released := by
  intro x hx
  obtain ⟨hmem, hne⟩ : x ∈ ids ∧ x ≠ id := by simpa using hx
  simpa [SchedulerShared.store, Function.update_of_ne hne] using h.live x hmem

/-- Releasing an active slot keeps the accounting. -/
theorem Consistent.releaseActive {s : SchedulerShared} {ids : List ExecutionSlotId}
    (h : Consistent s ids) {id : ExecutionSlotId} (hmem : id ∈ ids)
    (hcell : s.slotState id = .active) :
    Consistent (s.releaseActive id) (ids.filter (· ≠ id)) := by
  have hin : id ∈ s.select ids .active := mem_select hmem hcell
  have hpos : 0 < s.active := h.active_eq ▸ List.length_pos_of_mem hin
  simp only [SchedulerShared.releaseActive, hcell, reduceCtorEq, ↓reduceIte]
  refine Decremented.promote ⟨h.sorted.filter _, fun x hx => h.bound x (List.mem_of_mem_filter hx),
    h.live_remove id .released, ?_, ?_, ?_, h.queue_le, ?_⟩
  · have hlen : ((s.select ids .active).filter (· ≠ id)).length = (s.select ids .active).length - 1 :=
      length_filter_ne (h.nodup.filter _) hin
    rw [← select_store_remove s ids id .released, ← h.active_eq] at hlen
    exact hlen.symm
  · have := h.active_le
    show s.active - 1 < s.limits.maxActiveExecutions
    omega
  · have hsel := select_store_remove s ids id .released .queued
    rw [filter_ne_of_not_mem (not_mem_select (by simp [hcell])), ← h.queue_eq] at hsel
    exact hsel.symm
  · intro hne
    have := h.queue_full hne
    show s.active - 1 + 1 = s.limits.maxActiveExecutions
    omega

/-- Releasing a slot that is still queued keeps the accounting. -/
theorem Consistent.releaseQueued {s : SchedulerShared} {ids : List ExecutionSlotId}
    (h : Consistent s ids) {id : ExecutionSlotId} (hcell : s.slotState id = .queued) :
    Consistent (s.releaseQueued id) (ids.filter (· ≠ id)) := by
  simp only [SchedulerShared.releaseQueued, hcell, reduceCtorEq, ↓reduceIte]
  refine ⟨h.sorted.filter _, fun x hx => h.bound x (List.mem_of_mem_filter hx),
    h.live_remove id .released, ?_, h.active_le, ?_, ?_, ?_⟩
  · have hsel := select_store_remove s ids id .released .active
    rw [filter_ne_of_not_mem (not_mem_select (by simp [hcell]))] at hsel
    exact h.active_eq.trans (congrArg List.length hsel.symm)
  · have hnd : (s.admissionQueue.map QueuedEntry.slotId).Nodup := h.queue_eq ▸ h.nodup.filter _
    have hsel := select_store_remove s ids id .released .queued
    rw [← h.queue_eq] at hsel
    refine (map_eraseP_slotId _ _).trans (Eq.trans ?_ hsel.symm)
    rw [hnd.erase_eq_filter]
    exact List.filter_congr fun x _ => by by_cases hx : x = id <;> simp [hx]
  · exact (List.length_eraseP_le ..).trans h.queue_le
  · intro hne
    refine h.queue_full fun hnil => hne ?_
    simp [SchedulerShared.store, hnil]

/-- A release never takes another slot's active cell away. -/
theorem release_keeps_active {s : SchedulerShared} {id x : ExecutionSlotId} (r : Release)
    (hne : x ≠ id) (hx : s.slotState x = .active) : (s.release r id).slotState x = .active := by
  have hstore : (s.store id .released).slotState x = .active := by
    simpa [SchedulerShared.store, Function.update_of_ne hne] using hx
  cases r with
  | queued =>
    simp only [SchedulerShared.release, SchedulerShared.releaseQueued]
    split
    · exact hx
    · exact hstore
  | active =>
    simp only [SchedulerShared.release, SchedulerShared.releaseActive]
    split
    · exact hx
    · unfold SchedulerShared.promote
      split
      · exact hstore
      · next entry rest _ =>
        by_cases hxe : x = entry.slotId
        · simp [SchedulerShared.store, hxe]
        · simpa [SchedulerShared.store, Function.update_of_ne hxe] using hstore

/-- The invariant of runs in which no promotion slips into a drop. -/
structure Inv (s : AdmissionState) : Prop where
  consistent : Consistent s.shared s.ids
  kind_active : ∀ h ∈ s.held, h.slot.kind = .active → s.shared.slotState h.slotId = .active
  chosen_active : ∀ h ∈ s.held, h.chosen = some .active → s.shared.slotState h.slotId = .active

theorem mem_of_find {s : AdmissionState} {id : ExecutionSlotId} {h : Held}
    (hf : s.find id = some h) : h ∈ s.held ∧ h.slotId = id :=
  ⟨List.mem_of_find?_eq_some hf, by simpa using List.find?_some hf⟩

/-- What an admission does to the cells. -/
theorem admitSlot_cells (s : SchedulerShared) (resumeTo : AdmissionPhase) :
    (∃ kind cell, (s.admitSlot resumeTo).1 = .ok ⟨kind, s.nextSlotId⟩ ∧
      (s.admitSlot resumeTo).2.slotState = Function.update s.slotState s.nextSlotId cell ∧
      (kind = .active → cell = .active)) ∨
    (∃ e, (s.admitSlot resumeTo).1 = .error e ∧
      (s.admitSlot resumeTo).2.slotState = s.slotState) := by
  unfold SchedulerShared.admitSlot
  by_cases hactive : s.active < s.limits.maxActiveExecutions
  · exact .inl ⟨.active, .active, by simp [hactive], by simp [hactive, SchedulerShared.store],
      fun _ => rfl⟩
  · by_cases hqueue : s.admissionQueue.length < s.limits.maxQueuedExecutions
    · exact .inl ⟨.queued, .queued, by simp [hactive, hqueue],
        by simp [hactive, hqueue, SchedulerShared.store], fun h => by cases h⟩
    · simp only [hactive, hqueue, ↓reduceIte]
      exact .inr ⟨_, rfl, trivial⟩

theorem Inv.request {s : AdmissionState} (hi : Inv s) (resumeTo : AdmissionPhase) :
    Inv (s.request resumeTo) := by
  have hc := hi.consistent.admitSlot resumeTo
  have hmem : ∀ h ∈ s.held, h.slotId ≠ s.shared.nextSlotId := fun h hh he =>
    hi.consistent.not_mem_next (he ▸ List.mem_map_of_mem hh)
  unfold AdmissionState.request
  generalize hadm : s.shared.admitSlot resumeTo = p at hc
  obtain ⟨res, sh⟩ := p
  have hcells := admitSlot_cells s.shared resumeTo
  rw [hadm] at hcells
  rcases hcells with ⟨kind, cell, rfl, hcell, hkind⟩ | ⟨e, rfl, hcell⟩
  · have hold : ∀ h ∈ s.held, sh.slotState h.slotId = s.shared.slotState h.slotId := by
      intro h hh
      have hcell : sh.slotState = Function.update s.shared.slotState s.shared.nextSlotId cell := hcell
      rw [hcell, Function.update_of_ne (hmem h hh)]
    refine ⟨by simpa [AdmissionState.ids, Held.slotId] using hc, ?_, ?_⟩
    · intro h hh hk
      rcases List.mem_append.mp hh with hh | hh
      · exact (hold h hh).trans (hi.kind_active h hh hk)
      · obtain rfl := List.mem_singleton.mp hh
        have hcell : sh.slotState = Function.update s.shared.slotState s.shared.nextSlotId cell := hcell
        simp [hcell, Held.slotId, hkind hk]
    · intro h hh hk
      rcases List.mem_append.mp hh with hh | hh
      · exact (hold h hh).trans (hi.chosen_active h hh hk)
      · obtain rfl := List.mem_singleton.mp hh
        cases hk
  · have hcell : sh.slotState = s.shared.slotState := hcell
    exact ⟨hc, fun h hh hk => by rw [hcell]; exact hi.kind_active h hh hk,
      fun h hh hk => by rw [hcell]; exact hi.chosen_active h hh hk⟩

theorem chooseRelease_active {slot : AdmissionSlot} {cell : SlotState}
    (hk : slot.kind = .active → cell = .active)
    (hc : slot.chooseRelease cell = .active) : cell = .active := by
  unfold AdmissionSlot.chooseRelease at hc
  split at hc
  · next hkind => exact hk hkind
  · split at hc
    · assumption
    · cases hc

theorem Inv.load {s t : AdmissionState} (hi : Inv s) {id : ExecutionSlotId}
    (hs : s.load id = some t) : Inv t := by
  unfold AdmissionState.load at hs
  split at hs
  · next slot hf =>
    obtain ⟨hmem, hid⟩ := mem_of_find hf
    cases hs
    have hids : ∀ choice : Option Release,
        (s.held.map fun h => if h.slotId = id then { h with chosen := choice } else h).map
          Held.slotId = s.ids := by
      intro choice
      rw [List.map_map]
      refine List.map_congr_left fun h _ => ?_
      simp only [Function.comp_apply]
      split <;> rfl
    refine ⟨by simpa [AdmissionState.ids, hids] using hi.consistent, ?_, ?_⟩
    · intro h hh hk
      obtain ⟨g, hg, rfl⟩ := List.mem_map.mp hh
      have := hi.kind_active g hg
      split at hk <;> split <;> simp_all [Held.slotId]
    · intro h hh hk
      obtain ⟨g, hg, rfl⟩ := List.mem_map.mp hh
      by_cases hgi : g.slotId = id
      · simp only [hgi, ↓reduceIte, Option.some.injEq] at hk ⊢
        have hcell := chooseRelease_active
          (fun hkind => hid ▸ hi.kind_active _ hmem hkind) hk
        simpa [Held.slotId, ← hgi] using hcell
      · simp only [hgi, ↓reduceIte] at hk ⊢
        exact hi.chosen_active g hg hk
  · cases hs

theorem Inv.release {s t : AdmissionState} (hi : Inv s) {id : ExecutionSlotId}
    (hok : NoPromotionInDrop s (.release id)) (hs : s.release id = some t) : Inv t := by
  unfold AdmissionState.release at hs
  split at hs
  · next slot r hf =>
    obtain ⟨hmem, hid⟩ := mem_of_find hf
    cases hs
    have hidmem : id ∈ s.ids := hid ▸ List.mem_map_of_mem hmem
    have hids : (s.held.filter (·.slotId ≠ id)).map Held.slotId = s.ids.filter (· ≠ id) := by
      rw [AdmissionState.ids, List.filter_map]
      rfl
    have hcons : Consistent (s.shared.release r id) (s.ids.filter (· ≠ id)) := by
      cases r with
      | active => exact hi.consistent.releaseActive hidmem (hid ▸ hi.chosen_active _ hmem rfl)
      | queued =>
        refine hi.consistent.releaseQueued ?_
        have hlive := hi.consistent.live id hidmem
        have hnot := hok _ hmem hid rfl
        cases hcell : s.shared.slotState id <;> simp_all
    refine ⟨(congrArg (Consistent _) hids).mpr hcons, ?_, ?_⟩
    · intro h hh hk
      obtain ⟨hh, hne⟩ : h ∈ s.held ∧ h.slotId ≠ id := by simpa using hh
      exact release_keeps_active r hne (hi.kind_active h hh hk)
    · intro h hh hk
      obtain ⟨hh, hne⟩ : h ∈ s.held ∧ h.slotId ≠ id := by simpa using hh
      exact release_keeps_active r hne (hi.chosen_active h hh hk)
  · cases hs

theorem Inv.init (limits : EngineLimits) :
    Inv { shared := .withLimits limits, held := [] } where
  consistent := ⟨.nil, by simp [AdmissionState.ids], by simp [AdmissionState.ids], rfl,
    Nat.zero_le _, rfl, Nat.zero_le _, fun h => absurd rfl h⟩
  kind_active := by simp
  chosen_active := by simp

theorem Inv.accounting {s : AdmissionState} (hi : Inv s) : Accounting s where
  active_eq := hi.consistent.active_eq
  active_le := hi.consistent.active_le
  queue_eq := hi.consistent.queue_eq
  admission_order := hi.consistent.sorted
  queue_le := hi.consistent.queue_le
  queue_full := hi.consistent.queue_full
  all_dropped := by
    intro hnil
    have hids : s.ids = [] := by simp [AdmissionState.ids, hnil]
    have hactive := hi.consistent.active_eq
    have hqueue := hi.consistent.queue_eq
    rw [hids] at hactive hqueue
    exact ⟨by simpa [SchedulerShared.select] using hactive,
      by simpa [SchedulerShared.select] using hqueue⟩

theorem Inv.preserved (limits : EngineLimits) :
    Preserved (admissionSystem limits) NoPromotionInDrop Inv := by
  intro s a t hi hok hst
  cases a with
  | request resumeTo =>
    cases hst
    exact hi.request resumeTo
  | load id => exact hi.load hst
  | release id => exact hi.release hok hst

end AdmissionLemmas

open AdmissionLemmas in
/-- In every run in which no promotion slips between the load and the release of
a drop, the accounting is exact in every state. -/
theorem accounting_of_no_promotion (limits : EngineLimits) (s : AdmissionState)
    (h : Reach (admissionSystem limits) NoPromotionInDrop s) : Accounting s :=
  (h.invariant (fun _ hs => hs ▸ Inv.init limits) (Inv.preserved limits)).accounting

/-- A queued slot is dropped while nothing is promoted, then the active one. -/
theorem accounting_of_queued_drop : ∃ s,
    (admissionSystem oneEach).execute NoPromotionInDrop
      { shared := .withLimits oneEach, held := [] }
      [.request .created, .request .linked, .load 1, .release 1, .load 0, .release 0] = some s ∧
    Accounting s :=
  ⟨_, rfl, accounting_of_no_promotion oneEach _ (reach_of_execute rfl
    [.request .created, .request .linked, .load 1, .release 1, .load 0, .release 0] rfl)⟩

end Tsumugi.Scheduler
