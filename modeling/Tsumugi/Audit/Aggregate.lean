import Tsumugi.Audit.Tally

/-!
# Charges are conserved by grouping (`audit.rs` §7.3)

The notes of one resource and one reason, in the order they were made, are cut into
chunks of at most 256. Each chunk is one event: the events of the finished chunks were
returned or wait to be, and the last chunk is the running group.

Results:
1. `aggregation_conserves`: the chunks, and the sums they give, after any run of calls.
2. `aggregation_saturates`: two deltas of `u64::MAX` add up to `u64::MAX`.
-/

namespace Tsumugi.Audit

open Budget Word

/-! ## Runs of the accumulator -/

/-- What `note_charge` and `note_release` are told, besides the resource and the reason. -/
inductive ChargeNote
  | charge (committedDelta usageAfter : Nat)
  | release (releasedDelta usageAfter peakAfter : Nat)
deriving DecidableEq, Repr

namespace ChargeNote

def committed : ChargeNote → Nat
  | charge committedDelta _ => committedDelta
  | release .. => 0

def released : ChargeNote → Nat
  | charge .. => 0
  | release releasedDelta _ _ => releasedDelta

def usageAfter : ChargeNote → Nat
  | charge _ usageAfter => usageAfter
  | release _ usageAfter _ => usageAfter

def peakAfter : ChargeNote → Option Nat
  | charge .. => none
  | release _ _ peakAfter => some peakAfter

/-- The deltas are 64-bit values. -/
def InRange (n : ChargeNote) : Prop := n.committed ≤ maxU64 ∧ n.released ≤ maxU64

end ChargeNote

/-- A call of the accumulator. -/
inductive AccumulatorCall
  | note (resource : BudgetResource) (reason : BudgetChargeReason) (note : ChargeNote)
  | flush
deriving DecidableEq, Repr

def AccumulatorCall.InRange : AccumulatorCall → Prop
  | note _ _ n => n.InRange
  | flush => True

/-- `note_charge` or `note_release`. -/
def BudgetChargeAccumulator.takeNote (acc : BudgetChargeAccumulator) (resource : BudgetResource)
    (reason : BudgetChargeReason) : ChargeNote → BudgetChargeAccumulator
  | .charge committedDelta usageAfter => acc.noteCharge resource reason committedDelta usageAfter
  | .release releasedDelta usageAfter peakAfter =>
    acc.noteRelease resource reason releasedDelta usageAfter peakAfter

/-- An accumulator with what it was told and what it has returned. -/
structure AccumulatorRun where
  acc : BudgetChargeAccumulator := {}
  noted : List (BudgetResource × BudgetChargeReason × ChargeNote) := []
  returned : List AuditEvent := []

namespace AccumulatorRun

def call (t : AccumulatorRun) : AccumulatorCall → AccumulatorRun
  | .note resource reason n =>
    { t with
      acc := t.acc.takeNote resource reason n
      noted := t.noted ++ [(resource, reason, n)] }
  | .flush => { t with acc := t.acc.flush.2, returned := t.returned ++ t.acc.flush.1 }

/-- The calls, on a new accumulator. -/
def run (calls : List AccumulatorCall) : AccumulatorRun := calls.foldl call {}

end AccumulatorRun

/-! ## What conservation says -/

section

variable (resource : BudgetResource) (reason : BudgetChargeReason)

/-- The event is about this resource and this reason. -/
def AuditEvent.isChargeOf : AuditEvent → Bool
  | .budgetCharged r _ _ _ _ _ q => decide (r = resource ∧ q = reason)
  | _ => false

/-- `charge_count`. -/
def AuditEvent.chargeCount : AuditEvent → Nat
  | .budgetCharged _ _ _ _ _ chargeCount _ => chargeCount
  | _ => 0

/-- The notes of this resource and this reason, in the order they were made. -/
def AccumulatorRun.notesOf (t : AccumulatorRun) : List ChargeNote :=
  t.noted.filterMap fun n => if n.1 = resource ∧ n.2.1 = reason then some n.2.2 else none

/-- The events of this resource and this reason: returned, finalized, and the pending group
as the event it would be. -/
def AccumulatorRun.eventsOf (t : AccumulatorRun) : List AuditEvent :=
  (t.returned ++ t.acc.finalized ++ t.acc.groups.map ChargeGroup.intoEvent).filter
    (·.isChargeOf resource reason)

/-- The group of some notes: the sums, capped, the usage of the last note and the peak of the
last release. -/
def aggregate (notes : List ChargeNote) : ChargeGroup where
  resource := resource
  reason := reason
  committedDelta := min (notes.map (·.committed)).sum maxU64
  releasedDelta := min (notes.map (·.released)).sum maxU64
  usageAfter := (notes.getLast?.map (·.usageAfter)).getD 0
  peakAfter := (notes.filterMap (·.peakAfter)).getLast?
  chargeCount := notes.length

/-- Each note is in one event, in order, and an event holds 256 of them at most. -/
structure AccumulatorRun.Conserves (t : AccumulatorRun) : Prop where
  grouped : ∃ chunks : List (List ChargeNote), chunks.flatten = t.notesOf resource reason ∧
    t.eventsOf resource reason =
      chunks.map (fun notes => (aggregate resource reason notes).intoEvent) ∧
    ∀ notes ∈ chunks, notes ≠ [] ∧ notes.length ≤ chargeFlushThreshold
  counts : ((t.eventsOf resource reason).map (·.chargeCount)).sum =
    (t.notesOf resource reason).length
  committed : ((t.notesOf resource reason).map (·.committed)).sum ≤ maxU64 →
    deltaOf .committed resource (t.eventsOf resource reason) =
      ((t.notesOf resource reason).map (·.committed)).sum
  released : ((t.notesOf resource reason).map (·.released)).sum ≤ maxU64 →
    deltaOf .released resource (t.eventsOf resource reason) =
      ((t.notesOf resource reason).map (·.released)).sum

/-- The invariant: the chunks that are events, and the notes of the running group. -/
structure AccumulatorRun.Split (t : AccumulatorRun) (chunks : List (List ChargeNote))
    (running : List ChargeNote) : Prop where
  notes : chunks.flatten ++ running = t.notesOf resource reason
  events : (t.returned ++ t.acc.finalized).filter (·.isChargeOf resource reason) =
    chunks.map (fun notes => (aggregate resource reason notes).intoEvent)
  groups : t.acc.groups.filter (fun g => decide (g.resource = resource ∧ g.reason = reason)) =
    if running = [] then [] else [aggregate resource reason running]
  full : ∀ notes ∈ chunks, notes ≠ [] ∧ notes.length ≤ chargeFlushThreshold
  short : running.length < chargeFlushThreshold

end

namespace AggregateLemmas

open TallyLemmas

variable {resource r : BudgetResource} {reason q : BudgetChargeReason} {t : AccumulatorRun}
  {chunks : List (List ChargeNote)} {running : List ChargeNote} {n : ChargeNote}

/-! ## One note -/

/-- The group that a note opens. -/
def fresh (resource : BudgetResource) (reason : BudgetChargeReason) (n : ChargeNote) :
    ChargeGroup :=
  ⟨resource, reason, n.committed, n.released, n.usageAfter, n.peakAfter, 1⟩

/-- What a note adds to the running group, its count apart. -/
def add (g : ChargeGroup) : ChargeNote → ChargeGroup
  | .charge committedDelta usageAfter =>
    { g with committedDelta := satAdd g.committedDelta committedDelta, usageAfter }
  | .release releasedDelta usageAfter peakAfter =>
    { g with
      releasedDelta := satAdd g.releasedDelta releasedDelta
      usageAfter
      peakAfter := some peakAfter }

/-- The running group after a note. -/
def joined (g : ChargeGroup) (n : ChargeNote) : ChargeGroup :=
  { add g n with chargeCount := satAdd g.chargeCount 1 }

theorem joined_key (g : ChargeGroup) (n : ChargeNote) :
    (joined g n).resource = g.resource ∧ (joined g n).reason = g.reason := by
  cases n <;> exact ⟨rfl, rfl⟩

/-- A note opens a group, or joins the first one of its key, which is cut off when it is full. -/
theorem takeNote_cases (acc : BudgetChargeAccumulator) (r : BudgetResource)
    (q : BudgetChargeReason) (n : ChargeNote) :
    (∀ g ∈ acc.groups, ¬ (g.resource = r ∧ g.reason = q)) ∧
        acc.takeNote r q n = { acc with groups := acc.groups ++ [fresh r q n] } ∨
      ∃ front old back, acc.groups = front ++ old :: back ∧ old.resource = r ∧ old.reason = q ∧
        acc.takeNote r q n =
          if (joined old n).chargeCount ≥ chargeFlushThreshold then
            { acc with groups := front ++ back }.pushFinalized (joined old n).intoEvent
          else { acc with groups := front ++ joined old n :: back } := by
  have hnote : acc.takeNote r q n = acc.note (fresh r q n) (add · n) := by
    cases n <;> rfl
  rw [hnote]
  unfold BudgetChargeAccumulator.note
  rcases hpos : acc.position r q with _ | idx
  · refine .inl ⟨fun g hg hkey => ?_, ?_⟩
    · have hnone := List.findIdx?_eq_none_iff.mp hpos g hg
      exact absurd hkey (of_decide_eq_false hnone)
    · rw [show acc.position (fresh r q n).resource (fresh r q n).reason = none from hpos]
  · obtain ⟨hlt, hkey, -⟩ := List.findIdx?_eq_some_iff_getElem.mp hpos
    have hkey := of_decide_eq_true hkey
    have hold : acc.groups[idx]? = some acc.groups[idx] := List.getElem?_eq_getElem hlt
    obtain ⟨front, back, hgroups, hset, herase⟩ := exists_split hold
    refine .inr ⟨front, acc.groups[idx], back, hgroups, hkey.1, hkey.2, ?_⟩
    rw [show acc.position (fresh r q n).resource (fresh r q n).reason = some idx from hpos]
    simp only [hold, herase, hset]
    rfl

theorem isChargeOf_aggregate (notes : List ChargeNote) :
    (aggregate resource reason notes).intoEvent.isChargeOf resource reason = true :=
  decide_eq_true ⟨rfl, rfl⟩

/-- A group of one note. -/
theorem aggregate_singleton (h : n.InRange) :
    aggregate resource reason [n] = fresh resource reason n := by
  have hpeak : (List.filterMap (·.peakAfter) [n]).getLast? = n.peakAfter := by
    cases n <;> rfl
  simp [aggregate, fresh, hpeak, min_eq_left h.1, min_eq_left h.2]

/-- The group after one more note. -/
theorem aggregate_append (resource : BudgetResource) (reason : BudgetChargeReason)
    (n : ChargeNote) (h : running.length < chargeFlushThreshold) :
    aggregate resource reason (running ++ [n]) = joined (aggregate resource reason running) n := by
  have hcount : running.length + 1 ≤ maxU64 := Nat.le_trans h (by decide)
  have hcap : ∀ a b, min (min a maxU64 + b) maxU64 = min (a + b) maxU64 := fun a b => by omega
  cases n <;>
    simp [aggregate, joined, add, satAdd, ChargeNote.committed, ChargeNote.released,
      ChargeNote.usageAfter, ChargeNote.peakAfter, hcap] <;>
    exact hcount

/-! ## One call -/

theorem notesOf_append (t : AccumulatorRun) (r : BudgetResource) (q : BudgetChargeReason)
    (n : ChargeNote) (resource : BudgetResource) (reason : BudgetChargeReason) :
    ({ t with noted := t.noted ++ [(r, q, n)] } : AccumulatorRun).notesOf resource reason =
      t.notesOf resource reason ++ if r = resource ∧ q = reason then [n] else [] := by
  simp only [AccumulatorRun.notesOf, List.filterMap_append, List.filterMap_cons,
    List.filterMap_nil]
  split <;> simp_all

/-- A note of another key changes nothing of this one. -/
theorem split_other (h : t.Split resource reason chunks running)
    (hkey : ¬ (r = resource ∧ q = reason)) :
    (t.call (.note r q n)).Split resource reason chunks running := by
  have hnotes : (t.call (.note r q n)).notesOf resource reason = t.notesOf resource reason := by
    have happend := notesOf_append t r q n resource reason
    rw [if_neg hkey, List.append_nil] at happend
    exact happend
  obtain ⟨-, htake⟩ | ⟨front, old, back, hgroups, hr, hq, htake⟩ := takeNote_cases t.acc r q n
  · refine ⟨h.notes.trans hnotes.symm, ?_, ?_, h.full, h.short⟩
    · simpa only [AccumulatorRun.call, htake] using h.events
    · simp only [AccumulatorRun.call, htake, List.filter_append, h.groups]
      simp [fresh, hkey]
  · have hold : ¬ (old.resource = resource ∧ old.reason = reason) := by rwa [hr, hq]
    have hjoined : ¬ ((joined old n).resource = resource ∧ (joined old n).reason = reason) := by
      rwa [(joined_key old n).1, (joined_key old n).2]
    have hfilter := h.groups
    rw [hgroups] at hfilter
    split at htake
    · refine ⟨h.notes.trans hnotes.symm, ?_, ?_, h.full, h.short⟩
      · simp only [AccumulatorRun.call, htake, BudgetChargeAccumulator.pushFinalized,
          ← List.append_assoc, List.filter_append, ← h.events]
        simp [AuditEvent.isChargeOf, ChargeGroup.intoEvent, hjoined]
      · simp only [AccumulatorRun.call, htake, BudgetChargeAccumulator.pushFinalized, ← hfilter]
        simp [hold]
    · refine ⟨h.notes.trans hnotes.symm, ?_, ?_, h.full, h.short⟩
      · simpa only [AccumulatorRun.call, htake] using h.events
      · simp only [AccumulatorRun.call, htake, ← hfilter]
        simp [hold, hjoined]

/-- Among groups of which at most one has the key, the one that was found is the running one. -/
theorem running_of_found {front back : List ChargeGroup} {old : ChargeGroup}
    (h : (front ++ old :: back).filter
        (fun g => decide (g.resource = resource ∧ g.reason = reason)) =
      if running = [] then [] else [aggregate resource reason running])
    (hold : old.resource = resource ∧ old.reason = reason) :
    running ≠ [] ∧ old = aggregate resource reason running ∧
      front.filter (fun g => decide (g.resource = resource ∧ g.reason = reason)) = [] ∧
      back.filter (fun g => decide (g.resource = resource ∧ g.reason = reason)) = [] := by
  rw [List.filter_append, List.filter_cons_of_pos (by simpa using hold)] at h
  split at h
  · simp at h
  next hrunning =>
    obtain ⟨hfront, hrest⟩ | ⟨front', hfront, hrest⟩ := List.append_eq_cons_iff.mp h
    · obtain ⟨hold, hback⟩ := List.cons.inj hrest
      exact ⟨hrunning, hold, hfront, hback⟩
    · simp at hrest

/-- A note of this key joins the running chunk, which is closed when it is full. -/
theorem split_note (h : t.Split resource reason chunks running) (hn : n.InRange) :
    ∃ chunks' running',
      (t.call (.note resource reason n)).Split resource reason chunks' running' := by
  have hnotes : (t.call (.note resource reason n)).notesOf resource reason =
      chunks.flatten ++ (running ++ [n]) := by
    have happend := notesOf_append t resource reason n resource reason
    rw [if_pos ⟨rfl, rfl⟩, ← h.notes, List.append_assoc] at happend
    exact happend
  have hnext := aggregate_append resource reason n h.short
  obtain ⟨hnone, htake⟩ | ⟨front, old, back, hgroups, hr, hq, htake⟩ :=
    takeNote_cases t.acc resource reason n
  · -- no group of the key runs, so the note opens one
    have hempty : t.acc.groups.filter
        (fun g => decide (g.resource = resource ∧ g.reason = reason)) = [] :=
      List.filter_eq_nil_iff.mpr fun g hg => by simpa using hnone g hg
    have hrunning : running = [] := by
      by_contra hne
      have hgroups := h.groups
      rw [hempty, if_neg hne] at hgroups
      cases hgroups
    subst hrunning
    refine ⟨chunks, [n], hnotes.symm, ?_, ?_, h.full, show 1 < 256 by decide⟩
    · simpa only [AccumulatorRun.call, htake] using h.events
    · simp only [AccumulatorRun.call, htake, List.filter_append, hempty,
        aggregate_singleton hn]
      simp [fresh]
  · have hfilter := h.groups
    rw [hgroups] at hfilter
    obtain ⟨-, rfl, hfront, hback⟩ := running_of_found hfilter ⟨hr, hq⟩
    rw [← hnext] at htake
    have hlength : (running ++ [n]).length = running.length + 1 := by simp
    split at htake
    next hfull =>
      refine ⟨chunks ++ [running ++ [n]], [], by rw [hnotes]; simp, ?_, ?_, ?_, by decide⟩
      · simp only [AccumulatorRun.call, htake, BudgetChargeAccumulator.pushFinalized,
          ← List.append_assoc, List.filter_append, ← h.events, List.map_append]
        rw [List.filter_cons_of_pos (isChargeOf_aggregate _)]
        rfl
      · simp only [AccumulatorRun.call, htake, BudgetChargeAccumulator.pushFinalized,
          List.filter_append, hfront, hback]
        rfl
      · intro notes hmem
        obtain hmem | hmem := List.mem_append.mp hmem
        · exact h.full notes hmem
        · rw [List.mem_singleton.mp hmem]
          exact ⟨by simp, by rw [hlength]; exact h.short⟩
    next hfull =>
      refine ⟨chunks, running ++ [n], hnotes.symm, ?_, ?_, h.full, Nat.lt_of_not_le hfull⟩
      · simpa only [AccumulatorRun.call, htake] using h.events
      · simp only [AccumulatorRun.call, htake, List.filter_append, hfront]
        rw [List.filter_cons_of_pos (by simp [aggregate]), hback, if_neg (by simp)]
        rfl

/-- A flush closes the running chunk. -/
theorem split_flush (h : t.Split resource reason chunks running) :
    ∃ chunks', (t.call .flush).Split resource reason chunks' [] := by
  -- the running group is alone in its key, so sorting leaves it where it is
  have hsorted : (t.acc.groups.insertionSort ChargeGroup.KeyLe).filter
      (fun g => decide (g.resource = resource ∧ g.reason = reason)) =
      if running = [] then [] else [aggregate resource reason running] := by
    have hperm := (List.perm_insertionSort ChargeGroup.KeyLe t.acc.groups).filter
      (fun g => decide (g.resource = resource ∧ g.reason = reason))
    rw [h.groups] at hperm
    split at hperm
    next hrunning => rw [if_pos hrunning]; exact hperm.eq_nil
    next hrunning => rw [if_neg hrunning]; exact List.perm_singleton.mp hperm
  have hpending : ((t.acc.groups.insertionSort ChargeGroup.KeyLe).map
      ChargeGroup.intoEvent).filter (·.isChargeOf resource reason) =
      (if running = [] then [] else [aggregate resource reason running]).map
        ChargeGroup.intoEvent := by
    rw [List.filter_map, ← hsorted]
    rfl
  have hevents : ((t.call .flush).returned ++ (t.call .flush).acc.finalized).filter
      (·.isChargeOf resource reason) =
      chunks.map (fun notes => (aggregate resource reason notes).intoEvent) ++
        (if running = [] then [] else [aggregate resource reason running]).map
          ChargeGroup.intoEvent := by
    simp only [AccumulatorRun.call, BudgetChargeAccumulator.flush, List.append_nil,
      ← List.append_assoc, List.filter_append, hpending, ← h.events]
  by_cases hrunning : running = []
  · subst hrunning
    exact ⟨chunks, h.notes, by simpa using hevents, rfl, h.full, by decide⟩
  · rw [if_neg hrunning] at hevents
    refine ⟨chunks ++ [running], ?_, by simpa using hevents, rfl, ?_, by decide⟩
    · have hnotes : chunks.flatten ++ running = (t.call .flush).notesOf resource reason := h.notes
      rw [← hnotes]
      simp
    · intro notes hmem
      obtain hmem | hmem := List.mem_append.mp hmem
      · exact h.full notes hmem
      · rw [List.mem_singleton.mp hmem]
        exact ⟨hrunning, Nat.le_of_lt h.short⟩

theorem split_call (h : t.Split resource reason chunks running) {call : AccumulatorCall}
    (hcall : call.InRange) :
    ∃ chunks' running', (t.call call).Split resource reason chunks' running' := by
  cases call with
  | note r q n =>
    by_cases hkey : r = resource ∧ q = reason
    · obtain ⟨rfl, rfl⟩ := hkey
      exact split_note h hcall
    · exact ⟨chunks, running, split_other h hkey⟩
  | flush =>
    obtain ⟨chunks', h'⟩ := split_flush h
    exact ⟨chunks', [], h'⟩

theorem split_foldl {calls : List AccumulatorCall} (h : t.Split resource reason chunks running)
    (hcalls : ∀ call ∈ calls, call.InRange) :
    ∃ chunks' running',
      (calls.foldl AccumulatorRun.call t).Split resource reason chunks' running' := by
  induction calls generalizing t chunks running with
  | nil => exact ⟨chunks, running, h⟩
  | cons call calls ih =>
    obtain ⟨chunks', running', h'⟩ := split_call h (hcalls call List.mem_cons_self)
    exact ih h' fun c hc => hcalls c (List.mem_cons_of_mem _ hc)

theorem split_run {calls : List AccumulatorCall} (h : ∀ call ∈ calls, call.InRange)
    (resource : BudgetResource) (reason : BudgetChargeReason) :
    ∃ chunks running, (AccumulatorRun.run calls).Split resource reason chunks running := by
  have hempty : ({} : AccumulatorRun).Split resource reason [] [] :=
    ⟨rfl, rfl, rfl, nofun, by decide⟩
  exact split_foldl hempty h

/-! ## The sums -/

/-- The running chunk is a chunk like the others. -/
theorem grouped_of_split (h : t.Split resource reason chunks running) :
    ∃ chunks : List (List ChargeNote), chunks.flatten = t.notesOf resource reason ∧
      t.eventsOf resource reason =
        chunks.map (fun notes => (aggregate resource reason notes).intoEvent) ∧
      ∀ notes ∈ chunks, notes ≠ [] ∧ notes.length ≤ chargeFlushThreshold := by
  have hevents : t.eventsOf resource reason =
      chunks.map (fun notes => (aggregate resource reason notes).intoEvent) ++
        (if running = [] then [] else [aggregate resource reason running]).map
          ChargeGroup.intoEvent := by
    rw [AccumulatorRun.eventsOf, List.filter_append, h.events, ← h.groups, List.filter_map]
    rfl
  by_cases hrunning : running = []
  · subst hrunning
    exact ⟨chunks, by simpa using h.notes, by simpa using hevents, h.full⟩
  · rw [if_neg hrunning] at hevents
    refine ⟨chunks ++ [running], by rw [← h.notes]; simp, by simpa using hevents, ?_⟩
    intro notes hmem
    obtain hmem | hmem := List.mem_append.mp hmem
    · exact h.full notes hmem
    · rw [List.mem_singleton.mp hmem]
      exact ⟨hrunning, Nat.le_of_lt h.short⟩

theorem counts_of_chunks (chunks : List (List ChargeNote)) :
    ((chunks.map fun notes => (aggregate resource reason notes).intoEvent).map
      (·.chargeCount)).sum = chunks.flatten.length := by
  rw [List.length_flatten, List.map_map]
  rfl

/-- What the chunks add up to, when the whole sum is within range. -/
theorem delta_of_chunks (side : Side) (value : ChargeNote → Nat)
    (hvalue : ∀ notes, (aggregate resource reason notes).intoEvent.delta side resource =
      min (notes.map value).sum maxU64)
    (chunks : List (List ChargeNote)) (h : (chunks.flatten.map value).sum ≤ maxU64) :
    deltaOf side resource (chunks.map fun notes => (aggregate resource reason notes).intoEvent) =
      (chunks.flatten.map value).sum := by
  induction chunks with
  | nil => rfl
  | cons notes chunks ih =>
    rw [List.flatten_cons, List.map_append, List.sum_append] at h ⊢
    rw [List.map_cons, deltaOf_cons, ih (Nat.le_trans (Nat.le_add_left _ _) h), hvalue,
      min_eq_left (Nat.le_trans (Nat.le_add_right _ _) h)]

theorem aggregate_delta (side : Side) (notes : List ChargeNote) :
    (aggregate resource reason notes).intoEvent.delta side resource =
      min (notes.map fun n => side.select n.committed n.released).sum maxU64 := by
  cases side <;> exact if_pos rfl

theorem conserves_of_split (h : t.Split resource reason chunks running) :
    t.Conserves resource reason := by
  obtain ⟨all, hnotes, hevents, hchunks⟩ := grouped_of_split h
  refine ⟨⟨all, hnotes, hevents, hchunks⟩, ?_, fun hfits => ?_, fun hfits => ?_⟩
  · rw [hevents, counts_of_chunks, hnotes]
  · rw [hevents, ← hnotes]
    rw [← hnotes] at hfits
    exact delta_of_chunks .committed _ (aggregate_delta .committed) all hfits
  · rw [hevents, ← hnotes]
    rw [← hnotes] at hfits
    exact delta_of_chunks .released _ (aggregate_delta .released) all hfits

/-! ## The meter of the finalized events -/

/-- The bytes that are kept are the sum of the estimates, capped. -/
def Metered (acc : BudgetChargeAccumulator) : Prop :=
  acc.finalizedEventBytes = min (acc.finalized.map estimateEventBytes).sum maxU64

theorem metered_pushFinalized {acc : BudgetChargeAccumulator} (h : Metered acc)
    (event : AuditEvent) : Metered (acc.pushFinalized event) := by
  unfold Metered at *
  simp only [BudgetChargeAccumulator.pushFinalized, satAdd, h, List.map_append, List.sum_append,
    List.map_cons, List.map_nil, List.sum_cons, List.sum_nil]
  omega

theorem metered_takeNote {acc : BudgetChargeAccumulator} (h : Metered acc) (r : BudgetResource)
    (q : BudgetChargeReason) (n : ChargeNote) : Metered (acc.takeNote r q n) := by
  obtain ⟨-, htake⟩ | ⟨front, old, back, -, -, -, htake⟩ := takeNote_cases acc r q n <;> rw [htake]
  · exact h
  · split
    · exact metered_pushFinalized h _
    · exact h

theorem metered_run (calls : List AccumulatorCall) : Metered (AccumulatorRun.run calls).acc := by
  suffices ∀ t : AccumulatorRun, Metered t.acc → Metered (calls.foldl AccumulatorRun.call t).acc
    from this {} rfl
  induction calls with
  | nil => exact fun _ h => h
  | cons call calls ih =>
    refine fun t h => ih (t.call call) ?_
    cases call with
    | note r q n => exact metered_takeNote h r q n
    | flush => rfl

theorem finalizedQueueBytes_eq {acc : BudgetChargeAccumulator} (h : Metered acc)
    (overhead : Nat) : acc.finalizedQueueBytes overhead =
      min (acc.finalized.map fun e => overhead + estimateEventBytes e).sum maxU64 := by
  have hsum : (acc.finalized.map fun e => overhead + estimateEventBytes e).sum =
      acc.finalized.length * overhead + (acc.finalized.map estimateEventBytes).sum := by
    rw [List.sum_map_add, List.map_const', List.sum_replicate]
    rfl
  rw [BudgetChargeAccumulator.finalizedQueueBytes, h, hsum, satAdd, satMul]
  omega

end AggregateLemmas

open AggregateLemmas

/-- After any run of calls the notes of each resource and reason are conserved, and the bytes
of the finalized events are the sum of their estimated sizes, capped. -/
theorem aggregation_conserves (calls : List AccumulatorCall)
    (h : ∀ call ∈ calls, call.InRange) :
    (∀ resource reason, (AccumulatorRun.run calls).Conserves resource reason) ∧
      ∀ overhead, (AccumulatorRun.run calls).acc.finalizedQueueBytes overhead =
        min ((AccumulatorRun.run calls).acc.finalized.map fun e =>
          overhead + estimateEventBytes e).sum maxU64 := by
  refine ⟨fun resource reason => ?_, finalizedQueueBytes_eq (metered_run calls)⟩
  obtain ⟨chunks, running, hsplit⟩ := split_run h resource reason
  exact conserves_of_split hsplit

/-! ## Deltas at the bound -/

/-- The largest delta, twice. -/
def chargesMaxTwice : List AccumulatorCall :=
  [.note .fuel .operation (.charge maxU64 maxU64), .note .fuel .operation (.charge maxU64 maxU64),
    .flush]

theorem chargesMaxTwice_inRange : ∀ call ∈ chargesMaxTwice, call.InRange := by
  intro call hmem
  simp only [chargesMaxTwice, List.mem_cons, List.not_mem_nil, or_false] at hmem
  obtain rfl | rfl | rfl := hmem
  · exact ⟨Nat.le_refl _, Nat.zero_le _⟩
  · exact ⟨Nat.le_refl _, Nat.zero_le _⟩
  · trivial

theorem chargesMaxTwice_conserves :
    (∀ resource reason, (AccumulatorRun.run chargesMaxTwice).Conserves resource reason) ∧
      ∀ overhead, (AccumulatorRun.run chargesMaxTwice).acc.finalizedQueueBytes overhead =
        min ((AccumulatorRun.run chargesMaxTwice).acc.finalized.map fun e =>
          overhead + estimateEventBytes e).sum maxU64 :=
  aggregation_conserves chargesMaxTwice chargesMaxTwice_inRange

/-- The event of the two says half of what was charged. -/
theorem aggregation_saturates :
    ¬ ∀ calls : List AccumulatorCall, (∀ call ∈ calls, call.InRange) → ∀ resource reason,
      deltaOf .committed resource ((AccumulatorRun.run calls).eventsOf resource reason) =
        (((AccumulatorRun.run calls).notesOf resource reason).map (·.committed)).sum := by
  intro h
  have hsum := h chargesMaxTwice chargesMaxTwice_inRange .fuel .operation
  revert hsum
  decide

end Tsumugi.Audit
