import Mathlib.Algebra.BigOperators.Group.List.Basic
import Tsumugi.Audit.StreamLaw

/-!
# The deltas of the audit stream

What the BudgetCharged events say of one resource, added up: over the events that
wait in the accumulator and in the buffer, and over those in the journal. Notes of
the evaluator reach the sum; nothing else changes it, except that a group saturates.

Results:
1. `take_tallies`: a note adds its delta, up to saturation.
2. `holding_flushEvents`: a flush that succeeds leaves the sum as it is and the recorder
   empty.
-/

namespace Tsumugi.Audit

open Budget Word Run

/-- Which delta of a BudgetCharged event. -/
inductive Side
  | committed
  | released
deriving DecidableEq, Repr

def Side.select : Side → Nat → Nat → Nat
  | committed, c, _ => c
  | released, _, r => r

section

variable (side : Side) (resource : BudgetResource)

/-- The delta of an event for one resource. -/
def AuditEvent.delta : AuditEvent → Nat
  | .budgetCharged r c d .. => if r = resource then side.select c d else 0
  | _ => 0

/-- The delta of a list of events. -/
def deltaOf (events : List AuditEvent) : Nat := (events.map (·.delta side resource)).sum

/-- What a note of the evaluator is to add. -/
def Note.delta : Note → Nat
  | .charge r _ c _ => if r = resource then side.select c 0 else 0
  | .release r _ d _ _ => if r = resource then side.select 0 d else 0
  | .hostCall events => deltaOf side resource events

/-- What waits in the accumulator. -/
def BudgetChargeAccumulator.delta (acc : BudgetChargeAccumulator) : Nat :=
  deltaOf side resource (acc.groups.map ChargeGroup.intoEvent) + deltaOf side resource acc.finalized

/-- What waits in the accumulator and in the buffer. -/
def Recorder.delta (r : Recorder) : Nat :=
  r.accumulator.delta side resource + deltaOf side resource r.auditEvents

/-- What is in the journal. -/
def appendedDelta (log : List LogEntry) : Nat :=
  deltaOf side resource ((appendedOf log).map (·.event))

end

/-- `recorded` is `noted`, unless both have gone past the largest value. -/
def Tallies (recorded noted : Nat) : Prop :=
  recorded = noted ∨ maxU64 ≤ recorded ∧ recorded ≤ noted

namespace TallyLemmas

variable {side : Side} {resource : BudgetResource}

/-! ## Tallies -/

theorem tallies_refl (n : Nat) : Tallies n n := .inl rfl

theorem tallies_trans {a b c : Nat} (h : Tallies a b) (h' : Tallies b c) : Tallies a c := by
  unfold Tallies at *
  omega

theorem tallies_add {a b : Nat} (h : Tallies a b) (n : Nat) : Tallies (a + n) (b + n) := by
  unfold Tallies at *
  omega

theorem tallies_eq {a b : Nat} (h : Tallies a b) (hb : b < maxU64) : a = b := by
  unfold Tallies at h
  omega

theorem tallies_satAdd (a n : Nat) : Tallies (satAdd a n) (a + n) := by
  unfold Tallies satAdd
  omega

/-! ## Sums -/

@[simp] theorem deltaOf_nil : deltaOf side resource [] = 0 := rfl

@[simp] theorem deltaOf_cons (event : AuditEvent) (events : List AuditEvent) :
    deltaOf side resource (event :: events) =
      event.delta side resource + deltaOf side resource events := by
  simp [deltaOf]

@[simp] theorem deltaOf_append (events events' : List AuditEvent) :
    deltaOf side resource (events ++ events') =
      deltaOf side resource events + deltaOf side resource events' := by
  simp [deltaOf]

theorem deltaOf_perm (side : Side) (resource : BudgetResource) {events events' : List AuditEvent}
    (h : events.Perm events') :
    deltaOf side resource events = deltaOf side resource events' :=
  (h.map _).sum_eq

@[simp] theorem appendedDelta_append (log log' : List LogEntry) :
    appendedDelta side resource (log ++ log') =
      appendedDelta side resource log + appendedDelta side resource log' := by
  simp [appendedDelta]

/-- A list, cut at one of its places. -/
theorem exists_split {α : Type} {l : List α} {i : Nat} {a : α} (h : l[i]? = some a) :
    ∃ front back, l = front ++ a :: back ∧ (∀ b, l.set i b = front ++ b :: back) ∧
      l.eraseIdx i = front ++ back := by
  induction l generalizing i with
  | nil => simp at h
  | cons x l ih =>
    cases i with
    | zero => exact ⟨[], l, by simpa using h, by simp, by simp⟩
    | succ i =>
      obtain ⟨front, back, hl, hset, herase⟩ := ih (by simpa using h)
      exact ⟨x :: front, back, by rw [hl]; rfl, fun b => by simp [hset b], by simp [herase]⟩

/-! ## The accumulator -/

/-- A group that takes another delta, as `note` writes it. -/
theorem note_tallies (acc : BudgetChargeAccumulator) (fresh : ChargeGroup)
    (add : ChargeGroup → ChargeGroup)
    (hadd : ∀ old n, old.resource = fresh.resource →
      Tallies (({ add old with chargeCount := n } : ChargeGroup).intoEvent.delta side resource)
        (old.intoEvent.delta side resource + fresh.intoEvent.delta side resource)) :
    Tallies ((acc.note fresh add).delta side resource)
      (acc.delta side resource + fresh.intoEvent.delta side resource) := by
  unfold BudgetChargeAccumulator.note
  split
  · simp only [BudgetChargeAccumulator.delta, List.map_append, List.map_cons, List.map_nil,
      deltaOf_append, deltaOf_cons, deltaOf_nil]
    exact .inl (by omega)
  next idx hpos =>
    obtain ⟨hlt, hkey, -⟩ := List.findIdx?_eq_some_iff_getElem.mp hpos
    have hold : acc.groups[idx]? = some acc.groups[idx] := List.getElem?_eq_getElem hlt
    have hresource : acc.groups[idx].resource = fresh.resource := by
      have := of_decide_eq_true hkey
      exact this.1
    rw [hold]
    generalize acc.groups[idx] = old at hold hresource
    obtain ⟨front, back, hgroups, hset, herase⟩ := exists_split hold
    have hg := hadd old (satAdd old.chargeCount 1) hresource
    have hsum : acc.delta side resource = old.intoEvent.delta side resource +
        (deltaOf side resource (front.map ChargeGroup.intoEvent) +
          deltaOf side resource (back.map ChargeGroup.intoEvent) +
          deltaOf side resource acc.finalized) := by
      simp only [BudgetChargeAccumulator.delta, hgroups, List.map_append, List.map_cons,
        deltaOf_append, deltaOf_cons]
      omega
    rw [hsum]
    dsimp only at hg ⊢
    split
    · simp only [BudgetChargeAccumulator.delta, BudgetChargeAccumulator.pushFinalized, herase,
        List.map_append, deltaOf_append, deltaOf_cons, deltaOf_nil]
      unfold Tallies at *
      omega
    · simp only [BudgetChargeAccumulator.delta, hset, List.map_append, List.map_cons,
        deltaOf_append, deltaOf_cons]
      unfold Tallies at *
      omega

theorem noteCharge_tallies (acc : BudgetChargeAccumulator) (r : BudgetResource)
    (reason : BudgetChargeReason) (committedDelta usageAfter : Nat) :
    Tallies ((acc.noteCharge r reason committedDelta usageAfter).delta side resource)
      (acc.delta side resource +
        (Note.charge r reason committedDelta usageAfter).delta side resource) := by
  refine note_tallies acc _ _ fun old n hr => ?_
  simp only [ChargeGroup.intoEvent, AuditEvent.delta, hr]
  split
  · cases side
    · exact tallies_satAdd _ _
    · exact tallies_refl _
  · exact tallies_refl _

theorem noteRelease_tallies (acc : BudgetChargeAccumulator) (r : BudgetResource)
    (reason : BudgetChargeReason) (releasedDelta usageAfter peakAfter : Nat) :
    Tallies ((acc.noteRelease r reason releasedDelta usageAfter peakAfter).delta side resource)
      (acc.delta side resource +
        (Note.release r reason releasedDelta usageAfter peakAfter).delta side resource) := by
  refine note_tallies acc _ _ fun old n hr => ?_
  simp only [ChargeGroup.intoEvent, AuditEvent.delta, hr]
  split
  · cases side
    · exact tallies_refl _
    · exact tallies_satAdd _ _
  · exact tallies_refl _

@[simp] theorem delta_empty : ({} : BudgetChargeAccumulator).delta side resource = 0 := rfl

theorem flush_delta (acc : BudgetChargeAccumulator) :
    deltaOf side resource acc.flush.1 = acc.delta side resource := by
  have hperm := deltaOf_perm side resource
    ((List.perm_insertionSort ChargeGroup.KeyLe acc.groups).map ChargeGroup.intoEvent)
  simp only [BudgetChargeAccumulator.flush, BudgetChargeAccumulator.delta, deltaOf_append, hperm]
  omega

/-! ## The recorder -/

@[simp] theorem auditQueueAdmit_delta (r : Recorder) (event : AuditEvent) :
    (r.auditQueueAdmit event).delta side resource = r.delta side resource := rfl

@[simp] theorem auditQueueRelease_delta (r : Recorder) (event : AuditEvent) :
    (r.auditQueueRelease event).delta side resource = r.delta side resource := rfl

@[simp] theorem pushAuditEvent_delta (r : Recorder) (event : AuditEvent) :
    (r.pushAuditEvent event).delta side resource =
      r.delta side resource + event.delta side resource := by
  simp [Recorder.delta, Recorder.pushAuditEvent, Recorder.auditQueueAdmit, Nat.add_assoc]

@[simp] theorem pushAuditEvents_delta (r : Recorder) (events : List AuditEvent) :
    (r.pushAuditEvents events).delta side resource =
      r.delta side resource + deltaOf side resource events := by
  induction events generalizing r with
  | nil => rfl
  | cons event events ih =>
    rw [Recorder.pushAuditEvents, List.foldl_cons]
    refine (ih (r.pushAuditEvent event)).trans ?_
    rw [pushAuditEvent_delta, deltaOf_cons, Nat.add_assoc]

theorem drainBudgetCharges_delta (side : Side) (resource : BudgetResource) (r : Recorder) :
    deltaOf side resource r.drainBudgetCharges.1 + r.drainBudgetCharges.2.delta side resource =
      r.delta side resource := by
  simp [Recorder.drainBudgetCharges, Recorder.delta, flush_delta]

theorem drainAuditEvents_delta (side : Side) (resource : BudgetResource) (r : Recorder) :
    deltaOf side resource r.drainAuditEvents.1 + r.drainAuditEvents.2.delta side resource =
      r.delta side resource := by
  simp only [Recorder.drainAuditEvents, Recorder.delta, deltaOf_nil]
  omega

@[simp] theorem flushChargesIntoAuditEvents_delta (r : Recorder) :
    r.flushChargesIntoAuditEvents.delta side resource = r.delta side resource := by
  rw [Recorder.flushChargesIntoAuditEvents, pushAuditEvents_delta, ← drainBudgetCharges_delta side resource r,
    Nat.add_comm]

theorem allocPollIndex_delta {r r' : Recorder} {pollIndex : Nat}
    (h : r.allocPollIndex = some (pollIndex, r')) : r'.delta side resource = r.delta side resource := by
  obtain ⟨next, -, heq⟩ := Option.map_eq_some_iff.mp h
  cases heq
  rfl

@[simp] theorem recordYield_delta (r : Recorder) (reason : AuditYieldReason) (pollIndex : Nat)
    (usage : BudgetUsage) :
    (r.recordYield reason pollIndex usage).delta side resource = r.delta side resource :=
  pushAuditEvent_delta r _

@[simp] theorem restoreSavedYield_delta (r : Recorder) :
    r.restoreSavedYield.delta side resource = r.delta side resource := by
  unfold Recorder.restoreSavedYield
  split <;> rfl

@[simp] theorem recordResume_delta (r : Recorder) (usage : BudgetUsage) :
    (r.recordResume usage).delta side resource = r.delta side resource := by
  unfold Recorder.recordResume
  split
  · exact pushAuditEvent_delta _ _
  · rfl

@[simp] theorem recordBackpressureResume_delta (r : Recorder) (usage : BudgetUsage) :
    (r.recordBackpressureResume usage).delta side resource = r.delta side resource := by
  unfold Recorder.recordBackpressureResume
  split
  · rw [restoreSavedYield_delta]
    exact pushAuditEvent_delta _ _
  · rfl

@[simp] theorem recordBackpressureYield_delta (r : Recorder) (usage : BudgetUsage) :
    (r.recordBackpressureYield usage).2.delta side resource = r.delta side resource := by
  unfold Recorder.recordBackpressureYield
  dsimp only
  split
  next pollIndex r' halloc =>
    rw [recordYield_delta, allocPollIndex_delta halloc, flushChargesIntoAuditEvents_delta]
    rfl
  next =>
    rw [restoreSavedYield_delta, flushChargesIntoAuditEvents_delta]
    rfl

/-- A note reaches the sum. -/
theorem take_tallies (side : Side) (resource : BudgetResource) (r : Recorder) (note : Note) :
    Tallies ((r.take note).delta side resource)
      (r.delta side resource + note.delta side resource) := by
  have hswap : ∀ a b n : Nat, a + b + n = a + n + b := fun a b n => by omega
  cases note with
  | charge resource' reason committedDelta usageAfter =>
    simp only [Recorder.delta, hswap _ (deltaOf ..) (Note.delta ..)]
    exact tallies_add (noteCharge_tallies _ _ _ _ _) _
  | release resource' reason releasedDelta usageAfter peakAfter =>
    simp only [Recorder.delta, hswap _ (deltaOf ..) (Note.delta ..)]
    exact tallies_add (noteRelease_tallies _ _ _ _ _ _) _
  | hostCall events => exact .inl (pushAuditEvents_delta r events)

end TallyLemmas

/-! ## Delivery -/

variable {C S V : Type}

/-- What the audit stream holds or is about to hold. -/
def RunState.delta (side : Side) (resource : BudgetResource) (st : RunState C S) : Nat :=
  appendedDelta side resource st.log + st.recorder.delta side resource

/-- The core looks like `v`, and the stream holds `total` together with `pending`. -/
def Holding (view : C → V) (v : V) (total pending : Side → BudgetResource → Nat)
    (st : RunState C S) : Prop :=
  view st.core = v ∧
    ∀ side resource, st.delta side resource + pending side resource = total side resource

namespace TallyLemmas

variable {view : C → V} {v : V} {total pending : Side → BudgetResource → Nat}

/-- A part that leaves the core's view and the sum alone, also when it stops. -/
abbrev Unmoved (view : C → V) {α : Type} (m : Run C S α) : Prop :=
  ∀ v total pending, Proc.Keeps (Holding view v total pending) m

theorem holding_of_same {st t : RunState C S} (h : Holding view v total pending st)
    (hcore : view t.core = view st.core) (hdelta : ∀ side resource,
      t.delta side resource = st.delta side resource) : Holding view v total pending t :=
  ⟨hcore.trans h.1, fun side resource => by rw [hdelta]; exact h.2 side resource⟩

theorem unmoved_pure {α : Type} (a : α) : Unmoved view (pure a : Run C S α) :=
  fun _ _ _ => Proc.keeps_pure a

theorem unmoved_gets {α : Type} (f : RunState C S → α) :
    Unmoved view (Proc.gets f : Run C S α) := fun _ _ _ => Proc.keeps_gets f

theorem unmoved_stop {α : Type} (stop : Stop) : Unmoved view (Proc.stop stop : Run C S α) :=
  fun _ _ _ => Proc.keeps_stop stop

theorem unmoved_bind {α β : Type} {m : Run C S α} {f : α → Run C S β} (hm : Unmoved view m)
    (hf : ∀ a, Unmoved view (f a)) : Unmoved view (m >>= f) := fun v total pending =>
  Proc.keeps_bind (hm v total pending) fun a => hf a v total pending

theorem unmoved_ite {α : Type} {p : Prop} [Decidable p] {m n : Run C S α} (hm : Unmoved view m)
    (hn : Unmoved view n) : Unmoved view (if p then m else n) := by
  split <;> assumption

theorem unmoved_trace {entries : List LogEntry} (h : appendedOf entries = []) :
    Unmoved view (trace entries : Run C S Unit) := fun _ _ _ =>
  Proc.keeps_modify fun st hst => holding_of_same hst rfl fun side resource => by
    simp [RunState.delta, appendedDelta, h]

theorem unmoved_panics {α : Type} (site : PanicSite) : Unmoved view (panics site : Run C S α) :=
  unmoved_bind (unmoved_trace rfl) fun _ => unmoved_stop _

theorem unmoved_onCore {α : Type} {f : C → α × C} (h : ∀ c, view (f c).2 = view c) :
    Unmoved view (onCore f : Run C S α) := fun _ _ _ =>
  Proc.keeps_update fun _ hst => holding_of_same hst (h _) fun _ _ => rfl

theorem unmoved_onTicket {α : Type} (f : S → α × S) :
    Unmoved view (onTicket f : Run C S α) := fun _ _ _ =>
  Proc.keeps_update fun _ hst => holding_of_same hst rfl fun _ _ => rfl

/-- What the recorder puts into its buffer appends nothing. -/
@[simp] theorem appendedDelta_recorded (side : Side) (resource : BudgetResource)
    (events : List AuditEvent) : appendedDelta side resource (events.map .recorded) = 0 := by
  simp [appendedDelta, appendedOf, List.filterMap_map]

theorem unmoved_record {α : Type} {f : Recorder → α × Recorder}
    (h : ∀ r side resource, (f r).2.delta side resource = r.delta side resource) :
    Unmoved view (record f : Run C S α) := fun _ _ _ =>
  Proc.keeps_update fun st hst => holding_of_same hst rfl fun side resource => by
    simp only [RunState.delta, appendedDelta_append, appendedDelta_recorded, Nat.add_zero, h]

/-- However an unmoved part ends. -/
theorem Unmoved.ends {α : Type} {m : Run C S α} (h : Unmoved view m) {st t : RunState C S}
    {r : Except Stop α} (hrun : m.run st = (r, t)) :
    view t.core = view st.core ∧ ∀ side resource, t.delta side resource = st.delta side resource := by
  have hheld := h (view st.core) (fun side resource => st.delta side resource) (fun _ _ => 0) st
    ⟨rfl, fun _ _ => rfl⟩
  rw [hrun] at hheld
  exact hheld

/-- An unmoved part, as the first of two. -/
theorem Unmoved.triple {α : Type} {m : Run C S α} (h : Unmoved view m) :
    Proc.Triple (Holding view v total pending) m fun _ => Holding view v total pending :=
  Proc.triple_of_keeps (h v total pending)

variable (core : Core C) (sink : AuditSink S) (executionId : Nat)

theorem unmoved_submit (env : AuditEnvelope) :
    Unmoved view (submit sink env : Run C S AuditSubmit) := by
  refine unmoved_bind (unmoved_trace rfl) fun _ =>
    unmoved_bind (unmoved_onTicket fun s => sink.submit s [env]) fun answer => ?_
  cases answer <;> first | exact unmoved_pure _ | exact unmoved_panics _

theorem unmoved_resumeAfterAck (env : AuditEnvelope) :
    Unmoved view (resumeAfterAck core env : Run C S Unit) := by
  refine unmoved_bind (unmoved_gets _) fun usage => unmoved_bind (unmoved_record ?_) fun _ =>
    unmoved_trace rfl
  exact fun r side resource => recordBackpressureResume_delta r usage

variable (hcancel : ∀ c, view (core.checkpointCancel c).2 = view c)
  (hdeadline : ∀ c, view (core.checkpointDeadline c).2 = view c)

include hcancel hdeadline

theorem unmoved_interrupted (env : AuditEnvelope) :
    Unmoved view (interrupted core env : Run C S Bool) := by
  refine unmoved_bind (unmoved_onCore hcancel) fun cancelOk => unmoved_ite ?_ (unmoved_pure _)
  refine unmoved_bind (unmoved_onCore hdeadline) fun deadlineOk => ?_
  cases deadlineOk with
  | some ok => exact unmoved_pure _
  | none => exact unmoved_panics _

theorem unmoved_awaitAck (env : AuditEnvelope) (resends ticket : Nat) :
    Unmoved view (awaitAck executionId core sink env resends ticket : Run C S Unit) := by
  induction resends generalizing ticket with
  | zero => exact unmoved_bind (unmoved_onTicket _) fun _ => unmoved_stop _
  | succ resends ih =>
    refine unmoved_bind (unmoved_interrupted core hcancel hdeadline env) fun stopped => ?_
    refine unmoved_ite (unmoved_bind (unmoved_onTicket _) fun _ => unmoved_stop _) ?_
    refine unmoved_bind (unmoved_onTicket _) fun taken => ?_
    match taken with
    | some (.ok ack) => exact unmoved_ite (unmoved_resumeAfterAck core env) (unmoved_stop _)
    | some (.error _) => exact unmoved_stop _
    | none =>
      refine unmoved_bind (unmoved_submit sink env) fun answer => ?_
      cases answer with
      | ack ack => exact unmoved_ite (unmoved_resumeAfterAck core env) (unmoved_stop _)
      | pending next => exact unmoved_bind (unmoved_onTicket _) fun _ => ih next
      | failed error => exact unmoved_stop _
      | unwinds => exact unmoved_stop _

/-- A delivery appends nothing. -/
theorem unmoved_deliver (env : AuditEnvelope) :
    Unmoved view (deliver executionId core sink env : Run C S Unit) := by
  refine unmoved_bind (unmoved_submit sink env) fun answer => ?_
  cases answer with
  | ack ack => exact unmoved_ite (unmoved_trace rfl) (unmoved_stop _)
  | pending ticket =>
    refine unmoved_bind (unmoved_gets _) fun usage => unmoved_bind (unmoved_record ?_) fun ok => ?_
    · exact fun r side resource => recordBackpressureYield_delta r usage
    refine unmoved_ite ?_ (unmoved_bind (unmoved_onTicket _) fun _ => unmoved_stop _)
    exact unmoved_bind (unmoved_onTicket _) fun _ =>
      unmoved_awaitAck core sink executionId hcancel hdeadline env _ _
  | failed error => exact unmoved_stop _
  | unwinds => exact unmoved_stop _

omit hcancel hdeadline

/-- Events that are no longer in the buffer and not yet in the journal. -/
def inFlight (events : List AuditEvent) (pending : Side → BudgetResource → Nat) :
    Side → BudgetResource → Nat :=
  fun side resource => deltaOf side resource events + pending side resource

/-- An append takes its event out of flight. -/
theorem holding_append (env : AuditEnvelope)
    (f : AuditJournal → AuditEnvelope → Except AuditFailure (Nat × AuditJournal)) :
    Proc.Triple (Holding view v total (inFlight [env.event] pending))
      (append env f : Run C S Unit) fun _ => Holding view v total pending := by
  refine Proc.triple_bind (Unmoved.triple (unmoved_gets _)) fun j => ?_
  rcases f j env with failure | ⟨seq, j'⟩
  · exact Proc.triple_stop _
  · refine Proc.triple_modify fun st hst => ⟨hst.1, fun side resource => ?_⟩
    have h := hst.2 side resource
    have hone : appendedDelta side resource [.appended env] = env.event.delta side resource := by
      simp [appendedDelta, appendedOf]
    simp only [RunState.delta, inFlight, deltaOf_cons, deltaOf_nil, appendedDelta_append,
      hone] at h ⊢
    omega

/-- One pass takes everything out of the recorder. -/
theorem holding_drainAll :
    Proc.Triple (Holding view v total pending) (drainAll : Run C S (List AuditEvent))
      fun events st => Holding view v total (inFlight events pending) st ∧
        ∀ side resource, st.recorder.delta side resource = 0 := by
  intro st hst events t hr
  cases hr
  have hqueue : ∀ (events : List AuditEvent) (r : Recorder) side resource,
      (events.foldl Recorder.auditQueueAdmit r).delta side resource = r.delta side resource := by
    intro events
    induction events with
    | nil => exact fun r side resource => rfl
    | cons event events ih => exact fun r side resource => ih (r.auditQueueAdmit event) side resource
  have hzero : ∀ side resource,
      (st.recorder.drainAuditEvents.2.drainBudgetCharges.2).delta side resource = 0 :=
    fun _ _ => rfl
  refine ⟨⟨hst.1, fun side resource => ?_⟩, fun side resource => (hqueue ..).trans (hzero ..)⟩
  have h := hst.2 side resource
  have hevents := drainAuditEvents_delta side resource st.recorder
  have hcharges := drainBudgetCharges_delta side resource
    st.recorder.drainAuditEvents.2
  simp only [RunState.delta, inFlight, deltaOf_append, appendedDelta_append,
    appendedDelta_recorded, hqueue, hzero] at h hcharges ⊢
  omega

include hcancel hdeadline

theorem holding_flushEvent (rq : AuditedRequest) (event : AuditEvent) :
    Proc.Triple (Holding view v total (inFlight [event] pending))
      (flushEvent rq executionId core sink event : Run C S Unit)
      fun _ => Holding view v total pending := by
  refine Proc.triple_bind (Unmoved.triple (unmoved_gets _)) fun j => ?_
  refine Proc.triple_ite (Proc.triple_stop _) ?_
  refine Proc.triple_bind (holding_append (envelope rq executionId j.nextSequence event) _)
    fun _ => ?_
  refine Proc.triple_bind
    (Unmoved.triple (unmoved_deliver core sink executionId hcancel hdeadline _))
    fun _ => ?_
  exact Proc.triple_modify fun st hst => holding_of_same hst rfl fun _ _ => rfl

theorem holding_flushEach (rq : AuditedRequest) (events : List AuditEvent) :
    Proc.Triple (Holding view v total (inFlight events pending))
      (flushEach rq executionId core sink events : Run C S Unit)
      fun _ => Holding view v total pending := by
  induction events with
  | nil => exact Proc.triple_pure fun st hst => by simpa [inFlight, Holding] using hst
  | cons event events ih =>
    refine Proc.triple_bind (Proc.Triple.conseq
      (holding_flushEvent core sink executionId hcancel hdeadline rq event) ?_ fun _ _ h => h)
      fun _ => ih
    exact fun st hst => ⟨hst.1, fun side resource => by
      simpa [inFlight, Nat.add_assoc] using hst.2 side resource⟩

/-- A flush moves what the recorder holds into the journal. -/
theorem holding_flushEvents (rq : AuditedRequest) (fuel : Nat) :
    Proc.Triple (Holding view v total pending)
      (flushEvents rq executionId core sink fuel : Run C S Unit)
      fun _ st => Holding view v total pending st ∧
        ∀ side resource, st.recorder.delta side resource = 0 := by
  induction fuel with
  | zero => exact Proc.triple_stop _
  | succ fuel ih =>
    refine Proc.triple_bind holding_drainAll fun events => ?_
    cases events with
    | nil =>
      refine Proc.triple_pure fun st hst => ⟨?_, hst.2⟩
      simpa [inFlight, Holding] using hst.1
    | cons event events =>
      refine Proc.triple_bind (Proc.Triple.conseq (holding_flushEach core sink executionId hcancel
        hdeadline rq (event :: events)) (fun _ h => h.1) fun _ _ h => h) fun _ => ih

end TallyLemmas

end Tsumugi.Audit
