import Tsumugi.Audit.Delivery
import Tsumugi.Audit.HostCallRecord

/-!
# Which runs record their host calls truthfully

The recorder is followed through a run: a host call adds its three events in one piece, and
everything else adds events of another kind.

Results:
1. `recorded_reach`: the dispatched calls have their records in the stream, in order and with
   consecutive ids, as far as the ids go.
2. `host_calls_recorded_iff`: the record is complete and true exactly if the ids suffice and no
   `read_lines` goes over the limit on collections after its file was read.
-/

namespace Tsumugi.Audit

open Budget Capability Transition Word

variable {A F σ : Type}

/-- No charge that waits is an event of a host call. -/
def Charged (acc : BudgetChargeAccumulator) : Prop := ∀ e ∈ acc.finalized, e.isHostCall = false

/-- An operation of the recorder that puts no event of a host call into the buffer. -/
def Adds (r r' : Recorder) : Prop :=
  Charged r.accumulator → Charged r'.accumulator ∧
    ∃ events, r'.auditEvents = r.auditEvents ++ events ∧ ∀ e ∈ events, e.isHostCall = false

theorem Adds.trans {r r' r'' : Recorder} (h : Adds r r') (h' : Adds r' r'') : Adds r r'' := by
  intro hcharged
  obtain ⟨hcharged, events, hevents, hother⟩ := h hcharged
  obtain ⟨hcharged, more, hmore, hother'⟩ := h' hcharged
  refine ⟨hcharged, events ++ more, by rw [hmore, hevents, List.append_assoc], fun e he => ?_⟩
  exact (List.mem_append.mp he).elim (hother e) (hother' e)

namespace HostCallLemmas

open Recorder DeliveryLemmas

/-! ## The recorder -/

theorem charged_note {acc : BudgetChargeAccumulator} (h : Charged acc) (fresh : ChargeGroup)
    (add : ChargeGroup → ChargeGroup) : Charged (acc.note fresh add) := by
  unfold BudgetChargeAccumulator.note
  split
  · exact h
  · split
    · exact h
    · simp only
      split
      · intro e he
        rcases List.mem_append.mp he with hmem | hmem
        · exact h e hmem
        · rw [List.mem_singleton.mp hmem]
          rfl
      · exact h

theorem charged_flush {acc : BudgetChargeAccumulator} (h : Charged acc) :
    ∀ e ∈ acc.flush.1, e.isHostCall = false := by
  intro e he
  rcases List.mem_append.mp he with hmem | hmem
  · exact h e hmem
  · obtain ⟨group, -, rfl⟩ := List.mem_map.mp hmem
    rfl

theorem adds_same {r r' : Recorder} (hevents : r'.auditEvents = r.auditEvents)
    (hacc : r'.accumulator = r.accumulator) : Adds r r' := by
  intro h
  rw [hevents, hacc]
  exact ⟨h, [], (List.append_nil _).symm, by simp⟩

theorem adds_push (r : Recorder) {event : AuditEvent} (hother : event.isHostCall = false) :
    Adds r (r.pushAuditEvent event) :=
  fun h => ⟨h, [event], rfl, by simpa using hother⟩

theorem adds_flush (r : Recorder) : Adds r r.flushChargesIntoAuditEvents := by
  intro h
  rw [flushChargesIntoAuditEvents]
  refine ⟨?_, _, pushAuditEvents_auditEvents _ _, charged_flush h⟩
  rw [pushAuditEvents_frame]
  exact fun e he => by cases he

theorem adds_noteBudget (r : Recorder) (note : Note) : Adds r (r.noteBudget note) := by
  intro h
  cases note with
  | charge => exact ⟨charged_note h _ _, [], (List.append_nil _).symm, by simp⟩
  | release => exact ⟨charged_note h _ _, [], (List.append_nil _).symm, by simp⟩
  | hostCall => exact ⟨h, [], (List.append_nil _).symm, by simp⟩

theorem adds_notes (r : Recorder) (notes : List Note) :
    Adds r (notes.foldl Recorder.noteBudget r) := by
  induction notes generalizing r with
  | nil => exact adds_same rfl rfl
  | cons note notes ih => exact (adds_noteBudget r note).trans (ih _)

theorem adds_recordResume (r : Recorder) (usage : BudgetUsage) : Adds r (r.recordResume usage) := by
  unfold recordResume
  split
  · exact (adds_same rfl rfl : Adds r { r with lastYieldReason := none }).trans (adds_push _ rfl)
  · exact adds_same rfl rfl

theorem adds_recordYield (r : Recorder) (reason : AuditYieldReason) (pollIndex : Nat)
    (usage : BudgetUsage) : Adds r (r.recordYield reason pollIndex usage) :=
  (adds_push r rfl).trans (adds_same rfl rfl)

theorem adds_allocPollIndex {r r' : Recorder} {pollIndex : Nat}
    (h : r.allocPollIndex = some (pollIndex, r')) : Adds r r' := by
  obtain ⟨next, -, heq⟩ := Option.map_eq_some_iff.mp h
  cases heq
  exact adds_same rfl rfl

theorem adds_yieldSlice (r : Recorder) (reason : AuditYieldReason) (usage : BudgetUsage) :
    Adds r (r.yieldSlice reason usage) := by
  unfold Recorder.yieldSlice
  simp only
  split
  · next halloc =>
    exact (adds_flush r).trans ((adds_allocPollIndex halloc).trans (adds_recordYield _ _ _ _))
  · exact adds_flush r

theorem adds_restoreSavedYield (r : Recorder) : Adds r r.restoreSavedYield := by
  unfold restoreSavedYield
  split <;> exact adds_same rfl rfl

theorem adds_backpressureYield (r : Recorder) (usage : BudgetUsage) :
    Adds r (r.recordBackpressureYield usage).2 := by
  unfold recordBackpressureYield
  simp only
  have hsave : Adds r { r with
      savedYieldBeforeBackpressure := r.lastYieldReason.map fun reason =>
        (reason, r.lastYieldPollIndex)
      lastYieldReason := none } := adds_same rfl rfl
  refine hsave.trans ((adds_flush _).trans ?_)
  split
  · next halloc => exact (adds_allocPollIndex halloc).trans (adds_recordYield _ _ _ _)
  · exact adds_restoreSavedYield _

theorem adds_backpressureResume (r : Recorder) (usage : BudgetUsage) :
    Adds r (r.recordBackpressureResume usage) := by
  unfold recordBackpressureResume
  split
  · exact ((adds_same rfl rfl : Adds r { r with lastYieldReason := none }).trans
      (adds_push _ rfl)).trans (adds_restoreSavedYield _)
  · exact adds_same rfl rfl

/-! ## The blocks of a stream -/

theorem events_injective : ∀ {a b : List HostCallTriple},
    a.flatMap HostCallTriple.events = b.flatMap HostCallTriple.events → a = b
  | [], [], _ => rfl
  | [], t :: _, h => by cases h
  | t :: _, [], h => by cases h
  | ⟨started, decision, finished⟩ :: rest, ⟨started', decision', finished'⟩ :: rest', h => by
    simp only [List.flatMap_cons, HostCallTriple.events, List.cons_append, List.nil_append,
      List.cons.injEq] at h
    obtain ⟨rfl, rfl, rfl, hrest⟩ := h
    rw [events_injective hrest]

/-- The events of host calls in a stream are those of its blocks. -/
theorem filter_blocks {blocks : List Block} (h : ∀ b ∈ blocks, b.Proper) :
    (blocks.flatMap Block.events).filter AuditEvent.isHostCall =
      (blocks.filterMap Block.triple?).flatMap HostCallTriple.events := by
  induction blocks with
  | nil => rfl
  | cons block rest ih =>
    have hrest := ih fun b hb => h b (List.mem_cons_of_mem _ hb)
    have hproper := h block List.mem_cons_self
    rw [List.flatMap_cons, List.filter_append, hrest]
    cases block with
    | call triple =>
      rw [Block.events, List.filter_eq_self.mpr hproper]
      rfl
    | other event =>
      have hother : AuditEvent.isHostCall event = false := hproper
      simp only [Block.events, List.filter_singleton, hother]
      rfl

theorem blocks_of_others {events : List AuditEvent} (h : ∀ e ∈ events, e.isHostCall = false) :
    (events.map Block.other).flatMap Block.events = events ∧
      (∀ b ∈ events.map Block.other, b.Proper) ∧
      (events.map Block.other).filterMap Block.triple? = [] := by
  refine ⟨?_, ?_, ?_⟩
  · induction events with
    | nil => rfl
    | cons event rest ih =>
      rw [List.map_cons, List.flatMap_cons, ih fun e he => h e (List.mem_cons_of_mem _ he)]
      rfl
  · intro b hb
    obtain ⟨event, hevent, rfl⟩ := List.mem_map.mp hb
    exact h event hevent
  · rw [List.filterMap_map, List.filterMap_eq_nil_iff]
    exact fun _ _ => rfl

theorem proper_record (setup : HostSetup A F σ) (d : DispatchedCall A σ) (id : Nat) :
    (Block.call (d.record setup id)).Proper := by
  intro e he
  simp only [HostCallTriple.events, List.mem_cons, List.not_mem_nil, or_false] at he
  rcases he with rfl | rfl | rfl <;> rfl

end HostCallLemmas

/-! ## The run -/

/-- The records of dispatched calls, with ids from 0. -/
def recordsOf (setup : HostSetup A F σ) (calls : List (DispatchedCall A σ)) : List HostCallTriple :=
  calls.mapIdx fun id d => d.record setup id

/-- The stream holds the records of the calls, as far as the ids go. -/
structure Recorded (setup : HostSetup A F σ) (st : HostCalls A σ) : Prop where
  charged : Charged st.recorder.accumulator
  ids : st.nextHostOperationId = min st.dispatched.length maxU64
  made : ∀ d ∈ st.dispatched, d.Made setup
  blocks : ∃ blocks : List Block, blocks.flatMap Block.events = st.stream ∧
    (∀ b ∈ blocks, b.Proper) ∧
    blocks.filterMap Block.triple? = recordsOf setup (st.dispatched.take maxU64)

/-- A step that is no host call: other events come, and nothing is dispatched. -/
structure Quiet (st st' : HostCalls A σ) : Prop where
  ids : st'.nextHostOperationId = st.nextHostOperationId
  dispatched : st'.dispatched = st.dispatched
  adds : Charged st.recorder.accumulator → Charged st'.recorder.accumulator ∧
    ∃ events, st'.stream = st.stream ++ events ∧ ∀ e ∈ events, e.isHostCall = false

namespace HostCallLemmas

open DeliveryLemmas

variable {setup : HostSetup A F σ} {st : HostCalls A σ}

theorem recorded_quiet (h : Recorded setup st) {st' : HostCalls A σ} (hquiet : Quiet st st') :
    Recorded setup st' := by
  obtain ⟨hids, hdispatched, hadds⟩ := hquiet
  obtain ⟨hcharged, events, hstream, hother⟩ := hadds h.charged
  obtain ⟨blocks, hblocks, hproper, htriples⟩ := h.blocks
  obtain ⟨hevents, hproper', hnone⟩ := blocks_of_others hother
  refine ⟨hcharged, by rw [hids, hdispatched, h.ids], by rw [hdispatched]; exact h.made,
    blocks ++ events.map Block.other, ?_, ?_, ?_⟩
  · rw [List.flatMap_append, hblocks, hevents, hstream]
  · intro b hb
    exact (List.mem_append.mp hb).elim (hproper b) (hproper' b)
  · rw [List.filterMap_append, htriples, hnone, List.append_nil, hdispatched]

theorem quiet_of_adds {recorder : Recorder} (h : Adds st.recorder recorder) (ledger : BudgetLedger)
    (host : σ) : Quiet st { st with recorder, ledger, host } := by
  refine ⟨rfl, rfl, fun hcharged => ?_⟩
  obtain ⟨hcharged, events, hevents, hother⟩ := h hcharged
  exact ⟨hcharged, events, by rw [HostCalls.stream, hevents, ← List.append_assoc]; rfl, hother⟩

theorem quiet_charge {α : Type} (m : Charge α) (st : HostCalls A σ) : Quiet st (st.charge m).2 :=
  quiet_of_adds (adds_notes st.recorder _) _ _

theorem admits_frame (charges : List AuditEvent) (r : Recorder) :
    (charges.foldl Recorder.auditQueueAdmit r).auditEvents = r.auditEvents ∧
      (charges.foldl Recorder.auditQueueAdmit r).accumulator = r.accumulator := by
  induction charges generalizing r with
  | nil => exact ⟨rfl, rfl⟩
  | cons charge rest ih => exact ih (r.auditQueueAdmit charge)

theorem drain_eq (st : HostCalls A σ) :
    st.drain = { st with
      recorder := st.recorder.accumulator.flush.1.foldl Recorder.auditQueueAdmit
        { st.recorder with auditEvents := [], accumulator := {} }
      drained := st.drained ++ st.recorder.auditEvents ++ st.recorder.accumulator.flush.1 } := rfl

theorem quiet_drain (st : HostCalls A σ) : Quiet st st.drain := by
  rw [drain_eq]
  refine ⟨rfl, rfl, fun hcharged => ?_⟩
  obtain ⟨hevents, hacc⟩ := admits_frame st.recorder.accumulator.flush.1
    { st.recorder with auditEvents := [], accumulator := {} }
  refine ⟨?_, st.recorder.accumulator.flush.1, ?_, charged_flush hcharged⟩
  · rw [hacc]
    exact fun e he => by cases he
  · rw [HostCalls.stream, hevents]
    exact List.append_nil _

/-- The dispatch of a host call adds its record, if an id is left. -/
theorem recorded_dispatchCall (h : Recorded setup st) {builtin : FsBuiltin}
    (hcall : isHostCallBuiltin builtin) (args : List Value) (line : Nat) :
    Recorded setup (st.dispatchCall setup builtin args line).2 := by
  obtain ⟨blocks, hblocks, hproper, htriples⟩ := h.blocks
  unfold HostCalls.dispatchCall HostCalls.allocHostCallOperationId
  simp only
  generalize hd : DispatchedCall.mk
    ⟨builtin, args, st.ledger.config.maxCollectionElements, line⟩ st.host
    (dispatchFs setup.adapters setup.formatFloat setup.filesystem
      ⟨builtin, args, st.ledger.config.maxCollectionElements, line⟩ st.host) = d
  have hmade : ∀ d' ∈ st.dispatched ++ [d], d'.Made setup := by
    intro d' hmem
    rcases List.mem_append.mp hmem with hold | hnew
    · exact h.made d' hold
    · rw [List.mem_singleton.mp hnew, ← hd]
      exact ⟨hcall, rfl⟩
  by_cases hleft : st.dispatched.length < maxU64
  · have hid : st.nextHostOperationId = st.dispatched.length := by rw [h.ids]; omega
    have halloc : checkedAdd st.nextHostOperationId 1 = some (st.nextHostOperationId + 1) :=
      checkedAdd_eq_some.mpr ⟨by omega, rfl⟩
    have hrecord : recordHostCall setup.formatFloat setup.policy st.nextHostOperationId builtin args
        (dispatchFs setup.adapters setup.formatFloat setup.filesystem
          ⟨builtin, args, st.ledger.config.maxCollectionElements, line⟩ st.host) =
        d.record setup st.dispatched.length := by
      rw [← hid, ← hd]
      rfl
    rw [halloc]
    simp only
    refine ⟨?_, ?_, hmade, blocks ++ [.call (d.record setup st.dispatched.length)], ?_, ?_, ?_⟩
    · rw [pushAuditEvents_frame]
      exact h.charged
    · simp only [List.length_append, List.length_singleton]
      omega
    · rw [List.flatMap_append, hblocks, List.flatMap_singleton, hrecord]
      simp only [HostCalls.stream, pushAuditEvents_auditEvents, List.append_assoc]
      rfl
    · intro b hb
      rcases List.mem_append.mp hb with hold | hnew
      · exact hproper b hold
      · rw [List.mem_singleton.mp hnew]
        exact proper_record setup d _
    · rw [List.filterMap_append, htriples, List.take_of_length_le hleft.le,
        List.take_of_length_le (by simp; omega), recordsOf, recordsOf, List.mapIdx_append]
      simp [Block.triple?]
  · have hid : st.nextHostOperationId = maxU64 := by rw [h.ids]; omega
    have halloc : checkedAdd st.nextHostOperationId 1 = none := by
      rw [hid, checkedAdd, if_neg (by omega)]
    rw [halloc]
    refine ⟨h.charged, ?_, hmade, blocks, hblocks, hproper, ?_⟩
    · simp only [List.length_append, List.length_singleton]
      omega
    · rw [htriples]
      simp only
      rw [List.take_append_of_le_length (by omega)]

theorem recorded_applyPureCoreBuiltin (h : Recorded setup st) (callStack : List TraceFrame)
    {builtin : FsBuiltin} (hcall : isHostCallBuiltin builtin) (args : List Value) (line : Nat) :
    Recorded setup (st.applyPureCoreBuiltin setup callStack builtin args line).2 := by
  unfold HostCalls.applyPureCoreBuiltin
  simp only
  have hrequest := recorded_quiet h (quiet_charge (Charge.chargeHostCallRequest
    (hostCallRequestBytes setup.formatFloat builtin args) .run) st)
  split
  · next hstop =>
    rw [hstop] at hrequest
    exact hrequest
  · next st₁ hgrant =>
    rw [hgrant] at hrequest
    have hdispatch := recorded_dispatchCall hrequest hcall args line
    split
    · next hfail =>
      rw [hfail] at hdispatch
      exact hdispatch
    · next value st₂ hvalue =>
      rw [hvalue] at hdispatch
      have hresponse := recorded_quiet hdispatch (quiet_charge (Charge.chargeHostResponseBytes
        (hostCallResponseBytes builtin value) .run) st₂)
      split
      · next hstop =>
        rw [hstop] at hresponse
        exact hresponse
      · next st₃ hgrant' =>
        rw [hgrant'] at hresponse
        have htracked := recorded_quiet hresponse (quiet_charge (setup.trackResult value) st₃)
        split <;> next hresult => rw [hresult] at htracked; exact htracked

end HostCallLemmas

open HostCallLemmas

variable {setup : HostSetup A F σ}

/-- One step keeps the record. -/
theorem recorded_step {st st' : HostCalls A σ} {action : AuditedAction σ}
    (h : Recorded setup st) (hstep : st.step setup action = some st') : Recorded setup st' := by
  cases action with
  | hostCall callStack builtin args line =>
    obtain ⟨hcall, hst⟩ := Option.ite_none_right_eq_some.mp hstep
    rw [← Option.some.inj hst]
    exact recorded_applyPureCoreBuiltin h callStack hcall args line
  | charge call phase =>
    rw [← Option.some.inj hstep]
    exact recorded_quiet h (quiet_charge (call.run phase) st)
  | elsewhere host =>
    rw [← Option.some.inj hstep]
    exact recorded_quiet h (quiet_of_adds (adds_same rfl rfl) _ host)
  | resume usage =>
    rw [← Option.some.inj hstep]
    exact recorded_quiet h (quiet_of_adds (adds_recordResume _ usage) _ _)
  | yield reason usage =>
    rw [← Option.some.inj hstep]
    exact recorded_quiet h (quiet_of_adds (adds_yieldSlice _ reason usage) _ _)
  | backpressureYield usage =>
    rw [← Option.some.inj hstep]
    exact recorded_quiet h (quiet_of_adds (adds_backpressureYield _ usage) _ _)
  | backpressureResume usage =>
    rw [← Option.some.inj hstep]
    exact recorded_quiet h (quiet_of_adds (adds_backpressureResume _ usage) _ _)
  | acknowledge event =>
    rw [← Option.some.inj hstep]
    have hadds : Adds st.recorder (st.recorder.auditQueueRelease event) := adds_same rfl rfl
    exact recorded_quiet h (quiet_of_adds hadds _ _)
  | drain =>
    rw [← Option.some.inj hstep]
    exact recorded_quiet h (quiet_drain st)

/-- In a run, the stream holds the records of the dispatched calls. -/
theorem recorded_reach {st : HostCalls A σ} (h : Reach (auditedRuns setup) anyStep st) :
    Recorded setup st := by
  have hkeep : Preserved (auditedRuns setup) anyStep (Recorded setup) :=
    fun st action st' hst _ hstep => recorded_step hst hstep
  refine h.invariant (fun st hinit => ?_) hkeep
  obtain ⟨hids, hdrained, hdispatched, ⟨limit, overhead, hrecorder⟩, -⟩ := hinit
  refine ⟨?_, by rw [hids, hdispatched]; rfl, by simp [hdispatched], [], ?_, by simp, ?_⟩
  · rw [hrecorder]
    exact fun e he => by cases he
  · rw [HostCalls.stream, hdrained, hrecorder]
    rfl
  · rw [hdispatched]
    rfl

/-- Records in the stream are complete and true if there are enough of them and none is of a
call over the limit. -/
theorem complete_iff {st : HostCalls A σ} (hrecorded : Recorded setup st) :
    Complete setup st ↔
      st.dispatched.length ≤ maxU64 ∧ ∀ d ∈ st.dispatched, ¬ OverLimit setup d.call d.before := by
  obtain ⟨blocks, hblocks, hproper, htriples⟩ := hrecorded.blocks
  constructor
  · rintro ⟨blocks', hblocks', hproper', hlength, htruth⟩
    have hsame : blocks'.filterMap Block.triple? = recordsOf setup (st.dispatched.take maxU64) := by
      apply events_injective
      rw [← filter_blocks hproper', ← htriples, ← filter_blocks hproper, hblocks, hblocks']
    rw [hsame] at hlength htruth
    rw [recordsOf, List.length_mapIdx, List.length_take] at hlength
    have hle : st.dispatched.length ≤ maxU64 := by omega
    rw [List.take_of_length_le hle] at htruth
    refine ⟨hle, fun d hd hover => ?_⟩
    obtain ⟨id, hid⟩ := List.getElem?_of_mem hd
    refine record_untruthful (hrecorded.made d hd) hover id (htruth id _ d ?_ hid)
    rw [recordsOf, List.getElem?_mapIdx, hid]
    rfl
  · rintro ⟨hle, hwithin⟩
    rw [List.take_of_length_le hle] at htriples
    refine ⟨blocks, hblocks, hproper, by rw [htriples, recordsOf, List.length_mapIdx],
      fun id triple d htriple hd => ?_⟩
    rw [htriples, recordsOf, List.getElem?_mapIdx, hd] at htriple
    obtain rfl := Option.some.inj htriple
    have hmem := List.mem_of_getElem? hd
    exact record_truthful (hrecorded.made d hmem) (hwithin d hmem) id

/-- A run records its host calls completely and truthfully exactly if there was an id for each
and no `read_lines` went over the limit on collections after its file was read. -/
theorem host_calls_recorded_iff {st : HostCalls A σ} (h : Reach (auditedRuns setup) anyStep st) :
    Complete setup st ↔
      st.dispatched.length ≤ maxU64 ∧ ∀ d ∈ st.dispatched, ¬ OverLimit setup d.call d.before :=
  complete_iff (recorded_reach h)

namespace HostCallExample

/-- A host with one file, of these bytes. -/
def adapters (bytes : List UInt8) : Adapters Unit Unit Unit where
  openFile _ _ _ s := (.ok (), s)
  readToEnd _ _ s := (.ok bytes, s)
  writeAll _ _ s := (.ok (), s)
  createDir _ _ s := (.ok (), s)
  metadata _ _ _ s := (.error .directoryReadFailed, s)
  list _ _ _ s := (.ok [], s)
  remove _ _ _ s := (.ok (), s)
  rename _ _ _ _ _ s := (.ok (), s)
  destination _ _ := none
  replaces _ _ _ _ _ := false

theorem mount_m : isMountName "m" = true := by decide

/-- The mount `m`, with `Read` granted. -/
def root : FilesystemRoot Unit := ⟨⟨"m", mount_m⟩, ⟨1, Nat.one_pos, NonZeroU128.one_fits⟩, {.read}, .denyAll, ()⟩

def fileSetup (bytes : List UInt8) : HostSetup Unit Unit Unit where
  adapters := adapters bytes
  formatFloat _ := ""
  filesystem := some
    { roots := [root], legacy := none, nonempty := by simp, distinct := by simp, fits := by simp }
  policy := {}
  trackResult value := pure value

/-- Collections may have one element. -/
def start : HostCalls Unit Unit where
  ledger := .fresh { tenOfEach with maxCollectionElements := 1 } (fun _ => false) none
  recorder := ({} : Recorder).setAuditQueue 0 0
  nextHostOperationId := 0
  host := ()
  drained := []
  dispatched := []

/-- `read_lines("@m/f")`. -/
def call : FsBuiltinCall := ⟨.readLines, [.strConstant "@m/f"], 1, 1⟩

def afterRead (bytes : List UInt8) : HostCalls Unit Unit :=
  (start.applyPureCoreBuiltin (fileSetup bytes) [] .readLines call.args 1).2

theorem reach_afterRead (bytes : List UInt8) :
    Reach (auditedRuns (fileSetup bytes)) anyStep (afterRead bytes) := by
  have hinit : (auditedRuns (fileSetup bytes)).init start :=
    ⟨rfl, rfl, rfl, ⟨0, 0, rfl⟩, _, _, _, rfl⟩
  exact (Reach.init hinit).step (a := .hostCall [] .readLines call.args 1) trivial rfl

/-- The dispatch of a call. -/
def dispatchedCall (bytes : List UInt8) : DispatchedCall Unit Unit :=
  ⟨call, (), dispatchFs (adapters bytes) (fun _ => "") (fileSetup bytes).filesystem call ()⟩

theorem dispatched_twoLines : (afterRead [97, 10, 98]).dispatched = [dispatchedCall [97, 10, 98]] :=
  rfl

theorem dispatched_oneLine : (afterRead [97]).dispatched = [dispatchedCall [97]] := rfl

/-- The call is over the limit if the file has two lines. -/
theorem overLimit_call (bytes : List UInt8) :
    OverLimit (fileSetup bytes) call () ↔ 1 < (lines (fromUtf8Lossy none bytes)).length := by
  have hparse : ∃ target, FilesystemTarget.parse "@m/f" = .ok target ∧ target.mount.name = "m" :=
    ⟨_, rfl, rfl⟩
  obtain ⟨⟨⟨name, valid⟩, path⟩, htarget, rfl⟩ := hparse
  constructor
  · rintro ⟨-, -, -, -, file, host, bytes', -, -, hbytes, hlt⟩
    cases hbytes
    exact hlt
  · intro hlt
    exact ⟨rfl, rfl, root, _, (), (), bytes, ⟨_, 0, "@m/f", rfl, rfl,
      congrArg (Except.map some) htarget, rfl, Finset.mem_singleton_self _⟩, rfl, rfl, hlt⟩

end HostCallExample

open HostCallExample

/-- `read_lines` of two lines, where a collection may have one element: the file was read, and the
record says that the call was denied. -/
theorem read_lines_recorded_denied :
    ¬ ∀ st : HostCalls Unit Unit, Reach (auditedRuns (fileSetup [97, 10, 98])) anyStep st →
      Complete (fileSetup [97, 10, 98]) st := by
  intro h
  have hreach := reach_afterRead [97, 10, 98]
  obtain ⟨-, hwithin⟩ := (complete_iff (recorded_reach hreach)).mp (h _ hreach)
  rw [dispatched_twoLines] at hwithin
  exact hwithin _ List.mem_cons_self ((overLimit_call _).mpr (by decide))

/-- One line is within the limit. -/
theorem read_lines_recorded : Complete (fileSetup [97]) (afterRead [97]) := by
  refine (host_calls_recorded_iff (reach_afterRead [97])).mpr ?_
  rw [dispatched_oneLine]
  refine ⟨by decide, fun d hd hover => ?_⟩
  rw [List.mem_singleton.mp hd] at hover
  exact absurd ((overLimit_call [97]).mp hover) (by decide)

end Tsumugi.Audit
