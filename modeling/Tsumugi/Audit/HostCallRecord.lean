import Tsumugi.Audit.HostCall
import Tsumugi.Audit.Recorder
import Tsumugi.Budget.Conservation
import Tsumugi.Capability.Authority
import Tsumugi.Lib.Transition

/-!
# The record of the host calls (`builtin.rs`, `eval.rs`)

A run of the tree backend with an audit sink: host calls, other charges, yields and drains in
any order. Each host call that is dispatched pushes three events with the next operation id.

Results:
1. `refused_dispatch`, `permitted_dispatch`: a call that is not permitted reaches no adapter; a
   permitted one answers a value or a host error, unless its lines are over the limit.
2. `record_truthful`, `record_untruthful`: the record of a call is true, unless its lines are over
   the limit; then it says that a permitted call was denied.
-/

namespace Tsumugi.Audit

open Budget Capability Transition Word

variable {A F σ : Type}

/-! ## The evaluator -/

/-- What does not change in a run: the adapters, the grant and the redaction policy.
`trackResult` is the charge of a new value. -/
structure HostSetup (A F σ : Type) where
  adapters : Adapters A F σ
  formatFloat : UInt64 → String
  filesystem : Option (FilesystemCapability A)
  policy : RedactionPolicy
  trackResult : Value → Charge Value

/-- A call that reached the dispatch, with the host before it. -/
structure DispatchedCall (A σ : Type) where
  call : FsBuiltinCall
  before : σ
  dispatch : FsDispatch A σ

/-- What the host calls of the evaluator work on. The events that were drained and the calls
that were dispatched are kept in two lists that nothing reads. -/
structure HostCalls (A σ : Type) where
  ledger : BudgetLedger
  recorder : Recorder
  nextHostOperationId : Nat
  host : σ
  drained : List AuditEvent
  dispatched : List (DispatchedCall A σ)

/-- A note of the ledger reaches the accumulator. -/
def Recorder.noteBudget (r : Recorder) : Note → Recorder
  | .charge resource reason delta usageAfter =>
    { r with accumulator := r.accumulator.noteCharge resource reason delta usageAfter }
  | .release resource reason delta usageAfter peakAfter =>
    { r with accumulator := r.accumulator.noteRelease resource reason delta usageAfter peakAfter }
  | .hostCall _ => r

namespace HostCalls

/-- A charge, with its notes. -/
def charge {α : Type} (m : Charge α) (st : HostCalls A σ) : Except ControlStop α × HostCalls A σ :=
  let (result, ledger) := m.run { st.ledger with noted := [] }
  (result, { st with ledger, recorder := ledger.noted.foldl Recorder.noteBudget st.recorder })

/-- `alloc_host_call_operation_id`: fails when the counter is used up. -/
def allocHostCallOperationId (line : Nat) (st : HostCalls A σ) :
    Except TsumugiError Nat × HostCalls A σ :=
  match checkedAdd st.nextHostOperationId 1 with
  | some next => (.ok st.nextHostOperationId, { st with nextHostOperationId := next })
  | none => (.error (.internal line "host-call operation_id を割り当てできません"), st)

variable (setup : HostSetup A F σ)

/-- The dispatch of a host call and the push of its events. -/
def dispatchCall (builtin : FsBuiltin) (args : List Value) (line : Nat) (st : HostCalls A σ) :
    Except TsumugiError Value × HostCalls A σ :=
  let call : FsBuiltinCall := ⟨builtin, args, st.ledger.config.maxCollectionElements, line⟩
  let dispatched := dispatchFs setup.adapters setup.formatFloat setup.filesystem call st.host
  let st := { st with
    host := dispatched.host
    dispatched := st.dispatched ++ [DispatchedCall.mk call st.host dispatched] }
  match st.allocHostCallOperationId line with
  | (.error error, st) => (.error error, st)
  | (.ok id, st) =>
    let triple := recordHostCall setup.formatFloat setup.policy id builtin args dispatched
    (dispatched.outcome, { st with recorder := st.recorder.pushAuditEvents triple.events })

/-- `apply_pure_core_builtin` for a host call: the charge of the request, the dispatch, the
charge of the response and of the result. -/
def applyPureCoreBuiltin (callStack : List TraceFrame) (builtin : FsBuiltin) (args : List Value)
    (line : Nat) (st : HostCalls A σ) : Except TsumugiError Value × HostCalls A σ :=
  let stopped := fun (stop : ControlStop) => (stop.toError line).withTrace callStack
  match st.charge (Charge.chargeHostCallRequest
      (hostCallRequestBytes setup.formatFloat builtin args) .run) with
  | (.error stop, st) => (.error (stopped stop), st)
  | (.ok (), st) =>
    match st.dispatchCall setup builtin args line with
    | (.error error, st) => (.error error, st)
    | (.ok value, st) =>
      match st.charge (Charge.chargeHostResponseBytes (hostCallResponseBytes builtin value) .run) with
      | (.error stop, st) => (.error (stopped stop), st)
      | (.ok (), st) =>
        match st.charge (setup.trackResult value) with
        | (.error stop, st) => (.error (stopped stop), st)
        | (.ok tracked, st) => (.ok tracked, st)

end HostCalls

/-! ## Runs -/

/-- An action of a run. -/
inductive AuditedAction (σ : Type)
  | hostCall (callStack : List TraceFrame) (builtin : FsBuiltin) (args : List Value) (line : Nat)
  | charge (call : ChargeCall) (phase : ExecutionPhase)
  | elsewhere (host : σ)
  | resume (usage : BudgetUsage)
  | yield (reason : AuditYieldReason) (usage : BudgetUsage)
  | backpressureYield (usage : BudgetUsage)
  | backpressureResume (usage : BudgetUsage)
  | acknowledge (event : AuditEvent)
  | drain

/-- The yield of a slice: charges first, then Yielded if a poll index is left. -/
def Recorder.yieldSlice (r : Recorder) (reason : AuditYieldReason) (usage : BudgetUsage) :
    Recorder :=
  let r := r.flushChargesIntoAuditEvents
  match r.allocPollIndex with
  | some (pollIndex, r) => r.recordYield reason pollIndex usage
  | none => r

namespace HostCalls

variable (setup : HostSetup A F σ)

/-- Take the buffer, then the accumulator; the charges are put on the queue. -/
def drain (st : HostCalls A σ) : HostCalls A σ :=
  let (events, r) := st.recorder.drainAuditEvents
  let (charges, r) := r.drainBudgetCharges
  { st with
    recorder := charges.foldl Recorder.auditQueueAdmit r
    drained := st.drained ++ events ++ charges }

/-- A step of a run; what an action raises is handled elsewhere. -/
def step (st : HostCalls A σ) : AuditedAction σ → Option (HostCalls A σ)
  | .hostCall callStack builtin args line =>
    if isHostCallBuiltin builtin then
      some (st.applyPureCoreBuiltin setup callStack builtin args line).2
    else none
  | .charge call phase => some (st.charge (call.run phase)).2
  | .elsewhere host => some { st with host }
  | .resume usage => some { st with recorder := st.recorder.recordResume usage }
  | .yield reason usage => some { st with recorder := st.recorder.yieldSlice reason usage }
  | .backpressureYield usage =>
    some { st with recorder := (st.recorder.recordBackpressureYield usage).2 }
  | .backpressureResume usage =>
    some { st with recorder := st.recorder.recordBackpressureResume usage }
  | .acknowledge event => some { st with recorder := st.recorder.auditQueueRelease event }
  | .drain => some st.drain

end HostCalls

/-- Audited runs begin as `reset_budget` and `set_audit_queue` leave the evaluator. -/
def auditedRuns (setup : HostSetup A F σ) : System (HostCalls A σ) (AuditedAction σ) where
  init st := st.nextHostOperationId = 0 ∧ st.drained = [] ∧ st.dispatched = [] ∧
    (∃ limit overhead, st.recorder = ({} : Recorder).setAuditQueue limit overhead) ∧
    ∃ config cancellation clock, st.ledger = .fresh config cancellation clock
  step := HostCalls.step setup

/-! ## The law and its condition -/

/-- The open request of a host call. -/
def openRequest : FsBuiltin → OpenFileRequest
  | .writeFile => .upsert .truncate
  | .appendFile => .upsert .append
  | _ => .readExisting

/-- The arguments are right, the path is routed to a target under a root, and the root grants
every operation that the call requires. -/
def Permitted (filesystem : Option (FilesystemCapability A)) (call : FsBuiltinCall) : Prop :=
  call.args.length = call.builtin.arity ∧ ∃ root target, ∀ op ∈ (openRequest call.builtin).matrix,
    Routed filesystem call.args 0 op root target

/-- A call of an adapter that writes nothing. -/
def readsOnly : FsCall A → Bool
  | .openFile _ _ .readExisting | .readToEnd .. | .metadata .. | .list .. => true
  | _ => false

/-- The three events of a call have its id and say the truth about it. -/
structure Truthful (filesystem : Option (FilesystemCapability A)) (id : Nat)
    (triple : HostCallTriple) (d : DispatchedCall A σ) : Prop where
  started : ∃ request requestBytes,
    triple.started = .hostCallStarted id id d.call.builtin.name request requestBytes
  decision : ∃ resource decision ruleId,
    triple.decision = .capabilityDecision id (some id) "filesystem" d.call.builtin.name resource
      decision ruleId ∧
    (decision = .allow ↔ Permitted filesystem d.call) ∧
    (decision = .deny → d.dispatch.calls = [])
  finished : ∃ outcome response responseBytes errorCode effectStatus,
    triple.finished = .hostCallFinished id id outcome response responseBytes errorCode
      effectStatus ∧
    (effectStatus = .none → ∀ r ∈ d.dispatch.calls, readsOnly r.call)

/-- An event of a host call. -/
def AuditEvent.isHostCall : AuditEvent → Bool
  | .hostCallStarted .. | .capabilityDecision .. | .hostCallFinished .. => true
  | _ => false

/-- A part of the stream: the three events of a host call, or another event. -/
inductive Block
  | call (triple : HostCallTriple)
  | other (event : AuditEvent)

namespace Block

def events : Block → List AuditEvent
  | call triple => triple.events
  | other event => [event]

def triple? : Block → Option HostCallTriple
  | call triple => some triple
  | other _ => none

/-- A block is what it says. -/
def Proper : Block → Prop
  | call triple => ∀ e ∈ triple.events, e.isHostCall
  | other event => event.isHostCall = false

end Block

/-- The events that were recorded so far: drained, and in the buffer. -/
def HostCalls.stream (st : HostCalls A σ) : List AuditEvent := st.drained ++ st.recorder.auditEvents

/-- The stream is made of blocks; those of the host calls are one for each dispatched call, in
order, with ids that count up from 0, and true. -/
def Complete (setup : HostSetup A F σ) (st : HostCalls A σ) : Prop :=
  ∃ blocks : List Block, blocks.flatMap Block.events = st.stream ∧ (∀ b ∈ blocks, b.Proper) ∧
    (blocks.filterMap Block.triple?).length = st.dispatched.length ∧
    ∀ (id : Nat) (triple : HostCallTriple) (d : DispatchedCall A σ),
      (blocks.filterMap Block.triple?)[id]? = some triple → st.dispatched[id]? = some d →
      Truthful setup.filesystem id triple d

/-- A permitted `read_lines` whose file can be read and has more lines than a collection may
have elements. -/
def OverLimit (setup : HostSetup A F σ) (call : FsBuiltinCall) (host : σ) : Prop :=
  call.builtin = .readLines ∧ call.args.length = 1 ∧
    ∃ root target file host' bytes, Routed setup.filesystem call.args 0 .read root target ∧
      setup.adapters.openFile root.adapter target.path .readExisting host = (.ok file, host') ∧
      (setup.adapters.readToEnd file none host').1 = .ok bytes ∧
      call.maxCollection < (lines (fromUtf8Lossy none bytes)).length

namespace HostCallLemmas

open AuthorityLemmas

/-! ## The dispatch of a host call -/

variable (adapters : Adapters A F σ) (formatFloat : UInt64 → String)

/-- What a host call does with the file it has opened. -/
def useFile (call : FsBuiltinCall) (file : FsFile A F) : FsM A σ Value :=
  let name := call.builtin.name
  match call.builtin with
  | .readFile => do
    let bytes ← fsReadToEnd adapters name file call.line
    pure (.strConstant (String.ofList (fromUtf8Lossy none bytes)))
  | .readLines => do
    let bytes ← fsReadToEnd adapters name file call.line
    let contentLines ← collectChecked call.maxCollection call.line 0
      (lines (fromUtf8Lossy none bytes))
    pure (.list 0 (contentLines.map fun l => .strConstant (String.ofList l)))
  | _ => do
    let content := fsContentArg formatFloat (call.args.getD 1 .null)
    fsWriteAll adapters name file content call.line
    pure (.bool true)

/-- A host call checks its arguments, opens its file and uses it. -/
theorem dispatch_opens (cap : FilesystemCapability A) {call : FsBuiltinCall}
    (hcall : isHostCallBuiltin call.builtin) :
    dispatchFilesystemCapability adapters formatFloat cap call =
      (liftM (checkArity call.builtin.name call.args call.builtin.arity call.line) :
        FsM A σ Unit) >>= fun _ =>
      (liftM (requireStr call.args 0 call.builtin.name call.line) : FsM A σ String) >>= fun path =>
      fsOpen adapters call.builtin.name cap path (openRequest call.builtin) call.line >>=
        useFile adapters formatFloat call := by
  obtain ⟨builtin, args, maxCollection, line⟩ := call
  cases builtin <;> first | rfl | cases hcall

variable {adapters} {formatFloat}

theorem check_ok {α β : Type} (a : α) (f : α → FsM A σ β) :
    (liftM (.ok a : Except TsumugiError α) : FsM A σ α) >>= f = f a := rfl

theorem check_error {α β : Type} (e : TsumugiError) (f : α → FsM A σ β) (st : FsRun A σ) :
    ((liftM (.error e : Except TsumugiError α) : FsM A σ α) >>= f) st = (.error e, st) := rfl

/-- The root and the target that a path is routed to, if they grant a request. -/
def Opens (cap : FilesystemCapability A) (path : String) (request : OpenFileRequest)
    (root : FilesystemRoot A) (target : FilesystemTarget) : Prop :=
  cap.target path = .ok (some target) ∧ cap.root target.mount = some root ∧
    ∀ op ∈ request.matrix, op ∈ root.operations

/-- The state of a dispatch after an adapter call under a label. -/
def afterOpen (st : FsRun A σ) (label : Option String) (call : FsCall A) (host : σ) : FsRun A σ :=
  ⟨host, label, st.calls ++ [⟨st.host, call, host⟩]⟩

/-- The open of a file that is granted. -/
theorem fsOpen_granted {cap : FilesystemCapability A} {path : String} {request : OpenFileRequest}
    {root : FilesystemRoot A} {target : FilesystemTarget} (h : Opens cap path request root target)
    (name : String) (line : Nat) (st : FsRun A σ) :
    fsOpen adapters name cap path request line st =
      let opened := adapters.openFile root.adapter target.path request st.host
      let st' := afterOpen st (some (canonicalResourceLabel target))
        (.openFile root.adapter target.path request) opened.2
      match opened.1 with
      | .ok file => (.ok ⟨file, root.adapter, target.path⟩, st')
      | .error _ => (.error (fsHostError name line), st') := by
  obtain ⟨ht, hr, hops⟩ := h
  have hop : request.operation ∈ root.operations := by
    cases request <;> exact hops _ (by simp [OpenFileRequest.matrix, OpenFileRequest.operation])
  have hcreate : ¬ (request.isUpsert = true ∧ .create ∉ root.operations) := by
    rintro ⟨hupsert, hnot⟩
    cases request with
    | upsert mode => exact hnot (hops _ (by simp [OpenFileRequest.matrix]))
    | readExisting | writeExisting | createNew => cases hupsert
  unfold fsOpen
  rw [bind_apply, fsRoute_routed ht hr hop]
  simp only [if_neg hcreate]
  rw [bind_apply]
  rcases hopened : adapters.openFile root.adapter target.path request st.host with ⟨_ | file, host⟩
    <;> simp only [perform, afterOpen, hopened] <;> rfl

/-- The errors of a call that was refused before an adapter was called. -/
def IsRefusal (e : TsumugiError) : Prop :=
  e.kind = some .argument ∨ e.kind = some .builtinType ∨ e.kind = some .sandbox

variable (adapters) in
/-- The open of a file that is not granted. -/
theorem fsOpen_refused {cap : FilesystemCapability A} {path : String} {request : OpenFileRequest}
    (h : ¬ ∃ root target, Opens cap path request root target) (name : String) (line : Nat)
    (st : FsRun A σ) :
    ∃ e, IsRefusal e ∧ (fsOpen adapters name cap path request line st).1 = .error e ∧
      (fsOpen adapters name cap path request line st).2.calls = st.calls := by
  unfold fsOpen
  rw [bind_apply]
  rcases fsRoute_cases (σ := σ) cap path request.operation line with
    ⟨e, he, hrun⟩ | ⟨root, target, ht, hr, hop⟩
  · rw [hrun]
    refine ⟨e, ?_, rfl, rfl⟩
    rcases he with rfl | ⟨rfl, -⟩
    · exact .inr (.inr rfl)
    · exact .inl rfl
  · rw [fsRoute_routed ht hr hop]
    have hcreate : request.isUpsert = true ∧ .create ∉ root.operations := by
      by_contra hnot
      refine h ⟨root, target, ht, hr, fun op hmem => ?_⟩
      cases request with
      | upsert mode =>
        rcases List.mem_pair.mp hmem with rfl | rfl
        · exact hop
        · exact not_not.mp fun hno => hnot ⟨rfl, hno⟩
      | readExisting | writeExisting | createNew =>
        rw [List.mem_singleton.mp hmem]
        exact hop
    simp only [if_pos hcreate]
    exact ⟨_, .inr (.inr rfl), rfl, rfl⟩

theorem checkArity_cases (name : String) (args : List Value) (expected line : Nat) :
    args.length = expected ∧ checkArity name args expected line = .ok () ∨
      args.length ≠ expected ∧ ∃ e, IsRefusal e ∧ checkArity name args expected line = .error e := by
  unfold checkArity
  by_cases h : args.length = expected
  · exact .inl ⟨h, if_neg (not_not.mpr h)⟩
  · exact .inr ⟨h, _, .inl rfl, if_pos h⟩

theorem requireStr_cases (args : List Value) (index : Nat) (name : String) (line : Nat) :
    (∃ id path, args[index]? = some (.str id path) ∧ requireStr args index name line = .ok path) ∨
      (∀ id path, args[index]? ≠ some (.str id path)) ∧
        ∃ e, IsRefusal e ∧ requireStr args index name line = .error e := by
  cases h : requireStr args index name line with
  | ok path =>
    obtain ⟨id, hid⟩ := requireStr_ok h
    exact .inl ⟨id, path, hid, rfl⟩
  | error e =>
    refine .inr ⟨fun id path => requireStr_error h, e, ?_, rfl⟩
    unfold requireStr at h
    split at h <;> cases h
    exact .inr (.inl rfl)

theorem collectChecked_within {α : Type} (limit line : Nat) (items : List α) (size : Nat)
    (h : size + items.length ≤ limit) : collectChecked limit line size items = .ok items := by
  induction items generalizing size with
  | nil => rfl
  | cons a rest ih =>
    rw [List.length_cons] at h
    have hsize : checkCollectionSize (size + 1) limit line = .ok () := if_neg (by omega)
    simp only [collectChecked, hsize, ih (size + 1) (by omega)]
    rfl

theorem collectChecked_over {α : Type} (limit line : Nat) (items : List α) (size : Nat)
    (hsize : size ≤ limit) (h : limit < size + items.length) :
    ∃ requested, collectChecked limit line size items =
      .error (.collectionLimit line requested limit) := by
  induction items generalizing size with
  | nil =>
    rw [List.length_nil] at h
    omega
  | cons a rest ih =>
    rw [List.length_cons] at h
    by_cases hnext : limit < size + 1
    · have hcheck : checkCollectionSize (size + 1) limit line =
          .error (.collectionLimit line (size + 1) limit) := if_pos hnext
      exact ⟨size + 1, by simp only [collectChecked, hcheck]; rfl⟩
    · have hcheck : checkCollectionSize (size + 1) limit line = .ok () := if_neg hnext
      obtain ⟨requested, hrest⟩ := ih (size + 1) (by omega) (by omega)
      exact ⟨requested, by simp only [collectChecked, hcheck, hrest]; rfl⟩

/-- How a permitted call ends, and with which further calls. -/
structure Used (builtin : FsBuiltin) (exceeds : Prop) (st : FsRun A σ)
    (r : Except TsumugiError Value × FsRun A σ) : Prop where
  calls : ∃ more, r.2.calls = st.calls ++ more ∧
    (isWriteBuiltin builtin = false → ∀ c ∈ more, readsOnly c.call)
  within : ¬ exceeds → (∃ value, r.1 = .ok value) ∨ ∃ e, r.1 = .error e ∧ e.kind = some .host
  exceeded : exceeds → ∃ e, r.1 = .error e ∧ e.kind = some .collectionLimit

/-- Whether a file has too many lines for the call. -/
def TooManyLines (adapters : Adapters A F σ) (call : FsBuiltinCall) (file : F) (host : σ) : Prop :=
  call.builtin = .readLines ∧ ∃ bytes, (adapters.readToEnd file none host).1 = .ok bytes ∧
    call.maxCollection < (lines (fromUtf8Lossy none bytes)).length

theorem fsReadToEnd_apply (name : String) (file : FsFile A F) (line : Nat) (st : FsRun A σ) :
    fsReadToEnd adapters name file line st =
      let read := adapters.readToEnd file.file none st.host
      (read.1.mapError fun _ => fsHostError name line, ⟨read.2, st.label,
        st.calls ++ [⟨st.host, .readToEnd file.adapter file.path none, read.2⟩]⟩) := by
  rcases hread : adapters.readToEnd file.file none st.host with ⟨_ | bytes, host⟩ <;>
    simp only [fsReadToEnd, bind_apply, perform, hread] <;> rfl

theorem fsWriteAll_apply (name : String) (file : FsFile A F) (content : String) (line : Nat)
    (st : FsRun A σ) :
    fsWriteAll adapters name file content line st =
      let bytes := content.toUTF8.data.toList
      let written := adapters.writeAll file.file bytes st.host
      (written.1.mapError fun _ => fsHostError name line, ⟨written.2, st.label,
        st.calls ++ [⟨st.host, .writeAll file.adapter file.path bytes, written.2⟩]⟩) := by
  rcases hwrite : adapters.writeAll file.file content.toUTF8.data.toList st.host with ⟨_ | _, host⟩
    <;> simp only [fsWriteAll, bind_apply, perform, hwrite] <;> rfl

variable (adapters) (formatFloat) in
theorem used_useFile {call : FsBuiltinCall} (hcall : isHostCallBuiltin call.builtin)
    (file : FsFile A F) (st : FsRun A σ) :
    Used call.builtin (TooManyLines adapters call file.file st.host) st
      (useFile adapters formatFloat call file st) := by
  obtain ⟨builtin, args, maxCollection, line⟩ := call
  have hreads : ∀ host : σ, ∀ c ∈ [CallRecord.mk st.host
      (.readToEnd file.adapter file.path none) host], readsOnly c.call := fun _ =>
    List.forall_mem_singleton.mpr rfl
  cases builtin with
  | readFile =>
    simp only [useFile, bind_apply, fsReadToEnd_apply]
    rcases hbytes : adapters.readToEnd file.file none st.host with ⟨_ | bytes, host⟩
    · exact ⟨⟨_, rfl, fun _ => hreads host⟩, fun _ => .inr ⟨_, rfl, rfl⟩, fun h => by cases h.1⟩
    · exact ⟨⟨_, rfl, fun _ => hreads host⟩, fun _ => .inl ⟨_, rfl⟩, fun h => by cases h.1⟩
  | readLines =>
    simp only [useFile, bind_apply, fsReadToEnd_apply]
    rcases hbytes : adapters.readToEnd file.file none st.host with ⟨_ | bytes, host⟩
    · refine ⟨⟨_, rfl, fun _ => hreads host⟩, fun _ => .inr ⟨_, rfl, rfl⟩, ?_⟩
      rintro ⟨-, bytes, hok, -⟩
      rw [hbytes] at hok
      cases hok
    · have hover : TooManyLines adapters ⟨.readLines, args, maxCollection, line⟩ file.file st.host ↔
          maxCollection < (lines (fromUtf8Lossy none bytes)).length := by
        simp [TooManyLines, hbytes]
      rw [hover]
      by_cases hle : 0 + (lines (fromUtf8Lossy none bytes)).length ≤ maxCollection
      · have hlines := collectChecked_within maxCollection line _ 0 hle
        simp only [Except.mapError, liftM, monadLift, MonadLift.monadLift, hlines]
        exact ⟨⟨_, rfl, fun _ => hreads host⟩, fun _ => .inl ⟨_, rfl⟩, fun h => by omega⟩
      · obtain ⟨requested, hlines⟩ := collectChecked_over maxCollection line
          (lines (fromUtf8Lossy none bytes)) 0 (Nat.zero_le _) (by omega)
        simp only [Except.mapError, liftM, monadLift, MonadLift.monadLift, hlines]
        exact ⟨⟨_, rfl, fun _ => hreads host⟩, fun h => by omega, fun _ => ⟨_, rfl, rfl⟩⟩
  | writeFile | appendFile =>
    simp only [useFile, bind_apply, fsWriteAll_apply]
    rcases adapters.writeAll file.file
      (fsContentArg formatFloat (args.getD 1 .null)).toUTF8.data.toList st.host with ⟨_ | _, host⟩
    · exact ⟨⟨_, rfl, fun h => by cases h⟩, fun _ => .inr ⟨_, rfl, rfl⟩, fun h => by cases h.1⟩
    · exact ⟨⟨_, rfl, fun h => by cases h⟩, fun _ => .inl ⟨_, rfl⟩, fun h => by cases h.1⟩
  | _ => cases hcall

theorem permitted_iff {filesystem : Option (FilesystemCapability A)} {call : FsBuiltinCall} :
    Permitted filesystem call ↔ call.args.length = call.builtin.arity ∧
      ∃ cap id path root target, filesystem = some cap ∧ call.args[0]? = some (.str id path) ∧
        Opens cap path (openRequest call.builtin) root target := by
  have hsome : ∃ op, op ∈ (openRequest call.builtin).matrix := by
    unfold openRequest
    split <;> exact ⟨_, List.mem_cons_self⟩
  constructor
  · rintro ⟨hlength, root, target, hrouted⟩
    obtain ⟨op, hop⟩ := hsome
    obtain ⟨cap, id, path, hcap, harg, ht, hr, -⟩ := hrouted op hop
    exact ⟨hlength, cap, id, path, root, target, hcap, harg, ht, hr,
      fun op hop => (hrouted op hop).granted⟩
  · rintro ⟨hlength, cap, id, path, root, target, hcap, harg, ht, hr, hops⟩
    exact ⟨hlength, root, target, fun op hop => ⟨cap, id, path, hcap, harg, ht, hr, hops op hop⟩⟩

/-- Once the file of a call is known, the call is over the limit if the file is. -/
theorem overLimit_iff {setup : HostSetup A F σ} {call : FsBuiltinCall} {cap : FilesystemCapability A}
    {id : Nat} {path : String} {root : FilesystemRoot A} {target : FilesystemTarget}
    (hcap : setup.filesystem = some cap) (hlength : call.args.length = call.builtin.arity)
    (harg : call.args[0]? = some (.str id path))
    (hopens : Opens cap path (openRequest call.builtin) root target) (host : σ) :
    OverLimit setup call host ↔ ∃ file host',
      setup.adapters.openFile root.adapter target.path (openRequest call.builtin) host =
        (.ok file, host') ∧ TooManyLines setup.adapters call file host' := by
  constructor
  · rintro ⟨hlines, -, root', target', file, host', bytes, hrouted, hopen, hbytes, hlt⟩
    have hrequest : openRequest call.builtin = .readExisting := by rw [hlines]; rfl
    rw [hrequest] at hopens ⊢
    obtain ⟨rfl, rfl⟩ := hrouted.unique
      ⟨cap, id, path, hcap, harg, hopens.1, hopens.2.1, hopens.2.2 .read List.mem_cons_self⟩
    exact ⟨file, host', hopen, hlines, bytes, hbytes, hlt⟩
  · rintro ⟨file, host', hopen, hlines, bytes, hbytes, hlt⟩
    have hrequest : openRequest call.builtin = .readExisting := by rw [hlines]; rfl
    rw [hrequest] at hopens hopen
    rw [hlines] at hlength
    exact ⟨hlines, hlength, root, target, file, host', bytes,
      ⟨cap, id, path, hcap, harg, hopens.1, hopens.2.1, hopens.2.2 .read List.mem_cons_self⟩,
      hopen, hbytes, hlt⟩

end HostCallLemmas

open AuthorityLemmas HostCallLemmas

variable (setup : HostSetup A F σ)

/-- A call that is not permitted is refused before any adapter is called. -/
theorem refused_dispatch {call : FsBuiltinCall} (hcall : isHostCallBuiltin call.builtin)
    (hnot : ¬ Permitted setup.filesystem call) (host : σ) :
    ∃ e, IsRefusal e ∧
      (dispatchFs setup.adapters setup.formatFloat setup.filesystem call host).outcome = .error e ∧
      (dispatchFs setup.adapters setup.formatFloat setup.filesystem call host).calls = [] := by
  unfold dispatchFs
  cases hfs : setup.filesystem with
  | none => exact ⟨_, .inr (.inr rfl), rfl, rfl⟩
  | some cap =>
    rw [permitted_iff] at hnot
    simp only [dispatch_opens setup.adapters setup.formatFloat cap hcall]
    obtain ⟨hlength, hok⟩ | ⟨-, e, he, herr⟩ :=
      checkArity_cases call.builtin.name call.args call.builtin.arity call.line
    · rw [hok, check_ok]
      obtain ⟨id, path, harg, hpath⟩ | ⟨-, e, he, herr⟩ :=
        requireStr_cases call.args 0 call.builtin.name call.line
      · have hclosed : ¬ ∃ root target, Opens cap path (openRequest call.builtin) root target :=
          fun ⟨root, target, hopens⟩ =>
            hnot ⟨hlength, cap, id, path, root, target, hfs, harg, hopens⟩
        obtain ⟨e, he, hresult, hcalls⟩ := fsOpen_refused setup.adapters hclosed
          call.builtin.name call.line ⟨host, none, []⟩
        rw [hpath, check_ok, bind_apply]
        generalize fsOpen setup.adapters call.builtin.name cap path (openRequest call.builtin)
          call.line ⟨host, none, []⟩ = r at hresult hcalls ⊢
        obtain ⟨result, st⟩ := r
        obtain rfl : result = .error e := hresult
        exact ⟨e, he, rfl, hcalls⟩
      · rw [herr, check_error]
        exact ⟨e, he, rfl, rfl⟩
    · rw [herr, check_error]
      exact ⟨e, he, rfl, rfl⟩

/-- A permitted call answers a value or a host error, or its lines are over the limit; only a
call that writes makes an adapter call that writes. -/
theorem permitted_dispatch {call : FsBuiltinCall} (hcall : isHostCallBuiltin call.builtin)
    (h : Permitted setup.filesystem call) (host : σ) :
    ∃ st, Used call.builtin (OverLimit setup call host) ⟨host, none, []⟩ st ∧
      st.1 = (dispatchFs setup.adapters setup.formatFloat setup.filesystem call host).outcome ∧
      st.2.calls = (dispatchFs setup.adapters setup.formatFloat setup.filesystem call host).calls := by
  obtain ⟨hlength, cap, id, path, root, target, hcap, harg, hopens⟩ := permitted_iff.mp h
  rw [overLimit_iff hcap hlength harg hopens, hcap]
  refine ⟨dispatchFilesystemCapability setup.adapters setup.formatFloat cap call ⟨host, none, []⟩,
    ?_, rfl, rfl⟩
  have harity : checkArity call.builtin.name call.args call.builtin.arity call.line = .ok () :=
    if_neg (not_not.mpr hlength)
  have hstr : requireStr call.args 0 call.builtin.name call.line = .ok path := by
    simp only [requireStr, List.getD_eq_getElem?_getD, harg, Option.getD_some]
  have hopenReads : ∀ host' : σ, isWriteBuiltin call.builtin = false →
      ∀ c ∈ [CallRecord.mk host (.openFile root.adapter target.path (openRequest call.builtin)) host'],
        readsOnly c.call := by
    intro host' hread
    have hrequest : openRequest call.builtin = .readExisting := by
      revert hread
      cases call.builtin <;> intro hread <;> first | rfl | cases hread
    rw [hrequest]
    exact List.forall_mem_singleton.mpr rfl
  rw [dispatch_opens _ _ _ hcall, harity, check_ok, hstr, check_ok, bind_apply,
    fsOpen_granted hopens]
  rcases hopened : setup.adapters.openFile root.adapter target.path (openRequest call.builtin) host
    with ⟨_ | file, host'⟩
  · refine ⟨⟨_, rfl, hopenReads host'⟩, fun _ => .inr ⟨_, rfl, rfl⟩, ?_⟩
    rintro ⟨file, host'', hok, -⟩
    cases hok
  · obtain ⟨⟨more, hmore, hreads⟩, hwithin, hover⟩ := used_useFile setup.adapters
      setup.formatFloat hcall ⟨file, root.adapter, target.path⟩
      (afterOpen ⟨host, none, []⟩ (some (canonicalResourceLabel target))
        (.openFile root.adapter target.path (openRequest call.builtin)) host')
    have hsame : (∃ file' host'', (Except.ok (α := F) (ε := AdapterError) file, host') =
        (.ok file', host'') ∧ TooManyLines setup.adapters call file' host'') ↔
        TooManyLines setup.adapters call file host' := by
      simp
    rw [hsame]
    refine ⟨⟨[⟨host, .openFile root.adapter target.path (openRequest call.builtin), host'⟩] ++ more,
      hmore, fun hread c hc => ?_⟩, hwithin, hover⟩
    exact (List.mem_append.mp hc).elim (hopenReads host' hread c) (hreads hread c)

/-! ## The truth of a record -/

/-- The record of a dispatched host call. -/
def DispatchedCall.record (d : DispatchedCall A σ) (id : Nat) : HostCallTriple :=
  recordHostCall setup.formatFloat setup.policy id d.call.builtin d.call.args d.dispatch

/-- The dispatch of a host call. -/
def DispatchedCall.Made (d : DispatchedCall A σ) : Prop :=
  isHostCallBuiltin d.call.builtin ∧
    d.dispatch = dispatchFs setup.adapters setup.formatFloat setup.filesystem d.call d.before

namespace HostCallLemmas

variable {setup}

/-- What the events of a record say. -/
theorem record_truthful_iff {d : DispatchedCall A σ} {id : Nat} :
    Truthful setup.filesystem id (d.record setup id) d ↔
      let verdict := classify d.call.builtin (resultKind d.dispatch.outcome)
      (verdict.decision = .allow ↔ Permitted setup.filesystem d.call) ∧
        (verdict.decision = .deny → d.dispatch.calls = []) ∧
        (verdict.effectStatus = .none → ∀ r ∈ d.dispatch.calls, readsOnly r.call) := by
  constructor
  · rintro ⟨-, ⟨resource, decision, ruleId, hdecision, hallow, hdeny⟩,
      ⟨outcome, response, responseBytes, errorCode, effectStatus, hfinished, hnone⟩⟩
    cases hdecision
    cases hfinished
    exact ⟨hallow, hdeny, hnone⟩
  · rintro ⟨hallow, hdeny, hnone⟩
    exact ⟨⟨_, _, rfl⟩, ⟨_, _, _, rfl, hallow, hdeny⟩, ⟨_, _, _, _, _, rfl, hnone⟩⟩

/-- A record is true if the call was not over the limit. -/
theorem record_truthful {d : DispatchedCall A σ} (hmade : d.Made setup)
    (hwithin : ¬ OverLimit setup d.call d.before) (id : Nat) :
    Truthful setup.filesystem id (d.record setup id) d := by
  obtain ⟨hcall, hdispatch⟩ := hmade
  rw [record_truthful_iff, hdispatch]
  by_cases h : Permitted setup.filesystem d.call
  · obtain ⟨st, ⟨⟨more, hmore, hreads⟩, hends, -⟩, houtcome, hcalls⟩ :=
      permitted_dispatch setup hcall h d.before
    rw [← houtcome, ← hcalls]
    have hallow : ∀ verdict : HostCallVerdict, verdict.decision = .allow →
        (verdict.effectStatus = .none → isWriteBuiltin d.call.builtin = false) →
        (verdict.decision = .allow ↔ Permitted setup.filesystem d.call) ∧
          (verdict.decision = .deny → st.2.calls = []) ∧
          (verdict.effectStatus = .none → ∀ r ∈ st.2.calls, readsOnly r.call) := by
      intro verdict hdecision heffect
      refine ⟨iff_of_true hdecision h, fun hdeny => ?_, fun hnone => ?_⟩
      · rw [hdecision] at hdeny
        cases hdeny
      · rw [hmore]
        exact hreads (heffect hnone)
    obtain ⟨value, hvalue⟩ | ⟨e, he, hkind⟩ := hends hwithin
    · rw [hvalue]
      refine hallow _ rfl fun hnone => ?_
      cases hwrite : isWriteBuiltin d.call.builtin with
      | false => rfl
      | true => simp [classify, resultKind, hwrite] at hnone
    · rw [he, resultKind, hkind]
      refine hallow _ rfl fun hnone => ?_
      cases hwrite : isWriteBuiltin d.call.builtin with
      | false => rfl
      | true => simp [classify, hwrite] at hnone
  · obtain ⟨e, he, houtcome, hcalls⟩ := refused_dispatch setup hcall h d.before
    rw [houtcome, hcalls, resultKind]
    have hdeny : (classify d.call.builtin (.error e.kind)).decision = .deny := by
      rcases he with hkind | hkind | hkind <;> rw [hkind] <;> rfl
    refine ⟨iff_of_false (by rw [hdeny]; exact nofun) h, fun _ => rfl, fun _ r hr => ?_⟩
    cases hr

/-- A call over the limit was permitted, and its record says that it was denied. -/
theorem record_untruthful {d : DispatchedCall A σ} (hmade : d.Made setup)
    (hover : OverLimit setup d.call d.before) (id : Nat) :
    ¬ Truthful setup.filesystem id (d.record setup id) d := by
  obtain ⟨hcall, hdispatch⟩ := hmade
  rw [record_truthful_iff, hdispatch]
  have h : Permitted setup.filesystem d.call := by
    obtain ⟨hlines, hlength, root, target, -, -, -, hrouted, -⟩ := hover
    refine ⟨by rw [hlines]; exact hlength, root, target, fun op hop => ?_⟩
    rw [hlines] at hop
    obtain rfl := List.mem_singleton.mp hop
    exact hrouted
  obtain ⟨st, ⟨-, -, hends⟩, houtcome, -⟩ := permitted_dispatch setup hcall h d.before
  obtain ⟨e, he, hkind⟩ := hends hover
  rw [← houtcome, he, resultKind, hkind]
  rintro ⟨hallow, -⟩
  cases hallow.mpr h

end HostCallLemmas

end Tsumugi.Audit
