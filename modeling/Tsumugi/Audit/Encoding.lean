import Mathlib.Algebra.Ring.Int.Defs
import Tsumugi.Audit.Event
import Tsumugi.Capability.SetId
import Tsumugi.Lib.Cbor

/-!
# The encoding of audit envelopes (`audit.rs`)

An encoder calls `put` on its output, and stops at the first call that fails; so it is given
here by the bytes of its calls. The first pass adds up their lengths, the second one writes
them. A struct is an array of its fields, a variant an array of its number and its fields.
-/

namespace Tsumugi.Audit.Encoding

open Budget Word
open Capability (utf8Bytes)
open Codec (bigEndian)

/-! ## Outputs -/

/-- `CborError`. -/
inductive CborError
  | lengthOverflow
  | lengthMismatch
deriving DecidableEq, Repr

/-- The calls of `CborOut::put`. -/
abbrev Puts := List (List UInt8)

/-- `SizeOut`: `put` of the size pass. -/
def sizeOut (len : Nat) (bytes : List UInt8) : Except CborError Nat :=
  match checkedAdd len bytes.length with
  | some len => .ok len
  | none => .error .lengthOverflow

/-- `put` of the write pass. -/
def vecOut (buf bytes : List UInt8) : Except CborError (List UInt8) := .ok (buf ++ bytes)

/-- `encoded_len`. -/
def encodedLen (value : Puts) : Except CborError Nat := value.foldlM sizeOut 0

/-- `encode_to_vec`. -/
def encodeToVec (value : Puts) : Except CborError (List UInt8) := do
  let len ← encodedLen value
  let buf ← value.foldlM vecOut []
  if buf.length ≠ len then .error .lengthMismatch else .ok buf

/-! ## Primitives -/

/-- `head`. -/
def head (major : UInt8) (arg : Nat) : Puts :=
  let m := major <<< 5
  if arg < 24 then [[m ||| UInt8.ofNat arg]]
  else if arg ≤ 0xff then [(m ||| 24) :: bigEndian 1 arg]
  else if arg ≤ 0xffff then [(m ||| 25) :: bigEndian 2 arg]
  else if arg ≤ 0xffffffff then [(m ||| 26) :: bigEndian 4 arg]
  else [(m ||| 27) :: bigEndian 8 arg]

/-- `uint`. -/
def uint (v : Nat) : Puts := head 0 v

/-- `int`: `!v` is `-1 - v`. -/
def int (v : Int) : Puts := if 0 ≤ v then head 0 v.toNat else head 1 (-1 - v).toNat

/-- `bytes`. -/
def bytes (v : List UInt8) : Puts := head 2 v.length ++ [v]

/-- `text`. -/
def text (v : String) : Puts := head 3 v.utf8ByteSize ++ [utf8Bytes v]

/-- `array_header`. -/
def arrayHeader (len : Nat) : Puts := head 4 len

/-- `boolean`. -/
def boolean (v : Bool) : Puts := [[if v then 0xf5 else 0xf4]]

/-- `tagged`. -/
def tagged (tag fields : Nat) : Puts := arrayHeader (1 + fields) ++ uint tag

variable {α : Type}

/-- `impl Encode for Option<T>`. -/
def option (encode : α → Puts) : Option α → Puts
  | none => tagged 0 0
  | some v => tagged 1 1 ++ encode v

/-- `impl Encode for Vec<T>`. -/
def vec (encode : α → Puts) (v : List α) : Puts := arrayHeader v.length ++ v.flatMap encode

/-! ## The types of the schema -/

/-- `impl Encode for ExecutionId`. -/
def executionId (id : Nat) : Puts := bytes (bigEndian 16 id)

/-- `to_be_bytes` of an `i128`. -/
def i128Bytes (v : Int) : List UInt8 := bigEndian 16 (v % 2 ^ 128).toNat

/-- `impl Encode for HostTimestamp`. -/
def hostTimestamp (unixNanoseconds : Int) : Puts :=
  arrayHeader 1 ++ bytes (i128Bytes unixNanoseconds)

/-- The tags of `Backend`. -/
def backendTag : Backend → Nat
  | .treeWalk => 0
  | .vmExperimental => 1

/-- The tags of `AdmissionPhase`. -/
def admissionPhaseTag : Scheduler.AdmissionPhase → Nat
  | .created => 0
  | .linked => 1

/-- The tags of `ExecutionMode`. -/
def executionModeTag : ExecutionMode → Nat
  | .live => 0
  | .record => 1
  | .replay => 2

/-- The tags of `CapabilityDecisionKind`. -/
def capabilityDecisionKindTag : CapabilityDecisionKind → Nat
  | .allow => 0
  | .deny => 1

/-- The tags of `HostCallOutcome`. -/
def hostCallOutcomeTag : HostCallOutcome → Nat
  | .success => 0
  | .denied => 1
  | .hostError => 2
  | .cancelled => 3
  | .detached => 4

/-- The tags of `EffectStatus`. -/
def effectStatusTag : EffectStatus → Nat
  | .none => 0
  | .committed => 1
  | .unknown => 2

/-- The tags of `AuditFieldClass`. -/
def auditFieldClassTag : AuditFieldClass → Nat
  | .«public» => 0
  | .identifier => 1
  | .path => 2
  | .body => 3
  | .secret => 4

/-- The tags of `BudgetChargeReason`. -/
def budgetChargeReasonTag : BudgetChargeReason → Nat
  | .statement => 0
  | .expression => 1
  | .operation => 2
  | .function => 3
  | .loop => 4
  | .hostCall => 5
  | .bulkElements => 6
  | .bulkBytes => 7
  | .allocation => 8
  | .source => 9
  | .input => 10
  | .output => 11

/-- The tags of `BudgetResource`. -/
def budgetResourceTag : BudgetResource → Nat
  | .fuel => 0
  | .heapBytes => 1
  | .singleStringBytes => 2
  | .stringAllocations => 3
  | .stringBytes => 4
  | .singleSourceBytes => 5
  | .sourceCount => 6
  | .sourceBytes => 7
  | .importCount => 8
  | .importBytes => 9
  | .collectionElements => 10
  | .inputCalls => 11
  | .inputBytes => 12
  | .outputCalls => 13
  | .outputBytes => 14
  | .hostCalls => 15
  | .hostRequestBytes => 16
  | .hostResponseBytes => 17
  | .hostCallBytes => 18

/-- `encode_fieldless!`. -/
def fieldless (tag : α → Nat) (v : α) : Puts := tagged (tag v) 0

/-- `impl Encode for AuditYieldReason`. -/
def auditYieldReason : AuditYieldReason → Puts
  | .admissionQueued resumeTo => tagged 0 1 ++ fieldless admissionPhaseTag resumeTo
  | .sliceFuelExhausted => tagged 1 0
  | .explicitYield => tagged 2 0
  | .hostCallPending callId => tagged 3 1 ++ uint callId
  | .auditBackpressure => tagged 4 0
  | .schedulerPreempted => tagged 5 0
  | .hostPaused => tagged 6 0

/-- `impl Encode for TerminalOutcome`. -/
def terminalOutcome : TerminalOutcome → Puts
  | .completed => tagged 0 0
  | .exited code => tagged 1 1 ++ uint code
  | .denied => tagged 2 0
  | .linkError => tagged 3 0
  | .runtimeError => tagged 4 0
  | .hostError => tagged 5 0
  | .budgetExceeded resource => tagged 6 1 ++ fieldless budgetResourceTag resource
  | .deadlineExceeded => tagged 7 0
  | .cancelled => tagged 8 0
  | .auditFailure => tagged 9 0
  | .internalFailure => tagged 10 0
  | .recordFailure => tagged 11 0
  | .replayMismatch => tagged 12 0

/-- `impl Encode for MonotonicInstant`: the clock is not written. -/
def monotonicInstant (v : MonotonicInstant) : Puts := uint v.ns

/-- `impl Encode for BudgetConfig`. -/
def budgetConfig (v : BudgetConfig) : Puts :=
  arrayHeader 21 ++ uint v.heapAccountingRevision ++ uint v.totalFuel ++
    uint v.maxLiveHeapBytes ++ uint v.maxStringAllocations ++ uint v.maxStringBytes ++
    uint v.maxSingleStringBytes ++ uint v.maxSourceCount ++ uint v.maxSourceBytes ++
    uint v.maxSingleSourceBytes ++ uint v.maxImportCount ++ uint v.maxImportBytes ++
    uint v.maxCollectionElements ++ uint v.maxInputCalls ++ uint v.maxInputBytes ++
    uint v.maxOutputCalls ++ uint v.maxOutputBytes ++ uint v.maxHostCalls ++
    uint v.maxHostRequestBytes ++ uint v.maxHostResponseBytes ++ uint v.maxHostCallBytes ++
    monotonicInstant v.deadline

/-- `impl Encode for BudgetCounters`. -/
def budgetCounters (v : BudgetCounters) : Puts :=
  arrayHeader 15 ++ uint v.fuel ++ uint v.stringAllocations ++ uint v.stringBytes ++
    uint v.sourceCount ++ uint v.sourceBytes ++ uint v.importCount ++ uint v.importBytes ++
    uint v.inputCalls ++ uint v.inputBytes ++ uint v.outputCalls ++ uint v.outputBytes ++
    uint v.hostCalls ++ uint v.hostRequestBytes ++ uint v.hostResponseBytes ++
    uint v.hostCallBytes

/-- `impl Encode for BudgetPeaks`. -/
def budgetPeaks (v : BudgetPeaks) : Puts :=
  arrayHeader 3 ++ uint v.singleStringBytes ++ uint v.singleSourceBytes ++
    uint v.collectionElements

/-- `impl Encode for BudgetUsage`. -/
def budgetUsage (v : BudgetUsage) : Puts :=
  arrayHeader 6 ++ budgetCounters v.committed ++ budgetCounters v.reserved ++
    uint v.liveHeapBytes ++ uint v.reservedHeapBytes ++ uint v.peakHeapBytes ++
    budgetPeaks v.peaks

/-- `impl Encode for AuditFrame`. -/
def auditFrame (v : AuditFrame) : Puts :=
  arrayHeader 3 ++ text v.function ++ text v.moduleId ++ uint v.line

/-- `impl Encode for AuditError`. -/
def auditError (v : AuditError) : Puts :=
  arrayHeader 7 ++ text v.code ++ text v.messageId ++ option text v.moduleId ++
    option uint v.line ++ option uint v.column ++ vec auditFrame v.trace ++
    uint v.omittedTraceFrames

/-- `impl Encode for AuditErrorPayload`. -/
def auditErrorPayload : AuditErrorPayload → Puts
  | .full error => tagged 0 1 ++ auditError error
  | .emergency code messageId fullErrorBytes fullErrorSha256 =>
    tagged 1 4 ++ text code ++ text messageId ++ uint fullErrorBytes ++ bytes fullErrorSha256

/-- `impl Encode for AuditScalar`. -/
def auditScalar : AuditScalar → Puts
  | .null => tagged 0 0
  | .bool v => tagged 1 1 ++ boolean v
  | .int v => tagged 2 1 ++ int v
  | .float bits => tagged 3 1 ++ bytes (bigEndian 8 bits)
  | .utf8 v => tagged 4 1 ++ text v
  | .bytes v => tagged 5 1 ++ bytes v

mutual

/-- `impl Encode for AuditValue`. -/
def auditValue : AuditValue → Puts
  | .scalar v => tagged 0 1 ++ auditScalar v
  | .sequence items => tagged 1 1 ++ (arrayHeader items.length ++ auditFields items)
  | .object entries => tagged 2 1 ++ (arrayHeader entries.length ++ auditEntries entries)

/-- `impl Encode for AuditField`. -/
def auditField : AuditField → Puts
  | .revealed fieldClass value originalBytes =>
    tagged 0 3 ++ fieldless auditFieldClassTag fieldClass ++ auditValue value ++
      uint originalBytes
  | .hmacSha256 fieldClass digest originalBytes =>
    tagged 1 3 ++ fieldless auditFieldClassTag fieldClass ++ bytes digest ++ uint originalBytes
  | .omitted fieldClass originalBytes =>
    tagged 2 2 ++ fieldless auditFieldClassTag fieldClass ++ uint originalBytes

/-- The elements of a `Vec`. -/
def auditFields : List AuditField → Puts
  | [] => []
  | field :: rest => auditField field ++ auditFields rest

/-- The entries of a `BTreeMap`, in the order of their keys. -/
def auditEntries : List (String × AuditField) → Puts
  | [] => []
  | (key, field) :: rest => arrayHeader 2 ++ text key ++ auditField field ++ auditEntries rest

end

/-- `impl Encode for AuditPayload`. -/
def auditPayload (v : AuditPayload) : Puts :=
  arrayHeader 1 ++ (arrayHeader v.fields.length ++ auditEntries v.fields)

/-- `impl Encode for AuditEvent`. -/
def auditEvent : AuditEvent → Puts
  | .executionStarted engineVersion backend rulesRevision heapAccountingRevision budget
      capabilityPolicyHash redactionPolicyId mode =>
    tagged 0 8 ++ text engineVersion ++ fieldless backendTag backend ++ uint rulesRevision ++
      uint heapAccountingRevision ++ budgetConfig budget ++ bytes capabilityPolicyHash ++
      text redactionPolicyId ++ fieldless executionModeTag mode
  | .capabilityDecision operationId callId capability action resource decision ruleId =>
    tagged 1 7 ++ uint operationId ++ option uint callId ++ text capability ++ text action ++
      auditPayload resource ++ fieldless capabilityDecisionKindTag decision ++ text ruleId
  | .hostCallStarted operationId callId function request requestBytes =>
    tagged 2 5 ++ uint operationId ++ uint callId ++ text function ++ auditPayload request ++
      uint requestBytes
  | .hostCallFinished operationId callId outcome response responseBytes errorCode effectStatus =>
    tagged 3 7 ++ uint operationId ++ uint callId ++ fieldless hostCallOutcomeTag outcome ++
      auditPayload response ++ uint responseBytes ++ option text errorCode ++
      fieldless effectStatusTag effectStatus
  | .budgetCharged resource committedDelta releasedDelta usageAfter peakAfter chargeCount
      reason =>
    tagged 4 7 ++ fieldless budgetResourceTag resource ++ uint committedDelta ++
      uint releasedDelta ++ uint usageAfter ++ option uint peakAfter ++ uint chargeCount ++
      fieldless budgetChargeReasonTag reason
  | .yielded reason pollIndex usage =>
    tagged 5 3 ++ auditYieldReason reason ++ uint pollIndex ++ budgetUsage usage
  | .resumed previousReason pollIndex usage =>
    tagged 6 3 ++ auditYieldReason previousReason ++ uint pollIndex ++ budgetUsage usage
  | .terminal outcome error usage importGraphHash contextCommitted hostEffectsMayRemain =>
    tagged 7 6 ++ terminalOutcome outcome ++ option auditErrorPayload error ++
      budgetUsage usage ++ option bytes importGraphHash ++ boolean contextCommitted ++
      boolean hostEffectsMayRemain

/-- `impl Encode for AuditEnvelope`. -/
def auditEnvelope (v : AuditEnvelope) : Puts :=
  arrayHeader 7 ++ uint v.schemaVersion ++ executionId v.executionId ++ bytes v.sourceHash ++
    text v.languageRevision ++ uint v.sequence ++ hostTimestamp v.timestamp ++ auditEvent v.event

/-- `envelope_fixed_len_upper_bound`. -/
def envelopeFixedLenUpperBound (languageRevision : String) : Except CborError Nat :=
  encodedLen (arrayHeader 7 ++ uint 1 ++ bytes (List.replicate 16 0) ++
    bytes (List.replicate 32 0) ++ text languageRevision ++ uint maxU64 ++ hostTimestamp 0)

end Tsumugi.Audit.Encoding
