import Tsumugi.Budget.Types
import Tsumugi.Lang.Error
import Tsumugi.Lib.Word
import Tsumugi.Scheduler.Shared

/-!
# Audit events and their estimated size (`audit.rs`, `embedding.rs`)

The envelope, the eight event kinds with their payloads, how a terminal outcome
is projected into the `Terminal` event, and the estimate of an envelope's encoded
length that the journal charges. A byte map keeps its entries in key order.
-/

namespace Tsumugi.Audit

open Budget Word

/-! ## Payloads -/

/-- `AuditYieldReason`. -/
inductive AuditYieldReason
  | admissionQueued (resumeTo : Scheduler.AdmissionPhase)
  | sliceFuelExhausted
  | explicitYield
  | hostCallPending (callId : Nat)
  | auditBackpressure
  | schedulerPreempted
  | hostPaused
deriving DecidableEq, Repr

/-- `CapabilityDecisionKind`. -/
inductive CapabilityDecisionKind
  | allow
  | deny
deriving DecidableEq, Repr

/-- `HostCallOutcome`. -/
inductive HostCallOutcome
  | success
  | denied
  | hostError
  | cancelled
  | detached
deriving DecidableEq, Repr

/-- `EffectStatus`. -/
inductive EffectStatus
  | none
  | committed
  | unknown
deriving DecidableEq, Repr

/-- `BudgetChargeReason`, in declaration order. -/
inductive BudgetChargeReason
  | statement
  | expression
  | operation
  | function
  | loop
  | hostCall
  | bulkElements
  | bulkBytes
  | allocation
  | source
  | input
  | output
deriving DecidableEq, Repr

/-- `ExecutionMode`. -/
inductive ExecutionMode
  | live
  | record
  | replay
deriving DecidableEq, Repr

/-- `Backend`. -/
inductive Backend
  | treeWalk
  | vmExperimental
deriving DecidableEq, Repr

/-- `AuditFieldClass`. -/
inductive AuditFieldClass
  | «public»
  | identifier
  | path
  | body
  | secret
deriving DecidableEq, Repr

/-- `AuditScalar`. -/
inductive AuditScalar
  | null
  | bool (value : Bool)
  | int (value : Int)
  | float (bits : Nat)
  | utf8 (value : String)
  | bytes (value : List UInt8)
deriving DecidableEq, Repr

mutual

/-- `AuditValue`. -/
inductive AuditValue
  | scalar (value : AuditScalar)
  | sequence (items : List AuditField)
  | object (entries : List (String × AuditField))

/-- `AuditField`. -/
inductive AuditField
  | revealed (fieldClass : AuditFieldClass) (value : AuditValue) (originalBytes : Nat)
  | hmacSha256 (fieldClass : AuditFieldClass) (digest : List UInt8) (originalBytes : Nat)
  | omitted (fieldClass : AuditFieldClass) (originalBytes : Nat)

end

/-- `AuditPayload`. -/
structure AuditPayload where
  fields : List (String × AuditField)

/-- `AuditFrame`. -/
structure AuditFrame where
  function : String
  moduleId : String
  line : Nat
deriving DecidableEq, Repr

/-- `AuditError`. -/
structure AuditError where
  code : String
  messageId : String
  moduleId : Option String
  line : Option Nat
  column : Option Nat
  trace : List AuditFrame
  omittedTraceFrames : Nat
deriving DecidableEq, Repr

/-- `AuditErrorPayload`. -/
inductive AuditErrorPayload
  | full (error : AuditError)
  | emergency (code messageId : String) (fullErrorBytes : Nat) (fullErrorSha256 : List UInt8)
deriving DecidableEq, Repr

/-- `TerminalOutcome`. -/
inductive TerminalOutcome
  | completed
  | exited (code : Nat)
  | denied
  | linkError
  | runtimeError
  | hostError
  | budgetExceeded (resource : BudgetResource)
  | deadlineExceeded
  | cancelled
  | auditFailure
  | internalFailure
  | recordFailure
  | replayMismatch
deriving DecidableEq, Repr

/-- `AuditEvent`. -/
inductive AuditEvent
  | executionStarted (engineVersion : String) (backend : Backend)
      (rulesRevision heapAccountingRevision : Nat) (budget : BudgetConfig)
      (capabilityPolicyHash : List UInt8) (redactionPolicyId : String) (mode : ExecutionMode)
  | capabilityDecision (operationId : Nat) (callId : Option Nat) (capability action : String)
      (resource : AuditPayload) (decision : CapabilityDecisionKind) (ruleId : String)
  | hostCallStarted (operationId callId : Nat) (function : String) (request : AuditPayload)
      (requestBytes : Nat)
  | hostCallFinished (operationId callId : Nat) (outcome : HostCallOutcome)
      (response : AuditPayload) (responseBytes : Nat) (errorCode : Option String)
      (effectStatus : EffectStatus)
  | budgetCharged (resource : BudgetResource) (committedDelta releasedDelta usageAfter : Nat)
      (peakAfter : Option Nat) (chargeCount : Nat) (reason : BudgetChargeReason)
  | yielded (reason : AuditYieldReason) (pollIndex : Nat) (usage : BudgetUsage)
  | resumed (previousReason : AuditYieldReason) (pollIndex : Nat) (usage : BudgetUsage)
  | terminal (outcome : TerminalOutcome) (error : Option AuditErrorPayload) (usage : BudgetUsage)
      (importGraphHash : Option (List UInt8)) (contextCommitted hostEffectsMayRemain : Bool)

namespace AuditEvent

def isStarted : AuditEvent → Bool
  | executionStarted .. => true
  | _ => false

def isTerminal : AuditEvent → Bool
  | terminal .. => true
  | _ => false

def isHostCallStarted : AuditEvent → Bool
  | hostCallStarted .. => true
  | _ => false

end AuditEvent

/-- `AuditEnvelope`. The timestamp is in nanoseconds of the injected clock. -/
structure AuditEnvelope where
  schemaVersion : Nat
  executionId : Nat
  sourceHash : List UInt8
  languageRevision : String
  sequence : Nat
  timestamp : Int
  event : AuditEvent

/-! ## Estimated encoded length -/

/-- `estimate_envelope_overhead_bytes`. -/
def estimateEnvelopeOverheadBytes (languageRevision : String) : Nat :=
  satAdd 74 languageRevision.utf8ByteSize

/-- The part of the estimate that depends on the error of a terminal. -/
def estimateErrorBytes : Option AuditErrorPayload → Nat
  | none => 0
  | some (.full e) =>
    e.code.utf8ByteSize + e.messageId.utf8ByteSize +
      (e.trace.map fun f => f.function.utf8ByteSize + 16).sum
  | some (.emergency code messageId _ _) => code.utf8ByteSize + messageId.utf8ByteSize + 40

/-- `estimate_event_bytes`. -/
def estimateEventBytes : AuditEvent → Nat
  | .executionStarted engineVersion _ _ _ _ _ redactionPolicyId _ =>
    satAdd (satAdd 256 engineVersion.utf8ByteSize) redactionPolicyId.utf8ByteSize
  | .terminal _ error _ _ _ _ => satAdd 128 (estimateErrorBytes error)
  | _ => 128

/-- `estimate_encoded_bytes`. -/
def estimateEncodedBytes (envelope : AuditEnvelope) : Nat :=
  satAdd (estimateEnvelopeOverheadBytes envelope.languageRevision)
    (estimateEventBytes envelope.event)

/-! ## Terminal outcomes -/

/-- The public `ExecutionError`. -/
structure ExecutionError where
  code : ErrorKind
  safeMessage : String
  line : Option Nat
  trace : List (String × Option Nat)
deriving DecidableEq, Repr

/-- The public `ExecutionOutcome` of the embedding facade. -/
inductive ExecutionOutcome
  | completed (usage : BudgetUsage)
  | exited (code : Nat) (usage : BudgetUsage)
  | runtimeError (error : ExecutionError) (usage : BudgetUsage)
  | budgetExceeded (error : ExecutionError) (usage : BudgetUsage)
  | deadlineExceeded (usage : BudgetUsage)
  | cancelled (usage : BudgetUsage)
  | internalFailure (usage : BudgetUsage)
deriving DecidableEq, Repr

/-- `u32::try_from`. -/
def toU32 (n : Nat) : Option Nat := if n < 2 ^ 32 then some n else none

/-- `execution_error_from`. -/
def executionErrorFrom : TsumugiError → ExecutionError
  | .runtime line message kind trace _ =>
    ⟨kind, message, toU32 line, trace.map fun f => (f.name, toU32 f.line)⟩
  | .parse line message => ⟨.internal, message, toU32 line, []⟩

/-- `terminal_from_run_error`. The exit code is what the evaluator has put aside. -/
def terminalFromRunError (pendingExit : Option Nat) (usage : BudgetUsage) (error : TsumugiError) :
    ExecutionOutcome :=
  match error.kind with
  | some .processExit => .exited (pendingExit.getD 0) usage
  | some .cancelled => .cancelled usage
  | some .deadlineExceeded => .deadlineExceeded usage
  | some .stepLimit | some .collectionLimit | some .stringLimit | some .sourceLimit
  | some .heapLimit | some .ioLimit => .budgetExceeded (executionErrorFrom error) usage
  | _ => .runtimeError (executionErrorFrom error) usage

/-- `outcome_usage`. -/
def ExecutionOutcome.usage : ExecutionOutcome → BudgetUsage
  | completed usage | exited _ usage | runtimeError _ usage | budgetExceeded _ usage
  | deadlineExceeded usage | cancelled usage | internalFailure usage => usage

/-- The error that an outcome shows in the audit stream. -/
def ExecutionOutcome.error : ExecutionOutcome → Option ExecutionError
  | runtimeError error _ | budgetExceeded error _ => some error
  | _ => none

/-- The outcomes whose language state is committed. -/
def ExecutionOutcome.committed : ExecutionOutcome → Bool
  | completed _ | exited .. => true
  | _ => false

/-- `audit_error_payload_from`: the first 32 frames, with their names in full. -/
def auditErrorPayloadFrom (outcome : ExecutionOutcome) : Option AuditErrorPayload :=
  outcome.error.map fun error => .full {
    code := error.code.asStr
    messageId := error.code.asStr
    moduleId := none
    line := error.line
    column := none
    trace := (error.trace.take 32).map fun f => ⟨f.1, "", f.2.getD 0⟩
    omittedTraceFrames := (toU32 (satSub error.trace.length 32)).getD 0 }

/-- `budget_resource_from_error_kind`. -/
def budgetResourceFromErrorKind : ErrorKind → Option BudgetResource
  | .stepLimit => some .fuel
  | .collectionLimit => some .collectionElements
  | .stringLimit => some .stringBytes
  | .sourceLimit => some .sourceBytes
  | .heapLimit => some .heapBytes
  | .ioLimit => some .inputCalls
  | _ => none

/-- `terminal_outcome_from`. -/
def terminalOutcomeFrom (outcome : ExecutionOutcome) (exceededResource : Option BudgetResource) :
    TerminalOutcome :=
  match outcome with
  | .completed _ => .completed
  | .exited code _ => .exited code
  | .runtimeError .. => .runtimeError
  | .budgetExceeded error _ =>
    .budgetExceeded
      ((exceededResource.or (budgetResourceFromErrorKind error.code)).getD .fuel)
  | .deadlineExceeded _ => .deadlineExceeded
  | .cancelled _ => .cancelled
  | .internalFailure _ => .internalFailure

end Tsumugi.Audit
