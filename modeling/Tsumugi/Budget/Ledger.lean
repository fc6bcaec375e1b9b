import Tsumugi.Audit.Recorder
import Tsumugi.Budget.Stop
import Tsumugi.Lib.Proc

/-!
# The budget ledger (`budget.rs`)

Cumulative resources are reserved and then committed; `commit` tells the
accumulator of every amount it commits. Live heap is charged without telling
anyone, and of the releases only `release_heap` tells. The calls of the
accumulator wait in `noted` until the audit run takes them.

The token and the clock are read from outside: they answer by the number of the
read.
-/

namespace Tsumugi.Budget

open Audit (Note BudgetChargeReason)
open Word

/-! ## Counters -/

namespace BudgetCounters

/-- The counter of a resource; live and per-item resources have none. -/
def of (c : BudgetCounters) : BudgetResource → Nat
  | .fuel => c.fuel
  | .stringAllocations => c.stringAllocations
  | .stringBytes => c.stringBytes
  | .sourceCount => c.sourceCount
  | .sourceBytes => c.sourceBytes
  | .importCount => c.importCount
  | .importBytes => c.importBytes
  | .inputCalls => c.inputCalls
  | .inputBytes => c.inputBytes
  | .outputCalls => c.outputCalls
  | .outputBytes => c.outputBytes
  | .hostCalls => c.hostCalls
  | .hostRequestBytes => c.hostRequestBytes
  | .hostResponseBytes => c.hostResponseBytes
  | .hostCallBytes => c.hostCallBytes
  | .heapBytes | .singleStringBytes | .singleSourceBytes | .collectionElements => 0

/-- Write the counter of a resource, if it has one. -/
def set (c : BudgetCounters) (n : Nat) : BudgetResource → BudgetCounters
  | .fuel => { c with fuel := n }
  | .stringAllocations => { c with stringAllocations := n }
  | .stringBytes => { c with stringBytes := n }
  | .sourceCount => { c with sourceCount := n }
  | .sourceBytes => { c with sourceBytes := n }
  | .importCount => { c with importCount := n }
  | .importBytes => { c with importBytes := n }
  | .inputCalls => { c with inputCalls := n }
  | .inputBytes => { c with inputBytes := n }
  | .outputCalls => { c with outputCalls := n }
  | .outputBytes => { c with outputBytes := n }
  | .hostCalls => { c with hostCalls := n }
  | .hostRequestBytes => { c with hostRequestBytes := n }
  | .hostResponseBytes => { c with hostResponseBytes := n }
  | .hostCallBytes => { c with hostCallBytes := n }
  | .heapBytes | .singleStringBytes | .singleSourceBytes | .collectionElements => c

end BudgetCounters

/-- The resources that have a counter. -/
def BudgetResource.isCumulative : BudgetResource → Bool
  | .heapBytes | .singleStringBytes | .singleSourceBytes | .collectionElements => false
  | _ => true

/-- The modulus of the counter's type: two counters are `u32`. -/
def BudgetResource.modulus : BudgetResource → Nat
  | .sourceCount | .importCount => 2 ^ 32
  | _ => 2 ^ 64

/-- The amount as the counter's type holds it. -/
def BudgetResource.cast : BudgetResource → Nat → Nat
  | .sourceCount, amount | .importCount, amount => amount % 2 ^ 32
  | _, amount => amount

/-- `limit_of`. -/
def BudgetConfig.limitOf (c : BudgetConfig) : BudgetResource → Nat
  | .fuel => c.totalFuel
  | .heapBytes => c.maxLiveHeapBytes
  | .singleStringBytes => c.maxSingleStringBytes
  | .stringAllocations => c.maxStringAllocations
  | .stringBytes => c.maxStringBytes
  | .singleSourceBytes => c.maxSingleSourceBytes
  | .sourceCount => c.maxSourceCount
  | .sourceBytes => c.maxSourceBytes
  | .importCount => c.maxImportCount
  | .importBytes => c.maxImportBytes
  | .collectionElements => c.maxCollectionElements
  | .inputCalls => c.maxInputCalls
  | .inputBytes => c.maxInputBytes
  | .outputCalls => c.maxOutputCalls
  | .outputBytes => c.maxOutputBytes
  | .hostCalls => c.maxHostCalls
  | .hostRequestBytes => c.maxHostRequestBytes
  | .hostResponseBytes => c.maxHostResponseBytes
  | .hostCallBytes => c.maxHostCallBytes

/-- `charge_reason_for`. -/
def chargeReasonFor : BudgetResource → BudgetChargeReason
  | .fuel => .operation
  | .stringAllocations => .allocation
  | .stringBytes => .bulkBytes
  | .sourceCount | .sourceBytes | .importCount | .importBytes => .source
  | .inputCalls | .inputBytes => .input
  | .outputCalls | .outputBytes => .output
  | .hostCalls | .hostRequestBytes | .hostResponseBytes | .hostCallBytes => .hostCall
  | .heapBytes | .singleStringBytes | .singleSourceBytes | .collectionElements => .allocation

/-! ## Live heap -/

/-- `AllocationLedger`. -/
structure AllocationLedger where
  nextId : Nat := 1
  liveBytes : Nat := 0
  peakBytes : Nat := 0
  limit : Nat
deriving DecidableEq, Repr

namespace AllocationLedger

/-- What a refused charge of the heap says. -/
def exceeded (h : AllocationLedger) (requested : Nat) (phase : ExecutionPhase) : ControlStop :=
  .budgetExceeded ⟨.heapBytes, h.limit, h.liveBytes, 0, requested, .bytes, phase⟩

/-- `charge`. -/
def charge (h : AllocationLedger) (bytes : Nat) (phase : ExecutionPhase) :
    Except ControlStop AllocationLedger :=
  match checkedAdd h.liveBytes bytes with
  | some total =>
    if total ≤ h.limit then
      .ok { h with liveBytes := total, peakBytes := max h.peakBytes total }
    else .error (h.exceeded bytes phase)
  | none => .error (h.exceeded maxU64 phase)

/-- `release`. -/
def release (h : AllocationLedger) (bytes : Nat) : AllocationLedger :=
  { h with liveBytes := satSub h.liveBytes bytes }

/-- `allocate_id`. -/
def allocateId (h : AllocationLedger) : Except ControlStop AllocationLedger :=
  match checkedAdd h.nextId 1 with
  | some next => .ok { h with nextId := next }
  | none => .error (.internalFailure .allocationIdExhausted)

end AllocationLedger

/-! ## The ledger -/

/-- `CumulativeRequest`. -/
structure CumulativeRequest where
  resource : BudgetResource
  amount : Nat
deriving DecidableEq, Repr

/-- `BudgetLedger`. -/
structure BudgetLedger where
  config : BudgetConfig
  committed : BudgetCounters := {}
  reserved : BudgetCounters := {}
  peaks : BudgetPeaks := {}
  cancellation : Nat → Bool
  clock : Option (Nat → MonotonicInstant)
  reads : Nat := 0
  heap : AllocationLedger
  noted : List Note := []

namespace BudgetLedger

/-- `reset_config_with_token`, then `set_clock`. -/
def fresh (config : BudgetConfig) (cancellation : Nat → Bool)
    (clock : Option (Nat → MonotonicInstant)) : BudgetLedger :=
  { config, cancellation, clock, heap := { limit := config.maxLiveHeapBytes } }

/-- `usage`. -/
def usage (l : BudgetLedger) : BudgetUsage where
  committed := l.committed
  reserved := l.reserved
  liveHeapBytes := l.heap.liveBytes
  reservedHeapBytes := 0
  peakHeapBytes := l.heap.peakBytes
  peaks := l.peaks

/-- `add_reserved`. Overflow is not checked in a release build. -/
def addReserved (l : BudgetLedger) (q : CumulativeRequest) : BudgetLedger :=
  { l with reserved :=
      l.reserved.set (wrapAdd q.resource.modulus (l.reserved.of q.resource)
        (q.resource.cast q.amount)) q.resource }

/-- `move_to_committed`. -/
def moveToCommitted (l : BudgetLedger) (resource : BudgetResource) (reservedAmount actual : Nat) :
    BudgetLedger :=
  { l with
    reserved := l.reserved.set (wrapSub resource.modulus (l.reserved.of resource)
      (resource.cast reservedAmount)) resource
    committed := l.committed.set (wrapAdd resource.modulus (l.committed.of resource)
      (resource.cast actual)) resource }

/-- A call of the accumulator. -/
def note (l : BudgetLedger) (n : Note) : BudgetLedger := { l with noted := l.noted ++ [n] }

/-- `reserve_one`: what stands in the way. -/
def reserveOne (l : BudgetLedger) (phase : ExecutionPhase) (q : CumulativeRequest) :
    Option BudgetExceeded :=
  let limit := l.config.limitOf q.resource
  let used := l.committed.of q.resource
  let reserved := l.reserved.of q.resource
  match (checkedAdd used reserved).bind fun v => checkedAdd v q.amount with
  | some total =>
    if total ≤ limit then none
    else some ⟨q.resource, limit, used, reserved, q.amount, q.resource.unit, phase⟩
  | none => some ⟨q.resource, limit, used, reserved, maxU64, q.resource.unit, phase⟩

/-- The refusal with the smaller priority; the earlier one of two that are equal. -/
def worse : Option BudgetExceeded → Option BudgetExceeded → Option BudgetExceeded
  | worst, none => worst
  | none, some e => some e
  | some cur, some e => if e.resource.priority < cur.resource.priority then some e else some cur

/-- The refusal of a compound request. -/
def refusal (l : BudgetLedger) (phase : ExecutionPhase) (requests : List CumulativeRequest) :
    Option BudgetExceeded :=
  requests.foldl (fun worst q => worse worst (l.reserveOne phase q)) none

end BudgetLedger

/-- A function of the ledger. -/
abbrev Charge (α : Type) := Proc BudgetLedger ControlStop α

namespace Charge

open BudgetLedger

/-- `check_cancel`. -/
def checkCancel : Charge Unit := do
  let l ← Proc.gets id
  Proc.modify fun l => { l with reads := l.reads + 1 }
  if l.cancellation l.reads then Proc.stop .cancelled else pure ()

/-- `check_deadline`. -/
def checkDeadline : Charge Unit := do
  let l ← Proc.gets id
  match l.clock with
  | none => pure ()
  | some clock => do
    Proc.modify fun l => { l with reads := l.reads + 1 }
    if (clock l.reads).ns ≥ l.config.deadline.ns then
      Proc.stop (.deadlineExceeded l.config.deadline (clock l.reads))
    else pure ()

/-- `reserve_all`. -/
def reserveAll (requests : List CumulativeRequest) (phase : ExecutionPhase) : Charge Unit := do
  checkCancel
  checkDeadline
  match ← Proc.gets fun l => l.refusal phase requests with
  | some exceeded => Proc.stop (.budgetExceeded exceeded)
  | none => Proc.modify fun l => requests.foldl addReserved l

/-- `commit`. -/
def commit (resource : BudgetResource) (reservedAmount actual : Nat) : Charge Unit :=
  Proc.modify fun l =>
    let committed := min actual reservedAmount
    let l := l.moveToCommitted resource reservedAmount committed
    if committed > 0 then
      l.note (.charge resource (chargeReasonFor resource) committed (l.committed.of resource))
    else l

/-- `refund`. -/
def refund (resource : BudgetResource) (reservedAmount : Nat) : Charge Unit :=
  Proc.modify fun l => l.moveToCommitted resource reservedAmount 0

/-- The commits of a compound request, each of the amount that was reserved. -/
def commitAll : List CumulativeRequest → Charge Unit
  | [] => pure ()
  | q :: rest => do
    commit q.resource q.amount q.amount
    commitAll rest

/-- What the charge functions share: one atomic reservation, then its commits. -/
def chargeAll (requests : List CumulativeRequest) (phase : ExecutionPhase) : Charge Unit := do
  reserveAll requests phase
  commitAll requests

/-- `charge_fuel`. -/
def chargeFuel (amount : Nat) (phase : ExecutionPhase) : Charge Unit :=
  chargeAll [⟨.fuel, amount⟩] phase

/-- A per-item limit: past it only the token is read before the refusal. -/
def perItem (resource : BudgetResource) (candidate : Nat) (phase : ExecutionPhase)
    (within : Charge Unit) : Charge Unit := do
  let limit ← Proc.gets fun l => l.config.limitOf resource
  if candidate > limit then do
    checkCancel
    Proc.stop (.budgetExceeded ⟨resource, limit, 0, 0, candidate, resource.unit, phase⟩)
  else within

/-- `check_collection_elements`. -/
def checkCollectionElements (candidate : Nat) (phase : ExecutionPhase) : Charge Unit := do
  checkCancel
  let limit ← Proc.gets fun l => l.config.maxCollectionElements
  if candidate > limit then
    Proc.stop (.budgetExceeded
      ⟨.collectionElements, limit, 0, 0, candidate, .elements, phase⟩)
  else
    Proc.modify fun l => { l with peaks :=
      { l.peaks with collectionElements := max l.peaks.collectionElements candidate } }

/-- `charge_string`. -/
def chargeString (byteLen : Nat) (phase : ExecutionPhase) : Charge Unit :=
  perItem .singleStringBytes byteLen phase do
    chargeAll [⟨.stringAllocations, 1⟩, ⟨.stringBytes, byteLen⟩] phase
    Proc.modify fun l => { l with peaks :=
      { l.peaks with singleStringBytes := max l.peaks.singleStringBytes byteLen } }

/-- `charge_source`. -/
def chargeSource (byteLen : Nat) (phase : ExecutionPhase) : Charge Unit :=
  perItem .singleSourceBytes byteLen phase do
    chargeAll [⟨.sourceCount, 1⟩, ⟨.sourceBytes, byteLen⟩] phase
    Proc.modify fun l => { l with peaks :=
      { l.peaks with singleSourceBytes := max l.peaks.singleSourceBytes byteLen } }

/-- `charge_import`. -/
def chargeImport (byteLen : Nat) (phase : ExecutionPhase) : Charge Unit :=
  chargeAll [⟨.importCount, 1⟩, ⟨.importBytes, byteLen⟩] phase

/-- `charge_input`. -/
def chargeInput (payloadBytes : Nat) (phase : ExecutionPhase) : Charge Unit :=
  chargeAll [⟨.inputCalls, 1⟩, ⟨.inputBytes, payloadBytes⟩, ⟨.hostCalls, 1⟩,
    ⟨.hostResponseBytes, payloadBytes⟩, ⟨.hostCallBytes, payloadBytes⟩] phase

/-- `charge_output`. -/
def chargeOutput (payloadBytes : Nat) (phase : ExecutionPhase) : Charge Unit :=
  chargeAll [⟨.outputCalls, 1⟩, ⟨.outputBytes, payloadBytes⟩, ⟨.hostCalls, 1⟩,
    ⟨.hostRequestBytes, payloadBytes⟩, ⟨.hostCallBytes, payloadBytes⟩] phase

/-- `charge_host_call_request`. -/
def chargeHostCallRequest (requestBytes : Nat) (phase : ExecutionPhase) : Charge Unit :=
  chargeAll [⟨.hostCalls, 1⟩, ⟨.hostRequestBytes, requestBytes⟩,
    ⟨.hostCallBytes, requestBytes⟩] phase

/-- `charge_host_response_bytes`. -/
def chargeHostResponseBytes (responseBytes : Nat) (phase : ExecutionPhase) : Charge Unit :=
  chargeAll [⟨.hostResponseBytes, responseBytes⟩, ⟨.hostCallBytes, responseBytes⟩] phase

/-- The per-item check of `render_into`, made before each node is written. -/
def checkRendered (rendered : Nat) (phase : ExecutionPhase) : Charge Unit :=
  perItem .singleStringBytes rendered phase (pure ())

/-- Work on the heap ledger alone. -/
def onHeap (f : AllocationLedger → Except ControlStop AllocationLedger) : Charge Unit where
  run l :=
    match f l.heap with
    | .ok heap => (.ok (), { l with heap })
    | .error stop => (.error stop, l)

/-- `heap_charge_raw`, and the charge of `Tracked::new_via_handle`. -/
def heapChargeRaw (bytes : Nat) (phase : ExecutionPhase) : Charge Unit :=
  onHeap fun h => h.charge bytes phase

/-- `charge_heap`. -/
def chargeHeap (bytes : Nat) (phase : ExecutionPhase) : Charge Unit := do
  checkCancel
  checkDeadline
  heapChargeRaw bytes phase

/-- `allocate_heap_id`. -/
def allocateHeapId : Charge Unit := onHeap AllocationLedger.allocateId

/-- `release_heap`. -/
def releaseHeap (bytes : Nat) : Charge Unit :=
  Proc.modify fun l =>
    let l := { l with heap := l.heap.release bytes }
    if bytes > 0 then
      l.note (.release .heapBytes (chargeReasonFor .heapBytes) bytes l.heap.liveBytes
        l.heap.peakBytes)
    else l

/-- `Tracked::new`. -/
def newTracked (logicalBytes : Nat) (phase : ExecutionPhase) : Charge Unit := do
  chargeHeap logicalBytes phase
  allocateHeapId

/-- `Tracked::new_via_handle`. -/
def newViaHandle (logicalBytes : Nat) (phase : ExecutionPhase) : Charge Unit := do
  heapChargeRaw logicalBytes phase
  allocateHeapId

/-- `Drop` of a tracked backing. -/
def dropTracked (bytes : Nat) : Charge Unit :=
  Proc.modify fun l => { l with heap := l.heap.release bytes }

/-- `retrack_list`, `retrack_dict`: a backing changes its size in place. -/
def retrack (oldBytes newBytes : Nat) (phase : ExecutionPhase) : Charge Unit :=
  if newBytes > oldBytes then chargeHeap (newBytes - oldBytes) phase
  else if newBytes < oldBytes then releaseHeap (oldBytes - newBytes)
  else pure ()

end Charge

end Tsumugi.Budget
