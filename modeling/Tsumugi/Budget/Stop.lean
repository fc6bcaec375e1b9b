import Tsumugi.Budget.Types
import Tsumugi.Lang.Value

/-!
# Control stops and their errors (`budget.rs`)

Why a charge is refused, and the error of the language that a refusal becomes.
Several resources share one error kind.
-/

namespace Tsumugi.Budget

/-- `BudgetUnit`. -/
inductive BudgetUnit
  | fuel
  | bytes
  | count
  | elements
deriving DecidableEq, Repr

/-- `BudgetResource::unit`. -/
def BudgetResource.unit : BudgetResource → BudgetUnit
  | fuel => .fuel
  | sourceCount | importCount | stringAllocations | inputCalls | outputCalls | hostCalls => .count
  | collectionElements => .elements
  | _ => .bytes

/-- `ExecutionPhase`. -/
inductive ExecutionPhase
  | compile
  | link
  | run
  | hostCall
  | commit
deriving DecidableEq, Repr

/-- `BudgetExceeded`. -/
structure BudgetExceeded where
  resource : BudgetResource
  limit : Nat
  used : Nat
  reserved : Nat
  requested : Nat
  unit : BudgetUnit
  phase : ExecutionPhase
deriving DecidableEq, Repr

/-- `InternalFailure`. -/
inductive InternalFailure
  | allocationIdExhausted
  | cooperativeAdapterYieldInSyncContext
deriving DecidableEq, Repr

/-- `ControlStop`. -/
inductive ControlStop
  | cancelled
  | deadlineExceeded (deadline observed : MonotonicInstant)
  | budgetExceeded (exceeded : BudgetExceeded)
  | internalFailure (failure : InternalFailure)
deriving DecidableEq, Repr

namespace ControlStop

/-- The error of a budget stop, by the resource that ran out. -/
def budgetError (e : BudgetExceeded) (line : Nat) : TsumugiError :=
  let raise (kind : ErrorKind) (message : String) := TsumugiError.runtimeWithKind line kind message
  match e.resource with
  | .collectionElements => .collectionLimit line e.requested e.limit
  | .singleStringBytes =>
    raise .stringLimit s!"文字列の長さが上限を超えました: {e.requested} バイト (上限: {e.limit} バイト)"
  | .stringAllocations => raise .stringLimit s!"文字列の生成数が上限を超えました (上限: {e.limit})"
  | .stringBytes =>
    raise .stringLimit s!"文字列の総バイト数が上限を超えました (上限: {e.limit} バイト)"
  | .singleSourceBytes =>
    raise .sourceLimit s!"ソースの長さが上限を超えました: {e.requested} バイト (上限: {e.limit} バイト)"
  | .sourceCount => raise .sourceLimit s!"ソースの本数が上限を超えました (上限: {e.limit})"
  | .sourceBytes =>
    raise .sourceLimit s!"ソースの総バイト数が上限を超えました (上限: {e.limit} バイト)"
  | .importCount => raise .sourceLimit s!"import の本数が上限を超えました (上限: {e.limit})"
  | .importBytes =>
    raise .sourceLimit s!"import の総バイト数が上限を超えました (上限: {e.limit} バイト)"
  | .heapBytes => raise .heapLimit s!"ヒープの総バイト数が上限を超えました (上限: {e.limit} バイト)"
  | .inputCalls => raise .ioLimit s!"input の呼び出し回数が上限を超えました (上限: {e.limit})"
  | .inputBytes =>
    raise .ioLimit s!"input の総バイト数が上限を超えました (上限: {e.limit} バイト)"
  | .outputCalls => raise .ioLimit s!"output の呼び出し回数が上限を超えました (上限: {e.limit})"
  | .outputBytes =>
    raise .ioLimit s!"output の総バイト数が上限を超えました (上限: {e.limit} バイト)"
  | .hostCalls => raise .ioLimit s!"host call の呼び出し回数が上限を超えました (上限: {e.limit})"
  | .hostRequestBytes =>
    raise .ioLimit s!"host call request の総バイト数が上限を超えました (上限: {e.limit} バイト)"
  | .hostResponseBytes =>
    raise .ioLimit s!"host call response の総バイト数が上限を超えました (上限: {e.limit} バイト)"
  | .hostCallBytes =>
    raise .ioLimit s!"host call の総バイト数が上限を超えました (上限: {e.limit} バイト)"
  | .fuel => raise .stepLimit s!"ステップ上限に達しました (上限: {e.limit})"

/-- `budget::control_stop_to_error`. -/
def toError (stop : ControlStop) (line : Nat) : TsumugiError :=
  match stop with
  | .budgetExceeded e => budgetError e line
  | .deadlineExceeded .. => .deadlineExceeded line
  | .cancelled => .cancelled line
  | .internalFailure .allocationIdExhausted =>
    .internal line "AllocationId を割り当てできません"
  | .internalFailure .cooperativeAdapterYieldInSyncContext =>
    .internalControl line "cooperative adapter が同期文脈で yield を要求しました"

/-- Every stop but the exhaustion of allocation ids becomes an error that no `try`
catches. -/
theorem isUncatchable_toError {stop : ControlStop}
    (h : stop ≠ .internalFailure .allocationIdExhausted) (line : Nat) :
    ErrorKind.isUncatchable (stop.toError line).kind = true := by
  match stop with
  | .cancelled | .deadlineExceeded .. => rfl
  | .internalFailure .cooperativeAdapterYieldInSyncContext => rfl
  | .internalFailure .allocationIdExhausted => exact absurd rfl h
  | .budgetExceeded e =>
    obtain ⟨resource, limit, used, reserved, requested, unit, phase⟩ := e
    cases resource <;> rfl

end ControlStop

end Tsumugi.Budget
