import Mathlib.Algebra.Ring.Nat
import Mathlib.Tactic.Common

/-!
# Budget resources and usage (`budget.rs`)

The data that budget accounting and the audit stream share.
-/

namespace Tsumugi.Budget

/-- `MonotonicInstant`: a tick of one clock. -/
structure MonotonicInstant where
  clockId : Nat
  ns : Nat
deriving DecidableEq, Repr

/-- `BudgetConfig`. Two limits are `u32`. -/
structure BudgetConfig where
  heapAccountingRevision : Nat
  totalFuel : Nat
  maxLiveHeapBytes : Nat
  maxStringAllocations : Nat
  maxStringBytes : Nat
  maxSingleStringBytes : Nat
  maxSourceCount : Nat
  maxSourceBytes : Nat
  maxSingleSourceBytes : Nat
  maxImportCount : Nat
  maxImportBytes : Nat
  maxCollectionElements : Nat
  maxInputCalls : Nat
  maxInputBytes : Nat
  maxOutputCalls : Nat
  maxOutputBytes : Nat
  maxHostCalls : Nat
  maxHostRequestBytes : Nat
  maxHostResponseBytes : Nat
  maxHostCallBytes : Nat
  deadline : MonotonicInstant
  sourceCount_lt : maxSourceCount < 2 ^ 32 := by decide
  importCount_lt : maxImportCount < 2 ^ 32 := by decide
deriving DecidableEq, Repr

theorem zero_lt_u32 : 0 < 2 ^ 32 := by decide

theorem ten_lt_u32 : 10 < 2 ^ 32 := by decide

/-- `BudgetCounters`. -/
structure BudgetCounters where
  fuel : Nat := 0
  stringAllocations : Nat := 0
  stringBytes : Nat := 0
  sourceCount : Nat := 0
  sourceBytes : Nat := 0
  importCount : Nat := 0
  importBytes : Nat := 0
  inputCalls : Nat := 0
  inputBytes : Nat := 0
  outputCalls : Nat := 0
  outputBytes : Nat := 0
  hostCalls : Nat := 0
  hostRequestBytes : Nat := 0
  hostResponseBytes : Nat := 0
  hostCallBytes : Nat := 0
deriving DecidableEq, Repr

/-- `BudgetPeaks`. -/
structure BudgetPeaks where
  singleStringBytes : Nat := 0
  singleSourceBytes : Nat := 0
  collectionElements : Nat := 0
deriving DecidableEq, Repr

/-- `BudgetUsage`. -/
structure BudgetUsage where
  committed : BudgetCounters := {}
  reserved : BudgetCounters := {}
  liveHeapBytes : Nat := 0
  reservedHeapBytes : Nat := 0
  peakHeapBytes : Nat := 0
  peaks : BudgetPeaks := {}
deriving DecidableEq, Repr

/-- `BudgetResource`, in the order of its fixed priority. -/
inductive BudgetResource
  | fuel
  | heapBytes
  | singleStringBytes
  | stringAllocations
  | stringBytes
  | singleSourceBytes
  | sourceCount
  | sourceBytes
  | importCount
  | importBytes
  | collectionElements
  | inputCalls
  | inputBytes
  | outputCalls
  | outputBytes
  | hostCalls
  | hostRequestBytes
  | hostResponseBytes
  | hostCallBytes
deriving DecidableEq, Repr

/-- `BudgetResource::priority`: the smaller wins. -/
def BudgetResource.priority : BudgetResource → Nat
  | fuel => 1
  | heapBytes => 2
  | singleStringBytes => 3
  | stringAllocations => 4
  | stringBytes => 5
  | singleSourceBytes => 6
  | sourceCount => 7
  | sourceBytes => 8
  | importCount => 9
  | importBytes => 10
  | collectionElements => 11
  | inputCalls => 12
  | inputBytes => 13
  | outputCalls => 14
  | outputBytes => 15
  | hostCalls => 16
  | hostRequestBytes => 17
  | hostResponseBytes => 18
  | hostCallBytes => 19

end Tsumugi.Budget
