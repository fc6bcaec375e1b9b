import Mathlib.Data.List.Sort
import Tsumugi.Audit.Event

/-!
# Budget charges, grouped (`audit.rs` §7.3)

Charges and releases of one resource and one reason add up in a running group. A
group of 256 charges is cut off into the finalized events; `flush` returns those
and then the running groups in a fixed order.
-/

namespace Tsumugi.Audit

open Budget Word

/-- `ChargeGroup`. -/
structure ChargeGroup where
  resource : BudgetResource
  reason : BudgetChargeReason
  committedDelta : Nat
  releasedDelta : Nat
  usageAfter : Nat
  peakAfter : Option Nat
  chargeCount : Nat
deriving DecidableEq, Repr

/-- `ChargeGroup::into_event`. -/
def ChargeGroup.intoEvent (g : ChargeGroup) : AuditEvent :=
  .budgetCharged g.resource g.committedDelta g.releasedDelta g.usageAfter g.peakAfter
    g.chargeCount g.reason

/-- `BudgetChargeAccumulator`. -/
structure BudgetChargeAccumulator where
  groups : List ChargeGroup := []
  finalized : List AuditEvent := []
  finalizedEventBytes : Nat := 0

/-- `CHARGE_FLUSH_THRESHOLD`. -/
def chargeFlushThreshold : Nat := 256

/-- `resource_sort_key`: one less than the fixed priority. -/
def resourceSortKey (resource : BudgetResource) : Nat := resource.priority - 1

/-- `reason_sort_key`: the declaration order. -/
def reasonSortKey : BudgetChargeReason → Nat
  | .statement => 0
  | .expression => 1
  | .operation => 2
  | .function => 3
  | .loop => 4
  | .hostCall => 5
  | .bulkElements => 6
  | .bulkBytes => 7
  | .allocation => 8
  | .source => 9
  | .input => 10
  | .output => 11

/-- The order in which `flush` puts the running groups. -/
def ChargeGroup.KeyLe (g h : ChargeGroup) : Prop :=
  resourceSortKey g.resource < resourceSortKey h.resource ∨
    (resourceSortKey g.resource = resourceSortKey h.resource ∧
      reasonSortKey g.reason ≤ reasonSortKey h.reason)

instance : DecidableRel ChargeGroup.KeyLe := fun _ _ =>
  inferInstanceAs (Decidable (_ ∨ _))

namespace BudgetChargeAccumulator

/-- `position`. -/
def position (acc : BudgetChargeAccumulator) (resource : BudgetResource)
    (reason : BudgetChargeReason) : Option Nat :=
  acc.groups.findIdx? fun g => g.resource = resource ∧ g.reason = reason

/-- `push_finalized`. -/
def pushFinalized (acc : BudgetChargeAccumulator) (event : AuditEvent) :
    BudgetChargeAccumulator :=
  { acc with
    finalizedEventBytes := satAdd acc.finalizedEventBytes (estimateEventBytes event)
    finalized := acc.finalized ++ [event] }

/-- What charge and release share: add to the running group, or open one. -/
def note (acc : BudgetChargeAccumulator) (fresh : ChargeGroup)
    (add : ChargeGroup → ChargeGroup) : BudgetChargeAccumulator :=
  match acc.position fresh.resource fresh.reason with
  | none => { acc with groups := acc.groups ++ [fresh] }
  | some idx =>
    match acc.groups[idx]? with
    | none => acc
    | some old =>
      let g := { add old with chargeCount := satAdd old.chargeCount 1 }
      if g.chargeCount ≥ chargeFlushThreshold then
        { acc with groups := acc.groups.eraseIdx idx }.pushFinalized g.intoEvent
      else { acc with groups := acc.groups.set idx g }

/-- `note_charge`. -/
def noteCharge (acc : BudgetChargeAccumulator) (resource : BudgetResource)
    (reason : BudgetChargeReason) (committedDelta usageAfter : Nat) : BudgetChargeAccumulator :=
  acc.note ⟨resource, reason, committedDelta, 0, usageAfter, none, 1⟩ fun g =>
    { g with committedDelta := satAdd g.committedDelta committedDelta, usageAfter }

/-- `note_release`. -/
def noteRelease (acc : BudgetChargeAccumulator) (resource : BudgetResource)
    (reason : BudgetChargeReason) (releasedDelta usageAfter peakAfter : Nat) :
    BudgetChargeAccumulator :=
  acc.note ⟨resource, reason, 0, releasedDelta, usageAfter, some peakAfter, 1⟩ fun g =>
    { g with
      releasedDelta := satAdd g.releasedDelta releasedDelta
      usageAfter
      peakAfter := some peakAfter }

/-- `finalized_queue_bytes`. -/
def finalizedQueueBytes (acc : BudgetChargeAccumulator) (envelopeOverhead : Nat) : Nat :=
  satAdd acc.finalizedEventBytes (satMul acc.finalized.length envelopeOverhead)

/-- `flush`: the events, and the accumulator emptied. -/
def flush (acc : BudgetChargeAccumulator) : List AuditEvent × BudgetChargeAccumulator :=
  (acc.finalized ++ (acc.groups.insertionSort ChargeGroup.KeyLe).map ChargeGroup.intoEvent, {})

@[simp] theorem flush_snd (acc : BudgetChargeAccumulator) : acc.flush.2 = {} := rfl

@[simp] theorem flush_empty : ({} : BudgetChargeAccumulator).flush = ([], {}) := rfl

@[simp] theorem finalizedQueueBytes_empty (overhead : Nat) :
    ({} : BudgetChargeAccumulator).finalizedQueueBytes overhead = 0 := by
  simp [finalizedQueueBytes, satMul, satAdd]

end BudgetChargeAccumulator

end Tsumugi.Audit
