import Tsumugi.Audit.Encoding

/-!
# What the encoding of an envelope determines

Every encoder writes one data item. The item says what was encoded, but for the clock of a
deadline, and items are self-delimiting; so the bytes of a stream of envelopes, one after the
other, tell the envelopes.

Results:
1. `encodeToVec_eq`: the two passes agree, and only the length can be at fault.
2. `flatten_auditEnvelope`: what is written for an envelope is one data item.
3. `stream_determines`: the bytes of a stream determine its envelopes.
4. `envelope_within_bound`: the bound on the fixed part holds for every sequence number.
-/

namespace Tsumugi.Audit.Encoding

open Budget Word
open Capability (utf8Bytes)
open Capability.SetIdLemmas (utf8Bytes_injective length_utf8Bytes)
open Codec (bigEndian SelfDelimiting)
open Cbor (Item codes FitAll)

variable {α : Type}

/-! ## The passes -/

theorem foldlM_sizeOut (value : Puts) (len : Nat) (hlen : len ≤ maxU64) :
    value.foldlM sizeOut len = if len + value.flatten.length ≤ maxU64
      then .ok (len + value.flatten.length) else .error .lengthOverflow := by
  induction value generalizing len with
  | nil => simp [hlen, pure, Except.pure]
  | cons bytes rest ih =>
    rw [List.foldlM_cons, List.flatten_cons, List.length_append, ← Nat.add_assoc]
    by_cases hfit : len + bytes.length ≤ maxU64
    · have hput : sizeOut len bytes = .ok (len + bytes.length) := by
        simp [sizeOut, checkedAdd, hfit]
      rw [hput]
      exact ih _ hfit
    · have hput : sizeOut len bytes = .error .lengthOverflow := by
        simp [sizeOut, checkedAdd, hfit]
      rw [hput, if_neg (by omega)]
      rfl

theorem encodedLen_eq (value : Puts) :
    encodedLen value = if value.flatten.length ≤ maxU64
      then .ok value.flatten.length else .error .lengthOverflow := by
  rw [encodedLen, foldlM_sizeOut value 0 (Nat.zero_le _), Nat.zero_add]

theorem foldlM_vecOut (value : Puts) (buf : List UInt8) :
    value.foldlM vecOut buf = .ok (buf ++ value.flatten) := by
  induction value generalizing buf with
  | nil => simp [pure, Except.pure]
  | cons bytes rest ih =>
    rw [List.foldlM_cons, List.flatten_cons, ← List.append_assoc]
    exact ih _

/-- The passes agree: the write pass never finds another length. -/
theorem encodeToVec_eq (value : Puts) :
    encodeToVec value = if value.flatten.length ≤ maxU64
      then .ok value.flatten else .error .lengthOverflow := by
  rw [encodeToVec, encodedLen_eq, foldlM_vecOut]
  split
  · simp [bind, Except.bind]
  · rfl

example : encodeToVec (terminalOutcome (.exited 3)) = .ok [0x82, 0x01, 0x03] := by decide

/-! ## Primitives -/

/-- The first byte of a head. -/
theorem firstByte : ∀ m < 8, ∀ low < 32,
    UInt8.ofNat m <<< 5 ||| UInt8.ofNat low = UInt8.ofNat (32 * m + low) := by
  decide +kernel

theorem flatten_head {m : Nat} (hm : m < 8) (arg : Nat) :
    (head (UInt8.ofNat m) arg).flatten = Cbor.head m arg := by
  have hbyte := fun low hlow => firstByte m hm low hlow
  unfold head Cbor.head Cbor.low Cbor.width
  split_ifs <;> first
    | omega
    | exact congrArg (fun b => b :: bigEndian 0 arg) (hbyte arg (by omega))
    | simp [← hbyte 24 (by decide), ← hbyte 25 (by decide), ← hbyte 26 (by decide),
        ← hbyte 27 (by decide)]

@[simp] theorem flatten_uint (v : Nat) : (uint v).flatten = Cbor.head 0 v :=
  flatten_head (by decide) v

@[simp] theorem flatten_arrayHeader (len : Nat) : (arrayHeader len).flatten = Cbor.head 4 len :=
  flatten_head (by decide) len

@[simp] theorem flatten_bytes (v : List UInt8) :
    (bytes v).flatten = Cbor.head 2 v.length ++ v := by
  rw [bytes, List.flatten_append, show (2 : UInt8) = UInt8.ofNat 2 from rfl,
    flatten_head (by decide)]
  simp

@[simp] theorem flatten_text (v : String) :
    (text v).flatten = Cbor.head 3 (utf8Bytes v).length ++ utf8Bytes v := by
  rw [text, List.flatten_append, show (3 : UInt8) = UInt8.ofNat 3 from rfl,
    flatten_head (by decide), length_utf8Bytes]
  simp

@[simp] theorem flatten_boolean (v : Bool) :
    (boolean v).flatten = Cbor.head 7 (if v then 21 else 20) := by
  cases v <;> decide

@[simp] theorem flatten_tagged (tag fields : Nat) :
    (tagged tag fields).flatten = Cbor.head 4 (1 + fields) ++ Cbor.head 0 tag := by
  simp [tagged]

/-! ## Items -/

def intItem (v : Int) : Item := if 0 ≤ v then .uint v.toNat else .negative (-1 - v).toNat

def textItem (v : String) : Item := .text (utf8Bytes v)

def optionItem (item : α → Item) : Option α → Item
  | none => .array [.uint 0]
  | some v => .array [.uint 1, item v]

def vecItem (item : α → Item) (v : List α) : Item := .array (v.map item)

def fieldlessItem (tag : α → Nat) (v : α) : Item := .array [.uint (tag v)]

def yieldReasonItem : AuditYieldReason → Item
  | .admissionQueued resumeTo => .array [.uint 0, fieldlessItem admissionPhaseTag resumeTo]
  | .sliceFuelExhausted => .array [.uint 1]
  | .explicitYield => .array [.uint 2]
  | .hostCallPending callId => .array [.uint 3, .uint callId]
  | .auditBackpressure => .array [.uint 4]
  | .schedulerPreempted => .array [.uint 5]
  | .hostPaused => .array [.uint 6]

def outcomeItem : TerminalOutcome → Item
  | .completed => .array [.uint 0]
  | .exited code => .array [.uint 1, .uint code]
  | .denied => .array [.uint 2]
  | .linkError => .array [.uint 3]
  | .runtimeError => .array [.uint 4]
  | .hostError => .array [.uint 5]
  | .budgetExceeded resource => .array [.uint 6, fieldlessItem budgetResourceTag resource]
  | .deadlineExceeded => .array [.uint 7]
  | .cancelled => .array [.uint 8]
  | .auditFailure => .array [.uint 9]
  | .internalFailure => .array [.uint 10]
  | .recordFailure => .array [.uint 11]
  | .replayMismatch => .array [.uint 12]

def configItem (v : BudgetConfig) : Item :=
  .array [.uint v.heapAccountingRevision, .uint v.totalFuel, .uint v.maxLiveHeapBytes,
    .uint v.maxStringAllocations, .uint v.maxStringBytes, .uint v.maxSingleStringBytes,
    .uint v.maxSourceCount, .uint v.maxSourceBytes, .uint v.maxSingleSourceBytes,
    .uint v.maxImportCount, .uint v.maxImportBytes, .uint v.maxCollectionElements,
    .uint v.maxInputCalls, .uint v.maxInputBytes, .uint v.maxOutputCalls, .uint v.maxOutputBytes,
    .uint v.maxHostCalls, .uint v.maxHostRequestBytes, .uint v.maxHostResponseBytes,
    .uint v.maxHostCallBytes, .uint v.deadline.ns]

def countersItem (v : BudgetCounters) : Item :=
  .array [.uint v.fuel, .uint v.stringAllocations, .uint v.stringBytes, .uint v.sourceCount,
    .uint v.sourceBytes, .uint v.importCount, .uint v.importBytes, .uint v.inputCalls,
    .uint v.inputBytes, .uint v.outputCalls, .uint v.outputBytes, .uint v.hostCalls,
    .uint v.hostRequestBytes, .uint v.hostResponseBytes, .uint v.hostCallBytes]

def peaksItem (v : BudgetPeaks) : Item :=
  .array [.uint v.singleStringBytes, .uint v.singleSourceBytes, .uint v.collectionElements]

def usageItem (v : BudgetUsage) : Item :=
  .array [countersItem v.committed, countersItem v.reserved, .uint v.liveHeapBytes,
    .uint v.reservedHeapBytes, .uint v.peakHeapBytes, peaksItem v.peaks]

def frameItem (v : AuditFrame) : Item :=
  .array [textItem v.function, textItem v.moduleId, .uint v.line]

def errorItem (v : AuditError) : Item :=
  .array [textItem v.code, textItem v.messageId, optionItem textItem v.moduleId,
    optionItem .uint v.line, optionItem .uint v.column, vecItem frameItem v.trace,
    .uint v.omittedTraceFrames]

def errorPayloadItem : AuditErrorPayload → Item
  | .full error => .array [.uint 0, errorItem error]
  | .emergency code messageId fullErrorBytes fullErrorSha256 =>
    .array [.uint 1, textItem code, textItem messageId, .uint fullErrorBytes,
      .bytes fullErrorSha256]

def scalarItem : AuditScalar → Item
  | .null => .array [.uint 0]
  | .bool v => .array [.uint 1, .bool v]
  | .int v => .array [.uint 2, intItem v]
  | .float bits => .array [.uint 3, .bytes (bigEndian 8 bits)]
  | .utf8 v => .array [.uint 4, textItem v]
  | .bytes v => .array [.uint 5, .bytes v]

mutual

def valueItem : AuditValue → Item
  | .scalar v => .array [.uint 0, scalarItem v]
  | .sequence items => .array [.uint 1, .array (fieldItems items)]
  | .object entries => .array [.uint 2, .array (entryItems entries)]

def fieldItem : AuditField → Item
  | .revealed fieldClass value originalBytes =>
    .array [.uint 0, fieldlessItem auditFieldClassTag fieldClass, valueItem value,
      .uint originalBytes]
  | .hmacSha256 fieldClass digest originalBytes =>
    .array [.uint 1, fieldlessItem auditFieldClassTag fieldClass, .bytes digest,
      .uint originalBytes]
  | .omitted fieldClass originalBytes =>
    .array [.uint 2, fieldlessItem auditFieldClassTag fieldClass, .uint originalBytes]

def fieldItems : List AuditField → List Item
  | [] => []
  | field :: rest => fieldItem field :: fieldItems rest

def entryItems : List (String × AuditField) → List Item
  | [] => []
  | (key, field) :: rest => .array [textItem key, fieldItem field] :: entryItems rest

end

def payloadItem (v : AuditPayload) : Item := .array [.array (entryItems v.fields)]

def eventItem : AuditEvent → Item
  | .executionStarted engineVersion backend rulesRevision heapAccountingRevision budget
      capabilityPolicyHash redactionPolicyId mode =>
    .array [.uint 0, textItem engineVersion, fieldlessItem backendTag backend,
      .uint rulesRevision, .uint heapAccountingRevision, configItem budget,
      .bytes capabilityPolicyHash, textItem redactionPolicyId,
      fieldlessItem executionModeTag mode]
  | .capabilityDecision operationId callId capability action resource decision ruleId =>
    .array [.uint 1, .uint operationId, optionItem .uint callId, textItem capability,
      textItem action, payloadItem resource, fieldlessItem capabilityDecisionKindTag decision,
      textItem ruleId]
  | .hostCallStarted operationId callId function request requestBytes =>
    .array [.uint 2, .uint operationId, .uint callId, textItem function, payloadItem request,
      .uint requestBytes]
  | .hostCallFinished operationId callId outcome response responseBytes errorCode effectStatus =>
    .array [.uint 3, .uint operationId, .uint callId, fieldlessItem hostCallOutcomeTag outcome,
      payloadItem response, .uint responseBytes, optionItem textItem errorCode,
      fieldlessItem effectStatusTag effectStatus]
  | .budgetCharged resource committedDelta releasedDelta usageAfter peakAfter chargeCount
      reason =>
    .array [.uint 4, fieldlessItem budgetResourceTag resource, .uint committedDelta,
      .uint releasedDelta, .uint usageAfter, optionItem .uint peakAfter, .uint chargeCount,
      fieldlessItem budgetChargeReasonTag reason]
  | .yielded reason pollIndex usage =>
    .array [.uint 5, yieldReasonItem reason, .uint pollIndex, usageItem usage]
  | .resumed previousReason pollIndex usage =>
    .array [.uint 6, yieldReasonItem previousReason, .uint pollIndex, usageItem usage]
  | .terminal outcome error usage importGraphHash contextCommitted hostEffectsMayRemain =>
    .array [.uint 7, outcomeItem outcome, optionItem errorPayloadItem error, usageItem usage,
      optionItem .bytes importGraphHash, .bool contextCommitted, .bool hostEffectsMayRemain]

def envelopeItem (v : AuditEnvelope) : Item :=
  .array [.uint v.schemaVersion, .bytes (bigEndian 16 v.executionId), .bytes v.sourceHash,
    textItem v.languageRevision, .uint v.sequence, .array [.bytes (i128Bytes v.timestamp)],
    eventItem v.event]

/-! ## What is written is the item -/

theorem flatten_int (v : Int) : (int v).flatten = (intItem v).code := by
  unfold int intItem
  split
  · exact flatten_head (m := 0) (by decide) _
  · exact flatten_head (m := 1) (by decide) _

theorem flatten_option {encode : α → Puts} {item : α → Item}
    (h : ∀ v, (encode v).flatten = (item v).code) (v : Option α) :
    (option encode v).flatten = (optionItem item v).code := by
  cases v <;> simp [option, optionItem, Item.code, codes, h]

theorem flatten_vec {encode : α → Puts} {item : α → Item}
    (h : ∀ v, (encode v).flatten = (item v).code) (v : List α) :
    (vec encode v).flatten = (vecItem item v).code := by
  have helems : ∀ v : List α, (v.flatMap encode).flatten = codes (v.map item) := by
    intro v
    induction v with
    | nil => rfl
    | cons a rest ih => simp [codes, h, ih]
  simp [vec, vecItem, Item.code, helems]

theorem flatten_fieldless (tag : α → Nat) (v : α) :
    (fieldless tag v).flatten = (fieldlessItem tag v).code := by
  simp [fieldless, fieldlessItem, Item.code, codes]

@[simp] theorem textItem_code (v : String) : (textItem v).code =
    Cbor.head 3 (utf8Bytes v).length ++ utf8Bytes v := by
  simp [textItem, Item.code]

@[simp] theorem uintItem_code (v : Nat) : (Item.uint v).code = Cbor.head 0 v := by
  simp [Item.code]

theorem flatten_yieldReason (v : AuditYieldReason) :
    (auditYieldReason v).flatten = (yieldReasonItem v).code := by
  cases v <;> simp [auditYieldReason, yieldReasonItem, Item.code, codes, flatten_fieldless]

theorem flatten_outcome (v : TerminalOutcome) :
    (terminalOutcome v).flatten = (outcomeItem v).code := by
  cases v <;> simp [terminalOutcome, outcomeItem, Item.code, codes, flatten_fieldless]

theorem flatten_config (v : BudgetConfig) : (budgetConfig v).flatten = (configItem v).code := by
  unfold budgetConfig monotonicInstant configItem
  simp only [List.flatten_append, flatten_arrayHeader, flatten_uint]
  simp only [Item.code, codes, List.append_assoc, List.append_nil]
  rfl

theorem flatten_counters (v : BudgetCounters) :
    (budgetCounters v).flatten = (countersItem v).code := by
  simp [budgetCounters, countersItem, Item.code, codes]

theorem flatten_peaks (v : BudgetPeaks) : (budgetPeaks v).flatten = (peaksItem v).code := by
  simp [budgetPeaks, peaksItem, Item.code, codes]

theorem flatten_usage (v : BudgetUsage) : (budgetUsage v).flatten = (usageItem v).code := by
  simp [budgetUsage, usageItem, Item.code, codes, flatten_counters, flatten_peaks]

theorem flatten_frame (v : AuditFrame) : (auditFrame v).flatten = (frameItem v).code := by
  simp [auditFrame, frameItem, Item.code, codes]

theorem flatten_error (v : AuditError) : (auditError v).flatten = (errorItem v).code := by
  have htext := flatten_option (fun s => (flatten_text s).trans (textItem_code s).symm)
  have huint := flatten_option (fun n => (flatten_uint n).trans (uintItem_code n).symm)
  simp [auditError, errorItem, Item.code, codes, htext, huint, flatten_vec flatten_frame]

theorem flatten_errorPayload (v : AuditErrorPayload) :
    (auditErrorPayload v).flatten = (errorPayloadItem v).code := by
  cases v <;> simp [auditErrorPayload, errorPayloadItem, Item.code, codes, flatten_error]

theorem flatten_scalar (v : AuditScalar) : (auditScalar v).flatten = (scalarItem v).code := by
  cases v <;> simp [auditScalar, scalarItem, Item.code, codes, flatten_int]

theorem length_fieldItems (items : List AuditField) :
    (fieldItems items).length = items.length := by
  induction items with
  | nil => rfl
  | cons field rest ih => simp [fieldItems, ih]

theorem length_entryItems (entries : List (String × AuditField)) :
    (entryItems entries).length = entries.length := by
  induction entries with
  | nil => rfl
  | cons entry rest ih => simp [entryItems, ih]

mutual

theorem flatten_value : ∀ v : AuditValue, (auditValue v).flatten = (valueItem v).code
  | .scalar v => by simp [auditValue, valueItem, Item.code, codes, flatten_scalar]
  | .sequence items => by
    simp [auditValue, valueItem, Item.code, codes, length_fieldItems, flatten_fields items]
  | .object entries => by
    simp [auditValue, valueItem, Item.code, codes, length_entryItems, flatten_entries entries]

theorem flatten_field : ∀ v : AuditField, (auditField v).flatten = (fieldItem v).code
  | .revealed _ value _ => by
    simp [auditField, fieldItem, Item.code, codes, flatten_fieldless, flatten_value value]
  | .hmacSha256 .. => by simp [auditField, fieldItem, Item.code, codes, flatten_fieldless]
  | .omitted .. => by simp [auditField, fieldItem, Item.code, codes, flatten_fieldless]

theorem flatten_fields : ∀ items : List AuditField,
    (auditFields items).flatten = codes (fieldItems items)
  | [] => rfl
  | field :: rest => by
    simp [auditFields, fieldItems, codes, flatten_field field, flatten_fields rest]

theorem flatten_entries : ∀ entries : List (String × AuditField),
    (auditEntries entries).flatten = codes (entryItems entries)
  | [] => rfl
  | (key, field) :: rest => by
    simp [auditEntries, entryItems, Item.code, codes, flatten_field field, flatten_entries rest]

end

theorem flatten_payload (v : AuditPayload) : (auditPayload v).flatten = (payloadItem v).code := by
  simp [auditPayload, payloadItem, Item.code, codes, length_entryItems, flatten_entries]

theorem flatten_event (v : AuditEvent) : (auditEvent v).flatten = (eventItem v).code := by
  have htext := flatten_option (fun s => (flatten_text s).trans (textItem_code s).symm)
  have huint := flatten_option (fun n => (flatten_uint n).trans (uintItem_code n).symm)
  have hbytes : ∀ v, (option bytes v).flatten = (optionItem Item.bytes v).code :=
    flatten_option fun v => (flatten_bytes v).trans (by rw [Item.code])
  cases v <;> simp [auditEvent, eventItem, Item.code, codes, flatten_fieldless, flatten_config,
    flatten_payload, flatten_yieldReason, flatten_usage, flatten_outcome, htext, huint, hbytes,
    flatten_option flatten_errorPayload]

theorem flatten_auditEnvelope (v : AuditEnvelope) :
    (auditEnvelope v).flatten = (envelopeItem v).code := by
  simp [auditEnvelope, envelopeItem, executionId, hostTimestamp, Item.code, codes, flatten_event]

/-! ## The item says what was encoded -/

@[simp] theorem textItem_inj {v w : String} : textItem v = textItem w ↔ v = w := by
  simp [textItem, utf8Bytes_injective.eq_iff]

@[simp] theorem intItem_inj {v w : Int} : intItem v = intItem w ↔ v = w := by
  unfold intItem
  split <;> split <;> simp <;> omega

theorem optionItem_inj {item : α → Item} (h : Function.Injective item) {v w : Option α} :
    optionItem item v = optionItem item w ↔ v = w := by
  cases v <;> cases w <;> simp [optionItem, h.eq_iff]

theorem uint_injective : Function.Injective Item.uint := fun _ _ => Item.uint.inj

theorem bytes_injective : Function.Injective Item.bytes := fun _ _ => Item.bytes.inj

theorem textItem_injective : Function.Injective textItem := fun _ _ => textItem_inj.mp

@[simp] theorem fieldlessItem_inj {tag : α → Nat} {v w : α} :
    fieldlessItem tag v = fieldlessItem tag w ↔ tag v = tag w := by
  simp [fieldlessItem]

theorem backendTag_inj : Function.Injective backendTag := by
  rintro (_ | _) (_ | _) h <;> first | rfl | cases h

theorem executionModeTag_inj : Function.Injective executionModeTag := by
  intro v w h
  cases v <;> cases w <;> first | rfl | cases h

theorem admissionPhaseTag_inj : Function.Injective admissionPhaseTag := by
  intro v w h
  cases v <;> cases w <;> first | rfl | cases h

theorem capabilityDecisionKindTag_inj : Function.Injective capabilityDecisionKindTag := by
  intro v w h
  cases v <;> cases w <;> first | rfl | cases h

theorem hostCallOutcomeTag_inj : Function.Injective hostCallOutcomeTag := by
  intro v w h
  cases v <;> cases w <;> first | rfl | cases h

theorem effectStatusTag_inj : Function.Injective effectStatusTag := by
  intro v w h
  cases v <;> cases w <;> first | rfl | cases h

theorem auditFieldClassTag_inj : Function.Injective auditFieldClassTag := by
  intro v w h
  cases v <;> cases w <;> first | rfl | cases h

theorem budgetChargeReasonTag_inj : Function.Injective budgetChargeReasonTag := by
  intro v w h
  cases v <;> cases w <;> first | rfl | cases h

theorem budgetResourceTag_inj : Function.Injective budgetResourceTag := by
  intro v w h
  cases v <;> cases w <;> first | rfl | cases h

theorem yieldReasonItem_inj : Function.Injective yieldReasonItem := by
  intro v w h
  cases v <;> cases w <;> simp_all [yieldReasonItem, admissionPhaseTag_inj.eq_iff]

theorem outcomeItem_inj : Function.Injective outcomeItem := by
  intro v w h
  cases v <;> cases w <;> simp_all [outcomeItem, budgetResourceTag_inj.eq_iff]

theorem countersItem_inj : Function.Injective countersItem := by
  rintro ⟨⟩ ⟨⟩ h
  simpa [countersItem] using h

theorem peaksItem_inj : Function.Injective peaksItem := by
  rintro ⟨⟩ ⟨⟩ h
  simpa [peaksItem] using h

theorem usageItem_inj : Function.Injective usageItem := by
  rintro ⟨⟩ ⟨⟩ h
  simpa [usageItem, countersItem_inj.eq_iff, peaksItem_inj.eq_iff] using h

theorem frameItem_inj : Function.Injective frameItem := by
  rintro ⟨⟩ ⟨⟩ h
  simpa [frameItem] using h

theorem errorItem_inj : Function.Injective errorItem := by
  rintro ⟨⟩ ⟨⟩ h
  simpa [errorItem, vecItem, optionItem_inj textItem_injective, optionItem_inj uint_injective,
    (List.map_injective_iff.mpr frameItem_inj).eq_iff] using h

theorem errorPayloadItem_inj : Function.Injective errorPayloadItem := by
  intro v w h
  cases v <;> cases w <;> simp_all [errorPayloadItem, errorItem_inj.eq_iff]

/-- The widths of the floats: `f64` bits. -/
def ScalarFits : AuditScalar → Prop
  | .float bits => bits < 2 ^ 64
  | _ => True

mutual

def ValueFits : AuditValue → Prop
  | .scalar v => ScalarFits v
  | .sequence items => FieldsFit items
  | .object entries => EntriesFit entries

def FieldFits : AuditField → Prop
  | .revealed _ value _ => ValueFits value
  | .hmacSha256 .. | .omitted .. => True

def FieldsFit : List AuditField → Prop
  | [] => True
  | field :: rest => FieldFits field ∧ FieldsFit rest

def EntriesFit : List (String × AuditField) → Prop
  | [] => True
  | (_, field) :: rest => FieldFits field ∧ EntriesFit rest

end

theorem bigEndian_inj {w n m : Nat} (hn : n < 256 ^ w) (hm : m < 256 ^ w)
    (h : bigEndian w n = bigEndian w m) : n = m :=
  (Codec.selfDelimiting_bigEndian w).injOn hn hm h

theorem scalarItem_inj {v w : AuditScalar} (hv : ScalarFits v) (hw : ScalarFits w)
    (h : scalarItem v = scalarItem w) : v = w := by
  cases v <;> cases w <;> simp [scalarItem] at h ⊢ <;> first
    | exact h
    | exact bigEndian_inj hv hw h

mutual

theorem valueItem_inj : ∀ (v w : AuditValue), ValueFits v → ValueFits w →
    valueItem v = valueItem w → v = w
  | .scalar v, w, hv, hw, h => by
    cases w with
    | scalar w =>
      simp only [valueItem, Item.array.injEq, List.cons.injEq] at h
      rw [scalarItem_inj hv hw h.2.1]
    | _ => simp [valueItem] at h
  | .sequence items, w, hv, hw, h => by
    cases w with
    | sequence items' =>
      simp only [valueItem, Item.array.injEq, List.cons.injEq] at h
      rw [fieldItems_inj items items' hv hw h.2.1]
    | _ => simp [valueItem] at h
  | .object entries, w, hv, hw, h => by
    cases w with
    | object entries' =>
      simp only [valueItem, Item.array.injEq, List.cons.injEq] at h
      rw [entryItems_inj entries entries' hv hw h.2.1]
    | _ => simp [valueItem] at h

theorem fieldItem_inj : ∀ (v w : AuditField), FieldFits v → FieldFits w →
    fieldItem v = fieldItem w → v = w
  | .revealed fieldClass value originalBytes, w, hv, hw, h => by
    cases w with
    | revealed fieldClass' value' originalBytes' =>
      simp only [fieldItem, Item.array.injEq, List.cons.injEq, fieldlessItem_inj,
        auditFieldClassTag_inj.eq_iff, Item.uint.injEq] at h
      rw [h.2.1, valueItem_inj value value' hv hw h.2.2.1, h.2.2.2.1]
    | _ => simp [fieldItem] at h
  | .hmacSha256 .., w, _, _, h => by
    cases w <;> simp_all [fieldItem, auditFieldClassTag_inj.eq_iff]
  | .omitted .., w, _, _, h => by
    cases w <;> simp_all [fieldItem, auditFieldClassTag_inj.eq_iff]

theorem fieldItems_inj : ∀ (v w : List AuditField), FieldsFit v → FieldsFit w →
    fieldItems v = fieldItems w → v = w
  | [], [], _, _, _ => rfl
  | [], _ :: _, _, _, h => by simp [fieldItems] at h
  | _ :: _, [], _, _, h => by simp [fieldItems] at h
  | field :: rest, field' :: rest', hv, hw, h => by
    simp only [fieldItems, List.cons.injEq] at h
    rw [fieldItem_inj field field' hv.1 hw.1 h.1, fieldItems_inj rest rest' hv.2 hw.2 h.2]

theorem entryItems_inj : ∀ (v w : List (String × AuditField)), EntriesFit v → EntriesFit w →
    entryItems v = entryItems w → v = w
  | [], [], _, _, _ => rfl
  | [], (_, _) :: _, _, _, h => by simp [entryItems] at h
  | (_, _) :: _, [], _, _, h => by simp [entryItems] at h
  | (key, field) :: rest, (key', field') :: rest', hv, hw, h => by
    simp only [entryItems, List.cons.injEq, Item.array.injEq, textItem_inj] at h
    rw [h.1.1, fieldItem_inj field field' hv.1 hw.1 h.1.2.1,
      entryItems_inj rest rest' hv.2 hw.2 h.2]

end

/-! ## Envelopes -/

/-- The configuration without the clock of its deadline, which is not written. -/
def withoutClock (v : BudgetConfig) : BudgetConfig :=
  { v with deadline := ⟨0, v.deadline.ns⟩ }

/-- The event without the clock of the deadline. -/
def eventWithoutClock : AuditEvent → AuditEvent
  | .executionStarted engineVersion backend rulesRevision heapAccountingRevision budget
      capabilityPolicyHash redactionPolicyId mode =>
    .executionStarted engineVersion backend rulesRevision heapAccountingRevision
      (withoutClock budget) capabilityPolicyHash redactionPolicyId mode
  | event => event

def envelopeWithoutClock (v : AuditEnvelope) : AuditEnvelope :=
  { v with event := eventWithoutClock v.event }

/-- The floats of an event have 64 bits. -/
def EventFits : AuditEvent → Prop
  | .capabilityDecision _ _ _ _ resource _ _ => EntriesFit resource.fields
  | .hostCallStarted _ _ _ request _ => EntriesFit request.fields
  | .hostCallFinished _ _ _ response _ _ _ => EntriesFit response.fields
  | _ => True

/-- The envelope has the widths of its types: `u128`, `i128`, `f64` and `u64`, and every length
fits into a `u64`. -/
structure EnvelopeFits (v : AuditEnvelope) : Prop where
  executionId : v.executionId < 2 ^ 128
  timestamp : -2 ^ 127 ≤ v.timestamp ∧ v.timestamp < 2 ^ 127
  event : EventFits v.event
  item : (envelopeItem v).Fits

theorem configItem_inj {v w : BudgetConfig} (h : configItem v = configItem w) :
    withoutClock v = withoutClock w := by
  rcases v with ⟨⟩
  rcases w with ⟨⟩
  simpa [configItem, withoutClock] using h

theorem payloadItem_inj {v w : AuditPayload} (hv : EntriesFit v.fields) (hw : EntriesFit w.fields)
    (h : payloadItem v = payloadItem w) : v = w := by
  rcases v with ⟨v⟩
  rcases w with ⟨w⟩
  simp only [payloadItem, Item.array.injEq, List.cons.injEq, and_true] at h
  rw [entryItems_inj v w hv hw h]

theorem eventItem_inj {v w : AuditEvent} (hv : EventFits v) (hw : EventFits w)
    (h : eventItem v = eventItem w) : eventWithoutClock v = eventWithoutClock w := by
  cases v with
  | executionStarted =>
    cases w with
    | executionStarted =>
      simp only [eventItem, Item.array.injEq, List.cons.injEq, textItem_inj, fieldlessItem_inj,
        backendTag_inj.eq_iff, executionModeTag_inj.eq_iff, Item.uint.injEq, Item.bytes.injEq,
        and_true, true_and] at h
      obtain ⟨rfl, rfl, rfl, rfl, hbudget, rfl, rfl, rfl⟩ := h
      simp only [eventWithoutClock, configItem_inj hbudget]
    | _ => simp [eventItem] at h
  | capabilityDecision =>
    cases w with
    | capabilityDecision =>
      simp only [eventItem, Item.array.injEq, List.cons.injEq, textItem_inj, fieldlessItem_inj,
        capabilityDecisionKindTag_inj.eq_iff, optionItem_inj uint_injective, Item.uint.injEq,
        and_true, true_and] at h
      obtain ⟨rfl, rfl, rfl, rfl, hresource, rfl, rfl⟩ := h
      rw [payloadItem_inj hv hw hresource]
    | _ => simp [eventItem] at h
  | hostCallStarted =>
    cases w with
    | hostCallStarted =>
      simp only [eventItem, Item.array.injEq, List.cons.injEq, textItem_inj, Item.uint.injEq,
        and_true, true_and] at h
      obtain ⟨rfl, rfl, rfl, hrequest, rfl⟩ := h
      rw [payloadItem_inj hv hw hrequest]
    | _ => simp [eventItem] at h
  | hostCallFinished =>
    cases w with
    | hostCallFinished =>
      simp only [eventItem, Item.array.injEq, List.cons.injEq, fieldlessItem_inj,
        hostCallOutcomeTag_inj.eq_iff, effectStatusTag_inj.eq_iff,
        optionItem_inj textItem_injective, Item.uint.injEq, and_true, true_and] at h
      obtain ⟨rfl, rfl, rfl, hresponse, rfl, rfl, rfl⟩ := h
      rw [payloadItem_inj hv hw hresponse]
    | _ => simp [eventItem] at h
  | budgetCharged =>
    cases w with
    | budgetCharged =>
      simpa [eventItem, eventWithoutClock, budgetResourceTag_inj.eq_iff,
        budgetChargeReasonTag_inj.eq_iff, optionItem_inj uint_injective] using h
    | _ => simp [eventItem] at h
  | yielded =>
    cases w with
    | yielded =>
      simpa [eventItem, eventWithoutClock, yieldReasonItem_inj.eq_iff,
        usageItem_inj.eq_iff] using h
    | _ => simp [eventItem] at h
  | resumed =>
    cases w with
    | resumed =>
      simpa [eventItem, eventWithoutClock, yieldReasonItem_inj.eq_iff,
        usageItem_inj.eq_iff] using h
    | _ => simp [eventItem] at h
  | terminal =>
    cases w with
    | terminal =>
      simpa [eventItem, eventWithoutClock, outcomeItem_inj.eq_iff, usageItem_inj.eq_iff,
        optionItem_inj errorPayloadItem_inj, optionItem_inj bytes_injective] using h
    | _ => simp [eventItem] at h

theorem i128Bytes_inj {v w : Int} (hv : -2 ^ 127 ≤ v ∧ v < 2 ^ 127)
    (hw : -2 ^ 127 ≤ w ∧ w < 2 ^ 127) (h : i128Bytes v = i128Bytes w) : v = w := by
  have hmod : ∀ x : Int, (x % 2 ^ 128).toNat < 256 ^ 16 := fun x => by omega
  have := bigEndian_inj (hmod v) (hmod w) h
  omega

theorem envelopeItem_inj {v w : AuditEnvelope} (hv : EnvelopeFits v) (hw : EnvelopeFits w)
    (h : envelopeItem v = envelopeItem w) : envelopeWithoutClock v = envelopeWithoutClock w := by
  rcases v with ⟨schema, id, hash, revision, sequence, timestamp, event⟩
  rcases w with ⟨schema', id', hash', revision', sequence', timestamp', event'⟩
  simp only [envelopeItem, Item.array.injEq, List.cons.injEq, Item.uint.injEq, Item.bytes.injEq,
    textItem_inj, and_true] at h
  obtain ⟨rfl, hid, rfl, rfl, rfl, htime, hevent⟩ := h
  obtain rfl := bigEndian_inj hv.executionId hw.executionId hid
  obtain rfl := i128Bytes_inj hv.timestamp hw.timestamp htime
  simp only [envelopeWithoutClock, eventItem_inj hv.event hw.event hevent]

theorem auditEvent_withoutClock (v : AuditEvent) :
    auditEvent (eventWithoutClock v) = auditEvent v := by
  cases v <;> rfl

theorem auditEnvelope_withoutClock (v : AuditEnvelope) :
    auditEnvelope (envelopeWithoutClock v) = auditEnvelope v := by
  simp only [auditEnvelope, envelopeWithoutClock, auditEvent_withoutClock]

theorem fitAll_map {vs : List AuditEnvelope} (h : ∀ v ∈ vs, EnvelopeFits v) :
    FitAll (vs.map envelopeItem) := by
  induction vs with
  | nil => trivial
  | cons v rest ih =>
    exact ⟨(h v List.mem_cons_self).item, ih fun w hw => h w (List.mem_cons_of_mem v hw)⟩

/-- What a sink gets: one encoding after the other. -/
theorem stream_eq {vs : List AuditEnvelope} {bytes : List (List UInt8)}
    (h : vs.mapM (fun v => encodeToVec (auditEnvelope v)) = .ok bytes) :
    bytes.flatten = codes (vs.map envelopeItem) := by
  induction vs generalizing bytes with
  | nil =>
    cases h
    rfl
  | cons v rest ih =>
    rw [List.mapM_cons, encodeToVec_eq] at h
    split at h
    · cases hrest : rest.mapM fun v => encodeToVec (auditEnvelope v) with
      | error e =>
        rw [hrest] at h
        cases h
      | ok tail =>
        rw [hrest] at h
        cases h
        rw [List.flatten_cons, List.map_cons, codes, ih hrest, flatten_auditEnvelope]
    · cases h

theorem envelopeItem_withoutClock (v : AuditEnvelope) :
    envelopeItem (envelopeWithoutClock v) = envelopeItem v := by
  rcases v with ⟨_, _, _, _, _, _, event⟩
  cases event <;> rfl

theorem map_withoutClock {vs ws : List AuditEnvelope} (hvs : ∀ v ∈ vs, EnvelopeFits v)
    (hws : ∀ w ∈ ws, EnvelopeFits w) (h : vs.map envelopeItem = ws.map envelopeItem) :
    vs.map envelopeWithoutClock = ws.map envelopeWithoutClock := by
  induction vs generalizing ws with
  | nil =>
    cases ws with
    | nil => rfl
    | cons w rest => cases h
  | cons v rest ih =>
    cases ws with
    | nil => cases h
    | cons w rest' =>
      obtain ⟨hhead, htail⟩ := List.cons.inj h
      have hfirst := envelopeItem_inj (hvs v List.mem_cons_self) (hws w List.mem_cons_self) hhead
      rw [List.map_cons, List.map_cons, hfirst,
        ih (fun x hx => hvs x (List.mem_cons_of_mem v hx))
          (fun x hx => hws x (List.mem_cons_of_mem w hx)) htail]

/-- The bytes of a stream of envelopes, one after the other, are those of no other stream, but for
the clocks of the deadlines. -/
theorem stream_determines {vs ws : List AuditEnvelope} (hvs : ∀ v ∈ vs, EnvelopeFits v)
    (hws : ∀ w ∈ ws, EnvelopeFits w) {bytes bytes' : List (List UInt8)}
    (hbytes : vs.mapM (fun v => encodeToVec (auditEnvelope v)) = .ok bytes)
    (hbytes' : ws.mapM (fun w => encodeToVec (auditEnvelope w)) = .ok bytes') :
    bytes.flatten = bytes'.flatten ↔
      vs.map envelopeWithoutClock = ws.map envelopeWithoutClock := by
  rw [stream_eq hbytes, stream_eq hbytes']
  refine ⟨fun h => ?_, fun h => ?_⟩
  · exact map_withoutClock hvs hws (Cbor.codes_injective (fitAll_map hvs) (fitAll_map hws) h)
  · have hitems := congrArg (List.map envelopeItem) h
    simp only [List.map_map, Function.comp_def, envelopeItem_withoutClock] at hitems
    rw [hitems]

/-- A yield with the sequence number `n`. -/
def yieldAt (n : Nat) : AuditEnvelope :=
  ⟨1, 7, [], "", n, -1, .yielded .explicitYield 0 {}⟩

theorem yieldAt_fits {n : Nat} (hn : n < 2 ^ 64) : EnvelopeFits (yieldAt n) where
  executionId := show 7 < 2 ^ 128 by decide
  timestamp := show -2 ^ 127 ≤ (-1 : Int) ∧ (-1 : Int) < 2 ^ 127 by decide
  event := trivial
  item := by
    simpa [envelopeItem, yieldAt, eventItem, yieldReasonItem, usageItem, countersItem, peaksItem,
      textItem, i128Bytes, Item.Fits, FitAll, length_utf8Bytes] using hn

theorem stream_determines_yields :
    [(auditEnvelope (yieldAt 1)).flatten].flatten = [(auditEnvelope (yieldAt 24)).flatten].flatten ↔
      [yieldAt 1].map envelopeWithoutClock = [yieldAt 24].map envelopeWithoutClock :=
  stream_determines (by simp [yieldAt_fits (n := 1) (by decide)])
    (by simp [yieldAt_fits (n := 24) (by decide)]) (by decide) (by decide)

/-! ## The bound on the fixed part -/

theorem length_head (major arg : Nat) : (Cbor.head major arg).length = 1 + Cbor.width arg := by
  simp [Cbor.head, Nat.add_comm]

theorem encodedLen_eq_ok {value : Puts} {len : Nat} (h : encodedLen value = .ok len) :
    len = value.flatten.length := by
  rw [encodedLen_eq] at h
  split at h
  · cases h
    rfl
  · cases h

/-- The queue counts an event before its sequence number is known: the bound covers every
number, and is at most eight bytes too large. -/
theorem envelope_within_bound {v : AuditEnvelope} (hschema : v.schemaVersion = 1)
    (hhash : v.sourceHash.length = 32) {bound event len : Nat}
    (hbound : envelopeFixedLenUpperBound v.languageRevision = .ok bound)
    (hevent : encodedLen (auditEvent v.event) = .ok event)
    (hlen : encodedLen (auditEnvelope v) = .ok len) :
    len ≤ bound + event ∧ bound + event ≤ len + 8 := by
  obtain rfl := encodedLen_eq_ok hbound
  obtain rfl := encodedLen_eq_ok hevent
  obtain rfl := encodedLen_eq_ok hlen
  have hmax : Cbor.width maxU64 = 8 := by decide
  have hwidth : Cbor.width v.sequence ≤ 8 := by
    unfold Cbor.width
    split_ifs <;> omega
  simp only [auditEnvelope, executionId, hostTimestamp, i128Bytes, List.flatten_append,
    List.length_append, flatten_arrayHeader, flatten_uint, flatten_bytes, flatten_text,
    length_head, Codec.length_bigEndian, List.length_replicate, hschema, hhash, hmax]
  omega

end Tsumugi.Audit.Encoding
