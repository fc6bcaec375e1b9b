import Tsumugi.Audit.Event
import Tsumugi.Engine.Hash

/-!
# Redaction of audit fields (`audit.rs`)

The redaction policy of an engine and the rules that fold a value into an audit field. A path
is recorded as the digest of its label or not at all, and a body only under a key of the allow
list and within the limit, in full.
-/

namespace Tsumugi.Audit

/-- `RedactionMode`. -/
inductive RedactionMode
  | reveal
  | hmacSha256
  | omit
deriving DecidableEq, Repr

/-- `AuditDirection`. -/
inductive AuditDirection
  | request
  | response
deriving DecidableEq, Repr

/-- `AuditFieldKey`. -/
structure AuditFieldKey where
  operation : String
  direction : AuditDirection
  field : String
deriving DecidableEq, Repr

/-- `RedactionPolicy`, with its `Default`. -/
structure RedactionPolicy where
  policyId : String := "default-r1"
  identifierMode : RedactionMode := .reveal
  pathMode : RedactionMode := .hmacSha256
  bodyMode : RedactionMode := .omit
  revealBodyFields : List AuditFieldKey := []
  hmacKey : List UInt8 := Capability.utf8Bytes "tsumugi-r1-default-hmac-key-v1"
  maxRevealedBodyBytes : Nat := 0

/-- `MAX_AUDIT_VALUE_DEPTH`. -/
def maxAuditValueDepth : Nat := 64

mutual

/-- `audit_value_depth`. -/
def auditValueDepth : AuditValue → Nat
  | .scalar _ => 1
  | .sequence items => 1 + itemsDepth items
  | .object entries => 1 + entriesDepth entries

def fieldDepth : AuditField → Nat
  | .revealed _ value _ => auditValueDepth value
  | .hmacSha256 .. | .omitted .. => 1

def itemsDepth : List AuditField → Nat
  | [] => 0
  | field :: rest => max (fieldDepth field) (itemsDepth rest)

def entriesDepth : List (String × AuditField) → Nat
  | [] => 0
  | (_, field) :: rest => max (fieldDepth field) (entriesDepth rest)

end

namespace RedactionPolicy

/-- `hmac_path`. -/
def hmacPath (policy : RedactionPolicy) (label : String) : List UInt8 :=
  Hash.hmacSha256 policy.hmacKey (Capability.utf8Bytes label)

/-- `class_mode`. -/
def classMode (policy : RedactionPolicy) : AuditFieldClass → RedactionMode
  | .public => .reveal
  | .identifier => policy.identifierMode
  | .path => policy.pathMode
  | .body => policy.bodyMode
  | .secret => .omit

/-- `allows_body_reveal`. -/
def allowsBodyReveal (policy : RedactionPolicy) (key : AuditFieldKey) (originalBytes : Nat) :
    Bool :=
  decide (policy.bodyMode = .reveal) && decide (policy.maxRevealedBodyBytes > 0) &&
    decide (originalBytes ≤ policy.maxRevealedBodyBytes) && policy.revealBodyFields.contains key

end RedactionPolicy

/-- `fold_body_field`. -/
def foldBodyField (policy : RedactionPolicy) (key : Option AuditFieldKey) (originalBytes : Nat)
    (value : Option AuditValue) : AuditField :=
  match key, value with
  | some key, some value =>
    if policy.allowsBodyReveal key originalBytes ∧ auditValueDepth value ≤ maxAuditValueDepth then
      .revealed .body value originalBytes
    else .omitted .body originalBytes
  | _, _ => .omitted .body originalBytes

/-- `fold_audit_field`. -/
def foldAuditField (policy : RedactionPolicy) (fieldClass : AuditFieldClass) (originalBytes : Nat)
    (label : Option String) (value : Option AuditValue) : AuditField :=
  match fieldClass with
  | .secret => .omitted fieldClass originalBytes
  | .path =>
    match policy.pathMode, label with
    | .hmacSha256, some label => .hmacSha256 fieldClass (policy.hmacPath label) originalBytes
    | _, _ => .omitted fieldClass originalBytes
  | .body => foldBodyField policy none originalBytes value
  | .public | .identifier =>
    match policy.classMode fieldClass, value with
    | .reveal, some value => .revealed fieldClass value originalBytes
    | _, _ => .omitted fieldClass originalBytes

/-! ## What folding gives -/

/-- A secret is left out, whatever the policy. -/
theorem fold_secret (policy : RedactionPolicy) (originalBytes : Nat) (label : Option String)
    (value : Option AuditValue) :
    foldAuditField policy .secret originalBytes label value = .omitted .secret originalBytes :=
  rfl

/-- A path without a label is left out. -/
theorem fold_path_none (policy : RedactionPolicy) (originalBytes : Nat)
    (value : Option AuditValue) :
    foldAuditField policy .path originalBytes none value = .omitted .path originalBytes := by
  unfold foldAuditField
  cases policy.pathMode <;> rfl

/-- A path is a digest of its label or left out; under another mode than the digest the label
does not count. -/
theorem fold_path_alike {policy : RedactionPolicy} {label label' : Option String}
    (hsame : policy.pathMode = .hmacSha256 → label = label') (originalBytes : Nat)
    (value : Option AuditValue) :
    foldAuditField policy .path originalBytes label value =
      foldAuditField policy .path originalBytes label' value := by
  unfold foldAuditField
  cases hmode : policy.pathMode with
  | hmacSha256 => rw [hsame hmode]
  | reveal => rfl
  | «omit» => rfl

/-- A body that the policy does not allow is left out. -/
theorem fold_body_refused {policy : RedactionPolicy} {key : AuditFieldKey} {originalBytes : Nat}
    (h : policy.allowsBodyReveal key originalBytes = false) (value : Option AuditValue) :
    foldBodyField policy (some key) originalBytes value = .omitted .body originalBytes := by
  cases value with
  | none => rfl
  | some value => simp only [foldBodyField, h, Bool.false_eq_true, false_and, if_false]

/-- A body is left out, or it is allowed and recorded in full. -/
theorem fold_body_cases (policy : RedactionPolicy) (key : AuditFieldKey) (originalBytes : Nat)
    (value : Option AuditValue) :
    foldBodyField policy (some key) originalBytes value = .omitted .body originalBytes ∨
      ∃ whole, value = some whole ∧ policy.allowsBodyReveal key originalBytes = true ∧
        foldBodyField policy (some key) originalBytes value =
          .revealed .body whole originalBytes := by
  cases value with
  | none => exact .inl rfl
  | some whole =>
    simp only [foldBodyField]
    split
    · next h => exact .inr ⟨whole, rfl, h.1, rfl⟩
    · exact .inl rfl

end Tsumugi.Audit
