import Tsumugi.Audit.HostCallRecord

/-!
# Redaction does not let secrets through

Two host calls are compared that agree on what the audit stream may show: the kind of the result
and the sizes, and of an allowed call the label as far as the path mode shows it. Their records
agree but for the bodies that the policy reveals.

Results:
1. `mask_triple`: with the revealed bodies masked, a record is that of a call without bodies.
2. `alike_masked`: alike calls have the same masked record.
3. `redaction_noninterference`: the law, with the denied calls and the revealed bodies.
-/

namespace Tsumugi.Audit

open Capability

/-! ## The bodies of a record -/

/-- The class of a field. -/
def AuditField.fieldClass : AuditField → AuditFieldClass
  | .revealed fieldClass .. | .hmacSha256 fieldClass .. | .omitted fieldClass .. => fieldClass

/-- The elements of a sequence, with their indices as keys. -/
def elementKeys (operation : String) (direction : AuditDirection) (items : List AuditField) :
    List (AuditFieldKey × AuditField) :=
  items.mapIdx fun i field => (⟨operation, direction, toString i⟩, field)

/-- The fields of an entry of a payload, with their keys: the elements of the arguments, or the
entry itself. -/
def keyedFields (operation : String) (direction : AuditDirection) :
    String × AuditField → List (AuditFieldKey × AuditField)
  | (_, .revealed .public (.sequence items) _) => elementKeys operation direction items
  | (name, field) => [(⟨operation, direction, name⟩, field)]

/-- The bodies of a payload. -/
def AuditPayload.bodies (operation : String) (direction : AuditDirection) (payload : AuditPayload) :
    List (AuditFieldKey × AuditField) :=
  (payload.fields.flatMap (keyedFields operation direction)).filter
    fun keyed => keyed.2.fieldClass = .body

/-- The bodies of a record. -/
def HostCallTriple.bodies (operation : String) (triple : HostCallTriple) :
    List (AuditFieldKey × AuditField) :=
  let request :=
    match triple.started with
    | .hostCallStarted _ _ _ payload _ => payload.bodies operation .request
    | _ => []
  let response :=
    match triple.finished with
    | .hostCallFinished _ _ _ payload .. => payload.bodies operation .response
    | _ => []
  request ++ response

/-! ## Masking -/

/-- Leave a revealed body out, if its key is on the allow list and its size within the limit. -/
def maskField (policy : RedactionPolicy) (key : AuditFieldKey) (field : AuditField) : AuditField :=
  match field with
  | .revealed .body value originalBytes =>
    if key ∈ policy.revealBodyFields ∧ originalBytes ≤ policy.maxRevealedBodyBytes then
      .omitted .body originalBytes
    else .revealed .body value originalBytes
  | field => field

def maskEntry (policy : RedactionPolicy) (operation : String) (direction : AuditDirection) :
    String × AuditField → String × AuditField
  | (name, .revealed .public (.sequence items) originalBytes) =>
    (name, .revealed .public (.sequence ((elementKeys operation direction items).map fun keyed =>
      maskField policy keyed.1 keyed.2)) originalBytes)
  | (name, field) => (name, maskField policy ⟨operation, direction, name⟩ field)

def AuditPayload.mask (policy : RedactionPolicy) (operation : String) (direction : AuditDirection)
    (payload : AuditPayload) : AuditPayload where
  fields := payload.fields.map (maskEntry policy operation direction)

/-- A record without the bodies that the policy may reveal. -/
def HostCallTriple.mask (policy : RedactionPolicy) (operation : String) (triple : HostCallTriple) :
    HostCallTriple where
  started :=
    match triple.started with
    | .hostCallStarted operationId callId function payload bytes =>
      .hostCallStarted operationId callId function (payload.mask policy operation .request) bytes
    | event => event
  decision := triple.decision
  finished :=
    match triple.finished with
    | .hostCallFinished operationId callId outcome payload bytes errorCode effectStatus =>
      .hostCallFinished operationId callId outcome (payload.mask policy operation .response) bytes
        errorCode effectStatus
    | event => event

/-! ## Alike calls -/

variable (formatFloat : UInt64 → String)

/-- What two calls of a builtin agree on: the kind of the result, the sizes, and for an allowed
call the length of the label and, if paths are recorded by digest, the label. -/
structure AlikeCalls {A σ A' σ' : Type} (policy : RedactionPolicy) (builtin : FsBuiltin)
    (args args' : List Value) (d : FsDispatch A σ) (d' : FsDispatch A' σ') : Prop where
  kind : resultKind d.outcome = resultKind d'.outcome
  requestBytes : hostCallRequestBytes formatFloat builtin args =
    hostCallRequestBytes formatFloat builtin args'
  responseBytes : responseBytesOf builtin d.outcome = responseBytesOf builtin d'.outcome
  pathBytes : requestedPathBytes args = requestedPathBytes args'
  labelBytes : (classify builtin (resultKind d.outcome)).decision = .allow →
    d.label.map String.utf8ByteSize = d'.label.map String.utf8ByteSize
  label : (classify builtin (resultKind d.outcome)).decision = .allow →
    policy.pathMode = .hmacSha256 → d.label = d'.label

/-- A string value as the body that shows it in full. -/
def lineBody (line : String) : AuditField := .revealed .body (.scalar (.utf8 line)) line.utf8ByteSize

/-- A value is what a call has returned: a string, or a list of lines. -/
inductive Returned (outcome : Except TsumugiError Value) : AuditValue → Prop
  | text {id : Nat} {s : String} (h : outcome = .ok (.str id s)) : Returned outcome (.scalar (.utf8 s))
  | lines {id : Nat} {lines : List String}
      (h : outcome = .ok (.list id (lines.map Value.strConstant))) :
      Returned outcome (.sequence (lines.map lineBody))

/-- A body of a record is left out, or it is allowed and shows the content of the request or the
returned value in full. -/
structure Whole (policy : RedactionPolicy) (args : List Value)
    (outcome : Except TsumugiError Value) (key : AuditFieldKey) (field : AuditField) : Prop where
  whole : ∀ fieldClass value originalBytes, field = .revealed fieldClass value originalBytes →
    policy.allowsBodyReveal key originalBytes = true ∧
      match key.direction with
      | .request => ∃ content, args[1]? = some content ∧
          value = .scalar (.utf8 (fsContentArg formatFloat content))
      | .response => Returned outcome value
  digest : ∀ fieldClass digest originalBytes, field ≠ .hmacSha256 fieldClass digest originalBytes

namespace NonInterferenceLemmas

variable {policy : RedactionPolicy}

/-! ## The masked record -/

theorem mask_body (key : AuditFieldKey) (originalBytes : Nat) (value : Option AuditValue) :
    maskField policy key (foldBodyField policy (some key) originalBytes value) =
      .omitted .body originalBytes := by
  obtain homitted | ⟨whole, rfl, hallowed, hrevealed⟩ :=
    fold_body_cases policy key originalBytes value
  · rw [homitted]
    rfl
  · rw [hrevealed]
    simp only [RedactionPolicy.allowsBodyReveal, Bool.and_eq_true, decide_eq_true_eq,
      List.contains_iff_mem] at hallowed
    exact if_pos ⟨hallowed.2, hallowed.1.2⟩

theorem fieldClass_foldBody (key : Option AuditFieldKey) (originalBytes : Nat)
    (value : Option AuditValue) :
    (foldBodyField policy key originalBytes value).fieldClass = .body := by
  unfold foldBodyField
  split
  · split <;> rfl
  · rfl

/-- A fold keeps the class. -/
theorem fieldClass_fold (fieldClass : AuditFieldClass) (originalBytes : Nat)
    (label : Option String) (value : Option AuditValue) :
    (foldAuditField policy fieldClass originalBytes label value).fieldClass = fieldClass := by
  unfold foldAuditField
  cases fieldClass with
  | secret => rfl
  | body => exact fieldClass_foldBody none originalBytes value
  | path | «public» | identifier =>
    simp only
    split <;> rfl

/-- A field that is no body stays. -/
theorem mask_other {key : AuditFieldKey} {field : AuditField} (h : field.fieldClass ≠ .body) :
    maskField policy key field = field := by
  unfold maskField
  split
  · exact absurd rfl h
  · rfl

theorem mask_fold {fieldClass : AuditFieldClass} (hclass : fieldClass ≠ .body)
    (key : AuditFieldKey) (originalBytes : Nat) (label : Option String)
    (value : Option AuditValue) :
    maskField policy key (foldAuditField policy fieldClass originalBytes label value) =
      foldAuditField policy fieldClass originalBytes label value :=
  mask_other (by rwa [fieldClass_fold])

theorem maskEntry_fold {fieldClass : AuditFieldClass} (hbody : fieldClass ≠ .body)
    (hpublic : fieldClass ≠ .public) (operation : String) (direction : AuditDirection)
    (name : String) (originalBytes : Nat) (label : Option String) (value : Option AuditValue) :
    maskEntry policy operation direction
        (name, foldAuditField policy fieldClass originalBytes label value) =
      (name, foldAuditField policy fieldClass originalBytes label value) := by
  have hclass : (foldAuditField policy fieldClass originalBytes label value).fieldClass =
    fieldClass := fieldClass_fold fieldClass originalBytes label value
  have hmask : maskField policy ⟨operation, direction, name⟩
      (foldAuditField policy fieldClass originalBytes label value) =
    foldAuditField policy fieldClass originalBytes label value := mask_fold hbody _ _ _ _
  revert hclass hmask
  generalize foldAuditField policy fieldClass originalBytes label value = field
  intro hclass hmask
  unfold maskEntry
  split
  · next heq =>
    cases heq
    exact absurd hclass.symm hpublic
  · next heq =>
    cases heq
    rw [hmask]

theorem maskEntry_body (operation : String) (direction : AuditDirection) (name : String)
    (originalBytes : Nat) (value : Option AuditValue) :
    maskEntry policy operation direction
        (name, foldBodyField policy (some ⟨operation, direction, name⟩) originalBytes value) =
      (name, .omitted .body originalBytes) := by
  have hclass : (foldBodyField policy (some ⟨operation, direction, name⟩) originalBytes
    value).fieldClass = .body := fieldClass_foldBody _ originalBytes value
  have hmask : maskField policy ⟨operation, direction, name⟩
      (foldBodyField policy (some ⟨operation, direction, name⟩) originalBytes value) =
    .omitted .body originalBytes := mask_body _ originalBytes value
  revert hclass hmask
  generalize foldBodyField policy (some ⟨operation, direction, name⟩) originalBytes value = field
  intro hclass hmask
  unfold maskEntry
  split
  · next heq =>
    cases heq
    cases hclass
  · next heq =>
    cases heq
    rw [hmask]

/-- Masked, a record is that of the call without its bodies. -/
theorem mask_triple (id : Nat) (builtin : FsBuiltin) (requestBytes : Nat)
    (result : Except TsumugiError Value) (responseBytes : Nat) (label : Option String)
    (pathBytes : Nat) (requestBody responseBody : Option AuditValue) :
    (hostCallTripleWithBodies id builtin requestBytes result responseBytes policy label pathBytes
      requestBody responseBody).mask policy builtin.name =
      hostCallTripleWithBodies id builtin requestBytes result responseBytes policy label pathBytes
        none none := by
  have hidentifier : ∀ name value, maskEntry policy builtin.name .request
      (name, identifierField policy value) = (name, identifierField policy value) :=
    fun name value => maskEntry_fold (by decide) (by decide) _ _ name _ _ _
  have hpath : ∀ key, maskField policy key (foldAuditField policy .path pathBytes none none) =
      foldAuditField policy .path pathBytes none none := fun key => mask_fold (by decide) key _ _ _
  have hargument : maskField policy ⟨builtin.name, .request, "1"⟩ (foldBodyField policy
      (some ⟨builtin.name, .request, "1"⟩) requestBytes requestBody) =
      .omitted .body requestBytes := mask_body _ requestBytes requestBody
  have hindex : Nat.repr 1 = "1" := rfl
  have hnone : ∀ key originalBytes, foldBodyField policy (some key) originalBytes none =
      .omitted .body originalBytes := fun _ _ => rfl
  unfold hostCallTripleWithBodies HostCallTriple.mask
  simp only [AuditPayload.mask, List.map_cons, List.map_nil, maskEntry_body, hidentifier, bodyKey]
  cases isWriteBuiltin builtin <;>
    simp [maskEntry, elementKeys, hpath, hargument, hindex, hnone]

/-! ## Alike calls -/

variable {formatFloat : UInt64 → String}

theorem pathField_alike {decision : CapabilityDecisionKind} {label label' : Option String}
    (hbytes : decision = .allow → label.map String.utf8ByteSize = label'.map String.utf8ByteSize)
    (hlabel : decision = .allow → policy.pathMode = .hmacSha256 → label = label') (pathBytes : Nat) :
    pathField policy decision label pathBytes = pathField policy decision label' pathBytes := by
  cases decision with
  | allow =>
    simp only [pathField, hbytes rfl]
    exact fold_path_alike (hlabel rfl) _ none
  | deny => rfl

/-- Alike calls have the same masked record. -/
theorem alike_masked {A σ A' σ' : Type} {builtin : FsBuiltin} {args args' : List Value}
    {d : FsDispatch A σ} {d' : FsDispatch A' σ'}
    (h : AlikeCalls formatFloat policy builtin args args' d d') (id : Nat) :
    (recordHostCall formatFloat policy id builtin args d).mask policy builtin.name =
      (recordHostCall formatFloat policy id builtin args' d').mask policy builtin.name := by
  unfold recordHostCall
  simp only [mask_triple]
  have hpath : pathField policy (classify builtin (resultKind d.outcome)).decision d.label
      (requestedPathBytes args) = pathField policy
        (classify builtin (resultKind d.outcome)).decision d'.label (requestedPathBytes args) :=
    pathField_alike h.labelBytes h.label _
  unfold hostCallTripleWithBodies
  simp only [h.requestBytes, h.responseBytes, ← h.pathBytes, ← h.kind, hpath]

/-- A policy that reveals no bodies records what the masked record shows. -/
theorem unrevealed_triple (hmode : policy.bodyMode ≠ .reveal) (id : Nat) (builtin : FsBuiltin)
    (requestBytes : Nat) (result : Except TsumugiError Value) (responseBytes : Nat)
    (label : Option String) (pathBytes : Nat) (requestBody responseBody : Option AuditValue) :
    hostCallTripleWithBodies id builtin requestBytes result responseBytes policy label pathBytes
      requestBody responseBody =
      hostCallTripleWithBodies id builtin requestBytes result responseBytes policy label pathBytes
        none none := by
  have hrefused : ∀ key originalBytes, policy.allowsBodyReveal key originalBytes = false := by
    intro key originalBytes
    simp [RedactionPolicy.allowsBodyReveal, hmode]
  have hbody : ∀ key originalBytes value, foldBodyField policy (some key) originalBytes value =
      foldBodyField policy (some key) originalBytes none := fun key originalBytes value =>
    fold_body_refused (hrefused key originalBytes) value
  unfold hostCallTripleWithBodies
  simp only [hbody _ _ requestBody, hbody _ _ responseBody]

theorem alike_unrevealed {A σ A' σ' : Type} {builtin : FsBuiltin} {args args' : List Value}
    {d : FsDispatch A σ} {d' : FsDispatch A' σ'}
    (h : AlikeCalls formatFloat policy builtin args args' d d') (hmode : policy.bodyMode ≠ .reveal)
    (id : Nat) :
    recordHostCall formatFloat policy id builtin args d =
      recordHostCall formatFloat policy id builtin args' d' := by
  have hmasked := alike_masked h id
  unfold recordHostCall at hmasked ⊢
  simp only [mask_triple] at hmasked
  rw [unrevealed_triple hmode, hmasked, ← unrevealed_triple hmode]

/-- The record of a denied call depends on the path only through its length, and on no label. -/
theorem denied_path {A σ : Type} (id : Nat) (builtin : FsBuiltin) {d : FsDispatch A σ}
    (hdenied : (classify builtin (resultKind d.outcome)).decision = .deny) (pathId pathId' : Nat)
    {path path' : String} (hbytes : path.utf8ByteSize = path'.utf8ByteSize) (rest : List Value)
    (label label' : Option String) :
    recordHostCall formatFloat policy id builtin (.str pathId path :: rest) { d with label } =
      recordHostCall formatFloat policy id builtin (.str pathId' path' :: rest)
        { d with label := label' } := by
  have hrequest : hostCallRequestBytes formatFloat builtin (.str pathId path :: rest) =
      hostCallRequestBytes formatFloat builtin (.str pathId' path' :: rest) := by
    simp only [hostCallRequestBytes, List.getElem?_cons_succ]
  have hbodies : hostCallBodyValues formatFloat builtin (.str pathId path :: rest) =
      hostCallBodyValues formatFloat builtin (.str pathId' path' :: rest) := by
    funext result requestBytes responseBytes policy
    simp only [hostCallBodyValues, requestContent, List.getElem?_cons_succ]
  have hpathBytes : requestedPathBytes (.str pathId path :: rest) =
      requestedPathBytes (.str pathId' path' :: rest) := hbytes
  unfold recordHostCall
  simp only [hrequest, hbodies, hpathBytes]
  unfold hostCallTripleWithBodies
  simp only [hdenied, pathField]

/-! ## Revealed bodies -/

theorem keyedFields_fold {fieldClass : AuditFieldClass} (hpublic : fieldClass ≠ .public)
    (operation : String) (direction : AuditDirection) (name : String) (originalBytes : Nat)
    (label : Option String) (value : Option AuditValue) :
    keyedFields operation direction
        (name, foldAuditField policy fieldClass originalBytes label value) =
      [(⟨operation, direction, name⟩,
        foldAuditField policy fieldClass originalBytes label value)] := by
  have hclass : (foldAuditField policy fieldClass originalBytes label value).fieldClass =
    fieldClass := fieldClass_fold fieldClass originalBytes label value
  revert hclass
  generalize foldAuditField policy fieldClass originalBytes label value = field
  intro hclass
  unfold keyedFields
  split
  · next heq =>
    cases heq
    exact absurd hclass.symm hpublic
  · next heq =>
    cases heq
    rfl

theorem keyedFields_body (operation : String) (direction : AuditDirection) (name : String)
    (key : Option AuditFieldKey) (originalBytes : Nat) (value : Option AuditValue) :
    keyedFields operation direction (name, foldBodyField policy key originalBytes value) =
      [(⟨operation, direction, name⟩, foldBodyField policy key originalBytes value)] := by
  have hclass : (foldBodyField policy key originalBytes value).fieldClass = .body :=
    fieldClass_foldBody key originalBytes value
  revert hclass
  generalize foldBodyField policy key originalBytes value = field
  intro hclass
  unfold keyedFields
  split
  · next heq =>
    cases heq
    cases hclass
  · next heq =>
    cases heq
    rfl

/-- A body of a record is folded from the body of the request or of the response, under its own
key. -/
theorem mem_bodies {id : Nat} {builtin : FsBuiltin} {requestBytes : Nat}
    {result : Except TsumugiError Value} {responseBytes : Nat} {label : Option String}
    {pathBytes : Nat} {requestBody responseBody : Option AuditValue}
    {key : AuditFieldKey} {field : AuditField}
    (h : (key, field) ∈ (hostCallTripleWithBodies id builtin requestBytes result responseBytes
      policy label pathBytes requestBody responseBody).bodies builtin.name) :
    key.direction = .request ∧
        field = foldBodyField policy (some key) requestBytes requestBody ∨
      key.direction = .response ∧
        field = foldBodyField policy (some key) responseBytes responseBody := by
  have hidentifier : ∀ name value, keyedFields builtin.name .request
      (name, identifierField policy value) =
        [(⟨builtin.name, .request, name⟩, identifierField policy value)] :=
    fun name value => keyedFields_fold (by decide) _ _ name _ _ _
  have hclass : ∀ value, (identifierField policy value).fieldClass = .identifier :=
    fun value => fieldClass_fold _ _ _ _
  have hpath : (foldAuditField policy .path pathBytes none none).fieldClass = .path :=
    fieldClass_fold _ _ _ _
  have hindex : Nat.repr 1 = "1" := rfl
  unfold HostCallTriple.bodies hostCallTripleWithBodies at h
  simp only [AuditPayload.bodies, List.flatMap_cons, List.flatMap_nil, keyedFields_body, hidentifier,
    bodyKey] at h
  cases hwrite : isWriteBuiltin builtin <;>
    simp only [keyedFields, elementKeys, Nat.toString_eq_repr, hwrite, ↓reduceIte,
      List.mapIdx_cons, zero_add, hindex, List.mapIdx_nil, List.append_nil, List.cons_append,
      List.nil_append, hpath, reduceCtorEq, decide_false, Bool.false_eq_true, not_false_eq_true,
      List.filter_cons_of_neg, fieldClass_foldBody, decide_true, List.filter_cons_of_pos, hclass,
      List.filter_nil, List.mem_cons, Prod.mk.injEq, List.not_mem_nil, or_false] at h
  · obtain ⟨rfl, rfl⟩ | ⟨rfl, rfl⟩ := h
    · exact .inl ⟨rfl, rfl⟩
    · exact .inr ⟨rfl, rfl⟩
  · obtain ⟨rfl, rfl⟩ | ⟨rfl, rfl⟩ | ⟨rfl, rfl⟩ := h
    · exact .inl ⟨rfl, rfl⟩
    · exact .inl ⟨rfl, rfl⟩
    · exact .inr ⟨rfl, rfl⟩

/-- The action gives only values in `P`. -/
def Gives {A σ α : Type} (P : α → Prop) (m : FsM A σ α) : Prop := ∀ st a, (m st).1 = .ok a → P a

theorem gives_bind {A σ α β : Type} {P : β → Prop} {m : FsM A σ α} {f : α → FsM A σ β}
    (h : ∀ a, Gives P (f a)) : Gives P (m >>= f) := by
  intro st b hb
  rw [AuthorityLemmas.bind_apply] at hb
  split at hb
  · exact h _ _ _ hb
  · cases hb

theorem gives_pure {A σ α : Type} {P : α → Prop} {a : α} (h : P a) :
    Gives P (pure a : FsM A σ α) := by
  intro st b hb
  cases hb
  exact h

/-- A successful `read_lines` returns a list of lines. -/
theorem lines_returned {A F σ : Type} {adapters : Adapters A F σ}
    {filesystem : Option (FilesystemCapability A)} {call : FsBuiltinCall}
    (hlines : call.builtin = .readLines) {host : σ} {value : Value}
    (h : (dispatchFs adapters formatFloat filesystem call host).outcome = .ok value) :
    ∃ lines : List String, value = .list 0 (lines.map Value.strConstant) := by
  unfold dispatchFs at h
  cases filesystem with
  | none => cases h
  | some cap =>
    obtain ⟨builtin, args, maxCollection, line⟩ := call
    obtain rfl : builtin = .readLines := hlines
    have hgives : Gives (fun value => ∃ lines : List String, value = .list 0 (lines.map .strConstant))
        (dispatchFilesystemCapability adapters formatFloat cap
          ⟨.readLines, args, maxCollection, line⟩) :=
      gives_bind fun _ => gives_bind fun _ => gives_bind fun _ => gives_bind fun _ =>
        gives_bind fun contentLines => gives_pure
          ⟨contentLines.map String.ofList, by rw [List.map_map]; rfl⟩
    exact hgives _ _ h

theorem requestContent_whole {args : List Value} {whole : AuditValue}
    (h : requestContent formatFloat args = some whole) :
    ∃ content, args[1]? = some content ∧
      whole = .scalar (.utf8 (fsContentArg formatFloat content)) := by
  obtain ⟨content, hcontent, rfl⟩ := Option.map_eq_some_iff.mp h
  exact ⟨content, hcontent, rfl⟩

theorem responseContent_whole {A F σ : Type} {adapters : Adapters A F σ}
    {filesystem : Option (FilesystemCapability A)} {call : FsBuiltinCall} {host : σ}
    {whole : AuditValue} (h : responseContent call.builtin
      (dispatchFs adapters formatFloat filesystem call host).outcome = some whole) :
    Returned (dispatchFs adapters formatFloat filesystem call host).outcome whole := by
  unfold responseContent at h
  split at h
  · next houtcome =>
    obtain rfl := Option.some.inj h
    exact .text houtcome
  · next hlines houtcome =>
    obtain ⟨lines, hvalue⟩ := lines_returned hlines houtcome
    cases hvalue
    obtain rfl := Option.some.inj h
    have hbodies : (lines.map Value.strConstant).filterMap lineField = lines.map lineBody := by
      rw [List.filterMap_map]
      exact congrFun (List.filterMap_eq_map (f := lineBody)) lines
    rw [hbodies]
    exact .lines houtcome
  · cases h

/-- The bodies of the record of a dispatched call are left out or whole. -/
theorem bodies_whole {A F σ : Type} (adapters : Adapters A F σ)
    (filesystem : Option (FilesystemCapability A)) (call : FsBuiltinCall) (host : σ) (id : Nat)
    {key : AuditFieldKey} {field : AuditField}
    (h : (key, field) ∈ (recordHostCall formatFloat policy id call.builtin call.args
      (dispatchFs adapters formatFloat filesystem call host)).bodies call.builtin.name) :
    Whole formatFloat policy call.args
      (dispatchFs adapters formatFloat filesystem call host).outcome key field := by
  have hfold : ∀ originalBytes value, field = foldBodyField policy (some key) originalBytes value →
      (∀ fieldClass digest n, field ≠ .hmacSha256 fieldClass digest n) ∧
        ∀ fieldClass whole n, field = .revealed fieldClass whole n →
          policy.allowsBodyReveal key n = true ∧ value = some whole := by
    intro originalBytes value hfield
    obtain homitted | ⟨whole, rfl, hallowed, hrevealed⟩ :=
      fold_body_cases policy key originalBytes value
    · rw [hfield, homitted]
      exact ⟨nofun, nofun⟩
    · rw [hfield, hrevealed]
      refine ⟨nofun, fun fieldClass whole' n heq => ?_⟩
      cases heq
      exact ⟨hallowed, rfl⟩
  obtain ⟨hdirection, hfield⟩ | ⟨hdirection, hfield⟩ := mem_bodies h
  · obtain ⟨hdigest, hrevealed⟩ := hfold _ _ hfield
    refine ⟨fun fieldClass whole n heq => ?_, hdigest⟩
    obtain ⟨hallowed, hvalue⟩ := hrevealed fieldClass whole n heq
    rw [hdirection]
    refine ⟨hallowed, requestContent_whole ?_⟩
    exact (Option.ite_none_right_eq_some.mp hvalue).2
  · obtain ⟨hdigest, hrevealed⟩ := hfold _ _ hfield
    refine ⟨fun fieldClass whole n heq => ?_, hdigest⟩
    obtain ⟨hallowed, hvalue⟩ := hrevealed fieldClass whole n heq
    rw [hdirection]
    refine ⟨hallowed, responseContent_whole ?_⟩
    exact (Option.ite_none_right_eq_some.mp hvalue).2

end NonInterferenceLemmas

open NonInterferenceLemmas

/-- Redaction is non-interfering. The records of alike calls are equal but for the bodies that the
policy may reveal, and equal if it reveals none; the record of a denied call depends on no label
and on the path only through its length; and a body of a record is left out or whole. -/
theorem redaction_noninterference (policy : RedactionPolicy) (id : Nat) :
    (∀ (A σ A' σ' : Type) (builtin : FsBuiltin) (args args' : List Value) (d : FsDispatch A σ)
      (d' : FsDispatch A' σ'), AlikeCalls formatFloat policy builtin args args' d d' →
      let triple := recordHostCall formatFloat policy id builtin args d
      let triple' := recordHostCall formatFloat policy id builtin args' d'
      triple.mask policy builtin.name = triple'.mask policy builtin.name ∧
        (policy.bodyMode ≠ .reveal → triple = triple')) ∧
    (∀ (A σ : Type) (builtin : FsBuiltin) (d : FsDispatch A σ),
      (classify builtin (resultKind d.outcome)).decision = .deny →
      ∀ (pathId pathId' : Nat) (path path' : String), path.utf8ByteSize = path'.utf8ByteSize →
      ∀ (rest : List Value) (label label' : Option String),
      recordHostCall formatFloat policy id builtin (.str pathId path :: rest) { d with label } =
        recordHostCall formatFloat policy id builtin (.str pathId' path' :: rest)
          { d with label := label' }) ∧
    ∀ (A F σ : Type) (adapters : Adapters A F σ) (filesystem : Option (FilesystemCapability A))
      (call : FsBuiltinCall) (host : σ),
      let d := dispatchFs adapters formatFloat filesystem call host
      ∀ keyed ∈ (recordHostCall formatFloat policy id call.builtin call.args d).bodies
          call.builtin.name,
        Whole formatFloat policy call.args d.outcome keyed.1 keyed.2 :=
  ⟨fun _ _ _ _ _ _ _ _ _ halike => ⟨alike_masked halike id, fun hmode =>
      alike_unrevealed halike hmode id⟩,
    fun _ _ builtin _ hdenied pathId pathId' _ _ hbytes rest label label' =>
      denied_path id builtin hdenied pathId pathId' hbytes rest label label',
    fun _ _ _ adapters filesystem call host _ hkeyed =>
      bodies_whole adapters filesystem call host id hkeyed⟩

end Tsumugi.Audit
