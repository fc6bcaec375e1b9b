import Tsumugi.Audit.Redaction
import Tsumugi.Capability.Dispatch

/-!
# The audit events of a host call (`builtin_core.rs`)

A call of `read_file`, `read_lines`, `write_file` or `append_file` is recorded by three events:
its start, the capability decision and its end. They are built after the dispatch, from its
result and the label of the resource; the decision and the effect are read off the kind of the
error.
-/

namespace Tsumugi.Audit

open Capability Word

variable (formatFloat : UInt64 → String)

/-- `is_host_call_builtin`. -/
def isHostCallBuiltin : FsBuiltin → Bool
  | .readFile | .readLines | .writeFile | .appendFile => true
  | _ => false

/-- The builtins that write: `matches!(name, "write_file" | "append_file")`. -/
def isWriteBuiltin : FsBuiltin → Bool
  | .writeFile | .appendFile => true
  | _ => false

/-- `host_call_request_bytes`. -/
def hostCallRequestBytes (builtin : FsBuiltin) (args : List Value) : Nat :=
  if isWriteBuiltin builtin then
    match args[1]? with
    | some value => (fsContentArg formatFloat value).utf8ByteSize
    | none => 0
  else 0

/-- The bytes of a string, none for another value. -/
def stringBytes : Value → Nat
  | .str _ s => s.utf8ByteSize
  | _ => 0

/-- `host_call_response_bytes`. -/
def hostCallResponseBytes (builtin : FsBuiltin) (result : Value) : Nat :=
  match builtin, result with
  | .readFile, result => stringBytes result
  | .readLines, .list _ items => items.foldl (fun sum item => satAdd sum (stringBytes item)) 0
  | _, _ => 0

/-- `identifier_field`. -/
def identifierField (policy : RedactionPolicy) (value : String) : AuditField :=
  foldAuditField policy .identifier value.utf8ByteSize none (some (.scalar (.utf8 value)))

/-! ## Bodies -/

/-- `HostCallBodies`. -/
structure HostCallBodies where
  request : Option AuditValue
  response : Option AuditValue

/-- The key of a body of a builtin. -/
def bodyKey (builtin : FsBuiltin) (direction : AuditDirection) (field : String) : AuditFieldKey :=
  ⟨builtin.name, direction, field⟩

/-- A line of a response as a body of its own; what is no string is passed over. -/
def lineField : Value → Option AuditField
  | .str _ s => some (.revealed .body (.scalar (.utf8 s)) s.utf8ByteSize)
  | _ => none

/-- The content of a request. -/
def requestContent (args : List Value) : Option AuditValue :=
  args[1]?.map fun value => .scalar (.utf8 (fsContentArg formatFloat value))

/-- The content of a response. -/
def responseContent (builtin : FsBuiltin) (result : Except TsumugiError Value) :
    Option AuditValue :=
  match builtin, result with
  | .readFile, .ok (.str _ s) => some (.scalar (.utf8 s))
  | .readLines, .ok (.list _ items) => some (.sequence (items.filterMap lineField))
  | _, _ => none

/-- `host_call_body_values`. -/
def hostCallBodyValues (builtin : FsBuiltin) (args : List Value)
    (result : Except TsumugiError Value) (requestBytes responseBytes : Nat)
    (policy : RedactionPolicy) : HostCallBodies where
  request :=
    if isWriteBuiltin builtin ∧
        (policy.allowsBodyReveal (bodyKey builtin .request "body") requestBytes ∨
          policy.allowsBodyReveal (bodyKey builtin .request "1") requestBytes) then
      requestContent formatFloat args
    else none
  response :=
    if policy.allowsBodyReveal (bodyKey builtin .response "body") responseBytes then
      responseContent builtin result
    else none

/-! ## The events -/

/-- What the result of a call says about it. -/
structure HostCallVerdict where
  decision : CapabilityDecisionKind
  outcome : HostCallOutcome
  effectStatus : EffectStatus
  errorCode : Option String
  ruleId : String
deriving DecidableEq, Repr

/-- The classification of `host_call_triple_with_bodies`, by the kind of the error if there is
one. -/
def classify (builtin : FsBuiltin) : Except (Option ErrorKind) Unit → HostCallVerdict
  | .ok () =>
    ⟨.allow, .success, if isWriteBuiltin builtin then .committed else .none, none,
      "mount-granted"⟩
  | .error (some .host) =>
    ⟨.allow, .hostError, if isWriteBuiltin builtin then .unknown else .none,
      some ErrorKind.host.asStr, "mount-granted"⟩
  | .error (some .argument) =>
    ⟨.deny, .denied, .none, some ErrorKind.argument.asStr, "invalid-path"⟩
  | .error (some kind) => ⟨.deny, .denied, .none, some kind.asStr, "deny-by-default"⟩
  | .error none => ⟨.deny, .denied, .none, none, "deny-by-default"⟩

/-- The kind of a result: success, or the kind of its error. -/
def resultKind (result : Except TsumugiError Value) : Except (Option ErrorKind) Unit :=
  match result with
  | .ok _ => .ok ()
  | .error error => .error error.kind

/-- The three events of a host call. -/
structure HostCallTriple where
  started : AuditEvent
  decision : AuditEvent
  finished : AuditEvent

def HostCallTriple.events (triple : HostCallTriple) : List AuditEvent :=
  [triple.started, triple.decision, triple.finished]

/-- `path_field`: the label counts only if the call was allowed. -/
def pathField (policy : RedactionPolicy) (decision : CapabilityDecisionKind)
    (label : Option String) (requestedPathBytes : Nat) : AuditField :=
  match decision with
  | .allow =>
    let originalBytes := (label.map String.utf8ByteSize).getD requestedPathBytes
    foldAuditField policy .path originalBytes label none
  | .deny => foldAuditField policy .path requestedPathBytes none none

/-- `host_call_triple_with_bodies`. -/
def hostCallTripleWithBodies (id : Nat) (builtin : FsBuiltin) (requestBytes : Nat)
    (result : Except TsumugiError Value) (responseBytes : Nat) (policy : RedactionPolicy)
    (label : Option String) (requestedPathBytes : Nat)
    (requestBody responseBody : Option AuditValue) : HostCallTriple :=
  let name := builtin.name
  let verdict := classify builtin (resultKind result)
  let bodyField := fun direction field => foldBodyField policy (some (bodyKey builtin direction field))
  let pathElement := foldAuditField policy .path requestedPathBytes none none
  let argumentElements :=
    if isWriteBuiltin builtin then
      [pathElement, bodyField .request "1" requestBytes requestBody]
    else [pathElement]
  let argumentsOriginalBytes :=
    satAdd requestedPathBytes (if isWriteBuiltin builtin then requestBytes else 0)
  let requestPayload : AuditPayload :=
    ⟨[("arguments", .revealed .public (.sequence argumentElements) argumentsOriginalBytes),
      ("body", bodyField .request "body" requestBytes requestBody),
      ("function", identifierField policy name)]⟩
  let resourcePayload : AuditPayload :=
    ⟨[("action", identifierField policy name),
      ("capability", identifierField policy "filesystem"),
      ("path", pathField policy verdict.decision label requestedPathBytes),
      ("rule_id", identifierField policy verdict.ruleId)]⟩
  let responsePayload : AuditPayload :=
    ⟨[("body", bodyField .response "body" responseBytes responseBody)]⟩
  { started := .hostCallStarted id id name requestPayload requestBytes
    decision := .capabilityDecision id (some id) "filesystem" name resourcePayload
      verdict.decision verdict.ruleId
    finished := .hostCallFinished id id verdict.outcome responsePayload responseBytes
      verdict.errorCode verdict.effectStatus }

/-! ## A call and its record -/

/-- The bytes of the path that a call asks for. -/
def requestedPathBytes (args : List Value) : Nat := (args.head?.map stringBytes).getD 0

/-- The bytes of a response, none after an error. -/
def responseBytesOf (builtin : FsBuiltin) (result : Except TsumugiError Value) : Nat :=
  match result with
  | .ok value => hostCallResponseBytes builtin value
  | .error _ => 0

/-- The record of a dispatched host call, as `apply_pure_core_builtin` puts it together. -/
def recordHostCall {A σ : Type} (policy : RedactionPolicy) (id : Nat) (builtin : FsBuiltin)
    (args : List Value) (dispatched : FsDispatch A σ) : HostCallTriple :=
  let requestBytes := hostCallRequestBytes formatFloat builtin args
  let responseBytes := responseBytesOf builtin dispatched.outcome
  let bodies := hostCallBodyValues formatFloat builtin args dispatched.outcome requestBytes
    responseBytes policy
  hostCallTripleWithBodies id builtin requestBytes dispatched.outcome responseBytes policy
    dispatched.label (requestedPathBytes args) bodies.request bodies.response

end Tsumugi.Audit
