import Tsumugi.Budget.Stop
import Tsumugi.Capability.Path
import Tsumugi.Engine.HashLaw
import Tsumugi.Lang.Ast
import Tsumugi.Lib.Proc

/-!
# Import resolution at link time (`embedding.rs`)

`link_inner` checks that the script fits the engine and resolves its imports through
the module resolver of the request: a depth-first search over the modules, which
collects one node for each module and hashes the graph.

`W` is the world that the resolver and the cancel token live in, and the parser is a
parameter. A module source is the list of the answers it gives to `read_chunk`.
`resolve_module_imports` calls itself, so it runs on fuel, one unit for each active
call.
-/

namespace Tsumugi.LinkTime

open Budget Capability Hash

/-- `MAX_IMPORT_DEPTH`. -/
def maxImportDepth : Nat := 128

/-! ## Modules -/

/-- `validate_identifier`, with the variants of `ConfigError` that it returns. -/
def validateIdentifier (field value : String) (maxBytes : Nat) :
    Except (ConfigError CapabilityKind) Unit :=
  if value = "" then .error (.emptyIdentifier field)
  else if '\x00' ∈ value.toList then .error (.identifierContainsNul field)
  else if maxBytes < value.utf8ByteSize then .error (.identifierTooLong field maxBytes)
  else .ok ()

/-- `ModuleId`. -/
structure ModuleId where
  name : String
  valid : validateIdentifier "module_id" name 1024 = .ok ()
deriving DecidableEq

/-- `ModuleId::new`. -/
def ModuleId.new (value : String) : Except (ConfigError CapabilityKind) ModuleId :=
  match h : validateIdentifier "module_id" value 1024 with
  | .ok () => .ok ⟨value, h⟩
  | .error e => .error e

/-- `ImportNode`. -/
structure ImportNode where
  moduleId : ModuleId
  sourceHash : SourceHash
  imports : List ModuleId
deriving DecidableEq

/-- `ImportGraph`. -/
structure ImportGraph where
  root : SourceHash
  rootImports : List ModuleId
  nodes : List ImportNode
  graphHash : SourceHash
deriving DecidableEq

/-- `SourceHash::from_bytes(sha256(..))`. -/
def hashOf (data : List UInt8) : SourceHash := ⟨sha256 data, length_sha256 data⟩

/-- `CompiledScript`, as far as linking reads it. -/
structure CompiledScript where
  engineId : Nat
  sourceHash : SourceHash
  languageRevision : Audit.LanguageRevision
  backend : Audit.Backend
  hasImports : Bool
  importSpecifiers : List (String × Nat)
  hasImports_eq : hasImports = !importSpecifiers.isEmpty

/-- `LinkedScript`. -/
structure LinkedScript where
  root : CompiledScript
  importGraph : ImportGraph
  scriptHash : SourceHash

/-- The id and the configuration of the engine. -/
structure Engine where
  id : Nat
  languageRevision : Audit.LanguageRevision
  backend : Audit.Backend

/-! ## Errors -/

/-- `DenialCode`. -/
inductive DenialCode
  | capabilityNotGranted
  | operationNotGranted
  | resourceNotGranted
  | hostFunctionNotGranted
deriving DecidableEq

/-- `Denial`. -/
structure Denial where
  code : DenialCode
  capability : CapabilityKind
  operation : String
  publicResource : Option String
deriving DecidableEq

/-- `HostError`. -/
structure HostError where
  code : String
  safeMessage : String
  retryable : Bool
deriving DecidableEq

/-- `CompileDiagnosticCode`. -/
inductive CompileDiagnosticCode
  | lex
  | parse
  | astDepth
  | backend
  | internalFault
deriving DecidableEq

/-- `CompileDiagnostic`. -/
structure CompileDiagnostic where
  code : CompileDiagnosticCode
  line : Option Nat
  column : Option Nat
  safeMessage : String
deriving DecidableEq

/-- `AdapterError`. -/
inductive AdapterError
  | host (context : String)
  | secureResolutionUnsupported
  | directoryReadFailed
  | nonUtf8EntryName
  | control (stop : ControlStop)
deriving DecidableEq

/-- The variants of `LinkError` that `link_inner` returns. -/
inductive LinkError
  | engineMismatch
  | revisionMismatch
  | backendMismatch
  | denied (denial : Denial)
  | resolve (error : HostError)
  | invalidModule (module : ModuleId) (diagnostics : List CompileDiagnostic)
  | cycle (chain : List ModuleId)
  | depthExceeded (limit : Nat)
  | budgetExceeded (exceeded : BudgetExceeded)
  | deadlineExceeded
  | cancelled
deriving DecidableEq

/-- Why resolution stops: an error of the source, or a call below the last unit of fuel. -/
inductive Halt
  | raised (error : LinkError)
  | exhausted
deriving DecidableEq

/-- `resolver_absent_denial`. -/
def resolverAbsentDenial : Denial where
  code := .resourceNotGranted
  capability := .moduleResolver
  operation := "module.resolve"
  publicResource := none

/-- `host_error`. -/
def hostError (code : String) : HostError := ⟨code, "", false⟩

/-- `adapter_error_to_link_error`. -/
def adapterErrorToLinkError : AdapterError → LinkError
  | .host _ | .directoryReadFailed | .nonUtf8EntryName => .resolve (hostError "resolver_failed")
  | .secureResolutionUnsupported => .resolve (hostError "secure_resolution_unsupported")
  | .control .cancelled => .cancelled
  | .control (.deadlineExceeded ..) => .deadlineExceeded
  | .control (.budgetExceeded exceeded) => .budgetExceeded exceeded
  | .control (.internalFailure _) => .resolve (hostError "internal_resolver_fault")

/-- `compile_diagnostic_from`. -/
def compileDiagnosticFrom (error : TsumugiError) : CompileDiagnostic where
  code :=
    if "ネストが深すぎます".toList <:+: error.message.toList then .astDepth else .parse
  line := if error.line < 2 ^ 32 then some error.line else none
  column := none
  safeMessage := error.message

/-- The diagnostic of a source that is not UTF-8. -/
def notUtf8 : CompileDiagnostic := ⟨.lex, none, none, "module source が UTF-8 ではありません"⟩

/-! ## The resolver -/

/-- The answers of a `ModuleSource` to `read_chunk`, in order. -/
inductive ModuleSource
  | eof
  | failed (error : AdapterError)
  | bytes (chunk : List UInt8) (rest : ModuleSource)

/-- `ResolveRequest`. -/
structure ResolveRequest where
  importer : Option ModuleId
  specifier : String
  languageRevision : Audit.LanguageRevision

/-- `ResolvedModule`. -/
structure ResolvedModule where
  id : ModuleId
  source : ModuleSource
  classification : DataClassification

/-- `ModuleResolver`. Of the context of a call, only the call id changes during a link. -/
structure ModuleResolver (W : Type) where
  resolve : (callId : Nat) → ResolveRequest → W → Except AdapterError ResolvedModule × W
  knowsMount : String → Bool

/-- `LinkRequest`: the resolver of its capabilities and its cancel token. -/
structure LinkRequest (W : Type) where
  moduleResolver : Option (ModuleResolver W)
  isCancelled : W → Bool × W

/-- What the search changes. `resolved` and `node_map` are hash maps. -/
structure Resolving (W : Type) where
  world : W
  callId : Nat
  resolved : ModuleId → Option SourceHash
  nodeMap : List ImportNode

/-- A part of the search. -/
abbrev Search (W α : Type) := Proc (Resolving W) Halt α

variable {W : Type}

/-- `return Err(..)`. -/
def fail {α : Type} (error : LinkError) : Search W α := Proc.stop (.raised error)

/-- `?`. -/
def liftExcept {α : Type} : Except LinkError α → Search W α
  | .ok a => pure a
  | .error e => fail e

/-- `if request.cancellation.is_cancelled() { return Err(Cancelled) }`. -/
def checkCancelled (request : LinkRequest W) : Search W Unit := do
  let cancelled ← Proc.update fun s =>
    ((request.isCancelled s.world).1, { s with world := (request.isCancelled s.world).2 })
  if cancelled then fail .cancelled else pure ()

/-- `*call_id += 1`. -/
def nextCallId : Search W Nat :=
  Proc.update fun s => (s.callId + 1, { s with callId := s.callId + 1 })

/-- `FilesystemTarget` in the form `@mount/component/...`. -/
def normalForm (target : FilesystemTarget) : String :=
  target.path.components.foldl (fun s component => s ++ "/" ++ component) ("@" ++ target.mount.name)

/-- `normalize_specifier`. The normalized string is the name of the id. -/
def normalizeSpecifier (knowsMount : String → Bool) (specifier : String) :
    Except LinkError ModuleId :=
  match FilesystemTarget.parse specifier with
  | .error _ => .error (.resolve (hostError "invalid_import_specifier"))
  | .ok target =>
    if knowsMount target.mount.name = false then .error (.denied resolverAbsentDenial)
    else
      match ModuleId.new (normalForm target) with
      | .error _ => .error (.resolve (hostError "invalid_import_specifier"))
      | .ok id => .ok id

/-- `CHUNK`, 64 KiB. -/
def chunkBytes : Nat := 64 * 1024

/-- `read_module_source`, after the bytes read so far. -/
def readModuleSource (request : LinkRequest W) (bytes : List UInt8) :
    ModuleSource → Search W (List UInt8)
  | .eof => do
    checkCancelled request
    let _ ← nextCallId
    pure bytes
  | .failed error => do
    checkCancelled request
    let _ ← nextCallId
    fail (adapterErrorToLinkError error)
  | .bytes chunk rest => do
    checkCancelled request
    let _ ← nextCallId
    if chunkBytes < chunk.length then fail (.resolve (hostError "resolver_contract_violation"))
    else readModuleSource request (bytes ++ chunk) rest

/-! ## The search -/

/-- The parser: `Lexer::tokenize`, then `Parser::parse`. -/
abbrev Parse : Type := String → Except (List TsumugiError) Program

/-- The specifiers and lines of the top-level imports, in source order. -/
def importSpecifiers (program : Program) : List (String × Nat) :=
  program.filterMap fun
    | .«import» path line => some (path, line)
    | _ => none

/-- `str::from_utf8`. -/
def fromUtf8 (bytes : List UInt8) : Option String := String.fromUTF8? ⟨bytes.toArray⟩

/-- The checks of a module source up to its program. -/
def compileModule (parse : Parse) (moduleId : ModuleId) (bytes : List UInt8) :
    Except LinkError Program :=
  match fromUtf8 bytes with
  | none => .error (.invalidModule moduleId [notUtf8])
  | some text =>
    match parse text with
    | .ok program => .ok program
    | .error errors => .error (.invalidModule moduleId (errors.map compileDiagnosticFrom))

/-- `node_map.insert`. -/
def insertNode (node : ImportNode) (nodes : List ImportNode) : List ImportNode :=
  node :: nodes.filter fun n => n.moduleId ≠ node.moduleId

/-- What a search does not change. -/
structure Surroundings (W : Type) where
  resolver : ModuleResolver W
  request : LinkRequest W
  revision : Audit.LanguageRevision
  parse : Parse

/-- The source of a module: the call of the resolver and the reading. -/
def fetch (env : Surroundings W) (importer : Option ModuleId) (moduleId : ModuleId) :
    Search W (List UInt8) := do
  let callId ← nextCallId
  let answer ← Proc.update fun s =>
    let (answer, world) :=
      env.resolver.resolve callId ⟨importer, moduleId.name, env.revision⟩ s.world
    (answer, { s with world })
  match answer with
  | .error e => fail (adapterErrorToLinkError e)
  | .ok module =>
    if module.id ≠ moduleId then fail (.resolve (hostError "internal_resolver_fault"))
    else readModuleSource env.request [] module.source

/-- One round of the loop of `resolve_module_imports`, with the id that it pushes to
`out_imports`. `child` is the recursive call; it takes the importer, its specifiers and the
active modules. -/
def resolveImport (env : Surroundings W)
    (child : ModuleId → List (String × Nat) → List ModuleId → Search W (List ModuleId))
    (importer : Option ModuleId) (depth : Nat) (active : List ModuleId) (specifier : String) :
    Search W ModuleId := do
  checkCancelled env.request
  let moduleId ← liftExcept (normalizeSpecifier env.resolver.knowsMount specifier)
  if moduleId ∈ active then
    -- `active[pos..]`, and the id once more
    fail (.cycle (active.dropWhile (· ≠ moduleId) ++ [moduleId]))
  else if maxImportDepth ≤ depth then fail (.depthExceeded maxImportDepth)
  else
    let bytes ← fetch env importer moduleId
    match ← Proc.gets fun s => s.resolved moduleId with
    | some existing =>
      if existing ≠ hashOf bytes then fail (.resolve (hostError "module_hash_mismatch"))
      else pure moduleId
    | none =>
      let program ← liftExcept (compileModule env.parse moduleId bytes)
      Proc.modify fun s =>
        { s with resolved := Function.update s.resolved moduleId (some (hashOf bytes)) }
      let imports ← child moduleId (importSpecifiers program) (active ++ [moduleId])
      Proc.modify fun s =>
        { s with nodeMap := insertNode ⟨moduleId, hashOf bytes, imports⟩ s.nodeMap }
      pure moduleId

/-- The loop of `resolve_module_imports`. -/
def resolveImports (resolveOne : String → Search W ModuleId) :
    List (String × Nat) → Search W (List ModuleId)
  | [] => pure []
  | (specifier, _) :: rest => do
    let moduleId ← resolveOne specifier
    let ids ← resolveImports resolveOne rest
    pure (moduleId :: ids)

/-- `resolve_module_imports`. -/
def resolveModuleImports (env : Surroundings W) :
    (fuel : Nat) → Option ModuleId → List (String × Nat) → (depth : Nat) → List ModuleId →
      Search W (List ModuleId)
  | 0, _, _, _, _ => Proc.stop .exhausted
  | fuel + 1, importer, specifiers, depth, active =>
    resolveImports (resolveImport env
      (fun moduleId specifiers active =>
        resolveModuleImports env fuel (some moduleId) specifiers (depth + 1) active)
      importer depth active) specifiers

/-- `nodes.sort_by(..)`: the ids in byte order. -/
def sortNodes (nodes : List ImportNode) : List ImportNode :=
  nodes.mergeSort fun a b => utf8Bytes a.moduleId.name ≤ utf8Bytes b.moduleId.name

/-- `resolve_import_graph`: the imports of the root and the nodes. -/
def resolveImportGraph (env : Surroundings W) (fuel : Nat) (script : CompiledScript) (world : W) :
    Except Halt (List ModuleId × List ImportNode) × W :=
  match (resolveModuleImports env fuel none script.importSpecifiers 0 []).run
      ⟨world, 0, fun _ => none, []⟩ with
  | (.ok rootImports, s) => (.ok (rootImports, sortNodes s.nodeMap), s.world)
  | (.error e, s) => (.error e, s.world)

/-- `import_graph_hash` of the graph. -/
def graphHash (revision : Audit.LanguageRevision) (root : SourceHash) (rootImports : List ModuleId)
    (nodes : List ImportNode) : SourceHash :=
  hashOf (importGraphBytes ⟨revision, root, rootImports.map ModuleId.name,
    nodes.map fun n => ⟨n.moduleId.name, n.sourceHash, n.imports.map ModuleId.name⟩⟩)

/-- The linked script over the imports of the root and the nodes. -/
def linkedScript (script : CompiledScript) (rootImports : List ModuleId)
    (nodes : List ImportNode) : LinkedScript :=
  let hash := graphHash script.languageRevision script.sourceHash rootImports nodes
  { root := script
    importGraph := ⟨script.sourceHash, rootImports, nodes, hash⟩
    scriptHash := hashOf (linkedScriptBytes ⟨script.languageRevision, script.sourceHash, hash⟩) }

/-- `empty_linked_script`. -/
def emptyLinkedScript (script : CompiledScript) : LinkedScript := linkedScript script [] []

/-- `link_inner`, with the world it leaves. -/
def linkInner (parse : Parse) (fuel : Nat) (engine : Engine) (script : CompiledScript)
    (request : LinkRequest W) (world : W) : Except Halt LinkedScript × W :=
  if script.engineId ≠ engine.id then (.error (.raised .engineMismatch), world)
  else if script.languageRevision ≠ engine.languageRevision then
    (.error (.raised .revisionMismatch), world)
  else if script.backend ≠ engine.backend then (.error (.raised .backendMismatch), world)
  else
    let (cancelled, world) := request.isCancelled world
    if cancelled then (.error (.raised .cancelled), world)
    else
      match request.moduleResolver with
      | none =>
        if script.hasImports then (.error (.raised (.denied resolverAbsentDenial)), world)
        else (.ok (emptyLinkedScript script), world)
      | some resolver =>
        if script.hasImports = false then (.ok (emptyLinkedScript script), world)
        else
          match resolveImportGraph ⟨resolver, request, script.languageRevision, parse⟩ fuel script
              world with
          | (.ok (rootImports, nodes), world) => (.ok (linkedScript script rootImports nodes), world)
          | (.error e, world) => (.error e, world)

end Tsumugi.LinkTime
