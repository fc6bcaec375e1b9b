import Mathlib.Data.Finset.Basic
import Tsumugi.Capability.Path
import Tsumugi.Lib.Codec
import Tsumugi.Lib.OrderedMap

/-!
# Capability sets (`capability.rs`)

The builder of a capability set and the byte string that `compute_id` hashes. An
adapter enters only through its policy id, except for the directory handle of a
filesystem root, of which any type may be taken. What a collection holds is bounded
by the address space, so lists that a host hands over are `Vec`s.
-/

namespace Tsumugi.Capability

/-- A collection in memory: its length is a `usize`. -/
abbrev Vec (α : Type) : Type := { l : List α // l.length < 2 ^ 64 }

/-- `CapabilityKind`. -/
inductive CapabilityKind
  | environment
  | clock
  | stdin
  | stdout
  | filesystem
  | processExit
  | moduleResolver
  | hostFunction
deriving DecidableEq, Repr

/-- `CapabilityKind::tag`. -/
def CapabilityKind.tag : CapabilityKind → UInt8
  | environment => 0x01
  | clock => 0x02
  | stdin => 0x03
  | stdout => 0x04
  | filesystem => 0x05
  | processExit => 0x06
  | moduleResolver => 0x07
  | hostFunction => 0x08

/-- `DataClassification`. -/
inductive DataClassification
  | «public»
  | sensitive
  | secret
deriving DecidableEq, Repr

/-- `DataClassification::tag`. -/
def DataClassification.tag : DataClassification → UInt8
  | «public» => 0x00
  | sensitive => 0x01
  | secret => 0x02

/-- `FsOperation`. -/
inductive FsOperation
  | read
  | write
  | create
  | delete
  | metadata
  | list
  | «import»
  | recursiveDelete
deriving DecidableEq, Repr

/-- `FsOperation::tag`. -/
def FsOperation.tag : FsOperation → UInt8
  | read => 0x01
  | write => 0x02
  | create => 0x03
  | delete => 0x04
  | metadata => 0x05
  | list => 0x06
  | «import» => 0x07
  | recursiveDelete => 0x08

/-- The operations in the order of the declaration, which is their `Ord`. -/
def FsOperation.all : List FsOperation :=
  [read, write, create, delete, metadata, list, «import», recursiveDelete]

theorem FsOperation.mem_all (op : FsOperation) : op ∈ all := by cases op <;> decide

/-- `SymlinkPolicy`. -/
inductive SymlinkPolicy
  | denyAll
  | followWithinRoot
  | operateOnFinalEntry
deriving DecidableEq, Repr

/-- `SymlinkPolicy::tag`. -/
def SymlinkPolicy.tag : SymlinkPolicy → UInt8
  | denyAll => 0x00
  | followWithinRoot => 0x01
  | operateOnFinalEntry => 0x02

/-- `ConfigError`, over these kinds. -/
abbrev ConfigErr := ConfigError CapabilityKind

/-! ## Environment snapshots -/

/-- `EnvironmentValue`: a value without NUL and its classification. -/
structure EnvironmentValue where
  value : String
  classification : DataClassification
  noNul : '\x00' ∉ value.toList
deriving DecidableEq

/-- `EnvironmentValue::new`. -/
def EnvironmentValue.new (value : String) (classification : DataClassification) :
    Except ConfigErr EnvironmentValue :=
  if h : '\x00' ∈ value.toList then .error (.identifierContainsNul "environment_value")
  else .ok ⟨value, classification, h⟩

/-- `validate_env_key`. -/
def validateEnvKey (key : String) : Except ConfigErr Unit :=
  if key = "" then .error (.emptyIdentifier "environment_key")
  else if 256 < key.utf8ByteSize then .error (.identifierTooLong "environment_key" 256)
  else if '\x00' ∈ key.toList then .error (.identifierContainsNul "environment_key")
  else .ok ()

/-- `EnvironmentSnapshot`. Every key has passed the check, and the map is in memory. -/
structure EnvironmentSnapshot where
  map : OrderedMap String EnvironmentValue
  keys : ∀ e ∈ map.entries, validateEnvKey e.1 = .ok ()
  fits : map.entries.length < 2 ^ 64

/-- The loop of `from_entries`. -/
def collectEntries (map : OrderedMap String EnvironmentValue) :
    List (String × EnvironmentValue) → Except ConfigErr (OrderedMap String EnvironmentValue)
  | [] => .ok map
  | (key, value) :: rest =>
    match validateEnvKey key with
    | .error e => .error e
    | .ok () =>
      match map.insert key value with
      | (some _, _) => .error (.duplicateCallableName key)
      | (none, map) => collectEntries map rest

/-- What the loop has collected: the entries, in any order, with checked keys that
differ from each other and from those collected before. -/
theorem collectEntries_ok {entries : List (String × EnvironmentValue)}
    {map map' : OrderedMap String EnvironmentValue} (h : collectEntries map entries = .ok map') :
    map'.entries.Perm (entries ++ map.entries) ∧
      (∀ e ∈ entries, validateEnvKey e.1 = .ok ()) := by
  induction entries generalizing map with
  | nil =>
    cases h
    exact ⟨List.Perm.refl _, by simp⟩
  | cons e rest ih =>
    obtain ⟨key, value⟩ := e
    rw [collectEntries] at h
    split at h
    · cases h
    rename_i hkey
    split at h
    · cases h
    rename_i map₁ hinsert
    obtain ⟨hold, rfl⟩ := Prod.mk.inj hinsert
    obtain ⟨hperm, hkeys⟩ := ih h
    have hadd := OrderedMap.perm_insertEntry (v := value) (OrderedMap.get_eq_none_iff.mp hold)
    refine ⟨hperm.trans ((hadd.append_left rest).trans List.perm_middle), fun e he => ?_⟩
    rcases List.mem_cons.mp he with rfl | he
    · exact hkey
    · exact hkeys e he

/-- `EnvironmentSnapshot::from_entries`. -/
def EnvironmentSnapshot.fromEntries (entries : Vec (String × EnvironmentValue)) :
    Except ConfigErr EnvironmentSnapshot :=
  match h : collectEntries .empty entries.1 with
  | .error e => .error e
  | .ok map =>
    .ok
      { map
        keys := fun e he => (collectEntries_ok h).2 e <| by
          simpa [OrderedMap.empty] using (collectEntries_ok h).1.mem_iff.mp he
        fits := by
          have := (collectEntries_ok h).1.length_eq
          simp only [OrderedMap.empty, List.append_nil] at this
          exact this ▸ entries.2 }

/-! ## Filesystem roots -/

/-- `FilesystemRoot`, over the type of its adapter. -/
structure FilesystemRoot (A : Type) where
  mount : MountName
  policyId : NonZeroU128
  operations : Finset FsOperation
  symlinkPolicy : SymlinkPolicy
  adapter : A

/-- `FilesystemCapability`: at least one root, each with its own mount. -/
structure FilesystemCapability (A : Type) where
  roots : List (FilesystemRoot A)
  legacy : Option LegacyFsTranslator
  nonempty : roots ≠ []
  distinct : (roots.map FilesystemRoot.mount).Nodup
  fits : roots.length < 2 ^ 64

variable {A : Type}

/-- `FilesystemCapability::new_inner`. -/
def FilesystemCapability.newInner (roots : Vec (FilesystemRoot A))
    (legacy : Option LegacyFsTranslator) : Except ConfigErr (FilesystemCapability A) :=
  if h : roots.1 = [] then .error (.invalidFilesystemPolicy "no_roots")
  else if hd : (roots.1.map FilesystemRoot.mount).Nodup then
    .ok ⟨roots.1, legacy, h, hd, roots.2⟩
  else .error (.invalidFilesystemPolicy "duplicate_mount")

/-! ## The builder -/

/-- `CapabilitySetBuilder`. A clock, stdin, stdout and module resolver is its policy id. -/
structure CapabilitySetBuilder (A : Type) where
  environment : Option EnvironmentSnapshot
  clock : Option NonZeroU128
  stdin : Option NonZeroU128
  stdout : Option NonZeroU128
  filesystem : Option (FilesystemCapability A)
  processExit : Option NonZeroU128
  moduleResolver : Option NonZeroU128
  hostFunctions : OrderedMap NonZeroU128 Unit

namespace CapabilitySetBuilder

/-- `CapabilitySetBuilder::new`. -/
def new : CapabilitySetBuilder A := ⟨none, none, none, none, none, none, none, .empty⟩

end CapabilitySetBuilder

/-- `set_once`. -/
def setOnce {α : Type} (slot : Option α) (value : α) (kind : CapabilityKind) :
    Except ConfigErr (Option α) :=
  match slot with
  | some _ => .error (.duplicateCapability kind)
  | none => .ok (some value)

/-- One call of a builder method. -/
inductive Grant (A : Type)
  | environment (value : EnvironmentSnapshot)
  | clock (policyId : NonZeroU128)
  | stdin (policyId : NonZeroU128)
  | stdout (policyId : NonZeroU128)
  | filesystem (value : FilesystemCapability A)
  | processExit (policyId : NonZeroU128)
  | moduleResolver (policyId : NonZeroU128)
  | hostFunction (id : NonZeroU128)

namespace CapabilitySetBuilder

/-- The builder method of a grant. -/
def grant (b : CapabilitySetBuilder A) : Grant A → Except ConfigErr (CapabilitySetBuilder A)
  | .environment value => do
    let slot ← setOnce b.environment value .environment
    .ok { b with environment := slot }
  | .clock id => do
    let slot ← setOnce b.clock id .clock
    .ok { b with clock := slot }
  | .stdin id => do
    let slot ← setOnce b.stdin id .stdin
    .ok { b with stdin := slot }
  | .stdout id => do
    let slot ← setOnce b.stdout id .stdout
    .ok { b with stdout := slot }
  | .filesystem value => do
    let slot ← setOnce b.filesystem value .filesystem
    .ok { b with filesystem := slot }
  | .processExit id => do
    let slot ← setOnce b.processExit id .processExit
    .ok { b with processExit := slot }
  | .moduleResolver id => do
    let slot ← setOnce b.moduleResolver id .moduleResolver
    .ok { b with moduleResolver := slot }
  | .hostFunction id =>
    match b.hostFunctions.insert id () with
    | (some _, _) => .error (.duplicateCapability .hostFunction)
    | (none, set) => .ok { b with hostFunctions := set }

/-- The builder after a list of method calls. -/
def grantAll (b : CapabilitySetBuilder A) : List (Grant A) → Except ConfigErr (CapabilitySetBuilder A)
  | [] => .ok b
  | g :: rest => do
    let b' ← b.grant g
    b'.grantAll rest

/-! ## The bytes of the identity -/

end CapabilitySetBuilder

/-- The UTF-8 bytes of a string. -/
def utf8Bytes (s : String) : List UInt8 := s.toByteArray.data.toList

/-- `push_str_field`. -/
def strField (s : String) : List UInt8 := Codec.bigEndian 8 s.utf8ByteSize ++ utf8Bytes s

/-- `push_policy_id`, and the bytes of a host function id. -/
def policyIdBytes (id : NonZeroU128) : List UInt8 := Codec.bigEndian 16 id.val

/-- The encoding of one environment entry. -/
def envEntryBytes (e : String × EnvironmentValue) : List UInt8 :=
  strField e.1 ++ [e.2.classification.tag]

/-- The encoding of one root. -/
def rootBytes (root : FilesystemRoot A) : List UInt8 :=
  let operations := FsOperation.all.filter fun op => op ∈ root.operations
  strField root.mount.name ++ policyIdBytes root.policyId ++ [root.symlinkPolicy.tag] ++
    Codec.counted 8 (fun op => [op.tag]) operations

/-- The roots in the order of their mounts. -/
def FilesystemCapability.sortedRoots (fs : FilesystemCapability A) : List (FilesystemRoot A) :=
  fs.roots.mergeSort fun a b => a.mount.name ≤ b.mount.name

/-- `encode_filesystem`. -/
def encodeFilesystem (fs : FilesystemCapability A) : List UInt8 :=
  Codec.counted 8 rootBytes fs.sortedRoots

namespace CapabilitySetBuilder

/-- The kinds that are granted, in the order of `compute_id` before it sorts them. -/
def groups (b : CapabilitySetBuilder A) : List CapabilityKind :=
  (if b.environment.isSome then [.environment] else []) ++
  (if b.clock.isSome then [.clock] else []) ++
  (if b.stdin.isSome then [.stdin] else []) ++
  (if b.stdout.isSome then [.stdout] else []) ++
  (if b.filesystem.isSome then [.filesystem] else []) ++
  (if b.processExit.isSome then [.processExit] else []) ++
  (if b.moduleResolver.isSome then [.moduleResolver] else []) ++
  (if b.hostFunctions.entries.isEmpty then [] else [.hostFunction])

/-- What `compute_id` writes after the tag of a kind. A kind is only written when it is
granted, so the missing cases are never reached. -/
def groupBody (b : CapabilitySetBuilder A) : CapabilityKind → List UInt8
  | .environment => b.environment.elim [] fun env => Codec.counted 8 envEntryBytes env.map.entries
  | .clock => b.clock.elim [] policyIdBytes
  | .stdin => b.stdin.elim [] policyIdBytes
  | .stdout => b.stdout.elim [] policyIdBytes
  | .filesystem => b.filesystem.elim [] encodeFilesystem
  | .processExit => b.processExit.elim [] policyIdBytes
  | .moduleResolver => b.moduleResolver.elim [] policyIdBytes
  | .hostFunction => Codec.counted 8 (fun e => policyIdBytes e.1) b.hostFunctions.entries

/-- The bytes that `compute_id` hashes. -/
def idBytes (b : CapabilitySetBuilder A) : List UInt8 :=
  utf8Bytes "TSUMUGI-CAPSET-V1\x00" ++
    Codec.counted 8 (fun kind => kind.tag :: b.groupBody kind)
      (b.groups.mergeSort fun a c => a.tag ≤ c.tag)

end CapabilitySetBuilder

end Tsumugi.Capability
