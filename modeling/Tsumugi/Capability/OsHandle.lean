import Tsumugi.Budget.Stop
import Tsumugi.Capability.Set
import Tsumugi.Lib.HostFs

/-!
# The directory handle of the operating system (`capability.rs`, `os_secure`)

The Unix side of `OsDirectoryHandle` and `OsFileHandle`. An operation that reports
something of an entry has a variant that also says which entry it is. The check for
reparse points does nothing on Unix and is left out.
-/

namespace Tsumugi.Capability

open FileTree HostFs

/-- `AdapterError`. -/
inductive AdapterError
  | host (context : String)
  | secureResolutionUnsupported
  | directoryReadFailed
  | nonUtf8EntryName
  | control (stop : Budget.ControlStop)
deriving DecidableEq, Repr

/-- `WriteMode`. -/
inductive WriteMode
  | truncate
  | append
deriving DecidableEq, Repr

/-- `OpenFileRequest`. -/
inductive OpenFileRequest
  | readExisting
  | writeExisting (mode : WriteMode)
  | createNew (mode : WriteMode)
  | upsert (mode : WriteMode)
deriving DecidableEq, Repr

/-- `EntryKind`. -/
inductive EntryKind
  | file
  | directory
  | symlink
  | other
deriving DecidableEq, Repr

/-- `PublicMetadata`. -/
structure PublicMetadata where
  kind : EntryKind
  sizeBytes : Nat
  readonly : Bool
deriving DecidableEq, Repr

/-- `DirectoryEntry`. -/
structure DirectoryEntry where
  name : String
  kind : EntryKind
deriving DecidableEq, Repr

/-- `RemoveKind`. -/
inductive RemoveKind
  | fileOrSymlink
  | emptyDirectory
  | tree
deriving DecidableEq, Repr

/-- `OsDirectoryHandle`; the base is an absolute path. -/
structure OsDirectoryHandle where
  base : List PathComponent
  policyId : NonZeroU128
  symlinkPolicy : SymlinkPolicy
deriving DecidableEq

/-- `entry_kind_of`. -/
def entryKindOf : Node → EntryKind
  | .file .. => .file
  | .directory _ => .directory
  | .symlink .. => .symlink
  | .other _ => .other

/-- `public_metadata_of`. -/
def publicMetadataOf : Node → PublicMetadata
  | .file content readonly => ⟨.file, content.length, readonly⟩
  | .directory attrs => ⟨.directory, attrs.size, attrs.readonly⟩
  | .symlink _ attrs => ⟨.symlink, attrs.size, attrs.readonly⟩
  | .other attrs => ⟨.other, attrs.size, attrs.readonly⟩

/-- `ok_or` with the error of a failed call. -/
def orHostErr {α : Type} (x : Option α) (context : String) : Except AdapterError α :=
  match x with
  | some a => .ok a
  | none => .error (.host context)

/-- `within_base`. -/
def withinBase (s : Host) (base candidate : List PathComponent) : Bool :=
  match s.canonicalize base with
  | some base => decide (base <+: candidate)
  | none => false

namespace OsDirectoryHandle

variable (h : OsDirectoryHandle) (s : Host)

/-- One intermediate component in `resolve`. -/
def descend (current : List PathComponent) (name : String) :
    Except AdapterError (List PathComponent) := do
  let current := current ++ [.normal name]
  match ← orHostErr (s.symlinkMetadata current) "intermediate component not accessible" with
  | (_, .symlink ..) =>
    match h.symlinkPolicy with
    | .denyAll => .error (.host "symlink component denied by policy")
    | .followWithinRoot | .operateOnFinalEntry =>
      let resolved ← orHostErr (s.canonicalize current) "symlink target not resolvable"
      if withinBase s h.base resolved = false then .error (.host "symlink escapes root")
      else if (s.metadata resolved).any (·.2.isDirectory) then .ok resolved
      else .error (.host "intermediate component is not a directory")
  | (_, .directory _) => .ok current
  | _ => .error (.host "intermediate component is not a directory")

/-- `resolve`. -/
def resolve (rel : RelativePath) : Except AdapterError (List PathComponent) := do
  let current ← rel.components.dropLast.foldlM (h.descend s) h.base
  match rel.components.getLast? with
  | some last => .ok (current ++ [.normal last])
  | none => .ok current

/-- The `OpenOptions` of a request. -/
def openOptions : OpenFileRequest → OpenOptions
  | .readExisting => ⟨true, false, false, false, false, false⟩
  | .writeExisting .truncate => ⟨false, true, false, true, false, false⟩
  | .writeExisting .append => ⟨false, false, true, false, false, false⟩
  | .createNew .truncate => ⟨false, true, false, true, false, true⟩
  | .createNew .append => ⟨false, false, true, false, false, true⟩
  | .upsert .truncate => ⟨false, true, false, true, true, false⟩
  | .upsert .append => ⟨false, false, true, false, true, false⟩

/-- `open_file`. -/
def openFile (rel : RelativePath) (request : OpenFileRequest) :
    Except AdapterError (OpenFile × Host) := do
  let path ← h.resolve s rel
  if (s.symlinkMetadata path).any (·.2.isSymlink) then
    .error (.host "final symlink denied by policy")
  else orHostErr (s.openFile (openOptions request) path) "open failed"

/-- The entry that `metadata` reports. -/
def metadataEntry (rel : RelativePath) (followFinal : Bool) :
    Except AdapterError (Location × Node) := do
  let path ← h.resolve s rel
  let entry ← orHostErr (s.symlinkMetadata path) "metadata target not accessible"
  if followFinal && entry.2.isSymlink then
    let resolved ← orHostErr (s.canonicalize path) "symlink target not resolvable"
    if withinBase s h.base resolved = false then .error (.host "symlink escapes root")
    else orHostErr (s.metadata resolved) "metadata target not accessible"
  else .ok entry

/-- `metadata`. -/
def metadata (rel : RelativePath) (followFinal : Bool) : Except AdapterError PublicMetadata := do
  let entry ← h.metadataEntry s rel followFinal
  .ok (publicMetadataOf entry.2)

/-- The loop of `list`; `room` counts down `max_entries`. -/
def listNames (s : Host) (dir : Location) (path : List PathComponent) :
    Option Nat → List String → Except AdapterError (List (Location × DirectoryEntry))
  | _, [] => .ok []
  | room, name :: rest =>
    match s.entryFault (dir ++ [name]) with
    | some .unreadable => .error .directoryReadFailed
    | some .notUtf8 => .error .nonUtf8EntryName
    | none =>
      match s.symlinkMetadata (path ++ [.normal name]) with
      | none => .error .directoryReadFailed
      | some (p, node) =>
        if room.any (· ≤ 1) then .ok [(p, ⟨name, entryKindOf node⟩)]
        else do
          let entries ← listNames s dir path (room.map (· - 1)) rest
          .ok ((p, ⟨name, entryKindOf node⟩) :: entries)

/-- The directory that `list` reads and the entries that it reports. -/
def listEntries (rel : RelativePath) (maxEntries : Option Nat) :
    Except AdapterError (Location × List (Location × DirectoryEntry)) := do
  let path ← h.resolve s rel
  match ← orHostErr (s.symlinkMetadata path) "list target not accessible" with
  | (_, .symlink ..) => .error (.host "list on symlink denied by policy")
  | _ =>
    let (dir, names) ← orHostErr (s.readDir path) "read_dir failed"
    let entries ← listNames s dir path maxEntries names
    .ok (dir, entries)

/-- `list`. -/
def list (rel : RelativePath) (maxEntries : Option Nat) :
    Except AdapterError (List DirectoryEntry) := do
  let (_, entries) ← h.listEntries s rel maxEntries
  .ok (entries.map Prod.snd)

/-- `create_dir`. -/
def createDir (rel : RelativePath) : Except AdapterError Host := do
  let path ← h.resolve s rel
  orHostErr (s.createDir path) "create_dir failed"

/-- `remove`, and the file system after it. -/
def remove (rel : RelativePath) (kind : RemoveKind) : Except AdapterError Unit × Host :=
  match h.resolve s rel with
  | .error e => (.error e, s)
  | .ok path =>
    let done (s' : Option Host) (context : String) : Except AdapterError Unit × Host :=
      match s' with
      | some s' => (.ok (), s')
      | none => (.error (.host context), s)
    match kind with
    | .fileOrSymlink =>
      match s.symlinkMetadata path with
      | none => (.error (.host "remove target not accessible"), s)
      | some _ => done (s.removeFile path) "remove failed"
    | .emptyDirectory => done (s.removeDir path) "remove_dir failed"
    | .tree =>
      match s.symlinkMetadata path with
      | none => (.error (.host "remove_tree target not accessible"), s)
      | some (_, .symlink ..) => done (s.removeFile path) "remove failed"
      | some _ =>
        match s.removeDirAll path with
        | (true, s') => (.ok (), s')
        | (false, s') => (.error (.host "remove_tree failed"), s')

/-- `rename`. The destination is resolved under the same base, for a handle with the same
policy id; any other handle is refused. -/
def rename (source : RelativePath) (toDirectory : OsDirectoryHandle) (target : RelativePath)
    (replace : Bool) : Except AdapterError Host := do
  if toDirectory.policyId ≠ h.policyId then .error .secureResolutionUnsupported
  else
    let src ← h.resolve s source
    let dst ← h.resolve s target
    let srcEntry ← orHostErr (s.symlinkMetadata src) "rename source not accessible"
    if srcEntry.2.isSymlink then .error (.host "rename on symlink denied")
    else if !replace && s.pathExists dst then .error (.host "destination exists")
    else if (s.symlinkMetadata dst).any (·.2.isSymlink) then
      .error (.host "rename on symlink denied")
    else orHostErr (s.rename src dst) "rename failed"

end OsDirectoryHandle

namespace OsFileHandle

/-- `read_to_end`. -/
def readToEnd (s : Host) (file : OpenFile) (maxBytes : Option Nat) : Except AdapterError (List UInt8) := do
  let content ← orHostErr (s.readToEnd file) "read failed"
  .ok (maxBytes.elim content content.take)

/-- `write_all`. -/
def writeAll (s : Host) (file : OpenFile) (bytes : List UInt8) : Except AdapterError Host :=
  orHostErr (s.writeAll file bytes) "write failed"

/-- `metadata`. -/
def metadata (s : Host) (file : OpenFile) : Except AdapterError PublicMetadata := do
  let node ← orHostErr (s.tree.node file.location) "metadata not accessible"
  .ok (publicMetadataOf node)

end OsFileHandle

end Tsumugi.Capability
