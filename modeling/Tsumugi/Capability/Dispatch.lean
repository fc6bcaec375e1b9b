import Tsumugi.Capability.OsHandle
import Tsumugi.Lang.Value

/-!
# The filesystem builtins (`builtin_core.rs`)

The dispatcher that carries out `read_file`, `rename` and the other filesystem builtins
under a filesystem capability. The adapters are any implementation of `DirectoryHandle`
and `FileHandle` over a state of the host. Each call of an adapter method is written to
a log, with the host before and after it.
-/

namespace Tsumugi.Capability

/-! ## The adapters -/

/-- An implementation of `DirectoryHandle` (`A`) and `FileHandle` (`F`) over host states.
`destination` is the handle under which a rename from one handle to another puts the
entry, if it is not refused; `replaces` says whether it replaces an entry there. -/
structure Adapters (A F σ : Type) where
  openFile : A → RelativePath → OpenFileRequest → σ → Except AdapterError F × σ
  readToEnd : F → Option Nat → σ → Except AdapterError (List UInt8) × σ
  writeAll : F → List UInt8 → σ → Except AdapterError Unit × σ
  createDir : A → RelativePath → σ → Except AdapterError Unit × σ
  metadata : A → RelativePath → Bool → σ → Except AdapterError PublicMetadata × σ
  list : A → RelativePath → Option Nat → σ → Except AdapterError (List DirectoryEntry) × σ
  remove : A → RelativePath → RemoveKind → σ → Except AdapterError Unit × σ
  rename : A → RelativePath → A → RelativePath → Bool → σ → Except AdapterError Unit × σ
  destination : A → A → Option A
  replaces : A → RelativePath → A → RelativePath → σ → Bool

/-- A call of an adapter method. The methods of an open file name the place where it was
opened. -/
inductive FsCall (A : Type)
  | openFile (adapter : A) (path : RelativePath) (request : OpenFileRequest)
  | readToEnd (adapter : A) (path : RelativePath) (maxBytes : Option Nat)
  | writeAll (adapter : A) (path : RelativePath) (bytes : List UInt8)
  | createDir (adapter : A) (path : RelativePath)
  | metadata (adapter : A) (path : RelativePath) (followFinal : Bool)
  | list (adapter : A) (path : RelativePath) (maxEntries : Option Nat)
  | remove (adapter : A) (path : RelativePath) (kind : RemoveKind)
  | rename (adapter : A) (source : RelativePath) (toDirectory : A) (target : RelativePath)
      (replace : Bool)

/-- A call and the host before and after it. -/
structure CallRecord (A σ : Type) where
  before : σ
  call : FsCall A
  after : σ

/-- What a dispatch carries along: the host, the label for the audit and the calls. -/
structure FsRun (A σ : Type) where
  host : σ
  label : Option String
  calls : List (CallRecord A σ)

/-- An action of the dispatcher. -/
def FsM (A σ α : Type) : Type := FsRun A σ → Except TsumugiError α × FsRun A σ

instance {A σ : Type} : Monad (FsM A σ) where
  pure a := fun st => (.ok a, st)
  bind m f := fun st =>
    match m st with
    | (.ok a, st') => f a st'
    | (.error e, st') => (.error e, st')

/-- A check that does not look at the host. -/
instance {A σ : Type} : MonadLift (Except TsumugiError) (FsM A σ) where
  monadLift r := fun st => (r, st)

/-! ## Arguments and texts -/

/-- `check_arity`. -/
def checkArity (name : String) (args : List Value) (expected line : Nat) :
    Except TsumugiError Unit :=
  if args.length ≠ expected then .error (.builtinArity line name expected args.length) else .ok ()

/-- `require_str` on `args[index]`, which `check_arity` has shown to exist. -/
def requireStr (args : List Value) (index : Nat) (builtin : String) (line : Nat) :
    Except TsumugiError String :=
  match args.getD index .null with
  | .str _ s => .ok s
  | other => .error (.builtinArgType line builtin (index + 1) "Str" other)

/-- `check_collection_size`. -/
def checkCollectionSize (size limit line : Nat) : Except TsumugiError Unit :=
  if limit < size then .error (.collectionLimit line size limit) else .ok ()

/-- The loop that checks the size of a collection before each new element. -/
def collectChecked {α : Type} (limit line : Nat) : (size : Nat) → List α → Except TsumugiError (List α)
  | _, [] => .ok []
  | size, a :: rest => do
    checkCollectionSize (size + 1) limit line
    let rest ← collectChecked limit line (size + 1) rest
    .ok (a :: rest)

/-- `checked_file_size_to_i64`. -/
def checkedFileSizeToI64 (size line : Nat) : Except TsumugiError Int :=
  if 2 ^ 63 ≤ size then .error (.fileSizeOverflow line) else .ok size

/-- `fs_content_arg`. -/
def fsContentArg (formatFloat : UInt64 → String) (value : Value) : String :=
  match value with
  | .str _ s => s
  | other => other.display formatFloat

/-- A multi-byte character under way: its bits so far and the ranges of the bytes to come. -/
abbrev Utf8Pending := Option (Nat × List (UInt8 × UInt8))

/-- The first byte of a character. -/
def utf8First (b : UInt8) : List Char × Utf8Pending :=
  let tail : UInt8 × UInt8 := (0x80, 0xBF)
  if b < 0x80 then ([Char.ofNat b.toNat], none)
  else if 0xC2 ≤ b ∧ b ≤ 0xDF then ([], some (b.toNat - 0xC0, [tail]))
  else if b = 0xE0 then ([], some (0, [(0xA0, 0xBF), tail]))
  else if b = 0xED then ([], some (13, [(0x80, 0x9F), tail]))
  else if 0xE1 ≤ b ∧ b ≤ 0xEF then ([], some (b.toNat - 0xE0, [tail, tail]))
  else if b = 0xF0 then ([], some (0, [(0x90, 0xBF), tail, tail]))
  else if b = 0xF4 then ([], some (4, [(0x80, 0x8F), tail, tail]))
  else if 0xF1 ≤ b ∧ b ≤ 0xF3 then ([], some (b.toNat - 0xF0, [tail, tail, tail]))
  else (['\uFFFD'], none)

/-- One byte of `from_utf8_lossy`: what cannot be continued is one replacement character,
and the byte that did not fit is read again. -/
def utf8Step : Utf8Pending → UInt8 → List Char × Utf8Pending
  | some (bits, range :: ranges), b =>
    if range.1 ≤ b ∧ b ≤ range.2 then
      let bits := bits * 64 + (b.toNat - 0x80)
      if ranges = [] then ([Char.ofNat bits], none) else ([], some (bits, ranges))
    else
      let (out, pending) := utf8First b
      ('\uFFFD' :: out, pending)
  | _, b => utf8First b

/-- `String::from_utf8_lossy`. -/
def fromUtf8Lossy : Utf8Pending → List UInt8 → List Char
  | none, [] => []
  | some _, [] => ['\uFFFD']
  | pending, b :: rest =>
    let (out, pending) := utf8Step pending b
    out ++ fromUtf8Lossy pending rest

/-- `str::lines`. -/
def lines : List Char → List (List Char)
  | [] => []
  | '\n' :: rest => [] :: lines rest
  | '\r' :: '\n' :: rest => [] :: lines rest
  | c :: rest =>
    match lines rest with
    | [] => [[c]]
    | line :: more => (c :: line) :: more

example : (lines "a\r\n\nb".toList).map String.ofList = ["a", "", "b"] := by decide

/-! ## Routing -/

variable {A F σ : Type}

namespace FilesystemCapability

/-- `root`. -/
def root (filesystem : FilesystemCapability A) (mount : MountName) : Option (FilesystemRoot A) :=
  filesystem.roots.find? fun r => r.mount = mount

/-- The mount and the path that a script path names: host paths under a legacy profile,
`@mount/...` otherwise. -/
def target (filesystem : FilesystemCapability A) (path : String) :
    Except PathError (Option FilesystemTarget) :=
  match filesystem.legacy with
  | some translator => translator.translate path
  | none => (FilesystemTarget.parse path).map some

end FilesystemCapability

/-- `canonical_resource_label`. -/
def canonicalResourceLabel (target : FilesystemTarget) : String :=
  target.path.components.foldl (fun label component => label ++ "/" ++ component)
    ("@" ++ target.mount.name)

def setLabel (label : Option String) : FsM A σ Unit := fun st => (.ok (), { st with label })

/-- The target of `fs_route`. -/
def fsTarget (filesystem : FilesystemCapability A) (path : String) (line : Nat) :
    Except TsumugiError FilesystemTarget :=
  match filesystem.target path with
  | .ok none => .error (.filesystemDenied line)
  | .ok (some target) => .ok target
  | .error _ => .error (.argumentInvalidPath line)

/-- `return Err(e)`. -/
def raise {α : Type} (e : TsumugiError) : FsM A σ α := fun st => (.error e, st)

/-- `fs_route`. -/
def fsRoute (filesystem : FilesystemCapability A) (path : String) (operation : FsOperation)
    (line : Nat) : FsM A σ (FilesystemRoot A × FilesystemTarget) := do
  let target ← fsTarget filesystem path line
  match filesystem.root target.mount with
  | none => raise (.filesystemDenied line)
  | some root =>
    if operation ∉ root.operations then raise (.filesystemDenied line)
    else do
      setLabel (some (canonicalResourceLabel target))
      pure (root, target)

/-! ## Calls of the adapters -/

/-- Call an adapter method. -/
def perform {α : Type} (call : FsCall A) (method : σ → Except AdapterError α × σ) :
    FsM A σ (Except AdapterError α) := fun st =>
  let (result, after) := method st.host
  (.ok result, { st with host := after, calls := st.calls ++ [⟨st.host, call, after⟩] })

/-- `map_err` and `?`. -/
def orFail {α : Type} (result : Except AdapterError α) (error : AdapterError → TsumugiError) :
    Except TsumugiError α :=
  match result with
  | .ok a => .ok a
  | .error e => .error (error e)

/-- `fs_host_error`. -/
def fsHostError (name : String) (line : Nat) : TsumugiError :=
  .hostAdapterFailed line name "filesystem"

/-- `fs_list_error`. -/
def fsListError (name : String) (line : Nat) (error : AdapterError) : TsumugiError :=
  let category :=
    match error with
    | .directoryReadFailed => "directory_read"
    | .nonUtf8EntryName => "invalid_encoding"
    | _ => "filesystem"
  .hostAdapterFailed line name category

/-- An open file and where it was opened. -/
structure FsFile (A F : Type) where
  file : F
  adapter : A
  path : RelativePath

/-- The operation that `fs_open` routes a request with. -/
def OpenFileRequest.operation : OpenFileRequest → FsOperation
  | .readExisting => .read
  | .writeExisting _ => .write
  | .createNew _ => .create
  | .upsert _ => .write

def OpenFileRequest.isUpsert : OpenFileRequest → Bool
  | .upsert _ => true
  | _ => false

variable (adapters : Adapters A F σ)

/-- `fs_open`. -/
def fsOpen (name : String) (filesystem : FilesystemCapability A) (path : String)
    (request : OpenFileRequest) (line : Nat) : FsM A σ (FsFile A F) := do
  let (root, target) ← fsRoute filesystem path request.operation line
  if request.isUpsert ∧ .create ∉ root.operations then do
    setLabel none
    raise (.filesystemDenied line)
  else do
    let opened ← perform (.openFile root.adapter target.path request)
      (adapters.openFile root.adapter target.path request)
    let file ← orFail opened fun _ => fsHostError name line
    pure ⟨file, root.adapter, target.path⟩

/-- `read_to_end` on an open file. -/
def fsReadToEnd (name : String) (file : FsFile A F) (line : Nat) : FsM A σ (List UInt8) := do
  let bytes ← perform (.readToEnd file.adapter file.path none) (adapters.readToEnd file.file none)
  orFail bytes fun _ => fsHostError name line

/-- `write_all` on an open file. -/
def fsWriteAll (name : String) (file : FsFile A F) (content : String) (line : Nat) :
    FsM A σ Unit := do
  let bytes := content.toUTF8.data.toList
  let written ← perform (.writeAll file.adapter file.path bytes) (adapters.writeAll file.file bytes)
  orFail written fun _ => fsHostError name line

/-- `fs_metadata_kind`. -/
def fsMetadataKind (filesystem : FilesystemCapability A) (path : String) (line : Nat) :
    FsM A σ (Option EntryKind) := do
  let (root, target) ← fsRoute filesystem path .metadata line
  match ← perform (.metadata root.adapter target.path true)
      (adapters.metadata root.adapter target.path true) with
  | .ok info => pure (some info.kind)
  | .error _ => pure none

/-! ## The builtins -/

/-- The names of `is_filesystem_builtin`. -/
inductive FsBuiltin
  | readFile
  | readLines
  | writeFile
  | appendFile
  | pathExists
  | mkdir
  | remove
  | removeDir
  | removeTree
  | rename
  | listDir
  | fileSize
  | isFile
  | isDir
deriving DecidableEq, Repr

def FsBuiltin.name : FsBuiltin → String
  | readFile => "read_file"
  | readLines => "read_lines"
  | writeFile => "write_file"
  | appendFile => "append_file"
  | pathExists => "path_exists"
  | mkdir => "mkdir"
  | remove => "remove"
  | removeDir => "remove_dir"
  | removeTree => "remove_tree"
  | rename => "rename"
  | listDir => "list_dir"
  | fileSize => "file_size"
  | isFile => "is_file"
  | isDir => "is_dir"

/-- A call of a filesystem builtin: the arguments, the limit on collections and the line. -/
structure FsBuiltinCall where
  builtin : FsBuiltin
  args : List Value
  maxCollection : Nat
  line : Nat

variable (formatFloat : UInt64 → String)

/-- `dispatch_filesystem_capability`. Both revisions sort the names of a directory by code
points. -/
def dispatchFilesystemCapability (filesystem : FilesystemCapability A) (call : FsBuiltinCall) :
    FsM A σ Value :=
  let ⟨builtin, args, maxCollection, line⟩ := call
  let name := builtin.name
  match builtin with
  | .readFile => do
    checkArity name args 1 line
    let path ← requireStr args 0 name line
    let file ← fsOpen adapters name filesystem path .readExisting line
    let bytes ← fsReadToEnd adapters name file line
    pure (.strConstant (String.ofList (fromUtf8Lossy none bytes)))
  | .readLines => do
    checkArity name args 1 line
    let path ← requireStr args 0 name line
    let file ← fsOpen adapters name filesystem path .readExisting line
    let bytes ← fsReadToEnd adapters name file line
    let contentLines ← collectChecked maxCollection line 0 (lines (fromUtf8Lossy none bytes))
    pure (.list 0 (contentLines.map fun l => .strConstant (String.ofList l)))
  | .writeFile => do
    checkArity name args 2 line
    let path ← requireStr args 0 name line
    let content := fsContentArg formatFloat (args.getD 1 .null)
    let file ← fsOpen adapters name filesystem path (.upsert .truncate) line
    fsWriteAll adapters name file content line
    pure (.bool true)
  | .appendFile => do
    checkArity name args 2 line
    let path ← requireStr args 0 name line
    let content := fsContentArg formatFloat (args.getD 1 .null)
    let file ← fsOpen adapters name filesystem path (.upsert .append) line
    fsWriteAll adapters name file content line
    pure (.bool true)
  | .mkdir => do
    checkArity name args 1 line
    let path ← requireStr args 0 name line
    let (root, target) ← fsRoute filesystem path .create line
    let made ← perform (.createDir root.adapter target.path)
      (adapters.createDir root.adapter target.path)
    orFail made fun _ => fsHostError name line
    pure (.bool true)
  | .remove => do
    checkArity name args 1 line
    let path ← requireStr args 0 name line
    let (root, target) ← fsRoute filesystem path .delete line
    let removed ← perform (.remove root.adapter target.path .fileOrSymlink)
      (adapters.remove root.adapter target.path .fileOrSymlink)
    orFail removed fun _ => fsHostError name line
    pure (.bool true)
  | .removeDir => do
    checkArity name args 1 line
    let path ← requireStr args 0 name line
    let (root, target) ← fsRoute filesystem path .delete line
    let removed ← perform (.remove root.adapter target.path .emptyDirectory)
      (adapters.remove root.adapter target.path .emptyDirectory)
    orFail removed fun _ => .hostAdapterFailed line name "directory_not_empty"
    pure (.bool true)
  | .removeTree => do
    checkArity name args 1 line
    let path ← requireStr args 0 name line
    let (root, target) ← fsRoute filesystem path .recursiveDelete line
    let removed ← perform (.remove root.adapter target.path .tree)
      (adapters.remove root.adapter target.path .tree)
    orFail removed fun _ => fsHostError name line
    pure (.bool true)
  | .rename => do
    checkArity name args 2 line
    let source ← requireStr args 0 name line
    let destination ← requireStr args 1 name line
    let (fromRoot, fromTarget) ← fsRoute filesystem source .delete line
    let (toRoot, toTarget) ← fsRoute filesystem destination .create line
    let renamed ← perform
      (.rename fromRoot.adapter fromTarget.path toRoot.adapter toTarget.path true)
      (adapters.rename fromRoot.adapter fromTarget.path toRoot.adapter toTarget.path true)
    orFail renamed fun _ => fsHostError name line
    pure (.bool true)
  | .listDir => do
    checkArity name args 1 line
    let path ← requireStr args 0 name line
    let (root, target) ← fsRoute filesystem path .list line
    let listed ← perform (.list root.adapter target.path none)
      (adapters.list root.adapter target.path none)
    let entries ← orFail listed (fsListError name line)
    let names ← collectChecked maxCollection line 0 (entries.map DirectoryEntry.name)
    pure (.list 0 ((names.mergeSort fun a b => decide (a ≤ b)).map .strConstant))
  | .fileSize => do
    checkArity name args 1 line
    let path ← requireStr args 0 name line
    let (root, target) ← fsRoute filesystem path .metadata line
    let read ← perform (.metadata root.adapter target.path true)
      (adapters.metadata root.adapter target.path true)
    let info ← orFail read fun _ => fsHostError name line
    let size ← checkedFileSizeToI64 info.sizeBytes line
    pure (.int size)
  | .isFile => do
    checkArity name args 1 line
    let path ← requireStr args 0 name line
    let kind ← fsMetadataKind adapters filesystem path line
    pure (.bool (kind = some .file))
  | .isDir => do
    checkArity name args 1 line
    let path ← requireStr args 0 name line
    let kind ← fsMetadataKind adapters filesystem path line
    pure (.bool (kind = some .directory))
  | .pathExists => do
    checkArity name args 1 line
    let path ← requireStr args 0 name line
    let kind ← fsMetadataKind adapters filesystem path line
    pure (.bool kind.isSome)

/-- `FsDispatch`, and what became of the host. -/
structure FsDispatch (A σ : Type) where
  outcome : Except TsumugiError Value
  label : Option String
  host : σ
  calls : List (CallRecord A σ)

/-- `dispatch_fs`. -/
def dispatchFs (filesystem : Option (FilesystemCapability A)) (call : FsBuiltinCall) (host : σ) :
    FsDispatch A σ :=
  match filesystem with
  | some filesystem =>
    let (outcome, st) :=
      dispatchFilesystemCapability adapters formatFloat filesystem call ⟨host, none, []⟩
    ⟨outcome, st.label, st.host, st.calls⟩
  | none => ⟨.error (.filesystemDenied call.line), none, host, []⟩

/-! ## The adapters of the operating system -/

/-- Whether a rename of the handle replaces an entry: it succeeds, and the destination is
another entry. -/
def OsDirectoryHandle.replaces (h : OsDirectoryHandle) (source : RelativePath)
    (toDirectory : OsDirectoryHandle) (target : RelativePath) (s : HostFs.Host) : Bool :=
  match h.rename s source toDirectory target true, h.resolve s source, h.resolve s target with
  | .ok _, .ok src, .ok dst => s.locate false src ≠ s.locate false dst && (s.symlinkMetadata dst).isSome
  | _, _, _ => false

/-- A method that answers with the new host: on failure the host stays. -/
def orSame (s : HostFs.Host) (result : Except AdapterError HostFs.Host) :
    Except AdapterError Unit × HostFs.Host :=
  match result with
  | .ok s' => (.ok (), s')
  | .error e => (.error e, s)

/-- `OsDirectoryHandle` and `OsFileHandle` as adapters. -/
def osAdapters : Adapters OsDirectoryHandle HostFs.OpenFile HostFs.Host where
  openFile h path request s :=
    match h.openFile s path request with
    | .ok (file, s') => (.ok file, s')
    | .error e => (.error e, s)
  readToEnd file maxBytes s := (OsFileHandle.readToEnd s file maxBytes, s)
  writeAll file bytes s := orSame s (OsFileHandle.writeAll s file bytes)
  createDir h path s := orSame s (h.createDir s path)
  metadata h path followFinal s := (h.metadata s path followFinal, s)
  list h path maxEntries s := (h.list s path maxEntries, s)
  remove h path kind s := h.remove s path kind
  rename h source toDirectory target replace s :=
    orSame s (h.rename s source toDirectory target replace)
  destination h toDirectory := if toDirectory.policyId = h.policyId then some h else none
  replaces := OsDirectoryHandle.replaces

end Tsumugi.Capability
