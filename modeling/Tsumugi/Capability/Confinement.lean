import Tsumugi.Capability.Authority
import Tsumugi.Capability.Containment

/-!
# What the filesystem builtins can lose

Calls whose paths lie under roots that grant neither `Write`, `Delete` nor
`RecursiveDelete` can add entries, but every file of the operating system stays where it
was, with its content.

Results:
1. `run_grows`: a sequence of such calls adds entries at most;
2. `filesystem_authority`: when the operation matrix is kept, and that such calls keep
   every file;
3. `lists_without_metadata`: a root that grants only `List` is listed.
-/

namespace Tsumugi.Capability

variable {A F σ : Type}

/-- The root grants no way to change or remove what is there. -/
def FilesystemRoot.Harmless (root : FilesystemRoot A) : Prop :=
  .write ∉ root.operations ∧ .delete ∉ root.operations ∧ .recursiveDelete ∉ root.operations

/-- The paths of the call lie under such roots. -/
def Confined (filesystem : Option (FilesystemCapability A)) (call : FsBuiltinCall) : Prop :=
  ∀ i < call.builtin.pathArity, ∀ op root target,
    Routed filesystem call.args i op root target → root.Harmless

/-- The host after some calls. -/
def runBuiltins (formatFloat : UInt64 → String)
    (filesystem : Option (FilesystemCapability OsDirectoryHandle)) :
    List FsBuiltinCall → HostFs.Host → HostFs.Host
  | [], s => s
  | call :: rest, s =>
    runBuiltins formatFloat filesystem rest
      (dispatchFs osAdapters formatFloat filesystem call s).host

/-- Each path that led to a file leads to it still, and the file has the same content. -/
def FilesKept (s s' : HostFs.Host) : Prop :=
  ∀ path p content readonly, s.metadata path = some (p, .file content readonly) →
    s'.metadata path = some (p, .file content readonly)

namespace AuthorityLemmas

open HostFs

theorem orSame_grows {s : Host} {result : Except AdapterError Host}
    (h : ∀ s', result = .ok s' → Host.Grows s s') : Host.Grows s (orSame s result).2 := by
  cases result with
  | error e => exact .refl s
  | ok s' => exact h s' rfl

/-- Opening a file for reading, or a new one, adds entries at most. -/
theorem openFile_grows {h : OsDirectoryHandle} {path : RelativePath} {request : OpenFileRequest}
    {s : Host} (hrequest : FsOperation.write ∉ request.matrix) :
    Host.Grows s (osAdapters.openFile h path request s).2 := by
  simp only [osAdapters]
  split
  · next file s' hopen =>
    simp only [OsDirectoryHandle.openFile] at hopen
    obtain ⟨found, -, hopen⟩ := bind_ok hopen
    split at hopen
    · cases hopen
    · have hopened := ContainmentLemmas.orHostErr_ok hopen
      cases request with
      | readExisting => exact Host.openFile_same rfl rfl rfl hopened ▸ .refl s
      | createNew mode => exact Host.openFile_new_grows (by cases mode <;> rfl) hopened
      | writeExisting mode | upsert mode =>
        exact absurd (by simp [OpenFileRequest.matrix]) hrequest
  · exact .refl s

/-- A call that has passed its checks under a harmless root adds entries at most. -/
theorem grows_of_checked {cap : FilesystemCapability OsDirectoryHandle} {call : FsBuiltinCall}
    {s : Host} {r : CallRecord OsDirectoryHandle Host}
    (h : Checked osAdapters (some cap) call s r) (hconfined : Confined (some cap) call) :
    Host.Grows r.before r.after := by
  -- no operation that changes or removes has been granted
  have hno : ∀ a p op, op = .write ∨ op = .delete ∨ op = .recursiveDelete →
      ¬ Grants (some cap) call.args ⟨0, a, p, op⟩ := by
    rintro a p op hop ⟨root, target, hrouted, -, -⟩
    obtain ⟨hwrite, hdelete, htree⟩ :=
      hconfined 0 call.builtin.pathArity_pos op root target hrouted
    have hmem := hrouted.granted
    rcases hop with rfl | rfl | rfl
    · exact hwrite hmem
    · exact hdelete hmem
    · exact htree hmem
  obtain ⟨before, c, after⟩ := r
  cases c with
  | openFile a p request =>
    have hdid : after = (osAdapters.openFile a p request before).2 := h.did
    have hnowrite : FsOperation.write ∉ request.matrix := fun hmem =>
      hno a p _ (.inl rfl) (h.checks _ (List.mem_map_of_mem hmem))
    rw [hdid]
    exact openFile_grows hnowrite
  | readToEnd a p n =>
    obtain ⟨file, hfile⟩ : ∃ file, after = (osAdapters.readToEnd file n before).2 := h.did
    rw [hfile]
    exact .refl before
  | writeAll a p bytes =>
    exact absurd (h.checks ⟨0, a, p, .write⟩ (by simp [FsCall.checks])) (hno a p _ (.inl rfl))
  | createDir a p =>
    have hdid : after = (osAdapters.createDir a p before).2 := h.did
    rw [hdid]
    refine orSame_grows fun s' hs' => ?_
    obtain ⟨path, -, hmade⟩ := bind_ok hs'
    exact Host.createDir_grows (ContainmentLemmas.orHostErr_ok hmade)
  | metadata a p follow =>
    have hdid : after = before := h.did
    rw [hdid]
    exact .refl before
  | list a p n =>
    have hdid : after = before := h.did
    rw [hdid]
    exact .refl before
  | remove a p kind =>
    refine absurd (h.checks ⟨0, a, p, kind.matrix⟩ (by simp [FsCall.checks])) (hno a p _ ?_)
    cases kind with
    | fileOrSymlink | emptyDirectory => exact .inr (.inl rfl)
    | tree => exact .inr (.inr rfl)
  | rename a p b q replace =>
    exact absurd (h.checks ⟨0, a, p, .delete⟩ (by simp [FsCall.checks]))
      (hno a p _ (.inr (.inl rfl)))

theorem grows_of_linked {s s' : Host} {l : List (CallRecord OsDirectoryHandle Host)}
    (h : Linked s l s') (hall : ∀ r ∈ l, Host.Grows r.before r.after) : Host.Grows s s' := by
  induction l generalizing s with
  | nil =>
    obtain rfl : s' = s := h
    exact .refl s'
  | cons r rest ih =>
    obtain ⟨rfl, hrest⟩ := h
    exact (hall r List.mem_cons_self).trans (ih hrest fun r' hr' => hall r' (List.mem_cons_of_mem r hr'))

end AuthorityLemmas

open AuthorityLemmas HostFs in
/-- One confined call adds entries at most. -/
theorem dispatch_grows (formatFloat : UInt64 → String)
    {filesystem : Option (FilesystemCapability OsDirectoryHandle)} {call : FsBuiltinCall}
    (hconfined : Confined filesystem call) (s : Host) :
    Host.Grows s (dispatchFs osAdapters formatFloat filesystem call s).host := by
  cases filesystem with
  | none => exact .refl s
  | some cap =>
    rcases dispatch_settled osAdapters formatFloat cap call with ⟨e, -, hdeny⟩ | hlog
    · have hhost : (dispatchFs osAdapters formatFloat (some cap) call s).host = s :=
        (hdeny ⟨s, none, []⟩).2.2
      rw [hhost]
      exact .refl s
    · obtain ⟨new, -, hnew⟩ := hlog ⟨s, none, []⟩
      exact grows_of_linked hnew.linked fun r hr => grows_of_checked (hnew.all r hr) hconfined

open HostFs in
/-- Confined calls, one after another, add entries at most. -/
theorem run_grows (formatFloat : UInt64 → String)
    {filesystem : Option (FilesystemCapability OsDirectoryHandle)} {calls : List FsBuiltinCall}
    (hconfined : ∀ call ∈ calls, Confined filesystem call) (s : Host) :
    Host.Grows s (runBuiltins formatFloat filesystem calls s) := by
  induction calls generalizing s with
  | nil => exact .refl s
  | cons call rest ih =>
    exact (dispatch_grows formatFloat (hconfined call List.mem_cons_self) s).trans
      (ih (fun c hc => hconfined c (List.mem_cons_of_mem call hc)) _)

/-- For all adapters, capabilities, calls and hosts the authority of the matrix comes
before an effect exactly if the condition holds; and whatever the capability, calls whose
paths lie under roots that grant neither `Write`, `Delete` nor `RecursiveDelete` keep every
file of the operating system. -/
theorem filesystem_authority (adapters : Adapters A F σ) (formatFloat : UInt64 → String)
    (filesystem : Option (FilesystemCapability A)) (call : FsBuiltinCall) (s : σ) :
    (AuthorityLaw adapters formatFloat filesystem call s ↔
      MeetsMatrix adapters filesystem call s) ∧
    ∀ (filesystem : Option (FilesystemCapability OsDirectoryHandle)) (calls : List FsBuiltinCall)
      (s : HostFs.Host), (∀ call ∈ calls, Confined filesystem call) →
      FilesKept s (runBuiltins formatFloat filesystem calls s) :=
  ⟨authorityLaw_iff adapters formatFloat filesystem call s,
    fun _ _ s hconfined _ _ _ _ hfile => (run_grows formatFloat hconfined s).metadata hfile⟩

/-! ## A root that grants only `List` -/

namespace AuthorityExample

open FileTree HostFs ContainmentExample

/-- The mount `m` on `/data`, with one operation. -/
def root (operation : FsOperation) : FilesystemRoot OsDirectoryHandle :=
  ⟨⟨"m", by decide⟩, ⟨1, Nat.one_pos, NonZeroU128.one_fits⟩, {operation}, .denyAll,
    ⟨[.rootDir, .normal "data"], ⟨1, Nat.one_pos, NonZeroU128.one_fits⟩, .denyAll⟩⟩

def capability (operation : FsOperation) : FilesystemCapability OsDirectoryHandle where
  roots := [root operation]
  legacy := none
  nonempty := by simp
  distinct := by simp
  fits := by simp

/-- `list_dir("@m")`. -/
def listCall : FsBuiltinCall := ⟨.listDir, [.strConstant "@m"], 10, 1⟩

theorem routed (operation : FsOperation) :
    ∃ target, Routed (some (capability operation)) listCall.args 0 operation (root operation)
      target := by
  have hparse : ∃ target, FilesystemTarget.parse "@m" = .ok target ∧ target.mount.name = "m" :=
    ⟨_, rfl, rfl⟩
  obtain ⟨target, htarget, hmount⟩ := hparse
  refine ⟨target, capability operation, 0, "@m", rfl, rfl, congrArg (Except.map some) htarget, ?_,
    Finset.mem_singleton_self operation⟩
  obtain ⟨⟨name, valid⟩, path⟩ := target
  obtain rfl : name = "m" := hmount
  exact rfl

theorem listCall_confined : Confined (some (capability .list)) listCall := by
  intro i hi op root' target hrouted
  obtain rfl : i = 0 := Nat.lt_one_iff.mp hi
  obtain ⟨target', hlist⟩ := routed .list
  obtain ⟨rfl, -⟩ := hlist.unique hrouted
  exact ⟨by decide, by decide, by decide⟩

end AuthorityExample

open AuthorityExample ContainmentExample in
/-- Under a root that grants only `List`, `list_dir` calls the adapter without the
`Metadata` that the matrix asks for. -/
theorem lists_without_metadata :
    ¬ AuthorityLaw osAdapters (fun _ => "") (some (capability .list)) listCall host := by
  rw [authorityLaw_iff]
  intro hmeets
  obtain ⟨target, hrouted⟩ := routed .list
  have hmetadata : FsOperation.metadata ∈ (root .list).operations := hmeets rfl (root .list) target hrouted
  exact absurd hmetadata (by decide)

open AuthorityExample ContainmentExample in
theorem filesystem_authority_list :
    (AuthorityLaw osAdapters (fun _ => "") (some (capability .list)) listCall host ↔
      MeetsMatrix osAdapters (some (capability .list)) listCall host) ∧
    FilesKept host (runBuiltins (fun _ => "") (some (capability .list)) [listCall] host) :=
  have h := filesystem_authority osAdapters (fun _ => "") (some (capability .list)) listCall host
  ⟨h.1, h.2 (some (capability .list)) [listCall] host (by simpa using listCall_confined)⟩

end Tsumugi.Capability
