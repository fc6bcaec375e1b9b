import Tsumugi.Capability.Set

/-!
# What the identity of a capability set determines

Results:
1. `idBytes_eq_iff`: the hashed bytes of two sets are equal exactly when the sets grant
   the same kinds, environment keys with their classifications, policy ids, mounts with
   their policies and host functions;
2. `grantAll_same`: the order of the grants does not matter, nor the order in which
   environment entries and roots are listed;
3. `grant_taken`: a second grant of a kind, or of a host function id, is refused.
-/

namespace Tsumugi.Capability

open Codec

variable {A : Type}

/-- A root without its adapter. -/
def FilesystemRoot.erase (root : FilesystemRoot A) : FilesystemRoot Unit := { root with adapter := () }

/-- What a capability set grants, as far as its identity is meant to say, without any
order: environment keys with classifications, policy ids, roots without their adapters
and host functions. -/
structure Granted where
  environment : Option (Set (String × DataClassification))
  clock : Option NonZeroU128
  stdin : Option NonZeroU128
  stdout : Option NonZeroU128
  filesystem : Option (Set (FilesystemRoot Unit))
  processExit : Option NonZeroU128
  moduleResolver : Option NonZeroU128
  hostFunctions : Set NonZeroU128

/-- The keys of a snapshot with their classifications, in key order. -/
def EnvironmentSnapshot.classified (env : EnvironmentSnapshot) : List (String × DataClassification) :=
  env.map.entries.map fun e => (e.1, e.2.classification)

/-- The host function ids of a builder in increasing order. -/
def CapabilitySetBuilder.hostIds (b : CapabilitySetBuilder A) : List NonZeroU128 :=
  b.hostFunctions.entries.map Prod.fst

/-- The roots of a capability without their adapters, in mount order. -/
def FilesystemCapability.erasedRoots (fs : FilesystemCapability A) : List (FilesystemRoot Unit) :=
  fs.sortedRoots.map FilesystemRoot.erase

/-- What a builder grants. -/
def CapabilitySetBuilder.granted (b : CapabilitySetBuilder A) : Granted where
  environment := (b.environment.map EnvironmentSnapshot.classified).map fun l => { e | e ∈ l }
  clock := b.clock
  stdin := b.stdin
  stdout := b.stdout
  filesystem := (b.filesystem.map FilesystemCapability.erasedRoots).map fun l => { r | r ∈ l }
  processExit := b.processExit
  moduleResolver := b.moduleResolver
  hostFunctions := { id | id ∈ b.hostIds }

/-! ## The parts of the encoding -/

namespace SetIdLemmas

theorem kindTag_injective : Function.Injective CapabilityKind.tag := by
  intro a b
  cases a <;> cases b <;> decide

theorem classificationTag_injective : Function.Injective DataClassification.tag := by
  intro a b
  cases a <;> cases b <;> decide

theorem symlinkTag_injective : Function.Injective SymlinkPolicy.tag := by
  intro a b
  cases a <;> cases b <;> decide

theorem operationTag_injective : Function.Injective FsOperation.tag := by
  intro a b
  cases a <;> cases b <;> decide

theorem length_utf8Bytes (s : String) : (utf8Bytes s).length = s.utf8ByteSize := by
  simp [utf8Bytes]

theorem utf8Bytes_injective : Function.Injective utf8Bytes := by
  intro s t h
  exact String.toByteArray_inj.mp (ByteArray.ext (Array.toList_inj.mp h))

/-- A string with its length in front is a counted list of its bytes. -/
theorem strField_eq (s : String) : strField s = counted 8 (fun b => [b]) (utf8Bytes s) := by
  simp [strField, counted, length_utf8Bytes]

theorem selfDelimiting_strField :
    SelfDelimiting (fun s : String => s.utf8ByteSize < 256 ^ 8) strField := by
  have h : SelfDelimiting (fun s : String => s.utf8ByteSize < 256 ^ 8)
      fun s => counted 8 (fun b => [b]) (utf8Bytes s) :=
    (selfDelimiting_counted 8 (selfDelimiting_byte Function.injective_id fun _ => True)).comap
      (fun s hs => ⟨length_utf8Bytes s ▸ hs, fun _ _ => trivial⟩)
      fun s t _ _ hst => utf8Bytes_injective hst
  exact fun s t u v hs ht heq => h hs ht (by simpa only [strField_eq] using heq)

theorem selfDelimiting_policyId : SelfDelimiting (fun _ => True) policyIdBytes :=
  (selfDelimiting_bigEndian 16).comap (fun id _ => id.lt) fun _ _ _ _ h =>
    NonZeroU128.val_injective h

/-- The code of a key and its classification. -/
def classifiedBytes (e : String × DataClassification) : List UInt8 := strField e.1 ++ [e.2.tag]

theorem classifiedBytes_entry (e : String × EnvironmentValue) :
    classifiedBytes (e.1, e.2.classification) = envEntryBytes e := rfl

theorem selfDelimiting_classified :
    SelfDelimiting (fun e : String × DataClassification => e.1.utf8ByteSize < 256 ^ 8)
      classifiedBytes :=
  (selfDelimiting_strField.prod
    (selfDelimiting_byte classificationTag_injective fun _ => True)).mono fun _ h => ⟨h, trivial⟩

/-- The operations of a root in their order. -/
def operationList (operations : Finset FsOperation) : List FsOperation :=
  FsOperation.all.filter fun op => op ∈ operations

theorem operationList_injective : Function.Injective operationList := by
  intro s t h
  ext op
  have := congrArg (op ∈ ·) h
  simpa [operationList, FsOperation.mem_all] using this

theorem length_operationList (operations : Finset FsOperation) :
    (operationList operations).length < 256 ^ 8 :=
  lt_of_le_of_lt (List.length_filter_le _ _) (by decide)

/-- The fields of a root that are encoded, as a tuple. -/
def rootFields (root : FilesystemRoot A) :
    ((String × NonZeroU128) × SymlinkPolicy) × List FsOperation :=
  (((root.mount.name, root.policyId), root.symlinkPolicy), operationList root.operations)

theorem utf8ByteSize_mount (mount : MountName) : mount.name.utf8ByteSize < 256 ^ 8 := by
  have := mount.valid
  simp only [isMountName, Bool.and_eq_true, decide_eq_true_eq] at this
  omega

theorem erase_eq_of_rootFields {root root' : FilesystemRoot A} (h : rootFields root = rootFields root') :
    root.erase = root'.erase := by
  obtain ⟨⟨⟨hmount, hpolicy⟩, hsymlink⟩, hops⟩ := by
    simpa only [rootFields, Prod.mk.injEq] using h
  obtain ⟨⟨name, _⟩, policy, ops, symlink, _⟩ := root
  obtain ⟨⟨name', _⟩, policy', ops', symlink', _⟩ := root'
  simp only at hmount hpolicy hsymlink hops
  subst hmount hpolicy hsymlink
  obtain rfl := operationList_injective hops
  rfl

theorem selfDelimiting_root : SelfDelimiting (fun _ => True) (rootBytes (A := Unit)) := by
  have hfields := ((selfDelimiting_strField.prod selfDelimiting_policyId).prod
    (selfDelimiting_byte symlinkTag_injective fun _ => True)).prod
    (selfDelimiting_counted 8 (selfDelimiting_byte operationTag_injective fun _ => True))
  have h : SelfDelimiting (fun _ : FilesystemRoot Unit => True) fun root =>
      (((strField (rootFields root).1.1.1 ++ policyIdBytes (rootFields root).1.1.2) ++
        [(rootFields root).1.2.tag]) ++ counted 8 (fun op => [op.tag]) (rootFields root).2) :=
    hfields.comap
      (fun root _ => ⟨⟨⟨utf8ByteSize_mount root.mount, trivial⟩, trivial⟩,
        length_operationList _, fun _ _ => trivial⟩)
      fun root root' _ _ hf => erase_eq_of_rootFields hf
  intro root root' s t hr hr' heq
  exact h hr hr' (by simpa only [rootBytes, rootFields, operationList] using heq)

theorem rootBytes_erase (root : FilesystemRoot A) : rootBytes root.erase = rootBytes root := rfl

/-! ## The kinds and their bodies -/

/-- All kinds in the order of their tags. -/
def kinds : List CapabilityKind :=
  [.environment, .clock, .stdin, .stdout, .filesystem, .processExit, .moduleResolver, .hostFunction]

theorem mem_kinds (kind : CapabilityKind) : kind ∈ kinds := by cases kind <;> decide

/-- The body of a kind, when it is granted. -/
def written (b : CapabilitySetBuilder A) : CapabilityKind → Option (List UInt8)
  | .environment =>
    (b.environment.map EnvironmentSnapshot.classified).map (counted 8 classifiedBytes)
  | .clock => b.clock.map policyIdBytes
  | .stdin => b.stdin.map policyIdBytes
  | .stdout => b.stdout.map policyIdBytes
  | .filesystem => (b.filesystem.map FilesystemCapability.erasedRoots).map (counted 8 rootBytes)
  | .processExit => b.processExit.map policyIdBytes
  | .moduleResolver => b.moduleResolver.map policyIdBytes
  | .hostFunction => if b.hostIds = [] then none else some (counted 8 policyIdBytes b.hostIds)

theorem isEmpty_hostFunctions (b : CapabilitySetBuilder A) :
    b.hostFunctions.entries.isEmpty = decide (b.hostIds = []) := by
  rw [CapabilitySetBuilder.hostIds]
  cases b.hostFunctions.entries <;> rfl

theorem groups_eq (b : CapabilitySetBuilder A) :
    b.groups = kinds.filter fun kind => (written b kind).isSome := by
  simp only [CapabilitySetBuilder.groups, kinds, written, List.filter_cons, List.filter_nil,
    Option.isSome_map, isEmpty_hostFunctions]
  cases b.environment <;> cases b.clock <;> cases b.stdin <;> cases b.stdout <;>
    cases b.filesystem <;> cases b.processExit <;> cases b.moduleResolver <;>
    by_cases hhost : b.hostIds = [] <;> simp [hhost]

theorem groups_sorted (b : CapabilitySetBuilder A) :
    b.groups.mergeSort (fun a c => a.tag ≤ c.tag) = b.groups := by
  have hkinds : kinds.Pairwise fun a c => a.tag ≤ c.tag := by decide
  refine List.mergeSort_of_pairwise ?_
  rw [groups_eq]
  exact (hkinds.sublist List.filter_sublist).imp fun h => decide_eq_true h

theorem groupBody_eq (b : CapabilitySetBuilder A) {kind : CapabilityKind} {body : List UInt8}
    (h : written b kind = some body) : b.groupBody kind = body := by
  cases kind with
  | environment =>
    obtain ⟨_, hkeys, rfl⟩ := Option.map_eq_some_iff.mp h
    obtain ⟨env, henv, rfl⟩ := Option.map_eq_some_iff.mp hkeys
    simp only [CapabilitySetBuilder.groupBody, henv, EnvironmentSnapshot.classified,
      Option.elim_some, ← counted_map, classifiedBytes_entry]
  | filesystem =>
    obtain ⟨_, hroots, rfl⟩ := Option.map_eq_some_iff.mp h
    obtain ⟨fs, hfs, rfl⟩ := Option.map_eq_some_iff.mp hroots
    simp only [CapabilitySetBuilder.groupBody, hfs, FilesystemCapability.erasedRoots,
      Option.elim_some, encodeFilesystem, ← counted_map, rootBytes_erase]
  | hostFunction =>
    rw [written] at h
    split at h
    · cases h
    obtain rfl := Option.some.inj h
    simp only [CapabilitySetBuilder.groupBody, CapabilitySetBuilder.hostIds, ← counted_map]
  | clock | stdin | stdout | processExit | moduleResolver =>
    obtain ⟨id, hid, rfl⟩ := Option.map_eq_some_iff.mp h
    simp only [CapabilitySetBuilder.groupBody, hid, Option.elim_some]

/-- The granted kinds with their bodies, in the order in which they are written. -/
def sections (b : CapabilitySetBuilder A) : List (CapabilityKind × List UInt8) :=
  kinds.filterMap fun kind => (written b kind).map fun body => (kind, body)

theorem idBytes_eq (b : CapabilitySetBuilder A) :
    b.idBytes = utf8Bytes "TSUMUGI-CAPSET-V1\x00" ++
      counted 8 (fun p => p.1.tag :: p.2) (sections b) := by
  have hsections : sections b = b.groups.map fun kind => (kind, b.groupBody kind) := by
    rw [groups_eq, sections, ← List.filterMap_eq_map, List.filterMap_filter]
    refine List.filterMap_congr fun kind _ => ?_
    cases hw : written b kind with
    | none => rfl
    | some body => simp [groupBody_eq b hw]
  rw [CapabilitySetBuilder.idBytes, groups_sorted, hsections]
  congr 1
  exact counted_map 8 (fun p => p.1.tag :: p.2) (fun kind => (kind, b.groupBody kind)) _

theorem mem_sections {b : CapabilitySetBuilder A} {kind : CapabilityKind} {body : List UInt8} :
    (kind, body) ∈ sections b ↔ written b kind = some body := by
  simp [sections, mem_kinds]

theorem sections_eq_iff {b b' : CapabilitySetBuilder A} :
    sections b = sections b' ↔ ∀ kind, written b kind = written b' kind := by
  refine ⟨fun h kind => Option.ext fun body => ?_, fun h => ?_⟩
  · rw [← mem_sections, h, mem_sections]
  · exact List.filterMap_congr fun kind _ => by rw [h kind]

/-! ## From the bytes to the grants -/

/-- The number of host functions fits in the eight bytes of its count. -/
def Fits (b : CapabilitySetBuilder A) : Prop := b.hostIds.length < 256 ^ 8

/-- Two builders with the same lists under the encoding. -/
structure SameLists (b b' : CapabilitySetBuilder A) : Prop where
  environment : b.environment.map EnvironmentSnapshot.classified =
    b'.environment.map EnvironmentSnapshot.classified
  clock : b.clock = b'.clock
  stdin : b.stdin = b'.stdin
  stdout : b.stdout = b'.stdout
  filesystem : b.filesystem.map FilesystemCapability.erasedRoots =
    b'.filesystem.map FilesystemCapability.erasedRoots
  processExit : b.processExit = b'.processExit
  moduleResolver : b.moduleResolver = b'.moduleResolver
  hostFunctions : b.hostIds = b'.hostIds

/-- The lists of classified keys that a snapshot can have. -/
def ValidKeys (l : List (String × DataClassification)) : Prop :=
  l.length < 256 ^ 8 ∧ ∀ e ∈ l, e.1.utf8ByteSize < 256 ^ 8

theorem validKeys_classified (env : EnvironmentSnapshot) : ValidKeys env.classified := by
  refine ⟨by simpa [EnvironmentSnapshot.classified] using env.fits, fun e he => ?_⟩
  obtain ⟨entry, hentry, rfl⟩ := List.mem_map.mp he
  have hkey := env.keys entry hentry
  unfold validateEnvKey at hkey
  split at hkey
  · cases hkey
  split at hkey
  · cases hkey
  · show entry.1.utf8ByteSize < 256 ^ 8
    omega

theorem selfDelimiting_keys : SelfDelimiting ValidKeys (counted 8 classifiedBytes) :=
  selfDelimiting_counted 8 selfDelimiting_classified

theorem selfDelimiting_roots :
    SelfDelimiting (fun l => l.length < 256 ^ 8) (counted 8 (rootBytes (A := Unit))) :=
  (selfDelimiting_counted 8 selfDelimiting_root).mono fun _ h => ⟨h, fun _ _ => trivial⟩

theorem selfDelimiting_ids : SelfDelimiting (fun l => l.length < 256 ^ 8) (counted 8 policyIdBytes) :=
  (selfDelimiting_counted 8 selfDelimiting_policyId).mono fun _ h => ⟨h, fun _ _ => trivial⟩

theorem length_erasedRoots (fs : FilesystemCapability A) : fs.erasedRoots.length < 256 ^ 8 := by
  have := fs.fits
  simpa [FilesystemCapability.erasedRoots, FilesystemCapability.sortedRoots] using this

theorem selfDelimiting_written (kind : CapabilityKind) :
    SelfDelimiting (fun body => ∃ b : CapabilitySetBuilder A, Fits b ∧ written b kind = some body)
      id := by
  cases kind with
  | environment =>
    refine selfDelimiting_keys.image fun body ⟨b, _, hw⟩ => ?_
    obtain ⟨_, hkeys, hcode⟩ := Option.map_eq_some_iff.mp hw
    obtain ⟨env, _, rfl⟩ := Option.map_eq_some_iff.mp hkeys
    exact ⟨env.classified, validKeys_classified env, hcode⟩
  | filesystem =>
    refine selfDelimiting_roots.image fun body ⟨b, _, hw⟩ => ?_
    obtain ⟨_, hroots, hcode⟩ := Option.map_eq_some_iff.mp hw
    obtain ⟨fs, _, rfl⟩ := Option.map_eq_some_iff.mp hroots
    exact ⟨fs.erasedRoots, length_erasedRoots fs, hcode⟩
  | hostFunction =>
    refine selfDelimiting_ids.image fun body ⟨b, hfits, hw⟩ => ?_
    rw [written] at hw
    split at hw
    · cases hw
    · exact ⟨b.hostIds, hfits, Option.some.inj hw⟩
  | clock | stdin | stdout | processExit | moduleResolver =>
    refine selfDelimiting_policyId.image fun body ⟨b, _, hw⟩ => ?_
    obtain ⟨id, _, hid⟩ := Option.map_eq_some_iff.mp hw
    exact ⟨id, trivial, hid⟩

/-- The bytes determine the sections. -/
theorem sections_eq_of_idBytes_eq {b b' : CapabilitySetBuilder A} (hb : Fits b) (hb' : Fits b')
    (h : b.idBytes = b'.idBytes) : sections b = sections b' := by
  rw [idBytes_eq, idBytes_eq] at h
  have hcode := selfDelimiting_counted 8
    (selfDelimiting_tagged kindTag_injective fun kind => selfDelimiting_written (A := A) kind)
  have hlen : ∀ c : CapabilitySetBuilder A, (sections c).length < 256 ^ 8 := fun c =>
    lt_of_le_of_lt (List.length_filterMap_le _ _) (by decide)
  have hvalid : ∀ c : CapabilitySetBuilder A, Fits c → ∀ p ∈ sections c,
      ∃ c' : CapabilitySetBuilder A, Fits c' ∧ written c' p.1 = some p.2 :=
    fun c hc p hp => ⟨c, hc, mem_sections.mp hp⟩
  exact hcode.injOn ⟨hlen b, hvalid b hb⟩ ⟨hlen b', hvalid b' hb'⟩ (List.append_cancel_left h)

theorem sameLists_of_written_eq {b b' : CapabilitySetBuilder A} (hb : Fits b) (hb' : Fits b')
    (h : ∀ kind, written b kind = written b' kind) : SameLists b b' := by
  have hpolicy : ∀ {x y : Option NonZeroU128}, x.map policyIdBytes = y.map policyIdBytes → x = y :=
    fun heq => selfDelimiting_policyId.eq_of_map_eq (fun _ _ => trivial) (fun _ _ => trivial) heq
  refine ⟨?_, hpolicy (h .clock), hpolicy (h .stdin), hpolicy (h .stdout), ?_,
    hpolicy (h .processExit), hpolicy (h .moduleResolver), ?_⟩
  · refine selfDelimiting_keys.eq_of_map_eq ?_ ?_ (h .environment)
    all_goals
      rintro l hl
      obtain ⟨env, _, rfl⟩ := Option.map_eq_some_iff.mp hl
      exact validKeys_classified env
  · refine selfDelimiting_roots.eq_of_map_eq ?_ ?_ (h .filesystem)
    all_goals
      rintro l hl
      obtain ⟨fs, _, rfl⟩ := Option.map_eq_some_iff.mp hl
      exact length_erasedRoots fs
  · have hids := h .hostFunction
    simp only [written] at hids
    split at hids <;> split at hids
    · simp only [*]
    · cases hids
    · cases hids
    · exact selfDelimiting_ids.injOn hb hb' (Option.some.inj hids)

theorem written_eq_of_sameLists {b b' : CapabilitySetBuilder A} (h : SameLists b b')
    (kind : CapabilityKind) : written b kind = written b' kind := by
  cases kind with
  | environment => simp only [written, h.environment]
  | clock => simp only [written, h.clock]
  | stdin => simp only [written, h.stdin]
  | stdout => simp only [written, h.stdout]
  | filesystem => simp only [written, h.filesystem]
  | processExit => simp only [written, h.processExit]
  | moduleResolver => simp only [written, h.moduleResolver]
  | hostFunction => simp only [written, h.hostFunctions]

theorem idBytes_eq_iff_sameLists {b b' : CapabilitySetBuilder A} (hb : Fits b) (hb' : Fits b') :
    b.idBytes = b'.idBytes ↔ SameLists b b' := by
  refine ⟨fun h => ?_, fun h => ?_⟩
  · exact sameLists_of_written_eq hb hb' (sections_eq_iff.mp (sections_eq_of_idBytes_eq hb hb' h))
  · rw [idBytes_eq, idBytes_eq, sections_eq_iff.mpr (written_eq_of_sameLists h)]

/-! ## Lists and sets -/

theorem classified_sorted (env : EnvironmentSnapshot) :
    env.classified.Pairwise fun a b => a.1 < b.1 :=
  List.pairwise_map.mpr env.map.sorted

theorem hostIds_sorted (b : CapabilitySetBuilder A) : b.hostIds.Pairwise (· < ·) :=
  List.pairwise_map.mpr b.hostFunctions.sorted

theorem erasedRoots_sorted (fs : FilesystemCapability A) :
    fs.erasedRoots.Pairwise fun a b => a.mount.name < b.mount.name := by
  refine List.pairwise_map.mpr ?_
  have hsorted : fs.sortedRoots.Pairwise fun a b => decide (a.mount.name ≤ b.mount.name) = true :=
    List.pairwise_mergeSort
      (fun a b c hab hbc => decide_eq_true ((of_decide_eq_true hab).trans (of_decide_eq_true hbc)))
      (fun a b => by simpa using le_total a.mount.name b.mount.name) fs.roots
  have hle := hsorted.imp of_decide_eq_true
  have hne : fs.sortedRoots.Pairwise fun a b => a.mount ≠ b.mount :=
    List.pairwise_map.mp ((List.mergeSort_perm fs.roots _).map FilesystemRoot.mount |>.nodup_iff.mpr
      fs.distinct)
  refine (hle.and hne).imp fun {a b} ⟨hab, hmount⟩ => lt_of_le_of_ne hab fun hname => hmount ?_
  obtain ⟨⟨_, _⟩, _⟩ := a
  obtain ⟨⟨_, _⟩, _⟩ := b
  cases hname
  rfl

/-- Optional values with equal images under a function that is injective on them. -/
theorem map_injOn {α β : Type} {f : α → β} {x y : Option α}
    (hinj : ∀ a ∈ x, ∀ b ∈ y, f a = f b → a = b) (h : x.map f = y.map f) : x = y := by
  cases x with
  | none => exact (Option.map_eq_none_iff.mp h.symm).symm
  | some a =>
    obtain ⟨b, rfl, hab⟩ := Option.map_eq_some_iff.mp h.symm
    rw [hinj a rfl b rfl hab.symm]

/-- The lists under the encoding are sorted, so what is granted determines them. -/
theorem sameLists_iff_granted {b b' : CapabilitySetBuilder A} :
    SameLists b b' ↔ b.granted = b'.granted := by
  refine ⟨fun h => ?_, fun h => ?_⟩
  · simp only [CapabilitySetBuilder.granted, h.environment, h.clock, h.stdin, h.stdout,
      h.filesystem, h.processExit, h.moduleResolver, h.hostFunctions]
  · simp only [CapabilitySetBuilder.granted, Granted.mk.injEq] at h
    obtain ⟨henv, hclock, hstdin, hstdout, hfs, hexit, hresolver, hids⟩ := h
    refine ⟨?_, hclock, hstdin, hstdout, ?_, hexit, hresolver, ?_⟩
    · refine map_injOn (fun l hl l' hl' hset => ?_) henv
      obtain ⟨env, _, rfl⟩ := Option.map_eq_some_iff.mp hl
      obtain ⟨env', _, rfl⟩ := Option.map_eq_some_iff.mp hl'
      exact OrderedMap.eq_of_mem_iff (r := fun a b => a.1 < b.1) (fun a => lt_irrefl a.1)
        (fun _ _ _ => lt_trans)
        (classified_sorted env) (classified_sorted env') fun e => Set.ext_iff.mp hset e
    · refine map_injOn (fun l hl l' hl' hset => ?_) hfs
      obtain ⟨fs, _, rfl⟩ := Option.map_eq_some_iff.mp hl
      obtain ⟨fs', _, rfl⟩ := Option.map_eq_some_iff.mp hl'
      exact OrderedMap.eq_of_mem_iff (r := fun a b => a.mount.name < b.mount.name)
        (fun a => lt_irrefl a.mount.name) (fun _ _ _ => lt_trans)
        (erasedRoots_sorted fs) (erasedRoots_sorted fs') fun r => Set.ext_iff.mp hset r
    · exact OrderedMap.eq_of_mem_iff (fun a => lt_irrefl a) (fun _ _ _ => lt_trans)
        (hostIds_sorted b) (hostIds_sorted b') fun id => Set.ext_iff.mp hids id

theorem idBytes_eq_iff {b b' : CapabilitySetBuilder A} (hb : Fits b) (hb' : Fits b') :
    b.idBytes = b'.idBytes ↔ b.granted = b'.granted :=
  (idBytes_eq_iff_sameLists hb hb').trans sameLists_iff_granted

end SetIdLemmas

/-! ## Grants and their order -/

/-- The kind of a grant. -/
def Grant.kind : Grant A → CapabilityKind
  | .environment _ => .environment
  | .clock _ => .clock
  | .stdin _ => .stdin
  | .stdout _ => .stdout
  | .filesystem _ => .filesystem
  | .processExit _ => .processExit
  | .moduleResolver _ => .moduleResolver
  | .hostFunction _ => .hostFunction

/-- The place that a grant takes: its kind, and for a host function also its id. -/
def Grant.slot : Grant A → CapabilityKind × Option NonZeroU128
  | .hostFunction id => (.hostFunction, some id)
  | g => (g.kind, none)

/-- Two grants of the same thing: environment entries and roots may be listed in another
order. -/
inductive SameGrant : Grant A → Grant A → Prop
  | refl (g : Grant A) : SameGrant g g
  | environment {entries entries' : Vec (String × EnvironmentValue)} {env env' : EnvironmentSnapshot}
      (perm : entries.1.Perm entries'.1) (ok : EnvironmentSnapshot.fromEntries entries = .ok env)
      (ok' : EnvironmentSnapshot.fromEntries entries' = .ok env') :
      SameGrant (.environment env) (.environment env')
  | filesystem {roots roots' : Vec (FilesystemRoot A)} {legacy legacy' : Option LegacyFsTranslator}
      {fs fs' : FilesystemCapability A} (perm : roots.1.Perm roots'.1)
      (ok : FilesystemCapability.newInner roots legacy = .ok fs)
      (ok' : FilesystemCapability.newInner roots' legacy' = .ok fs') :
      SameGrant (.filesystem fs) (.filesystem fs')

/-- Two lists of grants of the same things, listed in any order. -/
def SameGrants (gs gs' : List (Grant A)) : Prop :=
  ∃ mid, gs.Perm mid ∧ List.Forall₂ SameGrant mid gs'

/-- The grants that a builder holds. -/
def CapabilitySetBuilder.Holds (b : CapabilitySetBuilder A) : Grant A → Prop
  | .environment env => b.environment = some env
  | .clock id => b.clock = some id
  | .stdin id => b.stdin = some id
  | .stdout id => b.stdout = some id
  | .filesystem fs => b.filesystem = some fs
  | .processExit id => b.processExit = some id
  | .moduleResolver id => b.moduleResolver = some id
  | .hostFunction id => id ∈ b.hostIds

namespace SetIdLemmas

open CapabilitySetBuilder

theorem holds_new (g : Grant A) : ¬ (new : CapabilitySetBuilder A).Holds g := by
  cases g <;> simp [Holds, new, hostIds, OrderedMap.empty]

/-- A grant of a place that is taken is refused. -/
theorem grant_taken {b : CapabilitySetBuilder A} {g held : Grant A} (hheld : b.Holds held)
    (hslot : held.slot = g.slot) : b.grant g = .error (.duplicateCapability g.kind) := by
  cases g with
  | hostFunction id =>
    cases held with
    | hostFunction id' =>
      obtain rfl : id' = id := by simpa [Grant.slot] using hslot
      have hsome : b.hostFunctions.get id' ≠ none := fun hnone => by
        obtain ⟨e, he, hid⟩ := List.mem_map.mp hheld
        exact OrderedMap.get_eq_none_iff.mp hnone e he hid
      obtain ⟨old, hold⟩ := Option.ne_none_iff_exists'.mp hsome
      simp only [grant, OrderedMap.insert, hold, Grant.kind]
    | environment | clock | stdin | stdout | filesystem | processExit | moduleResolver =>
      simp [Grant.slot] at hslot
  | environment | clock | stdin | stdout | filesystem | processExit | moduleResolver =>
    cases held <;> simp [Grant.slot, Grant.kind] at hslot
    rw [Holds] at hheld
    simp only [grant, setOnce, hheld, Grant.kind]
    rfl

theorem mem_hostIds_insert {map map' : OrderedMap NonZeroU128 Unit} {id id' : NonZeroU128}
    (h : map.insert id () = (none, map')) :
    id' ∈ map'.entries.map Prod.fst ↔ id' = id ∨ id' ∈ map.entries.map Prod.fst := by
  obtain ⟨hnone, rfl⟩ := Prod.mk.inj h
  have hperm := OrderedMap.perm_insertEntry (v := ()) (OrderedMap.get_eq_none_iff.mp hnone)
  rw [(hperm.map Prod.fst).mem_iff]
  exact List.mem_cons

/-- A grant of a free place is taken in, and nothing else changes. -/
theorem grant_free {b : CapabilitySetBuilder A} {g : Grant A}
    (hfree : ∀ held, b.Holds held → held.slot ≠ g.slot) :
    ∃ b', b.grant g = .ok b' ∧ ∀ g', b'.Holds g' ↔ g' = g ∨ b.Holds g' := by
  cases g with
  | hostFunction id =>
    have hnone : b.hostFunctions.get id = none := by
      refine OrderedMap.get_eq_none_iff.mpr fun e he hid => hfree (.hostFunction id) ?_ rfl
      exact List.mem_map.mpr ⟨e, he, hid⟩
    have hins : b.hostFunctions.insert id () = (none, (b.hostFunctions.insert id ()).2) :=
      Prod.ext hnone rfl
    refine ⟨{ b with hostFunctions := (b.hostFunctions.insert id ()).2 }, ?_, fun g' => ?_⟩
    · rw [grant, hins]
    · cases g' with
      | hostFunction id' =>
        rw [Grant.hostFunction.injEq]
        exact mem_hostIds_insert hins
      | environment | clock | stdin | stdout | filesystem | processExit | moduleResolver =>
        simp [Holds]
  | environment value =>
    have hnone : b.environment = none := Option.eq_none_iff_forall_ne_some.mpr fun held hheld =>
      hfree (.environment held) hheld rfl
    refine ⟨{ b with environment := some value }, by simp only [grant, hnone, setOnce]; rfl, fun g' => ?_⟩
    cases g' <;> simp [Holds, hnone, hostIds, eq_comm]
  | clock value =>
    have hnone : b.clock = none := Option.eq_none_iff_forall_ne_some.mpr fun held hheld =>
      hfree (.clock held) hheld rfl
    refine ⟨{ b with clock := some value }, by simp only [grant, hnone, setOnce]; rfl, fun g' => ?_⟩
    cases g' <;> simp [Holds, hnone, hostIds, eq_comm]
  | stdin value =>
    have hnone : b.stdin = none := Option.eq_none_iff_forall_ne_some.mpr fun held hheld =>
      hfree (.stdin held) hheld rfl
    refine ⟨{ b with stdin := some value }, by simp only [grant, hnone, setOnce]; rfl, fun g' => ?_⟩
    cases g' <;> simp [Holds, hnone, hostIds, eq_comm]
  | stdout value =>
    have hnone : b.stdout = none := Option.eq_none_iff_forall_ne_some.mpr fun held hheld =>
      hfree (.stdout held) hheld rfl
    refine ⟨{ b with stdout := some value }, by simp only [grant, hnone, setOnce]; rfl, fun g' => ?_⟩
    cases g' <;> simp [Holds, hnone, hostIds, eq_comm]
  | filesystem value =>
    have hnone : b.filesystem = none := Option.eq_none_iff_forall_ne_some.mpr fun held hheld =>
      hfree (.filesystem held) hheld rfl
    refine ⟨{ b with filesystem := some value }, by simp only [grant, hnone, setOnce]; rfl, fun g' => ?_⟩
    cases g' <;> simp [Holds, hnone, hostIds, eq_comm]
  | processExit value =>
    have hnone : b.processExit = none := Option.eq_none_iff_forall_ne_some.mpr fun held hheld =>
      hfree (.processExit held) hheld rfl
    refine ⟨{ b with processExit := some value }, by simp only [grant, hnone, setOnce]; rfl, fun g' => ?_⟩
    cases g' <;> simp [Holds, hnone, hostIds, eq_comm]
  | moduleResolver value =>
    have hnone : b.moduleResolver = none := Option.eq_none_iff_forall_ne_some.mpr fun held hheld =>
      hfree (.moduleResolver held) hheld rfl
    refine ⟨{ b with moduleResolver := some value }, by simp only [grant, hnone, setOnce]; rfl, fun g' => ?_⟩
    cases g' <;> simp [Holds, hnone, hostIds, eq_comm]

/-- The builder that a list of grants leads to holds them all, in different places. -/
theorem grantAll_ok {gs : List (Grant A)} {b b' : CapabilitySetBuilder A}
    (h : b.grantAll gs = .ok b') :
    (∀ g, b'.Holds g ↔ g ∈ gs ∨ b.Holds g) ∧ (gs.map Grant.slot).Nodup ∧
      ∀ g ∈ gs, ∀ held, b.Holds held → held.slot ≠ g.slot := by
  induction gs generalizing b with
  | nil =>
    cases h
    simp
  | cons g gs ih =>
    have hfree : ∀ held, b.Holds held → held.slot ≠ g.slot := fun held hheld hslot => by
      rw [grantAll, grant_taken hheld hslot] at h
      cases h
    obtain ⟨b₁, hb₁, hholds₁⟩ := grant_free hfree
    rw [grantAll, hb₁] at h
    obtain ⟨hholds, hnodup, hrest⟩ := ih h
    refine ⟨fun g' => ?_, List.nodup_cons.mpr ⟨fun hmem => ?_, hnodup⟩, fun g' hg' held hheld => ?_⟩
    · rw [hholds, hholds₁, List.mem_cons, or_left_comm, or_assoc]
    · obtain ⟨g', hg', hslot⟩ := List.mem_map.mp hmem
      exact hrest g' hg' g ((hholds₁ g).mpr (.inl rfl)) hslot.symm
    · rcases List.mem_cons.mp hg' with rfl | hg'
      · exact hfree held hheld
      · exact hrest g' hg' held ((hholds₁ held).mpr (.inr hheld))

/-- Grants in different free places are all accepted. -/
theorem grantAll_accepts {gs : List (Grant A)} {b : CapabilitySetBuilder A}
    (hnodup : (gs.map Grant.slot).Nodup)
    (hfree : ∀ g ∈ gs, ∀ held, b.Holds held → held.slot ≠ g.slot) :
    ∃ b', b.grantAll gs = .ok b' := by
  induction gs generalizing b with
  | nil => exact ⟨b, rfl⟩
  | cons g gs ih =>
    obtain ⟨hg, hgs⟩ := List.nodup_cons.mp hnodup
    obtain ⟨b₁, hb₁, hholds₁⟩ := grant_free (hfree g List.mem_cons_self)
    obtain ⟨b', hb'⟩ := ih hgs fun g' hg' held hheld => by
      rcases (hholds₁ held).mp hheld with rfl | hheld
      · exact fun hslot => hg (List.mem_map.mpr ⟨g', hg', hslot.symm⟩)
      · exact hfree g' (List.mem_cons_of_mem g hg') held hheld
    exact ⟨b', by rw [grantAll, hb₁]; exact hb'⟩

/-- The host functions of a builder are among its grants, so they fit in memory. -/
theorem fits_grantAll {grants : Vec (Grant A)} {b : CapabilitySetBuilder A}
    (h : new.grantAll grants.1 = .ok b) : Fits b := by
  have hsub : b.hostIds.map Grant.hostFunction ⊆ grants.1 := fun g hg => by
    obtain ⟨id, hid, rfl⟩ := List.mem_map.mp hg
    exact (((grantAll_ok h).1 (.hostFunction id)).mp hid).resolve_right (holds_new _)
  have hnodup : (b.hostIds.map (Grant.hostFunction : NonZeroU128 → Grant A)).Nodup :=
    List.Nodup.map (fun _ _ h => Grant.hostFunction.inj h) ((hostIds_sorted b).imp ne_of_lt)
  have hle := (hnodup.subperm hsub).length_le
  rw [List.length_map] at hle
  exact lt_of_le_of_lt hle grants.2

theorem sameGrant_symm {g g' : Grant A} (h : SameGrant g g') : SameGrant g' g := by
  cases h with
  | refl => exact .refl g
  | environment perm ok ok' => exact .environment perm.symm ok' ok
  | filesystem perm ok ok' => exact .filesystem perm.symm ok' ok

theorem slot_eq_of_sameGrant {g g' : Grant A} (h : SameGrant g g') : g.slot = g'.slot := by
  cases h <;> rfl

theorem fromEntries_perm {entries entries' : Vec (String × EnvironmentValue)}
    {env env' : EnvironmentSnapshot} (perm : entries.1.Perm entries'.1)
    (ok : EnvironmentSnapshot.fromEntries entries = .ok env)
    (ok' : EnvironmentSnapshot.fromEntries entries' = .ok env') : env = env' := by
  have collected : ∀ {entries env}, EnvironmentSnapshot.fromEntries entries = .ok env →
      env.map.entries.Perm entries.1 := by
    intro entries env h
    unfold EnvironmentSnapshot.fromEntries at h
    split at h
    · cases h
    · rename_i map hmap
      cases h
      simpa [OrderedMap.empty] using (collectEntries_ok hmap).1
  have hmap := OrderedMap.eq_of_perm
    ((collected ok).trans (perm.trans (collected ok').symm))
  cases env
  cases env'
  cases hmap
  rfl

theorem erasedRoots_perm {roots roots' : Vec (FilesystemRoot A)}
    {legacy legacy' : Option LegacyFsTranslator} {fs fs' : FilesystemCapability A}
    (perm : roots.1.Perm roots'.1) (ok : FilesystemCapability.newInner roots legacy = .ok fs)
    (ok' : FilesystemCapability.newInner roots' legacy' = .ok fs') :
    { r | r ∈ fs.erasedRoots } = { r | r ∈ fs'.erasedRoots } := by
  have members : ∀ {roots legacy} {fs : FilesystemCapability A},
      FilesystemCapability.newInner roots legacy = .ok fs → ∀ r,
      r ∈ fs.erasedRoots ↔ ∃ root ∈ roots.1, FilesystemRoot.erase root = r := by
    intro roots legacy fs h r
    unfold FilesystemCapability.newInner at h
    split at h
    · cases h
    split at h
    · cases h
      simp [FilesystemCapability.erasedRoots, FilesystemCapability.sortedRoots]
    · cases h
  ext r
  rw [Set.mem_ofPred_eq, Set.mem_ofPred_eq, members ok, members ok']
  simp only [perm.mem_iff]

theorem map_eq_of_same {α β : Type} {f : α → β} {x y : Option α}
    (h : ∀ a, x = some a → ∃ b, y = some b ∧ f a = f b)
    (h' : ∀ b, y = some b → ∃ a, x = some a ∧ f b = f a) : x.map f = y.map f := by
  cases x with
  | some a =>
    obtain ⟨b, rfl, hab⟩ := h a rfl
    simp only [Option.map_some, hab]
  | none =>
    cases y with
    | none => rfl
    | some b =>
      obtain ⟨_, hnone, _⟩ := h' b rfl
      cases hnone

/-- Builders that hold the same grants grant the same. -/
theorem granted_eq_of_same {b b' : CapabilitySetBuilder A}
    (h : ∀ g, b.Holds g → ∃ g', b'.Holds g' ∧ SameGrant g g')
    (h' : ∀ g, b'.Holds g → ∃ g', b.Holds g' ∧ SameGrant g g') : b.granted = b'.granted := by
  have env : ∀ {c c' : CapabilitySetBuilder A},
      (∀ g, c.Holds g → ∃ g', c'.Holds g' ∧ SameGrant g g') → ∀ env, c.environment = some env →
      ∃ env', c'.environment = some env' ∧ env.classified = env'.classified := by
    intro c c' hc env henv
    obtain ⟨g', hg', hsame⟩ := hc (.environment env) henv
    cases hsame with
    | refl => exact ⟨env, hg', rfl⟩
    | environment perm ok ok' =>
      obtain rfl := fromEntries_perm perm ok ok'
      exact ⟨env, hg', rfl⟩
  have fs : ∀ {c c' : CapabilitySetBuilder A},
      (∀ g, c.Holds g → ∃ g', c'.Holds g' ∧ SameGrant g g') → ∀ fs, c.filesystem = some fs →
      ∃ fs', c'.filesystem = some fs' ∧ { r | r ∈ fs.erasedRoots } = { r | r ∈ fs'.erasedRoots } := by
    intro c c' hc fs hfs
    obtain ⟨g', hg', hsame⟩ := hc (.filesystem fs) hfs
    cases hsame with
    | refl => exact ⟨fs, hg', rfl⟩
    | filesystem perm ok ok' => exact ⟨_, hg', erasedRoots_perm perm ok ok'⟩
  have policy : ∀ {c c' : CapabilitySetBuilder A} {g : Grant A}, g.kind ≠ .environment →
      g.kind ≠ .filesystem → (∀ g, c.Holds g → ∃ g', c'.Holds g' ∧ SameGrant g g') →
      c.Holds g → c'.Holds g := by
    intro c c' g henv hfs hc hg
    obtain ⟨g', hg', hsame⟩ := hc g hg
    cases hsame with
    | refl => exact hg'
    | environment => exact absurd rfl henv
    | filesystem => exact absurd rfl hfs
  have iff : ∀ g : Grant A, g.kind ≠ .environment → g.kind ≠ .filesystem →
      (b.Holds g ↔ b'.Holds g) := fun g henv hfs => ⟨policy henv hfs h, policy henv hfs h'⟩
  simp only [granted, Granted.mk.injEq, Option.map_map]
  refine ⟨?_, ?_, ?_, ?_, ?_, ?_, ?_, ?_⟩
  · refine map_eq_of_same (fun e he => ?_) fun e he => ?_
    · obtain ⟨e', he', heq⟩ := env h e he
      exact ⟨e', he', by rw [Function.comp_apply, Function.comp_apply, heq]⟩
    · obtain ⟨e', he', heq⟩ := env h' e he
      exact ⟨e', he', by rw [Function.comp_apply, Function.comp_apply, heq]⟩
  · exact Option.ext fun id => iff (.clock id) (by simp [Grant.kind]) (by simp [Grant.kind])
  · exact Option.ext fun id => iff (.stdin id) (by simp [Grant.kind]) (by simp [Grant.kind])
  · exact Option.ext fun id => iff (.stdout id) (by simp [Grant.kind]) (by simp [Grant.kind])
  · exact map_eq_of_same (fs h) (fs h')
  · exact Option.ext fun id => iff (.processExit id) (by simp [Grant.kind]) (by simp [Grant.kind])
  · exact Option.ext fun id => iff (.moduleResolver id) (by simp [Grant.kind]) (by simp [Grant.kind])
  · exact Set.ext fun id => iff (.hostFunction id) (by simp [Grant.kind]) (by simp [Grant.kind])

theorem exists_of_forall₂ {α β : Type} {r : α → β → Prop} {l : List α} {l' : List β}
    (h : List.Forall₂ r l l') :
    (∀ a ∈ l, ∃ b ∈ l', r a b) ∧ ∀ b ∈ l', ∃ a ∈ l, r a b := by
  induction h with
  | nil => simp
  | @cons a b l l' hab _ ih =>
    refine ⟨fun a' ha' => ?_, fun b' hb' => ?_⟩
    · rcases List.mem_cons.mp ha' with rfl | ha'
      · exact ⟨b, List.mem_cons_self, hab⟩
      · obtain ⟨b', hb', hr⟩ := ih.1 a' ha'
        exact ⟨b', List.mem_cons_of_mem b hb', hr⟩
    · rcases List.mem_cons.mp hb' with rfl | hb'
      · exact ⟨a, List.mem_cons_self, hab⟩
      · obtain ⟨a', ha', hr⟩ := ih.2 b' hb'
        exact ⟨a', List.mem_cons_of_mem a ha', hr⟩

/-- Grants of the same things in another order lead to a builder that grants the same. -/
theorem grantAll_same {gs gs' : List (Grant A)} {b : CapabilitySetBuilder A}
    (h : new.grantAll gs = .ok b) (hsame : SameGrants gs gs') :
    ∃ b', new.grantAll gs' = .ok b' ∧ b'.granted = b.granted := by
  obtain ⟨mid, hperm, hmid⟩ := hsame
  obtain ⟨hholds, hnodup, _⟩ := grantAll_ok h
  have hslots : mid.map Grant.slot = gs'.map Grant.slot := by
    clear hperm
    induction hmid with
    | nil => rfl
    | cons hg _ ih => rw [List.map_cons, List.map_cons, slot_eq_of_sameGrant hg, ih]
  have hnodup' : (gs'.map Grant.slot).Nodup :=
    hslots ▸ (hperm.map Grant.slot).nodup_iff.mp hnodup
  obtain ⟨b', hb'⟩ := grantAll_accepts (b := new) hnodup'
    fun _ _ held hheld => absurd hheld (holds_new held)
  have hholds' := (grantAll_ok hb').1
  refine ⟨b', hb', granted_eq_of_same (fun g hg => ?_) fun g hg => ?_⟩
  · obtain ⟨g', hg', hsame⟩ := (exists_of_forall₂ hmid).2 g
      (((hholds' g).mp hg).resolve_right (holds_new g))
    exact ⟨g', (hholds g').mpr (.inl (hperm.mem_iff.mpr hg')), sameGrant_symm hsame⟩
  · have hmem := hperm.mem_iff.mp (((hholds g).mp hg).resolve_right (holds_new g))
    obtain ⟨g', hg', hsame⟩ := (exists_of_forall₂ hmid).1 g hmem
    exact ⟨g', (hholds' g').mpr (.inl hg'), hsame⟩

end SetIdLemmas

open CapabilitySetBuilder SetIdLemmas

/-- For two sets that the builder accepts: their bytes are equal exactly when they grant
the same, grants of the same things in any order are accepted and give the same bytes, and
a further grant of a kind that is granted, or of a granted host function id, is refused. -/
theorem idBytes_faithful {grants grants' : Vec (Grant A)} {b b' : CapabilitySetBuilder A}
    (h : new.grantAll grants.1 = .ok b) (h' : new.grantAll grants'.1 = .ok b') :
    (b.idBytes = b'.idBytes ↔ b.granted = b'.granted) ∧
    (∀ reordered : Vec (Grant A), SameGrants grants.1 reordered.1 →
      ∃ c, new.grantAll reordered.1 = .ok c ∧ c.idBytes = b.idBytes) ∧
    (∀ g, g.slot ∈ grants.1.map Grant.slot → b.grant g = .error (.duplicateCapability g.kind)) := by
  refine ⟨idBytes_eq_iff (fits_grantAll h) (fits_grantAll h'), fun reordered hsame => ?_,
    fun g hg => ?_⟩
  · obtain ⟨c, hc, hgranted⟩ := grantAll_same h hsame
    exact ⟨c, hc, (idBytes_eq_iff (fits_grantAll hc) (fits_grantAll h)).mpr hgranted⟩
  · obtain ⟨held, hheld, hslot⟩ := List.mem_map.mp hg
    exact grant_taken (((grantAll_ok h).1 held).mpr (.inl hheld)) hslot

namespace SetIdExample

def one : NonZeroU128 := ⟨1, Nat.one_pos, NonZeroU128.one_fits⟩

def two : NonZeroU128 := ⟨2, by decide, by decide⟩

/-- Two host functions and a clock. -/
def grants : Vec (Grant Unit) :=
  ⟨[.hostFunction two, .clock one, .hostFunction one], by decide⟩

/-- The same without the second host function. -/
def fewer : Vec (Grant Unit) := ⟨[.hostFunction two, .clock one], by decide⟩

def built : CapabilitySetBuilder Unit :=
  { new with clock := some one, hostFunctions := ⟨[(one, ()), (two, ())], by decide⟩ }

def builtFewer : CapabilitySetBuilder Unit :=
  { new with clock := some one, hostFunctions := ⟨[(two, ())], by decide⟩ }

end SetIdExample

open SetIdExample in
theorem idBytes_faithful_two_functions :
    (built.idBytes = builtFewer.idBytes ↔ built.granted = builtFewer.granted) ∧
    (∀ reordered : Vec (Grant Unit), SameGrants grants.1 reordered.1 →
      ∃ c, new.grantAll reordered.1 = .ok c ∧ c.idBytes = built.idBytes) ∧
    (∀ g : Grant Unit, g.slot ∈ grants.1.map Grant.slot →
      built.grant g = .error (.duplicateCapability g.kind)) :=
  idBytes_faithful (show new.grantAll grants.1 = .ok built from rfl)
    (show new.grantAll fewer.1 = .ok builtFewer from rfl)

end Tsumugi.Capability
