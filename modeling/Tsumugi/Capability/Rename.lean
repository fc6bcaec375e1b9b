import Mathlib.Data.List.Pairwise
import Tsumugi.Capability.Legacy
import Tsumugi.Capability.Trail

/-!
# Policy ids and renames between mounts

`FilesystemCapability::new` is promised roots whose policy ids name them: one id for two
mounts says that they are one handle under two names. It checks that the mounts differ,
and not that. The handle of the operating system relies on the promise: on a rename it
compares the ids and resolves both paths under its own base.

Results:
1. `rename_leads`: what a rename that succeeds moves, and where it puts it;
2. `policy_ids_name_roots`: the roots of a capability agree with their ids, and each
   rename lands under the mount of its destination, exactly if the roots given with one
   id are one root.
-/

namespace Tsumugi.Capability

open FileTree HostFs ContainmentLemmas

/-- `FilesystemCapability::new`. -/
def FilesystemCapability.new {A : Type} (roots : Vec (FilesystemRoot A)) :
    Except ConfigErr (FilesystemCapability A) :=
  newInner roots none

/-- A rename of the handle moves the entry at the one path to the other, under its own
base. -/
theorem rename_leads {s s' : Host} {h toDirectory : OsDirectoryHandle}
    {source target : RelativePath} {replace : Bool}
    (hok : h.rename s source toDirectory target replace = .ok s') :
    toDirectory.policyId = h.policyId ∧ ∃ p q, Leads s.tree false (h.join source) p ∧
      Leads s.tree false (h.join target) q ∧ Host.Moved s.tree s'.tree p q := by
  rw [OsDirectoryHandle.rename] at hok
  split at hok
  · cases hok
  next hid =>
  obtain ⟨src, hsrc, hok⟩ := bind_ok hok
  obtain ⟨dst, hdst, hok⟩ := bind_ok hok
  obtain ⟨entry, -, hok⟩ := bind_ok hok
  split at hok
  · cases hok
  split at hok
  · cases hok
  split at hok
  · cases hok
  obtain ⟨p, q, hp, hq, hmoved⟩ := Host.rename_moved (orHostErr_ok hok)
  exact ⟨not_not.mp hid, p, q, resolve_leads hsrc hp, resolve_leads hdst hq, hmoved⟩

/-- The root is one that `FilesystemRoot::new` has made. -/
def FilesystemRoot.Built (root : FilesystemRoot OsDirectoryHandle) : Prop :=
  FilesystemRoot.new root.mount root.policyId root.operations root.symlinkPolicy root.adapter =
    .ok root

theorem FilesystemRoot.Built.adapter {root : FilesystemRoot OsDirectoryHandle} (h : root.Built) :
    root.adapter.policyId = root.policyId ∧ root.adapter.symlinkPolicy = root.symlinkPolicy := by
  rw [FilesystemRoot.Built, FilesystemRoot.new] at h
  split at h
  · cases h
  split at h
  · cases h
  next hid =>
  split at h
  · cases h
  next hpolicy => exact ⟨not_not.mp hid, not_not.mp hpolicy⟩

theorem handle_ext {h h' : OsDirectoryHandle} (hbase : h.base = h'.base)
    (hid : h.policyId = h'.policyId) (hpolicy : h.symlinkPolicy = h'.symlinkPolicy) : h = h' := by
  cases h
  cases h'
  cases hbase
  cases hid
  cases hpolicy
  rfl

/-- Two roots with one policy id have one base, the same operations and one symlink
policy. -/
def PolicyIdsName (fs : FilesystemCapability OsDirectoryHandle) : Prop :=
  ∀ a ∈ fs.roots, ∀ b ∈ fs.roots, a.policyId = b.policyId →
    a.adapter.base = b.adapter.base ∧ a.operations = b.operations ∧
      a.symlinkPolicy = b.symlinkPolicy

/-- A rename between two mounts that succeeds takes the entry at the path under the source
to the path under the destination; any other changes nothing. -/
def RenamesLand (fs : FilesystemCapability OsDirectoryHandle) : Prop :=
  ∀ a ∈ fs.roots, ∀ b ∈ fs.roots, ∀ source target replace s result s',
    osAdapters.rename a.adapter source b.adapter target replace s = (result, s') →
    match result with
    | .ok _ => ∃ p q, Leads s.tree false (a.adapter.join source) p ∧
        Leads s.tree false (b.adapter.join target) q ∧ Host.Moved s.tree s'.tree p q
    | .error _ => s' = s

/-- Roots with one policy id are one handle, with the same operations. -/
def OneRoot (a b : FilesystemRoot OsDirectoryHandle) : Prop :=
  a.policyId = b.policyId → a.adapter = b.adapter ∧ a.operations = b.operations

instance : Std.Symm OneRoot where
  symm _ _ h hid := ⟨(h hid.symm).1.symm, (h hid.symm).2.symm⟩

/-- What the caller of `new` is to keep and nothing checks: a root that repeats the id of an
earlier one is that root under another mount. -/
def AliasesOneRoot (roots : List (FilesystemRoot OsDirectoryHandle)) : Prop :=
  roots.Pairwise OneRoot

theorem AliasesOneRoot.same {roots : List (FilesystemRoot OsDirectoryHandle)}
    (h : AliasesOneRoot roots) {a b : FilesystemRoot OsDirectoryHandle} (ha : a ∈ roots)
    (hb : b ∈ roots) : OneRoot a b :=
  List.Pairwise.forall_of_forall (fun _ _ _ => ⟨rfl, rfl⟩) h ha hb

theorem new_ok {A : Type} {roots : Vec (FilesystemRoot A)} {fs : FilesystemCapability A}
    (h : FilesystemCapability.new roots = .ok fs) : fs.roots = roots.1 := by
  rw [FilesystemCapability.new, FilesystemCapability.newInner] at h
  split at h
  · cases h
  split at h
  · cases h
    rfl
  · cases h

/-- Policy ids name roots, and renames land under the mount of their destination, exactly
if the roots that were given with one id are one root. -/
theorem policy_ids_name_roots {roots : Vec (FilesystemRoot OsDirectoryHandle)}
    {fs : FilesystemCapability OsDirectoryHandle} (hbuilt : ∀ root ∈ roots.1, root.Built)
    (hnew : FilesystemCapability.new roots = .ok fs) :
    PolicyIdsName fs ∧ RenamesLand fs ↔ AliasesOneRoot roots.1 := by
  have hroots := new_ok hnew
  constructor
  · rintro ⟨hnames, -⟩
    refine List.pairwise_iff_forall_sublist.mpr fun {a b} hsub hid => ?_
    have ha : a ∈ roots.1 := hsub.subset (by simp)
    have hb : b ∈ roots.1 := hsub.subset (by simp)
    obtain ⟨hbase, hoperations, hpolicy⟩ :=
      hnames a (hroots ▸ ha) b (hroots ▸ hb) hid
    obtain ⟨haId, haPolicy⟩ := (hbuilt a ha).adapter
    obtain ⟨hbId, hbPolicy⟩ := (hbuilt b hb).adapter
    refine ⟨handle_ext hbase ?_ ?_, hoperations⟩
    · rw [haId, hbId, hid]
    · rw [haPolicy, hbPolicy, hpolicy]
  · intro haliases
    constructor
    · intro a ha b hb hid
      rw [hroots] at ha hb
      obtain ⟨hadapter, hoperations⟩ := haliases.same ha hb hid
      refine ⟨by rw [hadapter], hoperations, ?_⟩
      rw [← (hbuilt a ha).adapter.2, ← (hbuilt b hb).adapter.2, hadapter]
    · intro a ha b hb source target replace s result s' hrename
      rw [hroots] at ha hb
      simp only [osAdapters, orSame] at hrename
      split at hrename
      · next after hok =>
        cases hrename
        obtain ⟨hid, p, q, hp, hq, hmoved⟩ := rename_leads hok
        -- the ids agree, so the base of the source is that of the destination
        rw [(hbuilt a ha).adapter.1, (hbuilt b hb).adapter.1] at hid
        obtain ⟨hadapter, -⟩ := haliases.same ha hb hid.symm
        exact ⟨p, q, hp, hadapter ▸ hq, hmoved⟩
      · cases hrename
        rfl

/-! ## Two roots under one id -/

namespace RenameExample

def attrs : Attrs := ⟨0, false⟩

/-- The directories `/a` and `/b` and the file `/a/x`. -/
def tree : Tree :=
  (((Tree.rootOnly attrs).insert ["a"] (.directory attrs) rfl (by decide) rfl).insert ["b"]
    (.directory attrs) rfl (by decide) rfl).insert ["a", "x"] (.file [1] false) rfl (by decide) rfl

def host : Host := ⟨tree, 40, fun _ => none⟩

def id : NonZeroU128 := ⟨1, Nat.one_pos, NonZeroU128.one_fits⟩

def root (mount : MountName) (directory : String) : FilesystemRoot OsDirectoryHandle :=
  ⟨mount, id, {.create, .delete}, .denyAll, ⟨absolutePath [directory], id, .denyAll⟩⟩

def rootA : FilesystemRoot OsDirectoryHandle := root ⟨"a", by decide +kernel⟩ "a"
def rootB : FilesystemRoot OsDirectoryHandle := root ⟨"b", by decide +kernel⟩ "b"

/-- The first directory under the second mount. -/
def aliasA : FilesystemRoot OsDirectoryHandle := root ⟨"b", by decide +kernel⟩ "a"

def x : RelativePath := ⟨["x"], by decide⟩
def y : RelativePath := ⟨["y"], by decide⟩

/-- The tree after the file has moved to `/a/y`. -/
def after : Host :=
  { host with tree := tree.move ["a", "x"] ["a", "y"] (by decide) (by decide) rfl (by decide) }

theorem locate_name {directory : String} (hdir : host.tree.isDir [directory])
    (hplain : (host.tree.node [directory]).any Node.isSymlink = false) (name : String) :
    host.locate false (absolutePath [directory] ++ [.normal name]) = some [directory, name] := by
  have hleads : host.locate true (absolutePath [directory]) = some [directory] :=
    Host.locate_toPath (Tree.has_of_isDir hdir) hplain
  exact Host.locate_push false hleads hdir (.inl rfl)

theorem renamed : rootA.adapter.rename host x rootB.adapter y true = .ok after := by
  have hresolve : rootA.adapter.resolve host x = .ok (absolutePath ["a"] ++ [.normal "x"]) := rfl
  have hresolve' : rootA.adapter.resolve host y = .ok (absolutePath ["a"] ++ [.normal "y"]) := rfl
  have hsrc : host.symlinkMetadata (absolutePath ["a"] ++ [.normal "x"]) =
      some (["a", "x"], .file [1] false) := by
    rw [Host.symlinkMetadata, locate_name rfl rfl]
    rfl
  have hdst : host.symlinkMetadata (absolutePath ["a"] ++ [.normal "y"]) = none := by
    rw [Host.symlinkMetadata, locate_name rfl rfl]
    rfl
  have hcall : host.rename (absolutePath ["a"] ++ [.normal "x"])
      (absolutePath ["a"] ++ [.normal "y"]) = some after := by
    rw [Host.rename, locate_name rfl rfl, locate_name rfl rfl]
    rfl
  rw [OsDirectoryHandle.rename, if_neg (by decide), hresolve, hresolve']
  simp only [bind, Except.bind, hsrc, hdst, hcall, orHostErr]
  rfl

theorem built {mount : MountName} {directory : String} : (root mount directory).Built := by
  have hoperations : ({.create, .delete} : Finset FsOperation) ≠ ∅ := by decide
  rw [FilesystemRoot.Built, FilesystemRoot.new, root, if_neg hoperations, if_neg (by simp),
    if_neg (by simp)]

end RenameExample

open RenameExample in
/-- Two directories under one policy id make a capability; renaming `x` of the first to `y`
of the second leaves the file in the first, and nothing in the second. -/
theorem rename_stays_in_source :
    (∀ root ∈ [rootA, rootB], root.Built) ∧
      ∃ fs, FilesystemCapability.new ⟨[rootA, rootB], by decide⟩ = .ok fs ∧
        ¬ PolicyIdsName fs ∧ ¬ RenamesLand fs ∧
        osAdapters.rename rootA.adapter x rootB.adapter y true host = (.ok (), after) ∧
        after.tree.node ["a", "y"] = some (.file [1] false) ∧
        after.tree.node ["b", "y"] = none := by
  have hnew : ∃ fs, FilesystemCapability.new ⟨[rootA, rootB], by decide⟩ = .ok fs := by
    rw [FilesystemCapability.new, FilesystemCapability.newInner, dif_neg (by simp),
      dif_pos (by decide)]
    exact ⟨_, rfl⟩
  have hrename : osAdapters.rename rootA.adapter x rootB.adapter y true host = (.ok (), after) := by
    simp only [osAdapters, renamed, orSame]
  obtain ⟨fs, hfs⟩ := hnew
  have hroots := new_ok hfs
  have ha : rootA ∈ fs.roots := hroots ▸ List.mem_cons_self
  have hb : rootB ∈ fs.roots := hroots ▸ List.mem_cons_of_mem _ List.mem_cons_self
  refine ⟨?_, fs, hfs, fun hnames => ?_, fun hland => ?_, hrename, rfl, rfl⟩
  · rintro root hroot
    rcases List.mem_cons.mp hroot with rfl | hroot
    · exact built
    · rw [List.mem_singleton.mp hroot]
      exact built
  · exact absurd (hnames rootA ha rootB hb rfl).1 (by decide)
  · obtain ⟨p, q, hp, hq, hmoved⟩ := hland rootA ha rootB hb x y true host (.ok ()) after hrename
    have hp' : p = ["a", "x"] := hp.unique (leads_of_locate (locate_name rfl rfl "x"))
    have hq' : q = ["b", "y"] := hq.unique (leads_of_locate (locate_name rfl rfl "y"))
    have harrived := hmoved.arrived []
    rw [hp', hq'] at harrived
    cases harrived

open RenameExample in
theorem policy_ids_name_roots_alias :
    ∃ fs, FilesystemCapability.new ⟨[rootA, aliasA], by decide⟩ = .ok fs ∧
      (PolicyIdsName fs ∧ RenamesLand fs ↔ AliasesOneRoot [rootA, aliasA]) := by
  obtain ⟨fs, hfs⟩ : ∃ fs, FilesystemCapability.new ⟨[rootA, aliasA], by decide⟩ = .ok fs := by
    rw [FilesystemCapability.new, FilesystemCapability.newInner, dif_neg (by simp),
      dif_pos (by decide)]
    exact ⟨_, rfl⟩
  refine ⟨fs, hfs, policy_ids_name_roots (fun root hroot => ?_) hfs⟩
  rcases List.mem_cons.mp hroot with rfl | hroot
  · exact built
  · rw [List.mem_singleton.mp hroot]
    exact built

end Tsumugi.Capability
