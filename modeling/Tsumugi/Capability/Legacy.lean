import Tsumugi.Capability.PathLaw
import Tsumugi.Engine.Hash

/-!
# The legacy filesystem of the command line (`cli_capability.rs`, `sandbox.rs`)

`TSUMUGI_SANDBOX` lists the directories that a script of the legacy profile may use.
The command line makes one mount of each and a table that leads a host path to the
longest of them; the import check reads the same list.

Results:
1. A path is looked up in the table unless it is empty or holds a NUL or a colon in a
   component, and is led to the first root that contains it (`translate_some_iff`).
2. A table that lists the roots of a capability, longest first, leads every path to the
   longest root that contains it, and nowhere exactly if no root does
   (`Tabled.routesLongest`). The builder makes such a table.
3. Every path that is led somewhere lies under a directory of the list exactly if the
   list has an entry. A list without entries grants the root of the host.
-/

namespace Tsumugi.Capability

open FileTree (PathComponent)

/-! ## Policy ids -/

/-- `derive_policy_id`. -/
def derivePolicyId (bytes : List UInt8) : NonZeroU128 :=
  let value := ((Hash.sha256 bytes).take 16).foldl (fun n b => n * 256 + b.toNat) 0
  if h : 0 < value ∧ value < 2 ^ 128 then ⟨value, h.1, h.2⟩ else ⟨1, Nat.one_pos, NonZeroU128.one_fits⟩

/-- `policy_seed`. -/
def policySeed (tag : String) (parts : List String) : List UInt8 :=
  utf8Bytes tag ++ parts.flatMap strField

/-! ## Roots -/

/-- `FilesystemRoot::new`, for the adapter of the operating system. -/
def FilesystemRoot.new (mount : MountName) (policyId : NonZeroU128)
    (operations : Finset FsOperation) (symlinkPolicy : SymlinkPolicy)
    (adapter : OsDirectoryHandle) : Except ConfigErr (FilesystemRoot OsDirectoryHandle) :=
  if operations = ∅ then .error (.invalidFilesystemPolicy "empty_operations")
  else if adapter.policyId ≠ policyId then
    .error (.invalidFilesystemPolicy "adapter_policy_id_mismatch")
  else if adapter.symlinkPolicy ≠ symlinkPolicy then
    .error (.invalidFilesystemPolicy "adapter_symlink_policy_mismatch")
  else .ok ⟨mount, policyId, operations, symlinkPolicy, adapter⟩

/-- The absolute path with these names. -/
def absolutePath (names : List String) : List PathComponent := .rootDir :: names.map .normal

/-- The text of an absolute path. -/
def pathText (names : List String) : String :=
  if names = [] then "/" else String.join (names.map ("/" ++ ·))

/-- The order of `new_legacy`: more components first, then the longer text. -/
def longerRoot (a b : MountName × List PathComponent) : Bool :=
  let text (path : List PathComponent) :=
    (pathText (LegacyFsTranslator.normalNames path)).utf8ByteSize
  if a.2.length = b.2.length then text b.2 ≤ text a.2 else b.2.length < a.2.length

/-- `FilesystemCapability::new_legacy`. -/
def FilesystemCapability.newLegacy {A : Type} (roots : Vec (FilesystemRoot A))
    (translationRoots : List (MountName × List PathComponent)) (currentDir : RelativePath) :
    Except ConfigErr (FilesystemCapability A) :=
  if (translationRoots.map Prod.snd).Nodup then
    newInner roots (some ⟨translationRoots.mergeSort longerRoot, currentDir⟩)
  else .error (.invalidFilesystemPolicy "ambiguous_legacy_root")

/-! ## The list -/

/-- `char::is_whitespace`. -/
def isWhitespace (c : Char) : Bool :=
  let n := c.toNat
  (9 ≤ n && n ≤ 13) || n = 0x20 || n = 0x85 || n = 0xA0 || n = 0x1680 ||
    (0x2000 ≤ n && n ≤ 0x200A) || n = 0x2028 || n = 0x2029 || n = 0x202F || n = 0x205F ||
    n = 0x3000

/-- `str::trim`. -/
def trim (text : List Char) : List Char :=
  ((text.dropWhile isWhitespace).reverse.dropWhile isWhitespace).reverse

/-- The entries of the list: split at commas, trimmed, without the empty ones. -/
def sandboxEntries (spec : String) : List (List Char) :=
  ((spec.toList.splitOn ',').map trim).filter (· ≠ [])

/-- `allowed_paths`, by the normal form of a directory, which follows links. -/
def allowedPaths (canonical : List Char → List String) (sandbox : Option String) :
    Option (List (List String)) :=
  match sandbox with
  | none => none
  | some spec => if spec = "" then none else some ((sandboxEntries spec).map canonical)

/-- `authorize_path`: whether the import check lets a path through. -/
def authorizePath (allowed : Option (List (List String))) (target : List String) : Bool :=
  match allowed with
  | none => true
  | some allowed => allowed.any fun path => path.isPrefixOf target

/-! ## The builder -/

/-- `all_fs_ops`. -/
def allFsOps : Finset FsOperation :=
  {.read, .write, .create, .delete, .metadata, .list, .recursiveDelete}

/-- The mounts of a host directory. -/
def mountNames (single : Bool) (index : Nat) : List String :=
  if single then [s!"legacy{index}", "default"] else [s!"legacy{index}"]

/-- The mounts of the list with their directories. -/
def legacyMounts (currentDir : RelativePath) (hosts : List (List Char)) :
    List (String × List String) :=
  hosts.zipIdx.flatMap fun host =>
    (mountNames (hosts.length = 1) host.2).map fun mount =>
      (mount, LegacyFsTranslator.absolutizeLexical currentDir.components host.1)

/-- One root of the builder. -/
def legacyRoot (tag mountName : String) (seed : List String) (names : List String) :
    Except String (FilesystemRoot OsDirectoryHandle) :=
  let policyId := derivePolicyId (policySeed tag seed)
  match (MountName.new mountName : Except ConfigErr MountName) with
  | .error _ => .error s!"エラー: legacy mount 名が不正です: {mountName}"
  | .ok mount =>
    match FilesystemRoot.new mount policyId allFsOps .followWithinRoot
        ⟨absolutePath names, policyId, .followWithinRoot⟩ with
    | .error _ => .error "エラー: legacy ファイルシステム root の構成が不正です"
    | .ok root => .ok root

/-- `build_legacy_unrestricted_fs`. -/
def buildLegacyUnrestrictedFs (currentDir : RelativePath) :
    Except String (FilesystemCapability OsDirectoryHandle) := do
  let root ← legacyRoot "legacy-unrestricted" "default" [pathText []] []
  match FilesystemCapability.newLegacy ⟨[root], by simp⟩ [(root.mount, absolutePath [])]
      currentDir with
  | .error _ => .error "エラー: legacy ファイルシステム構成が不正です"
  | .ok filesystem => .ok filesystem

/-- `build_legacy_sandbox_fs`. A list of roots is in memory. -/
def buildLegacySandboxFs (currentDir : RelativePath) (spec : String) :
    Except String (FilesystemCapability OsDirectoryHandle) :=
  let hosts := sandboxEntries spec
  if hosts = [] then buildLegacyUnrestrictedFs currentDir
  else do
    let roots ← (legacyMounts currentDir hosts).mapM fun mount =>
      legacyRoot "legacy-fs" mount.1 [mount.1, pathText mount.2] mount.2
    -- the alias `default` stays out of the table
    let translationRoots := (roots.filter fun root =>
      "legacy".toList.isPrefixOf root.mount.name.toList).map fun root =>
        (root.mount, root.adapter.base)
    if h : roots.length < 2 ^ 64 then
      match FilesystemCapability.newLegacy ⟨roots, h⟩ translationRoots currentDir with
      | .error (.invalidFilesystemPolicy "ambiguous_legacy_root") =>
        .error s!"エラー: TSUMUGI_SANDBOX のパスが複数の root に同じ深さで一致します: {spec}"
      | .error _ => .error "エラー: legacy ファイルシステム構成が不正です"
      | .ok filesystem => .ok filesystem
    else .error "out of memory"

/-! ## The table -/

namespace LegacyFsTranslator

theorem normalNames_absolutePath (names : List String) :
    normalNames (absolutePath names) = names := by
  induction names with
  | nil => rfl
  | cons n rest ih => exact congrArg (n :: ·) ih

theorem absolutePath_inside {names root : List String} :
    absolutePath root <+: absolutePath names ↔ root <+: names := by
  rw [absolutePath, absolutePath, List.cons_prefix_cons]
  refine ⟨fun ⟨_, h⟩ => ?_, fun h => ⟨rfl, h.map _⟩⟩
  rw [List.prefix_iff_eq_take] at h ⊢
  rw [List.length_map, ← List.map_take] at h
  exact List.map_injective_iff.mpr (fun _ _ => PathComponent.normal.inj) h

/-- The test of the table is that the root is a prefix. -/
theorem under_iff {names root : List String} :
    under names (absolutePath root) = true ↔ absolutePath root <+: absolutePath names := by
  rw [under, normalNames_absolutePath, Bool.and_eq_true, Bool.or_eq_true,
    List.isPrefixOf_iff_prefix, List.isPrefixOf_iff_prefix, absolutePath_inside]
  refine ⟨fun h => h.2, fun h => ⟨.inl (absolutePath_inside.mpr h), h⟩⟩

/-- The paths that `translate` looks up. -/
structure Admissible (currentDir : RelativePath) (path : String) : Prop where
  nonempty : path.toList ≠ []
  no_nul : '\x00' ∉ path.toList
  no_colon : ∀ c ∈ absolutizeLexical currentDir.components path.toList, ':' ∉ c.toList

variable {t : LegacyFsTranslator} {path : String}

theorem translate_admissible (h : Admissible t.currentDir path) :
    t.translate path = .ok
      ((t.entries.find? fun e =>
          under (absolutizeLexical t.currentDir.components path.toList) e.2).map fun e =>
        ⟨e.1, ⟨(absolutizeLexical t.currentDir.components path.toList).drop
          (normalNames e.2).length, fun _ hc =>
            isComponent_absolutizeLexical h.no_nul (List.mem_of_mem_drop hc)⟩⟩) := by
  have hcolon : ((absolutizeLexical t.currentDir.components path.toList).any fun c =>
      c.toList.contains ':') ≠ true := by
    intro hany
    obtain ⟨c, hc, hin⟩ := List.any_eq_true.mp hany
    exact h.no_colon c hc (List.contains_iff_mem.mp hin)
  rw [translate]
  dsimp only
  rw [if_neg h.nonempty, dif_neg h.no_nul, if_neg hcolon]

theorem admissible_of_translate {target : Option FilesystemTarget}
    (h : t.translate path = .ok target) : Admissible t.currentDir path := by
  rw [translate] at h
  dsimp only at h
  split at h
  · cases h
  rename_i hempty
  split at h
  · cases h
  rename_i hnul
  split at h
  · cases h
  rename_i hcolon
  refine ⟨hempty, hnul, fun c hc hin => hcolon ?_⟩
  exact List.any_eq_true.mpr ⟨c, hc, List.contains_iff_mem.mpr hin⟩

/-- The root of an admissible path is the first one of the table that contains it. -/
theorem translate_some_iff {target : FilesystemTarget} :
    t.translate path = .ok (some target) ↔
      Admissible t.currentDir path ∧
        ∃ e, (t.entries.find? fun e =>
            under (absolutizeLexical t.currentDir.components path.toList) e.2) = some e ∧
          target.mount = e.1 ∧
          target.path.components =
            (absolutizeLexical t.currentDir.components path.toList).drop
              (normalNames e.2).length := by
  constructor
  · intro h
    have hadmissible := admissible_of_translate h
    rw [translate_admissible hadmissible, Except.ok.injEq, Option.map_eq_some_iff] at h
    obtain ⟨e, he, rfl⟩ := h
    exact ⟨hadmissible, e, he, rfl, rfl⟩
  · rintro ⟨hadmissible, e, he, hmount, hpath⟩
    rw [translate_admissible hadmissible, he]
    exact congrArg (fun target => Except.ok (some target))
      (FilesystemTarget.ext_iff.mpr ⟨hmount.symm, hpath.symm⟩)

/-- A path is led nowhere if no root of the table contains it. -/
theorem translate_none_iff :
    t.translate path = .ok none ↔
      Admissible t.currentDir path ∧ ∀ e ∈ t.entries,
        under (absolutizeLexical t.currentDir.components path.toList) e.2 = false := by
  constructor
  · intro h
    have hadmissible := admissible_of_translate h
    rw [translate_admissible hadmissible, Except.ok.injEq, Option.map_eq_none_iff,
      List.find?_eq_none] at h
    exact ⟨hadmissible, fun e he => by simpa using h e he⟩
  · rintro ⟨hadmissible, h⟩
    rw [translate_admissible hadmissible, Except.ok.injEq, Option.map_eq_none_iff,
      List.find?_eq_none]
    exact fun e he => by simp [h e he]

theorem translate_error_iff :
    (∃ e, t.translate path = .error e) ↔ ¬ Admissible t.currentDir path := by
  constructor
  · rintro ⟨e, he⟩ hadmissible
    rw [translate_admissible hadmissible] at he
    cases he
  · intro h
    cases htranslate : t.translate path with
    | ok target => exact absurd (admissible_of_translate htranslate) h
    | error e => exact ⟨e, rfl⟩

end LegacyFsTranslator

theorem longerRoot_trans (a b c : MountName × List PathComponent)
    (hab : longerRoot a b = true) (hbc : longerRoot b c = true) : longerRoot a c = true := by
  simp only [longerRoot] at hab hbc ⊢
  split at hab <;> split at hbc <;> split <;> simp only [decide_eq_true_eq] at * <;> omega

theorem longerRoot_total (a b : MountName × List PathComponent) :
    (longerRoot a b || longerRoot b a) = true := by
  simp only [longerRoot]
  split <;> split <;> simp only [Bool.or_eq_true, decide_eq_true_eq] at * <;> omega

theorem longerRoot_length {a b : MountName × List PathComponent} (h : longerRoot a b = true) :
    b.2.length ≤ a.2.length := by
  simp only [longerRoot] at h
  split at h <;> simp only [decide_eq_true_eq] at h <;> omega

/-- In a sorted list nothing that passes a test comes before the first that does. -/
theorem find?_le {α : Type} {le : α → α → Prop} {l : List α} {p : α → Bool} {a b : α}
    (hsorted : l.Pairwise le) (hrefl : ∀ a, le a a) (ha : l.find? p = some a) (hb : b ∈ l)
    (hpb : p b = true) : le a b := by
  obtain ⟨-, before, after, rfl, hbefore⟩ := List.find?_eq_some_iff_append.mp ha
  rcases List.mem_append.mp hb with hb | hb
  · have := hbefore b hb
    rw [hpb] at this
    cases this
  rcases List.mem_cons.mp hb with rfl | hb
  · exact hrefl b
  · exact (List.pairwise_cons.mp (List.pairwise_append.mp hsorted).2.1).1 b hb

/-! ## Capabilities with a table -/

open LegacyFsTranslator (absolutizeLexical Admissible)

/-- The absolute form of a script path, its dots resolved by their names. -/
def absoluteForm (currentDir : RelativePath) (path : List Char) : List PathComponent :=
  absolutePath (absolutizeLexical currentDir.components path)

/-- Where the paths of a script lead: to the longest root that contains them. -/
structure RoutesLongest (currentDir : RelativePath)
    (fs : FilesystemCapability OsDirectoryHandle) : Prop where
  routed : ∀ path target, fs.target path = .ok (some target) → ∃ root,
    fs.root target.mount = some root ∧
      root.adapter.base ++ target.path.components.map .normal =
        absoluteForm currentDir path.toList ∧
      (∀ other ∈ fs.roots, other.adapter.base <+: absoluteForm currentDir path.toList →
        other.adapter.base.length ≤ root.adapter.base.length) ∧
      ∀ c ∈ target.path.components, c ≠ "." ∧ c ≠ ".." ∧ ':' ∉ c.toList
  nowhere : ∀ path, fs.target path = .ok none ↔ Admissible currentDir path ∧
    ∀ root ∈ fs.roots, ¬ root.adapter.base <+: absoluteForm currentDir path.toList
  rejected : ∀ path, (∃ e, fs.target path = .error e) ↔ ¬ Admissible currentDir path

/-- A table that lists the roots of a capability, longest first. -/
structure Tabled (fs : FilesystemCapability OsDirectoryHandle) (t : LegacyFsTranslator) :
    Prop where
  legacy : fs.legacy = some t
  sorted : t.entries.Pairwise fun a b => longerRoot a b = true
  listed : ∀ e ∈ t.entries, ∃ root ∈ fs.roots, root.mount = e.1 ∧ root.adapter.base = e.2
  covers : ∀ root ∈ fs.roots, ∃ e ∈ t.entries, e.2 = root.adapter.base
  absolute : ∀ root ∈ fs.roots, ∃ names, root.adapter.base = absolutePath names

theorem root_of_mem {A : Type} {fs : FilesystemCapability A} {root : FilesystemRoot A}
    (h : root ∈ fs.roots) : fs.root root.mount = some root := by
  have key : ∀ roots : List (FilesystemRoot A), (roots.map FilesystemRoot.mount).Nodup →
      root ∈ roots → roots.find? (fun r => r.mount = root.mount) = some root := by
    intro roots hnodup hmem
    induction roots with
    | nil => cases hmem
    | cons first rest ih =>
      rw [List.map_cons, List.nodup_cons] at hnodup
      rcases List.mem_cons.mp hmem with rfl | hmem
      · exact List.find?_cons_of_pos (by simp)
      · have hne : first.mount ≠ root.mount := fun heq =>
          hnodup.1 (heq ▸ List.mem_map_of_mem hmem)
        rw [List.find?_cons_of_neg (by simpa using hne)]
        exact ih hnodup.2 hmem
  exact key fs.roots fs.distinct h

/-- A capability with such a table leads every path to the longest root. -/
theorem Tabled.routesLongest {fs : FilesystemCapability OsDirectoryHandle}
    {t : LegacyFsTranslator} (h : Tabled fs t) : RoutesLongest t.currentDir fs := by
  have htarget : ∀ path, fs.target path = t.translate path := fun path => by
    rw [FilesystemCapability.target, h.legacy]
  -- the table holds absolute paths, as the roots do
  have hunder : ∀ names, ∀ e ∈ t.entries,
      LegacyFsTranslator.under names e.2 = true ↔ e.2 <+: absolutePath names := by
    intro names e he
    obtain ⟨root, hroot, -, hbase⟩ := h.listed e he
    obtain ⟨rootNames, hnames⟩ := h.absolute root hroot
    rw [← hbase, hnames]
    exact LegacyFsTranslator.under_iff
  refine ⟨fun path target htranslate => ?_, fun path => ?_, fun path => ?_⟩
  · rw [htarget, LegacyFsTranslator.translate_some_iff] at htranslate
    obtain ⟨hadmissible, e, hfind, hmount, hpath⟩ := htranslate
    have he := List.mem_of_find?_eq_some hfind
    obtain ⟨root, hroot, hrootMount, hbase⟩ := h.listed e he
    obtain ⟨rootNames, hnames⟩ := h.absolute root hroot
    have htest := List.find?_some (p := fun e : MountName × List PathComponent =>
      LegacyFsTranslator.under (absolutizeLexical t.currentDir.components path.toList) e.2) hfind
    have hprefix := (hunder _ e he).mp htest
    rw [← hbase, hnames, LegacyFsTranslator.absolutePath_inside] at hprefix
    refine ⟨root, by rw [hmount, ← hrootMount]; exact root_of_mem hroot, ?_, ?_, ?_⟩
    · obtain ⟨rest, hrest⟩ := hprefix
      rw [hpath, ← hbase, hnames, LegacyFsTranslator.normalNames_absolutePath, ← hrest,
        List.drop_left, absoluteForm, ← hrest, absolutePath, absolutePath, List.map_append]
      rfl
    · intro other hother hin
      obtain ⟨e', he', hbase'⟩ := h.covers other hother
      rw [← hbase'] at hin ⊢
      have hle := find?_le h.sorted (fun a => by simpa using longerRoot_total a a) hfind he'
        ((hunder _ e' he').mpr hin)
      rw [hbase]
      exact longerRoot_length hle
    · intro c hc
      have hplain := target.path.plain c hc
      rw [hpath] at hc
      exact ⟨hplain.2.1, hplain.2.2.1, hadmissible.no_colon c (List.mem_of_mem_drop hc)⟩
  · rw [htarget, LegacyFsTranslator.translate_none_iff]
    refine and_congr_right fun _ => ⟨fun hnone root hroot hin => ?_, fun hnone e he => ?_⟩
    · obtain ⟨e, he, hbase⟩ := h.covers root hroot
      rw [← hbase] at hin
      have := (hunder _ e he).mpr hin
      rw [hnone e he] at this
      cases this
    · obtain ⟨root, hroot, -, hbase⟩ := h.listed e he
      rw [Bool.eq_false_iff]
      intro hin
      exact hnone root hroot (hbase ▸ (hunder _ e he).mp hin)
  · rw [htarget]
    exact LegacyFsTranslator.translate_error_iff

/-! ## What the builder makes -/

theorem legacyRoot_new (mount : MountName) (policyId : NonZeroU128) (names : List String) :
    FilesystemRoot.new mount policyId allFsOps .followWithinRoot
        ⟨absolutePath names, policyId, .followWithinRoot⟩ =
      .ok ⟨mount, policyId, allFsOps, .followWithinRoot,
        ⟨absolutePath names, policyId, .followWithinRoot⟩⟩ := by
  rw [FilesystemRoot.new, if_neg (by decide), if_neg (by simp), if_neg (by simp)]

theorem legacyRoot_ok {tag mountName : String} {seed names : List String}
    {root : FilesystemRoot OsDirectoryHandle} (h : legacyRoot tag mountName seed names = .ok root) :
    root.mount.name = mountName ∧ root.adapter.base = absolutePath names := by
  rw [legacyRoot] at h
  split at h
  · cases h
  rename_i mount hmount
  rw [MountName.new] at hmount
  split at hmount
  · cases hmount
    rw [legacyRoot_new] at h
    cases h
    exact ⟨rfl, rfl⟩
  · cases hmount

theorem legacyRoot_default (tag : String) (seed names : List String) :
    legacyRoot tag "default" seed names =
      .ok ⟨defaultMount, derivePolicyId (policySeed tag seed), allFsOps, .followWithinRoot,
        ⟨absolutePath names, derivePolicyId (policySeed tag seed), .followWithinRoot⟩⟩ := by
  have hmount : (MountName.new "default" : Except ConfigErr MountName) = .ok defaultMount :=
    dif_pos defaultMount.valid
  rw [legacyRoot, hmount]
  dsimp only
  rw [legacyRoot_new]

/-- Every result of a successful pass comes from an element of its own. -/
theorem mapM_ok {α β ε : Type} {f : α → Except ε β} {l : List α} {bs : List β}
    (h : l.mapM f = .ok bs) :
    (∀ b ∈ bs, ∃ a ∈ l, f a = .ok b) ∧ ∀ a ∈ l, ∃ b ∈ bs, f a = .ok b := by
  induction l generalizing bs with
  | nil =>
    cases h
    exact ⟨nofun, nofun⟩
  | cons a rest ih =>
    rw [List.mapM_cons] at h
    obtain ⟨b, hb, h⟩ := bind_ok h
    obtain ⟨more, hmore, h⟩ := bind_ok h
    cases h
    obtain ⟨hback, hforth⟩ := ih hmore
    constructor
    · intro b' hb'
      rcases List.mem_cons.mp hb' with rfl | hb'
      · exact ⟨a, List.mem_cons_self, hb⟩
      · obtain ⟨a', ha', h'⟩ := hback b' hb'
        exact ⟨a', List.mem_cons_of_mem a ha', h'⟩
    · intro a' ha'
      rcases List.mem_cons.mp ha' with rfl | ha'
      · exact ⟨b, List.mem_cons_self, hb⟩
      · obtain ⟨b', hb', h'⟩ := hforth a' ha'
        exact ⟨b', List.mem_cons_of_mem b hb', h'⟩

/-- The mounts are those of the directories of the list, and the first one of each goes
into the table. -/
theorem mem_legacyMounts {currentDir : RelativePath} {hosts : List (List Char)}
    {mount : String × List String} (h : mount ∈ legacyMounts currentDir hosts) :
    (∃ host ∈ hosts, mount.2 = absolutizeLexical currentDir.components host) ∧
      ∃ index : Nat, (s!"legacy{index}", mount.2) ∈ legacyMounts currentDir hosts := by
  obtain ⟨⟨host, index⟩, hhost, hmount⟩ := List.mem_flatMap.mp h
  obtain ⟨name, hname, rfl⟩ := List.mem_map.mp hmount
  refine ⟨⟨host, List.fst_mem_of_mem_zipIdx hhost, rfl⟩, index, ?_⟩
  refine List.mem_flatMap.mpr ⟨(host, index), hhost, List.mem_map.mpr ⟨_, ?_, rfl⟩⟩
  rw [mountNames]
  split <;> exact List.mem_cons_self

theorem isPrefixOf_legacy (index : Nat) :
    "legacy".toList.isPrefixOf (s!"legacy{index}").toList = true := by
  rw [List.isPrefixOf_iff_prefix]
  exact ⟨(toString index).toList, (String.toList_append ..).symm⟩

theorem newLegacy_ok {roots : Vec (FilesystemRoot OsDirectoryHandle)}
    {translationRoots : List (MountName × List PathComponent)} {currentDir : RelativePath}
    {fs : FilesystemCapability OsDirectoryHandle}
    (h : FilesystemCapability.newLegacy roots translationRoots currentDir = .ok fs) :
    fs.roots = roots.1 ∧
      fs.legacy = some ⟨translationRoots.mergeSort longerRoot, currentDir⟩ := by
  rw [FilesystemCapability.newLegacy] at h
  split at h
  · rw [FilesystemCapability.newInner] at h
    split at h
    · cases h
    split at h
    · cases h
      exact ⟨rfl, rfl⟩
    · cases h
  · cases h

/-- The table of a capability that the builder made from a list with entries. -/
theorem tabled_of_build {currentDir : RelativePath} {spec : String}
    {fs : FilesystemCapability OsDirectoryHandle} (hentries : sandboxEntries spec ≠ [])
    (h : buildLegacySandboxFs currentDir spec = .ok fs) :
    ∃ t, Tabled fs t ∧ t.currentDir = currentDir ∧
      ∀ root ∈ fs.roots, ∃ host ∈ sandboxEntries spec,
        root.adapter.base = absoluteForm currentDir host := by
  rw [buildLegacySandboxFs] at h
  dsimp only at h
  rw [if_neg hentries] at h
  obtain ⟨roots, hroots, h⟩ := bind_ok h
  split at h
  swap
  · cases h
  split at h
  · cases h
  · cases h
  rename_i built hbuilt
  cases h
  obtain ⟨hfsRoots, hlegacy⟩ := newLegacy_ok hbuilt
  have hroot : ∀ root ∈ fs.roots, ∃ mount ∈ legacyMounts currentDir (sandboxEntries spec),
      root.adapter.base = absolutePath mount.2 := by
    intro root hin
    rw [hfsRoots] at hin
    obtain ⟨mount, hmount, hmade⟩ := (mapM_ok hroots).1 root hin
    exact ⟨mount, hmount, (legacyRoot_ok hmade).2⟩
  refine ⟨_, ⟨hlegacy, ?_, fun e he => ?_, fun root hin => ?_, fun root hin => ?_⟩, rfl,
    fun root hin => ?_⟩
  · exact List.pairwise_mergeSort longerRoot_trans longerRoot_total _
  · obtain ⟨root, hin, rfl⟩ := List.mem_map.mp (List.mem_mergeSort.mp he)
    exact ⟨root, by rw [hfsRoots]; exact (List.mem_filter.mp hin).1, rfl, rfl⟩
  · -- the mount `legacy{index}` of the same directory is in the table
    obtain ⟨mount, hmount, hbase⟩ := hroot root hin
    obtain ⟨-, index, hfirst⟩ := mem_legacyMounts hmount
    obtain ⟨first, hfirstIn, hmade⟩ := (mapM_ok hroots).2 _ hfirst
    obtain ⟨hname, hfirstBase⟩ := legacyRoot_ok hmade
    refine ⟨(first.mount, first.adapter.base), List.mem_mergeSort.mpr <|
      List.mem_map.mpr ⟨first, List.mem_filter.mpr ⟨hfirstIn, ?_⟩, rfl⟩, ?_⟩
    · rw [hname]
      exact isPrefixOf_legacy index
    · rw [hbase]
      exact hfirstBase
  · obtain ⟨mount, -, hbase⟩ := hroot root hin
    exact ⟨mount.2, hbase⟩
  · obtain ⟨mount, hmount, hbase⟩ := hroot root hin
    obtain ⟨⟨host, hhost, hnames⟩, -⟩ := mem_legacyMounts hmount
    exact ⟨host, hhost, by rw [hbase, hnames, absoluteForm]⟩

/-- The capability without a list: the root of the host under the mount `default`. -/
theorem tabled_unrestricted (currentDir : RelativePath) :
    ∃ fs, buildLegacyUnrestrictedFs currentDir = .ok fs ∧
      Tabled fs ⟨[(defaultMount, absolutePath [])], currentDir⟩ := by
  let root : FilesystemRoot OsDirectoryHandle :=
    ⟨defaultMount, derivePolicyId (policySeed "legacy-unrestricted" [pathText []]), allFsOps,
      .followWithinRoot, ⟨absolutePath [], derivePolicyId (policySeed "legacy-unrestricted"
        [pathText []]), .followWithinRoot⟩⟩
  refine ⟨⟨[root], some ⟨[(defaultMount, absolutePath [])], currentDir⟩, by simp, by simp,
    by simp⟩, ?_, ?_⟩
  · rw [buildLegacyUnrestrictedFs, legacyRoot_default]
    have hlegacy : FilesystemCapability.newLegacy ⟨[root], by simp⟩
        [(root.mount, absolutePath [])] currentDir =
        .ok ⟨[root], some ⟨[(defaultMount, absolutePath [])], currentDir⟩, by simp, by simp,
          by simp⟩ := by
      rw [FilesystemCapability.newLegacy, if_pos (by simp), List.mergeSort_singleton,
        FilesystemCapability.newInner, dif_neg (by simp), dif_pos (by simp)]
    simp only [bind, Except.bind]
    rw [hlegacy]
  · refine ⟨rfl, List.pairwise_singleton _ _, fun e he => ?_, fun r hr => ?_, fun r hr => ?_⟩
    · rw [List.mem_singleton.mp he]
      exact ⟨root, List.mem_cons_self, rfl, rfl⟩
    · rw [List.mem_singleton.mp hr]
      exact ⟨_, List.mem_cons_self, rfl⟩
    · rw [List.mem_singleton.mp hr]
      exact ⟨[], rfl⟩

/-! ## Confinement -/

/-- Every path that the capability leads somewhere lies under a directory of the list. -/
def ConfinedToList (currentDir : RelativePath) (spec : String)
    (fs : FilesystemCapability OsDirectoryHandle) : Prop :=
  ∀ path target, fs.target path = .ok (some target) → ∃ host ∈ sandboxEntries spec,
    absoluteForm currentDir host <+: absoluteForm currentDir path.toList

/-- The import check lets nothing through on a list without entries. -/
theorem authorizePath_blank {canonical : List Char → List String} {spec : String}
    (hspec : spec ≠ "") (hentries : sandboxEntries spec = []) (target : List String) :
    authorizePath (allowedPaths canonical (some spec)) target = false := by
  rw [allowedPaths, if_neg hspec, hentries]
  rfl

theorem build_blank {currentDir : RelativePath} {spec : String}
    (hentries : sandboxEntries spec = []) :
    buildLegacySandboxFs currentDir spec = buildLegacyUnrestrictedFs currentDir := by
  rw [buildLegacySandboxFs]
  exact if_pos hentries

/-- A list without entries leads every admissible path to the root of the host. -/
theorem blank_routes {currentDir : RelativePath} {spec path : String}
    (hentries : sandboxEntries spec = []) (hpath : Admissible currentDir path) :
    ∃ fs, buildLegacySandboxFs currentDir spec = .ok fs ∧
      ∃ target, fs.target path = .ok (some target) := by
  obtain ⟨fs, hbuild, htabled⟩ := tabled_unrestricted currentDir
  have hroutes := htabled.routesLongest
  refine ⟨fs, build_blank hentries ▸ hbuild, ?_⟩
  cases htarget : fs.target path with
  | error e => exact absurd hpath ((hroutes.rejected path).mp ⟨e, htarget⟩)
  | ok target =>
    cases target with
    | none =>
      obtain ⟨root, hroot, -, hbase⟩ := htabled.listed _ List.mem_cons_self
      refine absurd ?_ (((hroutes.nowhere path).mp htarget).2 root hroot)
      rw [hbase]
      exact LegacyFsTranslator.absolutePath_inside.mpr (List.nil_prefix)
    | some target => exact ⟨target, rfl⟩

/-- The capability of the legacy profile leads every path to the longest root that
contains it, and nowhere outside the list, exactly if the list has an entry. -/
theorem legacy_sandbox_confines (currentDir : RelativePath) (spec : String) :
    (∀ fs, buildLegacySandboxFs currentDir spec = .ok fs →
      RoutesLongest currentDir fs ∧ ConfinedToList currentDir spec fs) ↔
      sandboxEntries spec ≠ [] := by
  constructor
  · intro h hentries
    have hpath : Admissible currentDir "/" := by
      refine ⟨by decide, by decide, fun c hc => ?_⟩
      cases hc
    obtain ⟨fs, hbuild, target, htarget⟩ := blank_routes hentries hpath
    obtain ⟨host, hhost, -⟩ := (h fs hbuild).2 "/" target htarget
    rw [hentries] at hhost
    cases hhost
  · intro hentries fs hbuild
    obtain ⟨t, htabled, hcurrent, hdirs⟩ := tabled_of_build hentries hbuild
    have hroutes := htabled.routesLongest
    rw [hcurrent] at hroutes
    refine ⟨hroutes, fun path target htarget => ?_⟩
    obtain ⟨root, hroot, hjoin, -, -⟩ := hroutes.routed path target htarget
    obtain ⟨host, hhost, hbase⟩ := hdirs root (List.mem_of_find?_eq_some hroot)
    exact ⟨host, hhost, hbase ▸ ⟨_, hjoin⟩⟩

/-- On the list `,` the path `/etc/passwd` is led to a mount, under no directory of the
list; the import check refuses it. -/
theorem comma_grants_root :
    (∃ fs, buildLegacySandboxFs ⟨[], nofun⟩ "," = .ok fs ∧
      (∃ target, fs.target "/etc/passwd" = .ok (some target)) ∧
      ¬ ConfinedToList ⟨[], nofun⟩ "," fs) ∧
      authorizePath (allowedPaths (fun _ => []) (some ",")) ["etc", "passwd"] = false := by
  have hentries : sandboxEntries "," = [] := by decide
  have hpath : Admissible ⟨[], nofun⟩ "/etc/passwd" := ⟨by decide, by decide, by decide⟩
  obtain ⟨fs, hbuild, target, htarget⟩ := blank_routes hentries hpath
  refine ⟨⟨fs, hbuild, ⟨target, htarget⟩, fun hconfined => ?_⟩,
    authorizePath_blank (by decide) hentries _⟩
  obtain ⟨host, hhost, -⟩ := hconfined "/etc/passwd" target htarget
  rw [hentries] at hhost
  cases hhost

end Tsumugi.Capability
