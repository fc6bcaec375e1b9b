import Tsumugi.Capability.Trail

/-!
# The symlink policy of a directory handle

What each policy promises of the links on a path, against the operations of
`OsDirectoryHandle`. The links meant are those that the components of a path name; the
base of the handle is another matter.

Results:
1. A link before the last component makes an operation fail under `DenyAll`, and leads to
   a directory inside the root where an operation succeeds under another policy.
2. A link at the end is acted on as an entry, or makes the operation fail, but for
   `metadata` that is to follow it (`final_link`).
3. `link_policy_iff`: the policy is honoured exactly unless `metadata` follows a final link
   under `DenyAll` or `OperateOnFinalEntry`. It does whenever the link leads to an entry
   inside the root: the check of the policy is missing there.
-/

namespace Tsumugi.Capability

open FileTree HostFs ContainmentLemmas

/-- The paths that an operation walks. -/
def DirectoryOperation.paths (rel : RelativePath) : DirectoryOperation → List RelativePath
  | .rename _ target _ => [rel, target]
  | _ => [rel]

/-- What an operation answers, but for its value. -/
def OsDirectoryHandle.outcome (h : OsDirectoryHandle) (s : Host) (rel : RelativePath) :
    DirectoryOperation → Except AdapterError Unit
  | .openFile request _ => (h.openFile s rel request).map fun _ => ()
  | .createDir => (h.createDir s rel).map fun _ => ()
  | .metadata followFinal => (h.metadataEntry s rel followFinal).map fun _ => ()
  | .list maxEntries => (h.listEntries s rel maxEntries).map fun _ => ()
  | .remove kind => (h.remove s rel kind).1
  | .rename toDirectory target replace => (h.rename s rel toDirectory target replace).map fun _ => ()

/-! ## What the policies promise -/

/-- The operation fails, reports nothing and changes nothing. -/
def Refused (h : OsDirectoryHandle) (s : Host) (rel : RelativePath) (op : DirectoryOperation) : Prop :=
  (∃ e, h.outcome s rel op = .error e) ∧ h.perform s rel op = ⟨s, []⟩

/-- The names lead from the base to a link. -/
def LinkAt (h : OsDirectoryHandle) (s : Host) (names : List String) (q : Location) : Prop :=
  Leads s.tree false (h.base ++ names.map .normal) q ∧
    (s.tree.node q).any Node.isSymlink = true

/-- The names end at a component of a path before the last one. -/
def DirectoryOperation.Before (op : DirectoryOperation) (rel : RelativePath) (names : List String) :
    Prop :=
  names ≠ [] ∧ ∃ path ∈ op.paths rel, names <+: path.components ∧ names ≠ path.components

/-- The names are those of a whole path. -/
def DirectoryOperation.AtEnd (op : DirectoryOperation) (rel : RelativePath) (names : List String) :
    Prop :=
  names ≠ [] ∧ ∃ path ∈ op.paths rel, names = path.components

/-- The operations that read, write, append, create or list. -/
def DirectoryOperation.UsesTarget : DirectoryOperation → Prop
  | .openFile .. | .createDir | .list _ => True
  | _ => False

/-- The operations that delete an entry or report on it. -/
def DirectoryOperation.ActsOnEntry : DirectoryOperation → Prop
  | .remove _ | .metadata _ => True
  | _ => False

/-- Nothing but the entry is reported or changed. -/
def OnlyAt (q : Location) (s : Host) (r : Performed) : Prop :=
  Host.SameOutside q s r.host ∧ ∀ p ∈ r.reported, p = q

/-- The policy of the handle is honoured. -/
structure HonoursPolicy (h : OsDirectoryHandle) (s : Host) (rel : RelativePath)
    (op : DirectoryOperation) : Prop where
  denied : h.symlinkPolicy = .denyAll → ∀ names q, op.Before rel names → LinkAt h s names q →
    Refused h s rel op
  inside : h.symlinkPolicy ≠ .denyAll → ∀ names q, op.Before rel names → LinkAt h s names q →
    Refused h s rel op ∨ ∃ base p, s.locate true h.base = some base ∧
      Leads s.tree true (h.base ++ names.map .normal) p ∧ s.tree.isDir p ∧ base <+: p
  refused : op.UsesTarget → ∀ names q, op.AtEnd rel names → LinkAt h s names q →
    Refused h s rel op
  entry : h.symlinkPolicy ≠ .followWithinRoot → ∀ names q, op.AtEnd rel names →
    LinkAt h s names q →
    Refused h s rel op ∨ (op.ActsOnEntry ∧ OnlyAt q s (h.perform s rel op))
  dangling : ∀ names q p, op.Before rel names ∨ op.AtEnd rel names → LinkAt h s names q →
    Leads s.tree true (h.base ++ names.map .normal) p → s.tree.has p = false →
    (h.perform s rel op).host.tree.has p = false

/-- The path resolves to a link that leads to an entry inside the root. -/
def FinalLeadsInside (h : OsDirectoryHandle) (s : Host) (rel : RelativePath) (q : Location) : Prop :=
  ∃ path base p, h.resolve s rel = .ok path ∧ s.locate false path = some q ∧
    s.locate true path = some p ∧ s.tree.has p ∧ s.locate true h.base = some base ∧ base <+: p

/-- `metadata` is to follow a final link that leads to an entry inside the root, and the
policy does not let it. -/
def FollowsDespitePolicy (h : OsDirectoryHandle) (s : Host) (rel : RelativePath)
    (op : DirectoryOperation) : Prop :=
  op = .metadata true ∧ h.symlinkPolicy ≠ .followWithinRoot ∧ rel.components ≠ [] ∧
    ∃ q, (s.tree.node q).any Node.isSymlink = true ∧ FinalLeadsInside h s rel q

/-! ## Refusals -/

namespace LinkPolicyLemmas

variable {h : OsDirectoryHandle} {s : Host} {rel : RelativePath}

theorem refused_openFile {request : OpenFileRequest} {uses : List FileUse} {e : AdapterError}
    (herr : h.openFile s rel request = .error e) : Refused h s rel (.openFile request uses) := by
  refine ⟨⟨e, ?_⟩, ?_⟩
  · rw [OsDirectoryHandle.outcome, herr]
    rfl
  · simp only [OsDirectoryHandle.perform, herr]

theorem refused_createDir {e : AdapterError} (herr : h.createDir s rel = .error e) :
    Refused h s rel .createDir := by
  refine ⟨⟨e, ?_⟩, ?_⟩
  · rw [OsDirectoryHandle.outcome, herr]
    rfl
  · rw [OsDirectoryHandle.perform, herr]
    rfl

theorem refused_metadata {followFinal : Bool} {e : AdapterError}
    (herr : h.metadataEntry s rel followFinal = .error e) :
    Refused h s rel (.metadata followFinal) := by
  refine ⟨⟨e, ?_⟩, ?_⟩
  · rw [OsDirectoryHandle.outcome, herr]
    rfl
  · rw [OsDirectoryHandle.perform, herr]
    rfl

theorem refused_list {maxEntries : Option Nat} {e : AdapterError}
    (herr : h.listEntries s rel maxEntries = .error e) : Refused h s rel (.list maxEntries) := by
  refine ⟨⟨e, ?_⟩, ?_⟩
  · rw [OsDirectoryHandle.outcome, herr]
    rfl
  · simp only [OsDirectoryHandle.perform, herr]

theorem refused_remove {kind : RemoveKind} {e : AdapterError}
    (herr : h.remove s rel kind = (.error e, s)) : Refused h s rel (.remove kind) := by
  refine ⟨⟨e, ?_⟩, ?_⟩
  · rw [OsDirectoryHandle.outcome, herr]
  · rw [OsDirectoryHandle.perform, herr]

theorem refused_rename {toDirectory : OsDirectoryHandle} {target : RelativePath} {replace : Bool}
    {e : AdapterError} (herr : h.rename s rel toDirectory target replace = .error e) :
    Refused h s rel (.rename toDirectory target replace) := by
  refine ⟨⟨e, ?_⟩, ?_⟩
  · rw [OsDirectoryHandle.outcome, herr]
    rfl
  · rw [OsDirectoryHandle.perform, herr]
    rfl

/-- An operation on a path that does not resolve is refused. -/
theorem refused_of_unresolved {op : DirectoryOperation} {path : RelativePath} {e : AdapterError}
    (hpath : path ∈ op.paths rel) (hres : h.resolve s path = .error e) : Refused h s rel op := by
  have hbind : ∀ {α : Type} {f : List PathComponent → Except AdapterError α},
      h.resolve s path >>= f = .error e := fun {α f} => by
    rw [hres]
    rfl
  cases op with
  | openFile request uses =>
    obtain rfl := List.mem_singleton.mp hpath
    exact refused_openFile hbind
  | createDir =>
    obtain rfl := List.mem_singleton.mp hpath
    exact refused_createDir hbind
  | metadata followFinal =>
    obtain rfl := List.mem_singleton.mp hpath
    exact refused_metadata hbind
  | list maxEntries =>
    obtain rfl := List.mem_singleton.mp hpath
    exact refused_list hbind
  | remove kind =>
    obtain rfl := List.mem_singleton.mp hpath
    exact refused_remove (by rw [OsDirectoryHandle.remove, hres])
  | rename toDirectory target replace =>
    cases hrename : h.rename s rel toDirectory target replace with
    | error e => exact refused_rename hrename
    | ok s' =>
      rw [OsDirectoryHandle.rename] at hrename
      split at hrename
      · cases hrename
      obtain ⟨src, hsrc, hrename⟩ := bind_ok hrename
      obtain ⟨dst, hdst, -⟩ := bind_ok hrename
      rcases List.mem_cons.mp hpath with rfl | hpath
      · rw [hres] at hsrc
        cases hsrc
      · obtain rfl := List.mem_singleton.mp hpath
        rw [hres] at hdst
        cases hdst

/-- What a path that resolves finds where its names lead to a link: the link, unless the
walk takes more links than the host follows. -/
theorem found_link {path : RelativePath} {found : List PathComponent} {q : Location}
    (hres : h.resolve s path = .ok found) (hlink : LinkAt h s path.components q) :
    s.locate false found = none ∨ (s.locate false found = some q ∧ ∃ target attrs,
      s.symlinkMetadata found = some (q, .symlink target attrs)) := by
  obtain ⟨hleads, hsym⟩ := hlink
  cases hlocate : s.locate false found with
  | none => exact .inl rfl
  | some q' =>
    obtain rfl : q' = q := (resolve_leads hres hlocate).unique hleads
    refine .inr ⟨rfl, ?_⟩
    cases hnode : s.tree.node q' with
    | none => simp [hnode] at hsym
    | some node =>
      cases node with
      | symlink target attrs =>
        refine ⟨target, attrs, ?_⟩
        simp [Host.symlinkMetadata, hlocate, hnode]
      | file content readonly | directory attrs | other attrs =>
        simp [hnode, Node.isSymlink] at hsym

theorem symlinkMetadata_none {found : List PathComponent} (h : s.locate false found = none) :
    s.symlinkMetadata found = none := by
  simp [Host.symlinkMetadata, h]

theorem locate_none {found : List PathComponent} (h : s.locate false found = none) (follow : Bool) :
    s.locate follow found = none := by
  cases follow with
  | false => exact h
  | true =>
    by_contra hsome
    obtain ⟨p, hp⟩ := Option.ne_none_iff_exists'.mp hsome
    obtain ⟨q, hq⟩ := Host.locate_entry hp
    rw [h] at hq
    cases hq

/-- A file is not opened through a link at the end of its path. -/
theorem openFile_link {request : OpenFileRequest} {q : Location}
    (hlink : LinkAt h s rel.components q) : ∃ e, h.openFile s rel request = .error e := by
  cases hopen : h.openFile s rel request with
  | error e => exact ⟨e, rfl⟩
  | ok r =>
    obtain ⟨found, hres, hopen⟩ := bind_ok hopen
    rcases found_link hres hlink with hnone | ⟨-, target, attrs, hmeta⟩
    · rw [symlinkMetadata_none hnone] at hopen
      obtain ⟨follow, hlocate, -⟩ := openFile_place (orHostErr_ok hopen)
      rw [locate_none hnone] at hlocate
      cases hlocate
    · rw [hmeta] at hopen
      cases hopen

theorem createDir_link {q : Location} (hlink : LinkAt h s rel.components q) :
    ∃ e, h.createDir s rel = .error e := by
  cases hcreate : h.createDir s rel with
  | error e => exact ⟨e, rfl⟩
  | ok r =>
    obtain ⟨found, hres, hcreate⟩ := bind_ok hcreate
    obtain ⟨p, hp, hmade⟩ := Option.bind_eq_some_iff.mp (orHostErr_ok hcreate)
    rcases found_link hres hlink with hnone | ⟨hq, target, attrs, hmeta⟩
    · rw [hnone] at hp
      cases hp
    · -- there is an entry in the place of the new directory
      obtain rfl : p = q := Option.some.inj (hp.symm.trans hq)
      unfold Host.createAt at hmade
      split at hmade
      · next hfree =>
        have hnode := (symlinkMetadata_eq hmeta).2
        simp [Tree.has, hnode] at hfree
      · cases hmade

theorem list_link {maxEntries : Option Nat} {q : Location}
    (hlink : LinkAt h s rel.components q) : ∃ e, h.listEntries s rel maxEntries = .error e := by
  cases hlist : h.listEntries s rel maxEntries with
  | error e => exact ⟨e, rfl⟩
  | ok r =>
    obtain ⟨found, hres, hlist⟩ := bind_ok hlist
    obtain ⟨entry, hmeta, hlist⟩ := bind_ok hlist
    have hmeta := orHostErr_ok hmeta
    rcases found_link hres hlink with hnone | ⟨-, target, attrs, hfound⟩
    · rw [symlinkMetadata_none hnone] at hmeta
      cases hmeta
    · obtain rfl := Option.some.inj (hfound.symm.trans hmeta)
      cases hlist

theorem rename_link {toDirectory : OsDirectoryHandle} {target path : RelativePath} {replace : Bool}
    {q : Location} (hpath : path = rel ∨ path = target) (hlink : LinkAt h s path.components q) :
    ∃ e, h.rename s rel toDirectory target replace = .error e := by
  cases hrename : h.rename s rel toDirectory target replace with
  | error e => exact ⟨e, rfl⟩
  | ok s' =>
    rw [OsDirectoryHandle.rename] at hrename
    split at hrename
    · cases hrename
    obtain ⟨src, hsrc, hrename⟩ := bind_ok hrename
    obtain ⟨dst, hdst, hrename⟩ := bind_ok hrename
    obtain ⟨entry, hmeta, hrename⟩ := bind_ok hrename
    have hmeta := orHostErr_ok hmeta
    split at hrename
    · cases hrename
    next hplain =>
    split at hrename
    · cases hrename
    split at hrename
    · cases hrename
    next hdstPlain =>
    obtain ⟨p, p', hp, hp', -⟩ := Host.rename_frame (orHostErr_ok hrename)
    rcases hpath with rfl | rfl
    · rcases found_link hsrc hlink with hnone | ⟨-, link, attrs, hfound⟩
      · rw [hnone] at hp
        cases hp
      · obtain rfl := Option.some.inj (hfound.symm.trans hmeta)
        exact absurd rfl hplain
    · rcases found_link hdst hlink with hnone | ⟨-, link, attrs, hfound⟩
      · rw [hnone] at hp'
        cases hp'
      · rw [hfound] at hdstPlain
        exact absurd rfl hdstPlain

/-- A link is removed as a file, or not at all. -/
theorem remove_eq {found : List PathComponent} {q : Location} {kind : RemoveKind}
    (hres : h.resolve s rel = .ok found) (hlink : LinkAt h s rel.components q) :
    (∃ e, h.remove s rel kind = (.error e, s)) ∨
      ∃ s', s.removeFile found = some s' ∧ h.remove s rel kind = (.ok (), s') := by
  rw [OsDirectoryHandle.remove, hres]
  rcases found_link hres hlink with hnone | ⟨hq, target, attrs, hmeta⟩
  · have hmeta := symlinkMetadata_none hnone
    cases kind with
    | fileOrSymlink | tree =>
      dsimp only
      rw [hmeta]
      exact .inl ⟨_, rfl⟩
    | emptyDirectory =>
      have hcall : s.removeDir found = none := by simp [Host.removeDir, hnone]
      dsimp only
      rw [hcall]
      exact .inl ⟨_, rfl⟩
  · cases kind with
    | fileOrSymlink | tree =>
      dsimp only
      rw [hmeta]
      cases hcall : s.removeFile found with
      | none => exact .inl ⟨_, rfl⟩
      | some s' => exact .inr ⟨s', rfl, rfl⟩
    | emptyDirectory =>
      have hdir : s.tree.isDir q = false := by
        simp [Tree.isDir, (symlinkMetadata_eq hmeta).2, Node.isDirectory]
      have hcall : s.removeDir found = none := by simp [Host.removeDir, hq, hdir]
      dsimp only
      rw [hcall]
      exact .inl ⟨_, rfl⟩

/-- A removal of a link removes the link, or is refused. -/
theorem remove_link {kind : RemoveKind} {q : Location} (hlink : LinkAt h s rel.components q) :
    Refused h s rel (.remove kind) ∨
      (OnlyAt q s (h.perform s rel (.remove kind)) ∧
        ∀ x, (h.perform s rel (.remove kind)).host.tree.has x → s.tree.has x) := by
  cases hres : h.resolve s rel with
  | error e => exact .inl (refused_of_unresolved List.mem_cons_self hres)
  | ok found =>
    rcases @remove_eq h s rel found q kind hres hlink with ⟨e, herr⟩ | ⟨s', hcall, hok⟩
    · exact .inl (refused_remove herr)
    refine .inr ?_
    obtain ⟨p, hp, hcall⟩ := Option.bind_eq_some_iff.mp hcall
    obtain ⟨node, -, hcall⟩ := Option.bind_eq_some_iff.mp hcall
    have hpq : p = q := (resolve_leads hres hp).unique hlink.1
    split at hcall
    · cases hcall
    have hframe := Host.removeAt_frame hcall
    rw [OsDirectoryHandle.perform, hok]
    refine ⟨⟨hpq ▸ hframe, by simp⟩, fun x hx => ?_⟩
    unfold Host.removeAt at hcall
    split at hcall
    · cases hcall
      simp only [Tree.has, Tree.remove] at hx
      split at hx
      · cases hx
      · exact hx
    · cases hcall

/-- `metadata` of a link reports on the link, is refused, or follows it to an entry inside
the root. -/
theorem metadata_link {followFinal : Bool} {q : Location} (hlink : LinkAt h s rel.components q) :
    Refused h s rel (.metadata followFinal) ∨
      OnlyAt q s (h.perform s rel (.metadata followFinal)) ∨
      (followFinal = true ∧ FinalLeadsInside h s rel q) := by
  cases hentry : h.metadataEntry s rel followFinal with
  | error e => exact .inl (refused_metadata hentry)
  | ok entry =>
    refine .inr ?_
    have hperform : h.perform s rel (.metadata followFinal) = ⟨s, [entry.1]⟩ := by
      rw [OsDirectoryHandle.perform, hentry]
      rfl
    obtain ⟨found, hres, hentry⟩ := bind_ok hentry
    obtain ⟨link, hmeta, hentry⟩ := bind_ok hentry
    have hmeta := orHostErr_ok hmeta
    rcases found_link hres hlink with hnone | ⟨hq, target, attrs, hfound⟩
    · rw [symlinkMetadata_none hnone] at hmeta
      cases hmeta
    obtain rfl := Option.some.inj (hfound.symm.trans hmeta)
    cases followFinal with
    | false =>
      obtain rfl := Except.ok.inj hentry
      refine .inl ?_
      rw [hperform]
      exact ⟨.refl q s, fun p hp => List.mem_singleton.mp hp⟩
    | true =>
      refine .inr ⟨rfl, ?_⟩
      obtain ⟨resolved, hcanon, hentry⟩ := bind_ok hentry
      obtain ⟨p, hp, hthere, rfl, -⟩ := Host.locate_canonicalize (orHostErr_ok hcanon)
      split at hentry
      · cases hentry
      next hwithin =>
      obtain ⟨base, hbase, hin⟩ := within_of_canonical (by simpa using hwithin)
      exact ⟨found, base, p, hres, hq, hp, hthere, hbase, hin⟩

/-- What an operation does with a link at the end of a path. -/
theorem final_link {op : DirectoryOperation} {path : RelativePath} {q : Location}
    (hpath : path ∈ op.paths rel) (hlink : LinkAt h s path.components q) :
    Refused h s rel op ∨
      (op.ActsOnEntry ∧ OnlyAt q s (h.perform s rel op) ∧
        ∀ x, (h.perform s rel op).host.tree.has x → s.tree.has x) ∨
      (op = .metadata true ∧ FinalLeadsInside h s rel q) := by
  cases op with
  | openFile request uses =>
    obtain rfl := List.mem_singleton.mp hpath
    exact .inl (refused_openFile (openFile_link hlink).choose_spec)
  | createDir =>
    obtain rfl := List.mem_singleton.mp hpath
    exact .inl (refused_createDir (createDir_link hlink).choose_spec)
  | list maxEntries =>
    obtain rfl := List.mem_singleton.mp hpath
    exact .inl (refused_list (list_link hlink).choose_spec)
  | metadata followFinal =>
    obtain rfl := List.mem_singleton.mp hpath
    rcases @metadata_link h s path followFinal q hlink with hrefused | honly | ⟨rfl, hinside⟩
    · exact .inl hrefused
    · exact .inr (.inl ⟨trivial, honly, fun x hx => hx⟩)
    · exact .inr (.inr ⟨rfl, hinside⟩)
  | remove kind =>
    obtain rfl := List.mem_singleton.mp hpath
    rcases remove_link hlink with hrefused | ⟨honly, hless⟩
    · exact .inl hrefused
    · exact .inr (.inl ⟨trivial, honly, hless⟩)
  | rename toDirectory target replace =>
    refine .inl (refused_rename (rename_link ?_ hlink).choose_spec)
    simpa [DirectoryOperation.paths] using hpath

/-- A component before the last one is passable, or the operation is refused. -/
theorem passable_of_before {op : DirectoryOperation} {names : List String}
    (hbefore : op.Before rel names) :
    Refused h s rel op ∨ Passable h s (h.base ++ names.map .normal) := by
  obtain ⟨hne, path, hpath, hpre, hproper⟩ := hbefore
  cases hres : h.resolve s path with
  | error e => exact .inl (refused_of_unresolved hpath hres)
  | ok found => exact .inr (resolve_trail hres hpre hne hproper)

/-- A link that is passable leads to a directory inside the root. -/
theorem inside_of_passable {names : List String} {q : Location} (hlink : LinkAt h s names q)
    (hpass : Passable h s (h.base ++ names.map .normal)) :
    h.symlinkPolicy ≠ .denyAll ∧ ∃ base p, s.locate true h.base = some base ∧
      Leads s.tree true (h.base ++ names.map .normal) p ∧ s.tree.isDir p ∧ base <+: p := by
  obtain ⟨q', node, hleads, hnode, hpass⟩ := hpass
  obtain rfl := hleads.unique hlink.1
  rcases hpass with hdir | hinside
  · have hsym := hlink.2
    rw [hnode] at hsym
    cases node <;> simp_all [Node.isDirectory, Node.isSymlink]
  · exact hinside

/-- `metadata` follows a link to what lies inside the root, under every policy. -/
theorem metadata_follows {found : List PathComponent} {base p q : Location} {node : Node}
    (hres : h.resolve s rel = .ok found) (hlink : LinkAt h s rel.components q)
    (hq : s.locate false found = some q) (hp : s.locate true found = some p)
    (hnode : s.tree.node p = some node) (hbase : s.locate true h.base = some base)
    (hin : base <+: p) : h.metadataEntry s rel true = .ok (p, node) := by
  have hthere : s.tree.has p := by simp [Tree.has, hnode]
  have hbaseThere : s.tree.has base := by
    obtain ⟨rest, rfl⟩ := hin
    by_cases hrest : rest = []
    · rwa [hrest, List.append_nil] at hthere
    · exact Tree.has_of_isDir (Tree.isDir_of_append hrest hthere)
  obtain ⟨baseNode, hbaseNode⟩ := Option.isSome_iff_exists.mp hbaseThere
  have hcanon : s.canonicalize found = some (toPath p) := by simp [Host.canonicalize, hp, hnode]
  have hwithin : withinBase s h.base (toPath p) = true := by
    have hcanonBase : s.canonicalize h.base = some (toPath base) := by
      simp [Host.canonicalize, hbase, hbaseNode]
    rw [withinBase, hcanonBase]
    exact decide_eq_true (Host.toPath_prefix.mpr hin)
  have htarget : s.metadata (toPath p) = some (p, node) := by
    have hback : s.locate true (toPath p) = some p :=
      Host.locate_toPath hthere (Host.not_symlink_of_locate hp)
    simp [Host.metadata, hback, hnode]
  obtain hnone | ⟨-, target, attrs, hmeta⟩ := found_link hres hlink
  · rw [hnone] at hq
    cases hq
  simp only [OsDirectoryHandle.metadataEntry, hres, hmeta, hcanon, hwithin, htarget, orHostErr,
    bind, Except.bind]
  rfl

/-- Following a final link where the policy does not let it. -/
theorem not_honoured {op : DirectoryOperation} (hfollows : FollowsDespitePolicy h s rel op) :
    ¬ HonoursPolicy h s rel op := by
  obtain ⟨rfl, hpolicy, hne, q, hsym, found, base, p, hres, hq, hp, hthere, hbase, hin⟩ := hfollows
  intro hhonours
  have hlink : LinkAt h s rel.components q := ⟨resolve_leads hres hq, hsym⟩
  obtain ⟨node, hnode⟩ := Option.isSome_iff_exists.mp hthere
  have hentry : h.metadataEntry s rel true = .ok (p, node) := metadata_follows hres hlink hq hp
    hnode hbase hin
  have hperform : h.perform s rel (.metadata true) = ⟨s, [p]⟩ := by
    rw [OsDirectoryHandle.perform, hentry]
    rfl
  rcases hhonours.entry hpolicy rel.components q ⟨hne, rel, List.mem_cons_self, rfl⟩ hlink with
    ⟨⟨e, herr⟩, -⟩ | ⟨-, -, honly⟩
  · rw [OsDirectoryHandle.outcome, hentry] at herr
    cases herr
  · rw [hperform] at honly
    -- following ends at no link
    have hplain := Host.not_symlink_of_locate hp
    rw [honly p List.mem_cons_self, hsym] at hplain
    cases hplain

end LinkPolicyLemmas

open LinkPolicyLemmas in
/-- For every tree, handle, path and operation: the symlink policy is honoured exactly
unless `metadata` follows a final link that the policy does not let it follow. -/
theorem link_policy_iff (h : OsDirectoryHandle) (s : Host) (rel : RelativePath)
    (op : DirectoryOperation) :
    HonoursPolicy h s rel op ↔ ¬ FollowsDespitePolicy h s rel op := by
  refine ⟨fun hhonours hfollows => not_honoured hfollows hhonours, fun hnot => ?_⟩
  refine ⟨fun hpolicy names q hbefore hlink => ?_, fun _ names q hbefore hlink => ?_,
    fun huses names q hend hlink => ?_, fun hpolicy names q hend hlink => ?_,
    fun names q p hplace hlink hleads hfree => ?_⟩
  · rcases passable_of_before hbefore with hrefused | hpass
    · exact hrefused
    · exact absurd hpolicy (inside_of_passable hlink hpass).1
  · exact (passable_of_before hbefore).imp_right fun hpass => (inside_of_passable hlink hpass).2
  · obtain ⟨-, path, hpath, rfl⟩ := hend
    rcases final_link hpath hlink with hrefused | ⟨hacts, -⟩ | ⟨rfl, -⟩
    · exact hrefused
    · cases op <;> first | exact huses.elim | exact hacts.elim
    · exact huses.elim
  · obtain ⟨hne, path, hpath, rfl⟩ := hend
    rcases final_link hpath hlink with hrefused | ⟨hacts, honly, -⟩ | ⟨rfl, hinside⟩
    · exact .inl hrefused
    · exact .inr ⟨hacts, honly⟩
    · obtain rfl := List.mem_singleton.mp hpath
      exact absurd ⟨rfl, hpolicy, hne, q, hlink.2, hinside⟩ hnot
  · have hsame : Refused h s rel op → (h.perform s rel op).host.tree.has p = false := fun hrefused => by
      rw [hrefused.2]
      exact hfree
    rcases hplace with hbefore | ⟨-, path, hpath, rfl⟩
    · rcases passable_of_before hbefore with hrefused | hpass
      · exact hsame hrefused
      · -- a passable link does not dangle
        obtain ⟨-, base, p', -, hleads', hdir, -⟩ := inside_of_passable hlink hpass
        obtain rfl := hleads'.unique hleads
        rw [Tree.has_of_isDir hdir] at hfree
        cases hfree
    · rcases final_link hpath hlink with hrefused | ⟨-, -, hless⟩ | ⟨rfl, -⟩
      · exact hsame hrefused
      · by_contra hmade
        rw [hless p (by simpa using hmade)] at hfree
        cases hfree
      · exact hfree

/-! ## A link under `DenyAll` -/

namespace LinkPolicyExample

def attrs : Attrs := ⟨0, false⟩

theorem data_below_root : ["data"] ≠ [] := by decide

/-- The directory `/data` with a file and a link to it. -/
def tree : Tree :=
  (((Tree.rootOnly attrs).insert ["data"] (.directory attrs) rfl data_below_root rfl).insert
    ["data", "file"] (.file [1] false) rfl (by decide) rfl).insert ["data", "link"]
    (.symlink [.rootDir, .normal "data", .normal "file"] attrs) rfl (by decide) rfl

def host : Host := ⟨tree, 40, fun _ => none⟩

def handle : OsDirectoryHandle :=
  ⟨[.rootDir, .normal "data"], ⟨1, Nat.one_pos, NonZeroU128.one_fits⟩, .denyAll⟩

def link : RelativePath := ⟨["link"], by decide⟩

def linkPath : List PathComponent := [.rootDir, .normal "data", .normal "link"]

theorem located : host.locate false linkPath = some ["data", "link"] := by
  refine Host.locate_eq_some.mpr ⟨40, ?_⟩
  simp [host, linkPath, walk, tree, Tree.insert, Tree.rootOnly]

theorem followed : host.locate true linkPath = some ["data", "file"] := by
  refine Host.locate_eq_some.mpr ⟨39, ?_⟩
  simp [host, linkPath, walk, tree, Tree.insert, Tree.rootOnly]

theorem base_located : host.locate true handle.base = some ["data"] := by
  refine Host.locate_eq_some.mpr ⟨40, ?_⟩
  simp [host, handle, walk, tree, Tree.insert, Tree.rootOnly]

end LinkPolicyExample

open LinkPolicyExample LinkPolicyLemmas in
/-- Under `DenyAll` the metadata of a link is that of its target, as `file_size` and `is_file`
ask for it. -/
theorem metadata_follows_denied :
    handle.symlinkPolicy = .denyAll ∧
      handle.metadata host link true = .ok ⟨.file, 1, false⟩ ∧
      ¬ HonoursPolicy handle host link (.metadata true) := by
  have hres : handle.resolve host link = .ok linkPath := rfl
  have hlink : LinkAt handle host link.components ["data", "link"] :=
    ⟨resolve_leads hres located, rfl⟩
  have hin : ["data"] <+: ["data", "file"] := by decide
  refine ⟨rfl, ?_, not_honoured ⟨rfl, by decide, by decide, ["data", "link"], rfl, linkPath,
    ["data"], ["data", "file"], hres, located, followed, rfl, base_located, hin⟩⟩
  have hentry : handle.metadataEntry host link true = .ok (["data", "file"], .file [1] false) :=
    metadata_follows hres hlink located followed rfl base_located hin
  rw [OsDirectoryHandle.metadata, hentry]
  rfl

end Tsumugi.Capability
