import Tsumugi.Lib.FileTree

/-!
# File system calls

The calls of a Unix file system that work on paths, over a tree with symbolic links. A
path is absolute. Permissions, hard links and races between calls are left out.

Results:
1. `locate_append`: where a longer path leads, once its first part leads to a directory;
2. `Grows.metadata`: new entries leave every path to an old entry as it is;
3. each call changes the tree only at, or under, the location that its path leads to;
4. `rename_moved`: a rename moves the entry with all that lies under it.
-/

namespace HostFs

open FileTree

/-- What goes wrong with one entry while a directory is listed. -/
inductive EntryFault
  | unreadable
  | notUtf8
deriving DecidableEq, Repr

/-- A file system: its tree, how many links a path may lead through, and the entries that
cannot be listed. -/
structure Host where
  tree : Tree
  maxLinks : Nat
  entryFault : Location → Option EntryFault

/-- How a file is opened. -/
structure OpenOptions where
  read : Bool
  write : Bool
  append : Bool
  truncate : Bool
  create : Bool
  createNew : Bool
deriving DecidableEq, Repr

/-- An open file, its position at the start. -/
structure OpenFile where
  location : Location
  options : OpenOptions
deriving DecidableEq, Repr

/-- The path of a location by its own names. -/
def toPath (p : Location) : List PathComponent := .rootDir :: p.map .normal

namespace Host

variable (s : Host)

/-- Where a path leads; its last component need not exist. -/
def locate (follow : Bool) (path : List PathComponent) : Option Location :=
  match walk s.tree follow s.maxLinks [] path with
  | .ok (p, _) => some p
  | .error _ => none

/-- `lstat`: the entry itself. -/
def symlinkMetadata (path : List PathComponent) : Option (Location × Node) := do
  let p ← s.locate false path
  let node ← s.tree.node p
  some (p, node)

/-- `stat`: the entry behind the links. -/
def metadata (path : List PathComponent) : Option (Location × Node) := do
  let p ← s.locate true path
  let node ← s.tree.node p
  some (p, node)

/-- `realpath`. -/
def canonicalize (path : List PathComponent) : Option (List PathComponent) := do
  let p ← s.locate true path
  let _ ← s.tree.node p
  some (toPath p)

/-- `stat` finds something. -/
def pathExists (path : List PathComponent) : Bool := (s.metadata path).isSome

/-- Put an entry at a free place of a directory. -/
def createAt (p : Location) (node : Node) : Option Host :=
  if h : s.tree.has p = false ∧ p ≠ [] ∧ s.tree.isDir p.dropLast = true then
    some { s with tree := s.tree.insert p node h.1 h.2.1 h.2.2 }
  else none

/-- Give a file new content. -/
def writeAt (p : Location) (content : List UInt8) (readonly : Bool) : Option Host :=
  if h : (s.tree.node p).any Node.isFile = true then
    some { s with tree := s.tree.write p content readonly h }
  else none

/-- Take an entry away with all that lies under it. -/
def removeAt (p : Location) : Option Host :=
  if h : p ≠ [] then some { s with tree := s.tree.remove p h } else none

/-- `open`. -/
def openFile (options : OpenOptions) (path : List PathComponent) : Option (OpenFile × Host) :=
  if options.createNew then do
    let p ← s.locate false path
    let s' ← s.createAt p (.file [] false)
    some (⟨p, options⟩, s')
  else do
    let p ← s.locate true path
    match s.tree.node p with
    | some (.directory _) =>
      if options.write || options.append then none else some (⟨p, options⟩, s)
    | some (.file _ readonly) =>
      if options.truncate then do
        let s' ← s.writeAt p [] readonly
        some (⟨p, options⟩, s')
      else some (⟨p, options⟩, s)
    | some (.other _) => some (⟨p, options⟩, s)
    | some (.symlink ..) => none
    | none =>
      if options.create then do
        let s' ← s.createAt p (.file [] false)
        some (⟨p, options⟩, s')
      else none

/-- `read` to the end; only regular files have content here. -/
def readToEnd (file : OpenFile) : Option (List UInt8) :=
  match s.tree.node file.location with
  | some (.file content _) => if file.options.read then some content else none
  | _ => none

/-- `write` of all bytes, over the start of the content or after its end. -/
def writeAll (file : OpenFile) (bytes : List UInt8) : Option Host :=
  match s.tree.node file.location with
  | some (.file content readonly) =>
    if file.options.append then s.writeAt file.location (content ++ bytes) readonly
    else if file.options.write then
      s.writeAt file.location (bytes ++ content.drop bytes.length) readonly
    else none
  | _ => none

/-- `readdir`: the directory and its names. -/
def readDir (path : List PathComponent) : Option (Location × List String) := do
  let p ← s.locate true path
  if s.tree.isDir p then some (p, s.tree.children p) else none

/-- `mkdir`. -/
def createDir (path : List PathComponent) : Option Host := do
  let p ← s.locate false path
  s.createAt p (.directory ⟨0, false⟩)

/-- `unlink`. -/
def removeFile (path : List PathComponent) : Option Host := do
  let p ← s.locate false path
  let node ← s.tree.node p
  if node.isDirectory then none else s.removeAt p

/-- `rmdir`. -/
def removeDir (path : List PathComponent) : Option Host := do
  let p ← s.locate false path
  if s.tree.isDir p ∧ s.tree.children p = [] then s.removeAt p else none

/-- What is left of the entries under `p`: nothing. The root of the tree itself stays. -/
def clear (names : List String) (p : Location) : Host :=
  names.foldl (fun s n => (s.removeAt (p ++ [n])).getD s) s

/-- `remove_dir_all`, which does not follow a link. The second part is the file system
also when the call fails. -/
def removeDirAll (path : List PathComponent) : Bool × Host :=
  match s.symlinkMetadata path with
  | some (p, .directory _) =>
    match s.removeAt p with
    | some s' => (true, s')
    | none => (false, s.clear (s.tree.children p) p)
  | some (p, .symlink ..) => (true, (s.removeAt p).getD s)
  | _ => (false, s)

/-- Whether `rename` may put the entry at `p` to the place `q`. -/
def mayReplace (p q : Location) : Bool :=
  match s.tree.node p, s.tree.node q with
  | some _, none => true
  | some (.directory _), some (.directory _) => s.tree.children q = []
  | some (.directory _), some _ => false
  | some _, some (.directory _) => false
  | some _, some _ => true
  | none, _ => false

/-- `rename`. -/
def rename (src dst : List PathComponent) : Option Host := do
  let p ← s.locate false src
  let q ← s.locate false dst
  if p = q then
    if s.tree.has p then some s else none
  else if h : p ≠ [] ∧ q ≠ [] ∧ s.tree.isDir q.dropLast = true ∧ ¬ p <+: q then
    if s.mayReplace p q then
      some { s with tree := s.tree.move p q h.1 h.2.1 h.2.2.1 h.2.2.2 }
    else none
  else none

/-! ## Where paths lead -/

variable {s}

theorem locate_eq_some {follow : Bool} {path : List PathComponent} {p : Location} :
    s.locate follow path = some p ↔ ∃ left, walk s.tree follow s.maxLinks [] path = .ok (p, left) := by
  unfold locate
  constructor
  · intro h
    split at h
    · next left hw =>
      cases h
      exact ⟨left, hw⟩
    · cases h
  · rintro ⟨left, hw⟩
    rw [hw]

/-- One more name leads from a directory to the entry of that name. -/
theorem locate_push (follow : Bool) {path : List PathComponent} {p : Location} {n : String}
    (hp : s.locate true path = some p) (hdir : s.tree.isDir p)
    (hend : follow = false ∨ (s.tree.node (p ++ [n])).any Node.isSymlink = false) :
    s.locate follow (path ++ [.normal n]) = some (p ++ [n]) := by
  obtain ⟨left, hwalk⟩ := locate_eq_some.mp hp
  have happend := walk_append follow s.tree.root hwalk (.normal n) []
  rw [if_pos hdir, walk_name hend] at happend
  exact locate_eq_some.mpr ⟨left, happend⟩

/-- A location that exists is where its own names lead. -/
theorem locate_toPath {follow : Bool} {p : Location} (h : s.tree.has p)
    (hend : (s.tree.node p).any Node.isSymlink = false) : s.locate follow (toPath p) = some p := by
  refine locate_eq_some.mpr ⟨s.maxLinks, ?_⟩
  rw [toPath, walk]
  exact walk_names (by simpa using h) (.inr (by simpa using hend))

theorem not_symlink_of_locate {path : List PathComponent} {p : Location}
    (h : s.locate true path = some p) : (s.tree.node p).any Node.isSymlink = false := by
  obtain ⟨left, hwalk⟩ := locate_eq_some.mp h
  exact not_symlink_of_walk s.tree.root hwalk

/-- A path that leads to no link leads there also when links are followed. -/
theorem locate_follow {path : List PathComponent} {p : Location} (h : s.locate false path = some p)
    (hend : (s.tree.node p).any Node.isSymlink = false) : s.locate true path = some p := by
  obtain ⟨left, hwalk⟩ := locate_eq_some.mp h
  exact locate_eq_some.mpr ⟨left, walk_follow hwalk hend⟩

/-- A path that leads somewhere through links has an entry at its end. -/
theorem locate_entry {path : List PathComponent} {p : Location} (h : s.locate true path = some p) :
    ∃ q, s.locate false path = some q := by
  obtain ⟨left, hwalk⟩ := locate_eq_some.mp h
  obtain ⟨⟨q, left'⟩, hwalk'⟩ := walk_entry hwalk
  exact ⟨q, locate_eq_some.mpr ⟨left', hwalk'⟩⟩

/-- What `realpath` answers leads to the same place. -/
theorem locate_canonicalize {path path' : List PathComponent} (h : s.canonicalize path = some path') :
    ∃ p, s.locate true path = some p ∧ s.tree.has p ∧ path' = toPath p ∧
      s.locate true path' = some p := by
  simp only [canonicalize, Option.bind_eq_bind, Option.bind_eq_some_iff, Option.some.injEq] at h
  obtain ⟨p, hp, node, hnode, rfl⟩ := h
  have hhas : s.tree.has p := by simp [Tree.has, hnode]
  exact ⟨p, hp, hhas, rfl, locate_toPath hhas (not_symlink_of_locate hp)⟩

theorem toPath_prefix {p q : Location} : toPath p <+: toPath q ↔ p <+: q := by
  rw [toPath, toPath, List.cons_prefix_cons]
  constructor
  · rintro ⟨_, r, hr⟩
    have hinj : Function.Injective PathComponent.normal := fun _ _ h => PathComponent.normal.inj h
    obtain ⟨u, v, rfl, hu, -⟩ := List.map_eq_append_iff.mp hr.symm
    exact ⟨v, by rw [List.map_injective_iff.mpr hinj hu]⟩
  · exact fun h => ⟨rfl, h.map _⟩

/-! ## Growth -/

/-- Every entry is still there as it was. -/
structure Grows (s s' : Host) : Prop where
  node : ∀ q node, s.tree.node q = some node → s'.tree.node q = some node
  maxLinks : s'.maxLinks = s.maxLinks

theorem Grows.refl (s : Host) : Grows s s := ⟨fun _ _ h => h, rfl⟩

theorem Grows.trans {s₁ s₂ s₃ : Host} (h : Grows s₁ s₂) (h' : Grows s₂ s₃) : Grows s₁ s₃ :=
  ⟨fun q node hq => h'.node q node (h.node q node hq), h'.maxLinks.trans h.maxLinks⟩

/-- What a path led to it still leads to. -/
theorem Grows.metadata {s s' : Host} (h : Grows s s') {path : List PathComponent}
    {entry : Location × Node} (he : s.metadata path = some entry) :
    s'.metadata path = some entry := by
  simp only [Host.metadata, Option.bind_eq_bind, Option.bind_eq_some_iff] at he ⊢
  obtain ⟨p, hp, node, hnode, hentry⟩ := he
  obtain ⟨left, hwalk⟩ := locate_eq_some.mp hp
  refine ⟨p, locate_eq_some.mpr ⟨left, ?_⟩, node, h.node p node hnode, hentry⟩
  rw [h.maxLinks]
  exact walk_grows h.node hwalk (by simp [Tree.has, hnode])

theorem createAt_grows {p : Location} {node : Node} {s' : Host} (h : s.createAt p node = some s') :
    Grows s s' := by
  unfold createAt at h
  split at h
  · next hnew =>
    cases h
    refine ⟨fun q node' hq => ?_, rfl⟩
    have hne : q ≠ p := by
      rintro rfl
      simp [Tree.has, hq] at hnew
    exact (if_neg hne).trans hq
  · cases h

theorem createDir_grows {path : List PathComponent} {s' : Host} (h : s.createDir path = some s') :
    Grows s s' := by
  obtain ⟨p, -, h⟩ := Option.bind_eq_some_iff.mp h
  exact createAt_grows h

/-- Opening without `truncate` and `create` leaves the file system as it is. -/
theorem openFile_same {options : OpenOptions} {path : List PathComponent} {file : OpenFile}
    {s' : Host} (hnew : options.createNew = false) (htruncate : options.truncate = false)
    (hcreate : options.create = false) (h : s.openFile options path = some (file, s')) : s' = s := by
  simp only [openFile, hnew, htruncate, hcreate, Bool.false_eq_true, ↓reduceIte,
    Option.bind_eq_bind, Option.bind_eq_some_iff] at h
  obtain ⟨p, -, h⟩ := h
  split at h
  · split at h
    · cases h
    · cases h
      rfl
  · cases h
    rfl
  · cases h
    rfl
  · cases h
  · cases h

/-- Opening a new file adds it. -/
theorem openFile_new_grows {options : OpenOptions} {path : List PathComponent} {file : OpenFile}
    {s' : Host} (hnew : options.createNew) (h : s.openFile options path = some (file, s')) :
    Grows s s' := by
  simp only [openFile, hnew, ↓reduceIte, Option.bind_eq_bind, Option.bind_eq_some_iff] at h
  obtain ⟨p, -, s₁, hs₁, hpair⟩ := h
  cases hpair
  exact createAt_grows hs₁

/-! ## What the calls leave alone -/

/-- Nothing changed but under `p`. -/
def SameOutside (p : Location) (s s' : Host) : Prop :=
  ∀ q, ¬ p <+: q → s'.tree.node q = s.tree.node q

theorem SameOutside.refl (p : Location) (s : Host) : SameOutside p s s := fun _ _ => rfl

theorem SameOutside.trans {p : Location} {s₁ s₂ s₃ : Host} (h : SameOutside p s₁ s₂)
    (h' : SameOutside p s₂ s₃) : SameOutside p s₁ s₃ := fun q hq => (h' q hq).trans (h q hq)

/-- A change under a place is a change under every place above it. -/
theorem SameOutside.mono {p p' : Location} {s s' : Host} (h : SameOutside p s s') (hp : p' <+: p) :
    SameOutside p' s s' := fun q hq => h q fun hpq => hq (hp.trans hpq)

theorem removeAt_frame {p : Location} {s' : Host} (h : s.removeAt p = some s') :
    SameOutside p s s' := by
  unfold removeAt at h
  split at h
  · cases h
    exact fun q hq => if_neg hq
  · cases h

theorem rename_frame {src dst : List PathComponent} {s' : Host} (h : s.rename src dst = some s') :
    ∃ p q, s.locate false src = some p ∧ s.locate false dst = some q ∧
      ∀ x, ¬ p <+: x → ¬ q <+: x → s'.tree.node x = s.tree.node x := by
  simp only [rename, Option.bind_eq_bind, Option.bind_eq_some_iff] at h
  obtain ⟨p, hp, q, hq, h⟩ := h
  refine ⟨p, q, hp, hq, fun x hpx hqx => ?_⟩
  split at h
  · split at h
    · cases h
      rfl
    · cases h
  · split at h
    · split at h
      · cases h
        show (if q <+: x then _ else if p <+: x then none else s.tree.node x) = _
        rw [if_neg hqx, if_neg hpx]
      · cases h
    · cases h

/-- The entry at `p`, with all that lies under it, is at `q` and nowhere else; nothing
changed but there. -/
structure Moved (t t' : Tree) (p q : Location) : Prop where
  there : t.has p
  arrived : ∀ r, t'.node (q ++ r) = t.node (p ++ r)
  gone : p ≠ q → ∀ r, t'.node (p ++ r) = none
  elsewhere : ∀ x, ¬ p <+: x → ¬ q <+: x → t'.node x = t.node x

/-- What is replaced has nothing under it. -/
theorem mayReplace_not_above {p q : Location} (hne : q ≠ p) (hpre : q <+: p) :
    s.mayReplace p q ≠ true := by
  intro hmay
  obtain ⟨r, rfl⟩ := hpre
  have hthere : s.tree.has (q ++ r) := by
    unfold mayReplace at hmay
    unfold Tree.has
    cases hn : s.tree.node (q ++ r) with
    | some node => rfl
    | none => simp [hn] at hmay
  cases r with
  | nil => exact hne (List.append_nil q).symm
  | cons n r =>
    have hdir := Tree.isDir_of_append (List.cons_ne_nil n r) hthere
    have hchild : s.tree.has (q ++ [n]) := by
      cases r with
      | nil => exact hthere
      | cons m r =>
        refine Tree.has_of_isDir (Tree.isDir_of_append (List.cons_ne_nil m r) ?_)
        rwa [List.append_assoc]
    have hmem := Tree.mem_children.mpr hchild
    unfold mayReplace at hmay
    unfold Tree.isDir at hdir
    unfold Tree.has at hthere
    cases hq : s.tree.node q with
    | none => simp [hq] at hdir
    | some node =>
      cases node with
      | directory attrs =>
        cases hn : s.tree.node (q ++ n :: r) with
        | none => simp [hn] at hthere
        | some entry =>
          cases entry with
          | directory attrs' =>
            simp only [hq, hn, decide_eq_true_eq] at hmay
            rw [hmay] at hmem
            cases hmem
          | file content readonly | symlink target attrs' | other attrs' => simp [hq, hn] at hmay
      | file content readonly | symlink target attrs | other attrs =>
        simp [hq, Node.isDirectory] at hdir

theorem rename_moved {src dst : List PathComponent} {s' : Host} (h : s.rename src dst = some s') :
    ∃ p q, s.locate false src = some p ∧ s.locate false dst = some q ∧
      Moved s.tree s'.tree p q := by
  simp only [rename, Option.bind_eq_bind, Option.bind_eq_some_iff] at h
  obtain ⟨p, hp, q, hq, h⟩ := h
  refine ⟨p, q, hp, hq, ?_⟩
  split at h
  · next heq =>
    split at h
    · next hthere =>
      cases h
      cases heq
      exact ⟨hthere, fun _ => rfl, fun hne => absurd rfl hne, fun _ _ _ => rfl⟩
    · cases h
  next hne =>
  split at h
  swap
  · cases h
  next hplaces =>
  split at h
  swap
  · cases h
  next hmay =>
  cases h
  obtain ⟨-, -, -, hout⟩ := hplaces
  have hthere : s.tree.has p := by
    unfold mayReplace at hmay
    unfold Tree.has
    cases hn : s.tree.node p with
    | some node => rfl
    | none => simp [hn] at hmay
  have hback : ¬ q <+: p := fun hback => mayReplace_not_above (Ne.symm hne) hback hmay
  refine ⟨hthere, fun r => ?_, fun _ r => ?_, fun x hpx hqx => ?_⟩
  · show (if q <+: q ++ r then _ else _) = _
    rw [if_pos (List.prefix_append q r), List.drop_left]
  · have hq' : ¬ q <+: p ++ r := fun hq' =>
      (List.prefix_or_prefix_of_prefix hq' (List.prefix_append p r)).elim hback hout
    show (if q <+: p ++ r then _ else if p <+: p ++ r then _ else _) = _
    rw [if_neg hq', if_pos (List.prefix_append p r)]
  · show (if q <+: x then _ else if p <+: x then none else s.tree.node x) = _
    rw [if_neg hqx, if_neg hpx]

end Host

end HostFs
