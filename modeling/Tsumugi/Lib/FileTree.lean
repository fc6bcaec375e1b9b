import Mathlib.Data.List.Infix

/-!
# File trees with symbolic links

A tree maps a location (the names from the root) to a file, a directory, a link or
another kind of entry. A path is a list of components; `walk` follows it as an
operating system does, through links, and says at which location it ends.

Results:
1. `walk_append`: the rest of a path is walked from where its first part ends;
2. `walk_names`: a location that exists is reached by its own names, without links;
3. `walk_grows`: new entries do not change where a path to an old entry leads;
4. `Leads.unique`: a path leads to one place, however many links may be followed;
5. the updates (a new entry, new content, the removal and the move of a subtree) keep a
   tree a tree and change nothing elsewhere.
-/

namespace FileTree

/-- One component of a path. -/
inductive PathComponent
  | rootDir
  | curDir
  | parentDir
  | normal (name : String)
deriving DecidableEq, Repr

/-- The names from the root of the tree. -/
abbrev Location := List String

/-- What an entry that is not a regular file shows of itself. -/
structure Attrs where
  size : Nat
  readonly : Bool
deriving DecidableEq, Repr

inductive Node
  | file (content : List UInt8) (readonly : Bool)
  | directory (attrs : Attrs)
  | symlink (target : List PathComponent) (attrs : Attrs)
  | other (attrs : Attrs)
deriving DecidableEq, Repr

namespace Node

def isDirectory : Node → Bool
  | directory _ => true
  | _ => false

def isSymlink : Node → Bool
  | symlink .. => true
  | _ => false

def isFile : Node → Bool
  | file .. => true
  | _ => false

end Node

/-- A finite tree: every entry but the root lies in a directory. -/
structure Tree where
  node : Location → Option Node
  paths : List Location
  mem_paths : ∀ p, p ∈ paths ↔ (node p).isSome
  root : (node []).any Node.isDirectory
  parent : ∀ p n, (node (p ++ [n])).isSome → (node p).any Node.isDirectory

namespace Tree

/-- There is an entry here. -/
def has (t : Tree) (p : Location) : Bool := (t.node p).isSome

/-- There is a directory here. -/
def isDir (t : Tree) (p : Location) : Bool := (t.node p).any Node.isDirectory

theorem has_of_isDir {t : Tree} {p : Location} (h : t.isDir p) : t.has p := by
  unfold isDir at h
  unfold has
  cases hn : t.node p with
  | none => simp [hn] at h
  | some node => rfl

/-- Above an entry there are directories. -/
theorem isDir_of_append {t : Tree} {p r : Location} (hr : r ≠ []) (h : t.has (p ++ r)) :
    t.isDir p := by
  induction r using List.reverseRecOn with
  | nil => exact absurd rfl hr
  | append_singleton r n ih =>
    rw [← List.append_assoc] at h
    have hparent := t.parent (p ++ r) n h
    cases r with
    | nil => exact (List.append_nil p) ▸ hparent
    | cons m r => exact ih (List.cons_ne_nil m r) (has_of_isDir hparent)

theorem isDir_dropLast {t : Tree} {p : Location} (h : t.isDir p) : t.isDir p.dropLast := by
  induction p using List.reverseRecOn with
  | nil => exact h
  | append_singleton p n =>
    rw [List.dropLast_concat]
    exact t.parent p n (has_of_isDir h)

/-- The names of the entries of a directory, in the order in which it lists them. -/
def children (t : Tree) (p : Location) : List String :=
  t.paths.filterMap fun q => if q ≠ [] ∧ q.dropLast = p then q.getLast? else none

theorem mem_children {t : Tree} {p : Location} {n : String} :
    n ∈ t.children p ↔ t.has (p ++ [n]) := by
  simp only [children, List.mem_filterMap, has, ← t.mem_paths]
  constructor
  · rintro ⟨q, hq, hn⟩
    split at hn
    · next h =>
      obtain ⟨hne, rfl⟩ := h
      rwa [List.dropLast_append_getLast? n hn]
    · cases hn
  · intro h
    exact ⟨p ++ [n], h, by simp⟩

/-! ## Walking -/

end Tree

/-- Why a path ends nowhere. -/
inductive WalkError
  | notFound
  | notDirectory
  | loop
deriving DecidableEq, Repr

/-- Follow a path from the directory `cur`: the location where it ends, which need not
exist, and how many links may still be followed. A link at the end is followed when
`follow` says so. -/
def walk (t : Tree) (follow : Bool) (links : Nat) (cur : Location) :
    List PathComponent → Except WalkError (Location × Nat)
  | [] => .ok (cur, links)
  | .rootDir :: rest => walk t follow links [] rest
  | .curDir :: rest => walk t follow links cur rest
  | .parentDir :: rest => walk t follow links cur.dropLast rest
  | .normal n :: rest =>
    match t.node (cur ++ [n]) with
    | none => if rest = [] then .ok (cur ++ [n], links) else .error .notFound
    | some (.directory _) => walk t follow links (cur ++ [n]) rest
    | some (.symlink target _) =>
      if rest = [] ∧ follow = false then .ok (cur ++ [n], links)
      else
        match links with
        | 0 => .error .loop
        | links + 1 => walk t follow links cur (target ++ rest)
    | some (.file ..) | some (.other _) =>
      if rest = [] then .ok (cur ++ [n], links) else .error .notDirectory
termination_by path => (links, path.length)

/-- A path that ends in a directory is followed by the rest of a longer path; after one
that ends elsewhere the longer path is an error. -/
theorem walk_append {t : Tree} (follow : Bool) {links : Nat} {cur : Location}
    {path : List PathComponent} {p : Location} {left : Nat} (hcur : t.isDir cur)
    (h : walk t true links cur path = .ok (p, left)) (c : PathComponent)
    (rest : List PathComponent) :
    if t.isDir p then walk t follow links cur (path ++ c :: rest) = walk t follow left p (c :: rest)
    else ∃ e, walk t follow links cur (path ++ c :: rest) = .error e := by
  have hne : ∀ path' : List PathComponent, path' ++ c :: rest ≠ [] := by simp
  -- where a path ends at something that is not a directory, the longer path fails
  have stop : ∀ {cur n node}, t.node (cur ++ [n]) = some node → node.isDirectory = false →
      t.isDir (cur ++ [n]) = false := fun hn hd => by simp [Tree.isDir, hn, hd]
  induction links, cur, path using walk.induct t true with
  | case1 links cur =>
    rw [walk] at h
    cases h
    rw [if_pos hcur]
    rfl
  | case2 links cur path ih =>
    rw [walk] at h
    rw [List.cons_append, walk]
    exact ih t.root h
  | case3 links cur path ih =>
    rw [walk] at h
    rw [List.cons_append, walk]
    exact ih hcur h
  | case4 links cur path ih =>
    rw [walk] at h
    rw [List.cons_append, walk]
    exact ih (Tree.isDir_dropLast hcur) h
  | case5 links cur n hn =>
    rw [walk] at h
    simp only [hn, ↓reduceIte] at h
    cases h
    rw [if_neg (by simp [Tree.isDir, hn]), List.cons_append, walk]
    simp only [hn, List.nil_append, reduceCtorEq, ↓reduceIte]
    exact ⟨_, rfl⟩
  | case6 links cur n path hn hpath =>
    rw [walk] at h
    simp [hn, hpath] at h
  | case7 links cur n path attrs hn ih =>
    rw [walk] at h
    simp only [hn] at h
    rw [List.cons_append, walk]
    simp only [hn]
    exact ih (by simp [Tree.isDir, hn, Node.isDirectory]) h
  | case8 links cur n path target attrs hn hlast => exact absurd hlast.2 (by decide)
  | case9 cur n path target attrs hn hlast =>
    rw [walk] at h
    simp [hn] at h
  | case10 cur n path target attrs hn hlast links ih =>
    rw [walk] at h
    simp only [hn, hlast, ↓reduceIte] at h
    rw [List.cons_append, walk]
    simp only [hn, hne, false_and, ↓reduceIte, ← List.append_assoc]
    exact ih hcur h
  | case11 links cur n content readonly hn | case13 links cur n attrs hn =>
    rw [walk] at h
    simp only [hn, ↓reduceIte] at h
    cases h
    rw [if_neg (by simp [stop hn rfl]), List.cons_append, walk]
    simp only [hn, List.nil_append, reduceCtorEq, ↓reduceIte]
    exact ⟨_, rfl⟩
  | case12 links cur n path content readonly hn hpath | case14 links cur n path attrs hn hpath =>
    rw [walk] at h
    simp [hn, hpath] at h

/-- The last name of a path is looked up in the directory where the rest of it ends. -/
theorem walk_name {t : Tree} {follow : Bool} {links : Nat} {p : Location} {n : String}
    (h : follow = false ∨ (t.node (p ++ [n])).any Node.isSymlink = false) :
    walk t follow links p [.normal n] = .ok (p ++ [n], links) := by
  rw [walk]
  cases hn : t.node (p ++ [n]) with
  | none => rfl
  | some node =>
    cases node with
    | directory attrs =>
      simp only
      rw [walk]
    | symlink target attrs =>
      have hfollow : follow = false := h.resolve_right (by simp [hn, Node.isSymlink])
      simp [hfollow]
    | file content readonly => rfl
    | other attrs => rfl

/-- A location that exists is reached by its own names, without following a link, unless it
is itself a link that is to be followed. -/
theorem walk_names {t : Tree} {follow : Bool} {links : Nat} {p r : Location}
    (h : t.has (p ++ r)) (hend : follow = false ∨ (t.node (p ++ r)).any Node.isSymlink = false) :
    walk t follow links p (r.map .normal) = .ok (p ++ r, links) := by
  induction r generalizing p with
  | nil => rw [List.map_nil, walk, List.append_nil]
  | cons n r ih =>
    cases r with
    | nil => exact walk_name hend
    | cons m r =>
      have hsplit : p ++ n :: m :: r = (p ++ [n]) ++ m :: r := by simp
      rw [hsplit] at h hend ⊢
      have hdir := Tree.isDir_of_append (List.cons_ne_nil m r) h
      rw [List.map_cons, walk]
      cases hn : t.node (p ++ [n]) with
      | none => simp [Tree.isDir, hn] at hdir
      | some node =>
        cases node with
        | directory attrs => exact ih h hend
        | file content readonly | symlink target attrs | other attrs =>
          simp [Tree.isDir, hn, Node.isDirectory] at hdir

/-- Following ends at no link. -/
theorem not_symlink_of_walk {t : Tree} {links : Nat} {cur : Location} {path : List PathComponent}
    {p : Location} {left : Nat} (hcur : t.isDir cur)
    (h : walk t true links cur path = .ok (p, left)) :
    (t.node p).any Node.isSymlink = false := by
  have hdir : ∀ {q}, t.isDir q → (t.node q).any Node.isSymlink = false := by
    intro q hq
    unfold Tree.isDir at hq
    cases hn : t.node q with
    | none => rfl
    | some node => cases node <;> simp_all [Node.isDirectory, Node.isSymlink]
  induction links, cur, path using walk.induct t true with
  | case1 links cur =>
    rw [walk] at h
    cases h
    exact hdir hcur
  | case2 links cur path ih => exact ih t.root (by rwa [walk] at h)
  | case3 links cur path ih => exact ih hcur (by rwa [walk] at h)
  | case4 links cur path ih => exact ih (Tree.isDir_dropLast hcur) (by rwa [walk] at h)
  | case5 links cur n hn =>
    rw [walk] at h
    simp only [hn, ↓reduceIte] at h
    cases h
    simp [hn]
  | case6 links cur n path hn hpath =>
    rw [walk] at h
    simp [hn, hpath] at h
  | case7 links cur n path attrs hn ih =>
    rw [walk] at h
    simp only [hn] at h
    exact ih (by simp [Tree.isDir, hn, Node.isDirectory]) h
  | case8 links cur n path target attrs hn hlast => exact absurd hlast.2 (by decide)
  | case9 cur n path target attrs hn hlast =>
    rw [walk] at h
    simp [hn] at h
  | case10 cur n path target attrs hn hlast links ih =>
    rw [walk] at h
    simp only [hn, hlast, ↓reduceIte] at h
    exact ih hcur h
  | case11 links cur n content readonly hn | case13 links cur n attrs hn =>
    rw [walk] at h
    simp only [hn, ↓reduceIte] at h
    cases h
    simp [hn, Node.isSymlink]
  | case12 links cur n path content readonly hn hpath | case14 links cur n path attrs hn hpath =>
    rw [walk] at h
    simp [hn, hpath] at h

/-- A path that ends at no link ends there also when links are followed. -/
theorem walk_follow {t : Tree} {links : Nat} {cur : Location} {path : List PathComponent}
    {p : Location} {left : Nat} (h : walk t false links cur path = .ok (p, left))
    (hend : (t.node p).any Node.isSymlink = false) : walk t true links cur path = .ok (p, left) := by
  induction links, cur, path using walk.induct t false with
  | case1 links cur => rwa [walk] at h ⊢
  | case2 links cur path ih | case3 links cur path ih | case4 links cur path ih =>
    rw [walk] at h ⊢
    exact ih h
  | case5 links cur n hn | case11 links cur n content readonly hn | case13 links cur n attrs hn =>
    rw [walk] at h ⊢
    simpa only [hn] using h
  | case6 links cur n path hn hpath | case12 links cur n path content readonly hn hpath
  | case14 links cur n path attrs hn hpath =>
    rw [walk] at h
    simp [hn, hpath] at h
  | case7 links cur n path attrs hn ih =>
    rw [walk] at h ⊢
    simp only [hn] at h ⊢
    exact ih h
  | case8 links cur n path target attrs hn hlast =>
    rw [walk] at h
    simp only [hn, hlast, and_self, ↓reduceIte] at h
    cases h
    simp [hn, Node.isSymlink] at hend
  | case9 cur n path target attrs hn hlast =>
    have hpath : path ≠ [] := fun hp => hlast ⟨hp, rfl⟩
    rw [walk] at h
    simp [hn, hpath] at h
  | case10 cur n path target attrs hn hlast links ih =>
    have hpath : path ≠ [] := fun hp => hlast ⟨hp, rfl⟩
    rw [walk] at h ⊢
    simp only [hn, hpath, false_and, ↓reduceIte] at h ⊢
    exact ih h

/-- A path that ends at an entry ends there also in a tree that has more entries. -/
theorem walk_grows {t t' : Tree} (hsub : ∀ q node, t.node q = some node → t'.node q = some node)
    {follow : Bool} {links : Nat} {cur : Location} {path : List PathComponent} {p : Location}
    {left : Nat} (h : walk t follow links cur path = .ok (p, left)) (hp : t.has p) :
    walk t' follow links cur path = .ok (p, left) := by
  induction links, cur, path using walk.induct t follow with
  | case1 links cur => rwa [walk] at h ⊢
  | case2 links cur path ih | case3 links cur path ih | case4 links cur path ih =>
    rw [walk] at h ⊢
    exact ih h
  | case5 links cur n hn =>
    rw [walk] at h
    simp only [hn, ↓reduceIte] at h
    cases h
    simp [Tree.has, hn] at hp
  | case6 links cur n path hn hpath =>
    rw [walk] at h
    simp [hn, hpath] at h
  | case7 links cur n path attrs hn ih =>
    rw [walk] at h ⊢
    simp only [hn, hsub _ _ hn] at h ⊢
    exact ih h
  | case8 links cur n path target attrs hn hlast =>
    rw [walk] at h ⊢
    simpa only [hn, hsub _ _ hn, hlast, and_self, ↓reduceIte] using h
  | case9 cur n path target attrs hn hlast =>
    rw [walk] at h
    simp only [hn, if_neg hlast, reduceCtorEq] at h
  | case10 cur n path target attrs hn hlast links ih =>
    rw [walk] at h ⊢
    simp only [hn, hsub _ _ hn, if_neg hlast] at h ⊢
    exact ih h
  | case11 links cur n content readonly hn | case13 links cur n attrs hn =>
    rw [walk] at h ⊢
    simpa only [hn, hsub _ _ hn] using h
  | case12 links cur n path content readonly hn hpath
  | case14 links cur n path attrs hn hpath =>
    rw [walk] at h
    simp [hn, hpath] at h

/-- A walk that may follow more links ends in the same place. -/
theorem walk_more {t : Tree} {follow : Bool} {links : Nat} {cur : Location}
    {path : List PathComponent} {p : Location} {left : Nat} (more : Nat)
    (h : walk t follow links cur path = .ok (p, left)) :
    walk t follow (links + more) cur path = .ok (p, left + more) := by
  induction links, cur, path using walk.induct t follow with
  | case1 links cur =>
    rw [walk] at h ⊢
    cases h
    rfl
  | case2 links cur path ih | case3 links cur path ih | case4 links cur path ih =>
    rw [walk] at h ⊢
    exact ih h
  | case5 links cur n hn | case11 links cur n content readonly hn | case13 links cur n attrs hn =>
    rw [walk] at h ⊢
    simp only [hn, ↓reduceIte] at h ⊢
    cases h
    rfl
  | case6 links cur n path hn hpath | case12 links cur n path content readonly hn hpath
  | case14 links cur n path attrs hn hpath =>
    rw [walk] at h
    simp [hn, hpath] at h
  | case7 links cur n path attrs hn ih =>
    rw [walk] at h ⊢
    simp only [hn] at h ⊢
    exact ih h
  | case8 links cur n path target attrs hn hlast =>
    rw [walk] at h ⊢
    simp only [hn, hlast, and_self, ↓reduceIte] at h ⊢
    cases h
    rfl
  | case9 cur n path target attrs hn hlast =>
    rw [walk] at h
    simp only [hn, if_neg hlast, reduceCtorEq] at h
  | case10 cur n path target attrs hn hlast links ih =>
    rw [Nat.succ_add, walk]
    rw [walk] at h
    simp only [hn, if_neg hlast] at h ⊢
    exact ih h

/-- A path that can be followed to its end has an entry at its end. -/
theorem walk_entry {t : Tree} {links : Nat} {cur : Location} {path : List PathComponent}
    {r : Location × Nat} (h : walk t true links cur path = .ok r) :
    ∃ r', walk t false links cur path = .ok r' := by
  induction links, cur, path using walk.induct t true with
  | case1 links cur => exact ⟨_, by rw [walk]⟩
  | case2 links cur path ih | case3 links cur path ih | case4 links cur path ih =>
    rw [walk] at h ⊢
    exact ih h
  | case5 links cur n hn | case11 links cur n content readonly hn | case13 links cur n attrs hn =>
    rw [walk]
    simp only [hn, ↓reduceIte]
    exact ⟨_, rfl⟩
  | case6 links cur n path hn hpath | case12 links cur n path content readonly hn hpath
  | case14 links cur n path attrs hn hpath =>
    rw [walk] at h
    simp [hn, hpath] at h
  | case7 links cur n path attrs hn ih =>
    rw [walk] at h ⊢
    simp only [hn] at h ⊢
    exact ih h
  | case8 links cur n path target attrs hn hlast => exact absurd hlast.2 (by decide)
  | case9 cur n path target attrs hn hlast =>
    rw [walk] at h
    simp [hn] at h
  | case10 cur n path target attrs hn hlast links ih =>
    rw [walk] at h ⊢
    simp only [hn, if_neg hlast] at h ⊢
    by_cases hpath : path = []
    · exact ⟨_, if_pos ⟨hpath, trivial⟩⟩
    · rw [if_neg fun hend => hpath hend.1]
      exact ih h

/-- Where a path leads, however many links it goes through. -/
def Leads (t : Tree) (follow : Bool) (path : List PathComponent) (p : Location) : Prop :=
  ∃ links left, walk t follow links [] path = .ok (p, left)

theorem Leads.unique {t : Tree} {follow : Bool} {path : List PathComponent} {p q : Location}
    (h : Leads t follow path p) (h' : Leads t follow path q) : p = q := by
  obtain ⟨links, left, h⟩ := h
  obtain ⟨links', left', h'⟩ := h'
  have hmore := walk_more links' h
  rw [Nat.add_comm, walk_more links h'] at hmore
  exact (Prod.mk.inj (Except.ok.inj hmore)).1.symm

/-- Two paths that lead to one directory lead to the same places from there. -/
theorem Leads.push {t : Tree} {follow : Bool} {path path' : List PathComponent} {d p : Location}
    {n : String} (h : Leads t true path d) (h' : Leads t true path' d)
    (hpush : Leads t follow (path ++ [.normal n]) p) : Leads t follow (path' ++ [.normal n]) p := by
  obtain ⟨links, left, hwalk⟩ := h
  obtain ⟨links', left', hwalk'⟩ := h'
  obtain ⟨extra, rest, hend⟩ := hpush
  have happend := walk_append follow t.root (walk_more extra hwalk) (.normal n) []
  split at happend
  · -- from the directory on both walks are one
    next hdir =>
    rw [Nat.add_comm, walk_more links hend] at happend
    have hstep := walk_append follow t.root (walk_more (left + extra) hwalk') (.normal n) []
    rw [if_pos hdir, Nat.add_comm left', walk_more left' happend.symm] at hstep
    exact ⟨_, _, hstep⟩
  · obtain ⟨e, he⟩ := happend
    rw [Nat.add_comm, walk_more links hend] at he
    cases he

/-! ## Updates -/

namespace Tree

variable (t : Tree)

theorem parent_of_has {p : Location} {n : String} (h : t.has (p ++ [n])) : t.isDir p := t.parent p n h

/-- The tree that holds nothing but its root. -/
def rootOnly (attrs : Attrs) : Tree where
  node q := if q = [] then some (.directory attrs) else none
  paths := [[]]
  mem_paths q := by by_cases hq : q = [] <;> simp [hq]
  root := rfl
  parent q n h := by simp at h

/-- A new entry in a directory. -/
def insert (p : Location) (node : Node) (hnew : t.has p = false) (hp : p ≠ [])
    (hparent : t.isDir p.dropLast) : Tree where
  node q := if q = p then some node else t.node q
  paths := p :: t.paths
  mem_paths q := by
    by_cases hq : q = p
    · simp [hq]
    · simp [hq, t.mem_paths]
  root := by simpa [Ne.symm hp] using t.root
  parent q n h := by
    have hq : q ≠ p := by
      rintro rfl
      rw [if_neg (by simp)] at h
      simp [has_of_isDir (t.parent_of_has h)] at hnew
    rw [if_neg hq]
    by_cases hqn : q ++ [n] = p
    · rw [← hqn, List.dropLast_concat] at hparent
      exact hparent
    · rw [if_neg hqn] at h
      exact t.parent q n h

/-- New content for a file. -/
def write (p : Location) (content : List UInt8) (readonly : Bool)
    (hfile : (t.node p).any Node.isFile) : Tree where
  node q := if q = p then some (.file content readonly) else t.node q
  paths := t.paths
  mem_paths q := by
    by_cases hq : q = p
    · rw [if_pos hq, hq, t.mem_paths]
      cases hn : t.node p <;> simp_all
    · rw [if_neg hq, t.mem_paths]
  root := by
    by_cases hp : [] = p
    · have hroot := t.root
      rw [hp] at hroot
      cases hn : t.node p with
      | none => simp [hn] at hfile
      | some node => cases node <;> simp_all [Node.isFile, Node.isDirectory]
    · rw [if_neg hp]
      exact t.root
  parent q n h := by
    have hdir : t.isDir q := by
      by_cases hqn : q ++ [n] = p
      · refine t.parent_of_has (n := n) ?_
        rw [hqn, has]
        cases hn : t.node p <;> simp_all
      · rw [if_neg hqn] at h
        exact t.parent q n h
    have hq : q ≠ p := by
      rintro rfl
      unfold isDir at hdir
      cases hn : t.node q with
      | none => simp [hn] at hfile
      | some node => cases node <;> simp_all [Node.isFile, Node.isDirectory]
    rw [if_neg hq]
    exact hdir

/-- The tree without an entry and what lies under it. -/
def remove (p : Location) (hp : p ≠ []) : Tree where
  node q := if p <+: q then none else t.node q
  paths := t.paths.filter fun q => ¬ p <+: q
  mem_paths q := by
    by_cases hq : p <+: q
    · simp [hq]
    · simp [hq, t.mem_paths]
  root := by simpa [hp] using t.root
  parent q n h := by
    by_cases hqn : p <+: q ++ [n]
    · simp [hqn] at h
    · have hq : ¬ p <+: q := fun hq => hqn (hq.trans (List.prefix_append q [n]))
      rw [if_neg hqn] at h
      rw [if_neg hq]
      exact t.parent q n h

/-- The tree with an entry, and what lies under it, at another place. -/
def move (src dst : Location) (hsrc : src ≠ []) (hdst : dst ≠ []) (hparent : t.isDir dst.dropLast)
    (hout : ¬ src <+: dst) : Tree where
  node q :=
    if dst <+: q then t.node (src ++ q.drop dst.length)
    else if src <+: q then none
    else t.node q
  paths :=
    (t.paths.filter fun q => src <+: q).map (fun q => dst ++ q.drop src.length) ++
      t.paths.filter fun q => ¬ dst <+: q ∧ ¬ src <+: q
  mem_paths q := by
    by_cases hq : dst <+: q
    · obtain ⟨r, rfl⟩ := hq
      simp only [List.mem_append, List.mem_map, List.mem_filter, decide_eq_true_eq,
        List.prefix_append, not_true, false_and, and_false, or_false, ↓reduceIte,
        List.drop_left, List.append_cancel_left_eq]
      rw [← t.mem_paths]
      constructor
      · rintro ⟨q, ⟨hmem, r', rfl⟩, hr⟩
        rw [List.drop_left] at hr
        exact hr ▸ hmem
      · exact fun hmem => ⟨src ++ r, ⟨hmem, List.prefix_append src r⟩, List.drop_left⟩
    · have hnot : ∀ q', dst ++ q' ≠ q := fun q' he => hq ⟨q', he⟩
      by_cases hs : src <+: q
      · simp [hq, hs, hnot]
      · simp [hq, hs, hnot, t.mem_paths]
  root := by simpa [hsrc, hdst] using t.root
  parent q n h := by
    by_cases hq : dst <+: q
    · obtain ⟨r, rfl⟩ := hq
      rw [if_pos ((List.prefix_append dst r).trans (List.prefix_append _ [n])), List.append_assoc,
        List.drop_left, ← List.append_assoc] at h
      rw [if_pos (List.prefix_append dst r), List.drop_left]
      exact t.parent _ n h
    · rw [if_neg hq]
      by_cases hqn : dst <+: q ++ [n]
      · -- only the place itself: its directory is not under the entry that moves
        have hself : q ++ [n] = dst := (List.prefix_concat_iff.mp hqn).resolve_right hq |>.symm
        have hs : ¬ src <+: q := fun hs => hout (hself ▸ hs.trans (List.prefix_append q [n]))
        rw [if_neg hs]
        rw [← hself, List.dropLast_concat] at hparent
        exact hparent
      · rw [if_neg hqn] at h
        by_cases hs : src <+: q ++ [n]
        · simp [hs] at h
        · have hs' : ¬ src <+: q := fun hs' => hs (hs'.trans (List.prefix_append q [n]))
          rw [if_neg hs] at h
          rw [if_neg hs']
          exact t.parent q n h

end Tree

end FileTree
