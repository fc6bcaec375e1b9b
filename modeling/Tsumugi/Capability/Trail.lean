import Tsumugi.Capability.Containment

/-!
# The way of a resolved path

`resolve` looks at the components of a path one after the other and starts anew after each
link. The path that it hands on leads where the names of the path lead from the base.

Results:
1. `resolve_leads`: a resolved path leads where the joined path leads;
2. `resolve_trail`: what every component before the last one is, if a path resolves.
-/

namespace Tsumugi.Capability

open FileTree HostFs ContainmentLemmas

/-- The host path of a path under a handle. -/
def OsDirectoryHandle.join (h : OsDirectoryHandle) (rel : RelativePath) : List PathComponent :=
  h.base ++ rel.components.map .normal

theorem leads_of_locate {s : Host} {follow : Bool} {path : List PathComponent} {p : Location}
    (h : s.locate follow path = some p) : Leads s.tree follow path p := by
  obtain ⟨left, hwalk⟩ := Host.locate_eq_some.mp h
  exact ⟨s.maxLinks, left, hwalk⟩

/-- From one path a name leads where it leads from the other. -/
def StepsAlike (t : Tree) (joined current : List PathComponent) : Prop :=
  ∀ follow n p, Leads t follow (current ++ [.normal n]) p →
    Leads t follow (joined ++ [.normal n]) p

theorem stepsAlike_of_leads {t : Tree} {joined current : List PathComponent} {d : Location}
    (h : Leads t true joined d) (h' : Leads t true current d) : StepsAlike t joined current :=
  fun _ _ _ hpush => h'.push h hpush

/-- One component further down the two paths still lead to one place. -/
theorem descend_alike {s : Host} {h : OsDirectoryHandle} {joined current current' : List PathComponent}
    {name : String} (halike : StepsAlike s.tree joined current)
    (hd : h.descend s current name = .ok current') :
    StepsAlike s.tree (joined ++ [.normal name]) current' := by
  obtain ⟨⟨q, node⟩, hmeta, hd⟩ := bind_ok hd
  obtain ⟨hq, hnode⟩ := symlinkMetadata_eq (orHostErr_ok hmeta)
  cases node with
  | directory attrs =>
    obtain rfl := Except.ok.inj hd
    have hend : (s.tree.node q).any Node.isSymlink = false := by simp [hnode, Node.isSymlink]
    have hleads := leads_of_locate (Host.locate_follow hq hend)
    exact stepsAlike_of_leads (halike _ _ _ hleads) hleads
  | file content readonly => cases hd
  | other attrs => cases hd
  | symlink target attrs =>
    have hfollow : ∃ resolved, s.canonicalize (current ++ [.normal name]) = some resolved ∧
        current' = resolved := by
      simp only at hd
      cases hpolicy : h.symlinkPolicy with
      | denyAll =>
        rw [hpolicy] at hd
        cases hd
      | followWithinRoot | operateOnFinalEntry =>
        rw [hpolicy] at hd
        obtain ⟨resolved, hcanon, hd⟩ := bind_ok hd
        split at hd
        · cases hd
        split at hd
        · exact ⟨resolved, orHostErr_ok hcanon, (Except.ok.inj hd).symm⟩
        · cases hd
    obtain ⟨resolved, hcanon, rfl⟩ := hfollow
    obtain ⟨p, hp, -, -, hback⟩ := Host.locate_canonicalize hcanon
    exact stepsAlike_of_leads (halike _ _ _ (leads_of_locate hp)) (leads_of_locate hback)

/-- A resolved path leads where the joined path leads. -/
theorem resolve_leads {s : Host} {h : OsDirectoryHandle} {rel : RelativePath}
    {path : List PathComponent} {p : Location} (hres : h.resolve s rel = .ok path)
    (hp : s.locate false path = some p) : Leads s.tree false (h.join rel) p := by
  have hfold : ∀ (names : List String) {joined start current : List PathComponent},
      StepsAlike s.tree joined start → names.foldlM (h.descend s) start = .ok current →
      StepsAlike s.tree (joined ++ names.map .normal) current := by
    intro names
    induction names with
    | nil =>
      intro joined start current halike hok
      obtain rfl := Except.ok.inj hok
      rwa [List.map_nil, List.append_nil]
    | cons name names ih =>
      intro joined start current halike hok
      rw [List.foldlM_cons] at hok
      obtain ⟨next, hnext, hok⟩ := bind_ok hok
      have := ih (descend_alike halike hnext) hok
      rwa [List.append_assoc] at this
  obtain ⟨current, hcurrent, hres⟩ := bind_ok hres
  have halike := hfold _ (fun _ _ _ hpush => hpush) hcurrent
  cases hlast : rel.components.getLast? with
  | none =>
    rw [hlast] at hres
    obtain rfl := Except.ok.inj hres
    have hnil : rel.components = [] := List.getLast?_eq_none_iff.mp hlast
    rw [hnil] at hcurrent
    obtain rfl := Except.ok.inj hcurrent
    rw [OsDirectoryHandle.join, hnil, List.map_nil, List.append_nil]
    exact leads_of_locate hp
  | some last =>
    rw [hlast] at hres
    obtain rfl := Except.ok.inj hres
    have hjoin : h.join rel = h.base ++ rel.components.dropLast.map .normal ++ [.normal last] := by
      rw [OsDirectoryHandle.join, List.append_assoc]
      conv => lhs; rw [← List.dropLast_append_getLast? last hlast, List.map_append]
      rfl
    rw [hjoin]
    exact halike false last p (leads_of_locate hp)

/-- What a component before the last one may be: a directory, or where the policy allows it
a link that leads to a directory inside the root. -/
def Passable (h : OsDirectoryHandle) (s : Host) (joined : List PathComponent) : Prop :=
  ∃ q node, Leads s.tree false joined q ∧ s.tree.node q = some node ∧
    (node.isDirectory = true ∨
      (h.symlinkPolicy ≠ .denyAll ∧ ∃ base p, s.locate true h.base = some base ∧
        Leads s.tree true joined p ∧ s.tree.isDir p ∧ base <+: p))

theorem within_of_canonical {s : Host} {base : List PathComponent} {p : Location}
    (h : withinBase s base (toPath p) = true) :
    ∃ b, s.locate true base = some b ∧ b <+: p := by
  rw [withinBase] at h
  split at h
  · next canonical hcanon =>
    obtain ⟨b, hb, -, rfl, -⟩ := Host.locate_canonicalize hcanon
    exact ⟨b, hb, Host.toPath_prefix.mp (of_decide_eq_true h)⟩
  · cases h

theorem descend_passable {s : Host} {h : OsDirectoryHandle} {joined current current' : List PathComponent}
    {name : String} (halike : StepsAlike s.tree joined current)
    (hd : h.descend s current name = .ok current') :
    Passable h s (joined ++ [.normal name]) := by
  obtain ⟨found, hmeta, hd⟩ := bind_ok hd
  obtain ⟨q, node⟩ := found
  obtain ⟨hq, hnode⟩ := symlinkMetadata_eq (orHostErr_ok hmeta)
  refine ⟨q, node, halike _ _ _ (leads_of_locate hq), hnode, ?_⟩
  cases node with
  | directory attrs => exact .inl rfl
  | file content readonly => cases hd
  | other attrs => cases hd
  | symlink target attrs =>
    refine .inr ?_
    simp only at hd
    cases hpolicy : h.symlinkPolicy with
    | denyAll =>
      rw [hpolicy] at hd
      cases hd
    | followWithinRoot | operateOnFinalEntry =>
      rw [hpolicy] at hd
      obtain ⟨resolved, hcanon, hd⟩ := bind_ok hd
      obtain ⟨p, hp, -, rfl, hback⟩ := Host.locate_canonicalize (orHostErr_ok hcanon)
      split at hd
      · cases hd
      next hwithin =>
      split at hd
      swap
      · cases hd
      next hdir =>
      obtain ⟨base, hbase, hin⟩ := within_of_canonical (by simpa using hwithin)
      refine ⟨by simp, base, p, hbase, halike _ _ _ (leads_of_locate hp), ?_, hin⟩
      simp only [Host.metadata, hback, Option.bind_eq_bind, Option.bind_some] at hdir
      unfold Tree.isDir
      cases hn : s.tree.node p with
      | none => simp [hn] at hdir
      | some node => simpa [hn] using hdir

/-- What every component before the last one is, if a path resolves. -/
theorem resolve_trail {s : Host} {h : OsDirectoryHandle} {rel : RelativePath}
    {path : List PathComponent} (hres : h.resolve s rel = .ok path) {names : List String}
    (hpre : names <+: rel.components) (hne : names ≠ []) (hproper : names ≠ rel.components) :
    Passable h s (h.base ++ names.map .normal) := by
  have hfold : ∀ (all : List String) {joined start current : List PathComponent},
      StepsAlike s.tree joined start → all.foldlM (h.descend s) start = .ok current →
      ∀ names, names <+: all → names ≠ [] → Passable h s (joined ++ names.map .normal) := by
    intro all
    induction all with
    | nil =>
      intro joined start current _ _ names hpre hne
      exact absurd (List.prefix_nil.mp hpre) hne
    | cons name all ih =>
      intro joined start current halike hok names hpre hne
      rw [List.foldlM_cons] at hok
      obtain ⟨next, hnext, hall⟩ := bind_ok hok
      obtain ⟨first, rest, rfl⟩ := List.exists_cons_of_ne_nil hne
      obtain ⟨rfl, hrest⟩ := List.cons_prefix_cons.mp hpre
      cases rest with
      | nil => exact descend_passable halike hnext
      | cons second rest =>
        have := ih (descend_alike halike hnext) hall _ hrest (List.cons_ne_nil second rest)
        rwa [List.append_assoc] at this
  obtain ⟨current, hcurrent, -⟩ := bind_ok hres
  refine hfold _ (fun _ _ _ hpush => hpush) hcurrent names ?_ hne
  -- a proper initial part lies before the last component
  obtain ⟨rest, hrest⟩ := hpre
  rw [← hrest]
  have hrestNe : rest ≠ [] := by
    rintro rfl
    exact hproper (by rw [← hrest, List.append_nil])
  rw [List.dropLast_append_of_ne_nil hrestNe]
  exact List.prefix_append names _

end Tsumugi.Capability
