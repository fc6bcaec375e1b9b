import Mathlib.Data.List.TakeWhile
import Tsumugi.Capability.Dispatch

/-!
# The grammar of script paths

`FilesystemTarget::parse` against the texts that spell a mount and components, and the
label that `canonical_resource_label` builds from them.

Results:
1. A path parses to a target exactly if it spells the mount and the components.
2. The label of a target spells it, so that it parses back.
3. Two targets with one label are one target.

An unqualified path does not begin with `@`: such a text is read as a mount.
-/

namespace Tsumugi.Capability

theorem splitSlash_eq_splitOn (l : List Char) : splitSlash l = l.splitOn '/' := by
  induction l with
  | nil => rfl
  | cons c rest ih =>
    rw [splitSlash, ih, List.splitOn_cons_eq_if_modifyHead]
    by_cases hc : c = '/'
    · simp [hc]
    · rw [if_neg hc, if_neg (by simpa using hc)]
      cases h : rest.splitOn '/' with
      | nil => exact absurd h (List.splitOn_ne_nil _ _)
      | cons w ws => rfl

/-! ## Words and components -/

/-- A word that a component may be. -/
structure IsWord (w : List Char) : Prop where
  nonempty : w ≠ []
  not_dot : w ≠ ['.']
  not_parent : w ≠ ['.', '.']
  no_slash : '/' ∉ w
  no_backslash : '\\' ∉ w
  no_colon : ':' ∉ w
  no_nul : '\x00' ∉ w

/-- A component that a script may write. -/
def IsScriptComponent (c : String) : Prop := IsWord c.toList

theorem IsScriptComponent.isComponent {c : String} (h : IsScriptComponent c) : IsComponent c := by
  simpa using isComponent_ofList h.nonempty h.not_dot h.not_parent h.no_slash h.no_nul

/-- The components of a parsed path are the words. -/
theorem parseComponents_ok_iff {words : List (List Char)}
    {hsep : ∀ w ∈ words, '/' ∉ w ∧ '\x00' ∉ w} {path : RelativePath} :
    parseComponents words hsep = .ok path ↔
      (∀ w ∈ words, w ≠ [] ∧ w ≠ ['.'] ∧ w ≠ ['.', '.'] ∧ ':' ∉ w) ∧
        path.components = words.map String.ofList := by
  induction words generalizing path with
  | nil =>
    obtain ⟨components, plain⟩ := path
    simp [parseComponents, eq_comm]
  | cons w ws ih =>
    rw [parseComponents]
    by_cases hempty : w = []
    · simp [hempty]
    by_cases hdot : w = ['.']
    · simp [hdot]
    by_cases hparent : w = ['.', '.']
    · simp [hparent]
    by_cases hcolon : ':' ∈ w
    · simp [hempty, hdot, hparent, hcolon]
    rw [dif_neg hempty, dif_neg hdot, dif_neg hparent, if_neg hcolon]
    rcases hrest : parseComponents ws fun w' hw' => hsep w' (List.mem_cons_of_mem w hw') with e | rest
    · -- a later word is refused
      have hno : ¬ ∀ w ∈ ws, w ≠ [] ∧ w ≠ ['.'] ∧ w ≠ ['.', '.'] ∧ ':' ∉ w := by
        intro hall
        have hplain : ∀ c ∈ ws.map String.ofList, IsComponent c := by
          intro c hc
          obtain ⟨w', hw', rfl⟩ := List.mem_map.mp hc
          obtain ⟨h1, h2, h3, -⟩ := hall w' hw'
          obtain ⟨h4, h5⟩ := hsep w' (List.mem_cons_of_mem w hw')
          exact isComponent_ofList h1 h2 h3 h4 h5
        rw [ih.mpr ⟨hall, show (⟨_, hplain⟩ : RelativePath).components = _ from rfl⟩] at hrest
        cases hrest
      refine ⟨fun h => (by cases h), fun h => ?_⟩
      exact absurd (fun w' hw' => h.1 w' (List.mem_cons_of_mem w hw')) hno
    · obtain ⟨hall, hcomponents⟩ := ih.mp hrest
      constructor
      · intro h
        cases h
        refine ⟨fun w' hw' => ?_, by simp [hcomponents]⟩
        rcases List.mem_cons.mp hw' with rfl | hw'
        · exact ⟨hempty, hdot, hparent, hcolon⟩
        · exact hall w' hw'
      · rintro ⟨-, h⟩
        refine congrArg Except.ok (RelativePath.ext ?_)
        rw [h, List.map_cons, ← hcomponents]

/-- The texts of a body: nothing for the root, or words between slashes. -/
def Reads (body : List Char) (components : List String) : Prop :=
  (body = [] ∧ components = []) ∨
    ((∀ w ∈ splitSlash body, w ≠ [] ∧ w ≠ ['.'] ∧ w ≠ ['.', '.'] ∧ ':' ∉ w) ∧
      components = (splitSlash body).map String.ofList)

theorem not_reads_slash {rest : List Char} {components : List String} :
    ¬ Reads ('/' :: rest) components := by
  rintro (⟨h, -⟩ | ⟨h, -⟩)
  · cases h
  · exact (h [] (by simp [splitSlash])).1 rfl

theorem not_reads_drive {body : List Char} (hdrive : hasDrivePrefix body = true)
    {components : List String} : ¬ Reads body components := by
  rw [hasDrivePrefix.eq_def] at hdrive
  split at hdrive
  · rename_i c rest
    have hc : c ≠ '/' := by
      rintro rfl
      exact absurd hdrive (by decide)
    rintro (⟨h, -⟩ | ⟨h, -⟩)
    · cases h
    · obtain ⟨w, ws, hrest⟩ := List.exists_cons_of_ne_nil (List.splitOn_ne_nil '/' rest)
      have hword : c :: ':' :: w ∈ splitSlash (c :: ':' :: rest) := by
        simp [splitSlash, hc, splitSlash_eq_splitOn, hrest]
      exact (h _ hword).2.2.2 (by simp)
  · cases hdrive

/-- A path is accepted by its mount and its body. The checks for a leading slash and for a drive
are implied by those of the components. -/
theorem parse_ok_iff_reads {scriptPath : String} {target : FilesystemTarget} :
    FilesystemTarget.parse scriptPath = .ok target ↔
      scriptPath.toList ≠ [] ∧ '\x00' ∉ scriptPath.toList ∧ '\\' ∉ scriptPath.toList ∧
        String.ofList (splitMount scriptPath.toList).1 = target.mount.name ∧
        Reads (splitMount scriptPath.toList).2 target.path.components := by
  obtain ⟨⟨mount, hvalid⟩, path⟩ := target
  simp only [FilesystemTarget.parse]
  split
  · simp [*]
  rename_i hempty
  split
  · simp [*]
  rename_i hnul
  split
  · simp [*]
  rename_i hbackslash
  split
  case isFalse hm =>
    refine ⟨fun h => (by cases h), fun h => absurd ?_ hm⟩
    rw [h.2.2.2.1]
    exact hvalid
  rename_i hm
  simp only [ne_eq, hempty, not_false_eq_true, hnul, hbackslash, true_and]
  split
  · rename_i hslash
    refine ⟨fun h => (by cases h), fun h => absurd h.2 ?_⟩
    obtain ⟨rest, hrest⟩ := List.head?_eq_some_iff.mp hslash
    exact hrest ▸ not_reads_slash
  split
  · rename_i hdrive
    exact ⟨fun h => (by cases h), fun h => absurd h.2 (not_reads_drive hdrive)⟩
  split
  · rename_i hbody
    constructor
    · intro h
      cases h
      exact ⟨rfl, .inl ⟨hbody, rfl⟩⟩
    · rintro ⟨rfl, ⟨-, h⟩ | ⟨h, -⟩⟩
      · exact congrArg (fun p => Except.ok (⟨_, p⟩ : FilesystemTarget)) (RelativePath.ext h.symm)
      · exact absurd rfl (h [] (by simp [hbody, splitSlash])).1
  · rename_i hbody
    constructor
    · intro h
      rcases hpath : parseComponents (splitSlash (splitMount scriptPath.toList).2) fun w hw =>
        ⟨(of_mem_splitSlash hw).1, fun h =>
          hnul (mem_of_mem_splitMount ((of_mem_splitSlash hw).2 _ h))⟩ with e | path'
      · rw [hpath] at h
        cases h
      · rw [hpath] at h
        cases h
        exact ⟨rfl, .inr (parseComponents_ok_iff.mp hpath)⟩
    · rintro ⟨rfl, ⟨h, -⟩ | h⟩
      · exact absurd h hbody
      · rw [parseComponents_ok_iff.mpr h]
        rfl

/-! ## The texts of a target -/

/-- The mount of a path that names none. -/
def defaultMount : MountName := ⟨"default", by decide +kernel⟩

/-- The texts that spell a mount and components. -/
inductive Spells : List Char → MountName → List String → Prop
  | mount (m : MountName) : Spells ('@' :: m.name.toList) m []
  | root (m : MountName) : Spells ('@' :: m.name.toList ++ ['/']) m []
  | qualified (m : MountName) {components : List String} (hne : components ≠ [])
      (hwords : ∀ c ∈ components, IsScriptComponent c) :
      Spells ('@' :: m.name.toList ++ '/' :: ['/'].intercalate (components.map String.toList)) m
        components
  | unqualified {components : List String} (hne : components ≠ [])
      (hwords : ∀ c ∈ components, IsScriptComponent c)
      (hplain : ∀ c ∈ components.head?, c.toList.head? ≠ some '@') :
      Spells (['/'].intercalate (components.map String.toList)) defaultMount components

theorem isWord_of_reads {w body : List Char} (hw : w ∈ splitSlash body)
    (hread : w ≠ [] ∧ w ≠ ['.'] ∧ w ≠ ['.', '.'] ∧ ':' ∉ w) (hbackslash : '\\' ∉ body)
    (hnul : '\x00' ∉ body) : IsWord w where
  nonempty := hread.1
  not_dot := hread.2.1
  not_parent := hread.2.2.1
  no_slash := (of_mem_splitSlash hw).1
  no_backslash h := hbackslash ((of_mem_splitSlash hw).2 _ h)
  no_colon := hread.2.2.2
  no_nul h := hnul ((of_mem_splitSlash hw).2 _ h)

/-- The body of an accepted path is its components between slashes. -/
theorem Reads.body_eq {body : List Char} {components : List String} (h : Reads body components)
    (hbackslash : '\\' ∉ body) (hnul : '\x00' ∉ body) :
    (body = [] ∧ components = []) ∨
      (components ≠ [] ∧ (∀ c ∈ components, IsScriptComponent c) ∧
        body = ['/'].intercalate (components.map String.toList)) := by
  rcases h with h | ⟨hread, rfl⟩
  · exact .inl h
  refine .inr ⟨?_, fun c hc => ?_, ?_⟩
  · simp [splitSlash_eq_splitOn]
  · obtain ⟨w, hw, rfl⟩ := List.mem_map.mp hc
    rw [IsScriptComponent, String.toList_ofList]
    exact isWord_of_reads hw (hread w hw) hbackslash hnul
  · rw [List.map_map, show String.toList ∘ String.ofList = id from funext fun w => by simp,
      List.map_id, splitSlash_eq_splitOn, List.intercalate_splitOn]

/-- Components between slashes are read back. -/
theorem reads_intercalate {components : List String} (hne : components ≠ [])
    (hwords : ∀ c ∈ components, IsScriptComponent c) :
    Reads (['/'].intercalate (components.map String.toList)) components := by
  have hsplit : splitSlash (['/'].intercalate (components.map String.toList))
      = components.map String.toList := by
    rw [splitSlash_eq_splitOn, List.splitOn_intercalate]
    · intro w hw
      obtain ⟨c, hc, rfl⟩ := List.mem_map.mp hw
      exact (hwords c hc).no_slash
    · simpa using hne
  refine .inr ⟨fun w hw => ?_, ?_⟩
  · rw [hsplit] at hw
    obtain ⟨c, hc, rfl⟩ := List.mem_map.mp hw
    exact ⟨(hwords c hc).nonempty, (hwords c hc).not_dot, (hwords c hc).not_parent,
      (hwords c hc).no_colon⟩
  · rw [hsplit, List.map_map, show String.ofList ∘ String.toList = id from funext fun c => by simp,
      List.map_id]

theorem mem_intercalate {a : Char} {words : List (List Char)}
    (h : a ∈ ['/'].intercalate words) : a = '/' ∨ ∃ w ∈ words, a ∈ w := by
  induction words with
  | nil => simp [List.intercalate_nil] at h
  | cons w ws ih =>
    cases ws with
    | nil =>
      rw [List.intercalate_singleton] at h
      exact .inr ⟨w, by simp, h⟩
    | cons w' ws =>
      rw [List.intercalate_cons_cons] at h
      rcases List.mem_append.mp h with h | h
      · rcases List.mem_append.mp h with h | h
        · exact .inr ⟨w, by simp, h⟩
        · exact .inl (List.mem_singleton.mp h)
      · rcases ih h with h | ⟨v, hv, h⟩
        · exact .inl h
        · exact .inr ⟨v, List.mem_cons_of_mem w hv, h⟩

/-- The characters of a mount name. -/
theorem MountName.char {m : MountName} {c : Char} (h : c ∈ m.name.toList) :
    c ≠ '/' ∧ c ≠ '\\' ∧ c ≠ '\x00' := by
  have hvalid := m.valid
  simp only [isMountName, Bool.and_eq_true, List.all_eq_true, decide_eq_true_eq] at hvalid
  have hc := hvalid.2 c h
  refine ⟨?_, ?_, ?_⟩ <;> (rintro rfl; revert hc; decide)

theorem splitMount_qualified (m : MountName) (body : List Char) :
    splitMount ('@' :: m.name.toList ++ '/' :: body) = (m.name.toList, body) := by
  have hstop : ∀ c ∈ m.name.toList, decide (c ≠ '/') = true := fun c hc => by
    simpa using (MountName.char hc).1
  simp only [List.cons_append, splitMount]
  rw [List.takeWhile_append_of_pos hstop, List.dropWhile_append_of_pos hstop]
  simp

theorem splitMount_mount (m : MountName) :
    splitMount ('@' :: m.name.toList) = (m.name.toList, []) := by
  have hstop : ∀ c ∈ m.name.toList, decide (c ≠ '/') = true := fun c hc => by
    simpa using (MountName.char hc).1
  simp only [splitMount]
  rw [List.takeWhile_eq_self_iff.mpr hstop, List.dropWhile_eq_nil_iff.mpr hstop]
  rfl

theorem splitMount_unqualified {l : List Char} (h : l.head? ≠ some '@') :
    splitMount l = (defaultMount.name.toList, l) := by
  rw [splitMount.eq_def]
  split
  · exact absurd rfl h
  · rfl

/-- How a path is cut. -/
theorem splitMount_cases (l : List Char) :
    (l = '@' :: (splitMount l).1 ∧ (splitMount l).2 = []) ∨
      l = '@' :: (splitMount l).1 ++ '/' :: (splitMount l).2 ∨
      (l.head? ≠ some '@' ∧ splitMount l = (defaultMount.name.toList, l)) := by
  by_cases h : l.head? = some '@'
  · obtain ⟨rest, rfl⟩ := List.head?_eq_some_iff.mp h
    have hcut := List.takeWhile_append_dropWhile (p := (· ≠ '/')) (l := rest)
    rcases hdrop : rest.dropWhile (· ≠ '/') with _ | ⟨c, body⟩
    · rw [hdrop, List.append_nil] at hcut
      refine .inl ⟨?_, ?_⟩
      · rw [splitMount, hcut]
      · rw [splitMount, hdrop, List.drop_nil]
    · have hc : c = '/' := by
        have hhead := List.head?_dropWhile_not (p := (· ≠ '/')) (l := rest)
        rw [hdrop] at hhead
        simpa using hhead
      subst hc
      refine .inr (.inl ?_)
      rw [splitMount, List.cons_append, hdrop, List.drop_one, List.tail_cons, ← hdrop, hcut]
  · exact .inr (.inr ⟨h, splitMount_unqualified h⟩)

/-- Components between slashes begin with the first. -/
theorem head_intercalate {components : List String} (hne : components ≠ [])
    (hwords : ∀ c ∈ components, IsScriptComponent c) :
    ∃ c ∈ components.head?, ∃ a ∈ c.toList.head?,
      (['/'].intercalate (components.map String.toList)).head? = some a := by
  obtain ⟨c, cs, rfl⟩ := List.exists_cons_of_ne_nil hne
  obtain ⟨a, w, hc⟩ := List.exists_cons_of_ne_nil (hwords c List.mem_cons_self).nonempty
  refine ⟨c, rfl, a, by rw [hc]; rfl, ?_⟩
  cases cs with
  | nil => simp [hc]
  | cons c' cs =>
    rw [List.map_cons, List.map_cons, List.intercalate_cons_cons, hc]
    rfl

/-- What the parser checks first of a text that is spelled well. -/
theorem spells_chars {l : List Char} {mount : MountName} {components : List String}
    (h : Spells l mount components) : l ≠ [] ∧ '\x00' ∉ l ∧ '\\' ∉ l := by
  have hword : ∀ {c : Char} (_ : c = '\x00' ∨ c = '\\') {components : List String}
      (_ : ∀ c ∈ components, IsScriptComponent c),
      c ∉ ['/'].intercalate (components.map String.toList) := by
    intro c hc components hwords hmem
    rcases mem_intercalate hmem with rfl | ⟨w, hw, hmem⟩
    · rcases hc with hc | hc <;> exact absurd hc (by decide)
    · obtain ⟨w, hwmem, rfl⟩ := List.mem_map.mp hw
      rcases hc with rfl | rfl
      · exact (hwords w hwmem).no_nul hmem
      · exact (hwords w hwmem).no_backslash hmem
  have hnul : ∀ m : MountName, '\x00' ∉ m.name.toList := fun m hm => (MountName.char hm).2.2 rfl
  have hbackslash : ∀ m : MountName, '\\' ∉ m.name.toList := fun m hm => (MountName.char hm).2.1 rfl
  cases h with
  | mount m => simp [hnul, hbackslash]
  | root m => simp [hnul, hbackslash]
  | qualified m hne hwords => simp [hnul, hbackslash, hword (.inl rfl) hwords, hword (.inr rfl) hwords]
  | unqualified hne hwords hplain =>
    obtain ⟨-, -, a, -, hhead⟩ := head_intercalate hne hwords
    refine ⟨fun h => ?_, hword (.inl rfl) hwords, hword (.inr rfl) hwords⟩
    rw [h] at hhead
    cases hhead

/-- A path parses to a target exactly if it spells the mount and the components. -/
theorem parse_ok_iff {scriptPath : String} {target : FilesystemTarget} :
    FilesystemTarget.parse scriptPath = .ok target ↔
      Spells scriptPath.toList target.mount target.path.components := by
  rw [parse_ok_iff_reads]
  obtain ⟨mount, ⟨components, plain⟩⟩ := target
  constructor
  · rintro ⟨hne, hnul, hbackslash, hmount, hreads⟩
    have hmount' : (splitMount scriptPath.toList).1 = mount.name.toList := by
      rw [← hmount, String.toList_ofList]
    have hbody := hreads.body_eq (fun h => hbackslash (mem_of_mem_splitMount h))
      fun h => hnul (mem_of_mem_splitMount h)
    rcases splitMount_cases scriptPath.toList with ⟨hl, hb⟩ | hl | ⟨hhead, hl⟩
    · rw [hmount'] at hl
      rcases hbody with ⟨-, rfl⟩ | ⟨hne, hwords, hbody⟩
      · exact hl ▸ .mount mount
      · obtain ⟨-, -, a, -, hhead⟩ := head_intercalate hne hwords
        rw [← hbody, hb] at hhead
        cases hhead
    · rw [hmount'] at hl
      rcases hbody with ⟨hb, rfl⟩ | ⟨hne, hwords, hbody⟩
      · rw [hl, hb]
        exact .root mount
      · rw [hl, hbody]
        exact .qualified mount hne hwords
    · rw [hl] at hmount' hbody
      obtain rfl : mount = defaultMount := by
        obtain ⟨name, valid⟩ := mount
        obtain rfl : name = "default" := (String.toList_inj.mp hmount').symm
        rfl
      rcases hbody with ⟨hb, -⟩ | ⟨hne', hwords, hbody⟩
      · exact absurd hb hne
      · simp only at hbody
        rw [hbody] at hhead ⊢
        refine .unqualified hne' hwords fun c hc h => hhead ?_
        obtain ⟨c', hc', a, ha, hfirst⟩ := head_intercalate hne' hwords
        obtain rfl := Option.mem_unique hc hc'
        rw [hfirst, ← h]
        exact ha.symm
  · intro h
    obtain ⟨hne, hnul, hbackslash⟩ := spells_chars h
    refine ⟨hne, hnul, hbackslash, ?_⟩
    simp only at h ⊢
    generalize scriptPath.toList = l at h
    cases h with
    | mount => simp [splitMount_mount, Reads]
    | root =>
      rw [splitMount_qualified]
      simp [Reads]
    | qualified _ hne hwords =>
      rw [splitMount_qualified]
      exact ⟨String.ofList_toList, reads_intercalate hne hwords⟩
    | unqualified hne hwords hplain =>
      obtain ⟨c, hc, a, ha, hfirst⟩ := head_intercalate hne hwords
      rw [splitMount_unqualified]
      · simp [reads_intercalate hne hwords]
      · rw [hfirst, ← ha]
        exact hplain c hc

/-! ## Labels -/

theorem toList_label (target : FilesystemTarget) :
    (canonicalResourceLabel target).toList = '@' :: target.mount.name.toList ++
      target.path.components.flatMap fun c => '/' :: c.toList := by
  have hfold : ∀ (cs : List String) (label : String),
      (cs.foldl (fun label component => label ++ "/" ++ component) label).toList
        = label.toList ++ cs.flatMap fun c => '/' :: c.toList := by
    intro cs
    induction cs with
    | nil => simp
    | cons c cs ih =>
      intro label
      rw [List.foldl_cons, ih]
      simp
  rw [canonicalResourceLabel, hfold]
  simp

theorem flatMap_slash {components : List String} (hne : components ≠ []) :
    (components.flatMap fun c => '/' :: c.toList)
      = '/' :: ['/'].intercalate (components.map String.toList) := by
  induction components with
  | nil => exact absurd rfl hne
  | cons c cs ih =>
    cases cs with
    | nil => simp
    | cons c' cs =>
      rw [List.flatMap_cons, ih (by simp)]
      simp only [List.map_cons, List.intercalate_cons_cons, List.cons_append, List.append_assoc,
        List.nil_append]

/-- A label spells its target. -/
theorem spells_label {target : FilesystemTarget}
    (hwords : ∀ c ∈ target.path.components, IsScriptComponent c) :
    Spells (canonicalResourceLabel target).toList target.mount target.path.components := by
  rw [toList_label]
  by_cases hnil : target.path.components = []
  · rw [hnil]
    simpa using Spells.mount target.mount
  · have hslashes : (target.path.components.flatMap fun c => '/' :: c.toList)
        = '/' :: ['/'].intercalate (target.path.components.map String.toList) :=
      flatMap_slash hnil
    rw [hslashes]
    exact .qualified target.mount hnil hwords

theorem Spells.isScriptComponent {l : List Char} {mount : MountName} {components : List String}
    (h : Spells l mount components) : ∀ c ∈ components, IsScriptComponent c := by
  cases h with
  | mount | root => simp
  | qualified _ _ hwords | unqualified _ hwords _ => exact hwords

/-- The label of an accepted path is a path of the same target. -/
theorem parse_label {scriptPath : String} {target : FilesystemTarget}
    (h : FilesystemTarget.parse scriptPath = .ok target) :
    FilesystemTarget.parse (canonicalResourceLabel target) = .ok target :=
  parse_ok_iff.mpr (spells_label (parse_ok_iff.mp h).isScriptComponent)

/-- A target is its mount and its components. -/
theorem FilesystemTarget.ext_iff {target target' : FilesystemTarget} :
    target = target' ↔
      target.mount = target'.mount ∧ target.path.components = target'.path.components := by
  refine ⟨fun h => by rw [h]; exact ⟨rfl, rfl⟩, fun ⟨hmount, hpath⟩ => ?_⟩
  obtain ⟨mount, path⟩ := target
  obtain ⟨mount', path'⟩ := target'
  obtain rfl : mount = mount' := hmount
  obtain rfl : path = path' := RelativePath.ext hpath
  rfl

/-- Accepted paths with one label have one target. -/
theorem label_inj {scriptPath scriptPath' : String} {target target' : FilesystemTarget}
    (h : FilesystemTarget.parse scriptPath = .ok target)
    (h' : FilesystemTarget.parse scriptPath' = .ok target') :
    canonicalResourceLabel target = canonicalResourceLabel target' ↔ target = target' := by
  refine ⟨fun heq => ?_, fun heq => by rw [heq]⟩
  have hparse := parse_label h
  rw [heq, parse_label h'] at hparse
  exact (Except.ok.inj hparse).symm

end Tsumugi.Capability
