import Tsumugi.Capability.PathLaw
import Tsumugi.Engine.ImportGraph

/-!
# One identity for a path

The file builtins name a resource by the label of its target, and the link step
names a module by the normal form of its specifier. Both are the text
`@mount/component/...`, built apart.

Results:
1. A path is accepted exactly if it spells a mount and components, its label is a
   path of the same target, and labels agree exactly if the targets do
   (`path_identity`). Normalized specifiers obey the same law.
2. A text that begins with `@` is never read as a path of the mount `default`, so
   a first component with an `@` cannot be written without its mount
   (`at_component_rejected`).
-/

namespace Tsumugi.LinkTime

open Capability

/-- The two ways to write a target are one function. -/
theorem normalForm_eq_label (target : FilesystemTarget) :
    normalForm target = canonicalResourceLabel target := rfl

theorem ModuleId.new_name (id : ModuleId) : ModuleId.new id.name = .ok id := by
  unfold ModuleId.new
  split
  · rfl
  · rename_i e h
    rw [id.valid] at h
    cases h

theorem ModuleId.ext_name {a b : ModuleId} (h : a.name = b.name) : a = b := by
  cases a
  cases b
  cases h
  rfl

theorem ModuleId.new_ok_iff {value : String} {id : ModuleId} :
    ModuleId.new value = .ok id ↔ id.name = value := by
  constructor
  · intro h
    simp only [ModuleId.new] at h
    split at h
    · exact (Except.ok.inj h) ▸ rfl
    · cases h
  · rintro rfl
    exact ModuleId.new_name id

/-- A specifier is normalized to the label of its target. -/
theorem normalizeSpecifier_ok_iff {knowsMount : String → Bool} {specifier : String}
    {id : ModuleId} :
    normalizeSpecifier knowsMount specifier = .ok id ↔
      ∃ target, FilesystemTarget.parse specifier = .ok target ∧
        knowsMount target.mount.name = true ∧ id.name = canonicalResourceLabel target := by
  rw [normalizeSpecifier]
  rcases FilesystemTarget.parse specifier with e | target
  · simp
  simp only [Except.ok.injEq, exists_eq_left']
  by_cases hknows : knowsMount target.mount.name = true
  · rw [if_neg (by simp [hknows])]
    simp only [hknows, true_and, ← normalForm_eq_label, ← ModuleId.new_ok_iff]
    cases ModuleId.new (normalForm target) <;> simp
  · simp [hknows]

theorem path_identity :
    -- a path is accepted exactly if it spells a mount and components
    (∀ (scriptPath : String) (mount : MountName) (components : List String),
      Spells scriptPath.toList mount components ↔
        ∃ target, FilesystemTarget.parse scriptPath = .ok target ∧ target.mount = mount ∧
          target.path.components = components) ∧
    -- its label is a path of the same target
    (∀ scriptPath target, FilesystemTarget.parse scriptPath = .ok target →
      FilesystemTarget.parse (canonicalResourceLabel target) = .ok target) ∧
    -- labels agree exactly if the targets do
    (∀ scriptPath scriptPath' target target', FilesystemTarget.parse scriptPath = .ok target →
      FilesystemTarget.parse scriptPath' = .ok target' →
      (canonicalResourceLabel target = canonicalResourceLabel target' ↔
        target.mount = target'.mount ∧ target.path.components = target'.path.components)) ∧
    -- a specifier is normalized to the label of its target
    (∀ knowsMount specifier id, normalizeSpecifier knowsMount specifier = .ok id ↔
      ∃ target, FilesystemTarget.parse specifier = .ok target ∧
        knowsMount target.mount.name = true ∧ id.name = canonicalResourceLabel target) ∧
    -- which is a specifier of the same module
    (∀ knowsMount specifier id, normalizeSpecifier knowsMount specifier = .ok id →
      normalizeSpecifier knowsMount id.name = .ok id) ∧
    -- and two specifiers are one module exactly if they have one target
    (∀ knowsMount specifier specifier' id id' target target',
      normalizeSpecifier knowsMount specifier = .ok id →
      normalizeSpecifier knowsMount specifier' = .ok id' →
      FilesystemTarget.parse specifier = .ok target →
      FilesystemTarget.parse specifier' = .ok target' →
      (id = id' ↔
        target.mount = target'.mount ∧ target.path.components = target'.path.components)) := by
  refine ⟨fun scriptPath mount components => ⟨fun h => ?_, ?_⟩, fun _ _ => parse_label,
    fun _ _ target target' h h' => (label_inj h h').trans FilesystemTarget.ext_iff,
    fun _ _ _ => normalizeSpecifier_ok_iff, fun knowsMount specifier id h => ?_,
    fun knowsMount specifier specifier' id id' target target' h h' ht ht' => ?_⟩
  · let target : FilesystemTarget :=
      ⟨mount, components, fun c hc => (h.isScriptComponent c hc).isComponent⟩
    exact ⟨target, parse_ok_iff.mpr h, rfl, rfl⟩
  · rintro ⟨target, h, rfl, rfl⟩
    exact parse_ok_iff.mp h
  · obtain ⟨target, ht, hknows, hname⟩ := normalizeSpecifier_ok_iff.mp h
    rw [hname]
    exact normalizeSpecifier_ok_iff.mpr ⟨target, parse_label ht, hknows, hname⟩
  · obtain ⟨t, h1, -, hname⟩ := normalizeSpecifier_ok_iff.mp h
    obtain ⟨t', h1', -, hname'⟩ := normalizeSpecifier_ok_iff.mp h'
    obtain rfl : t = target := Except.ok.inj (h1.symm.trans ht)
    obtain rfl : t' = target' := Except.ok.inj (h1'.symm.trans ht')
    rw [← FilesystemTarget.ext_iff, ← label_inj ht ht', ← hname, ← hname']
    refine ⟨fun heq => by rw [heq], fun heq => ?_⟩
    exact ModuleId.ext_name heq

/-- The component `@1` is admissible, but the text `@1` is not a path. -/
theorem at_component_rejected :
    ¬ ∀ components : List String, components ≠ [] → (∀ c ∈ components, IsScriptComponent c) →
      ∃ target, FilesystemTarget.parse
          (String.ofList (['/'].intercalate (components.map String.toList))) = .ok target ∧
        target.mount = defaultMount ∧ target.path.components = components := by
  intro h
  have hword : IsScriptComponent "@1" := by
    constructor <;> decide
  obtain ⟨target, hparse, hmount, -⟩ := h ["@1"] (by simp) (by simpa using hword)
  have hname := (parse_ok_iff_reads.mp hparse).2.2.2.1
  rw [hmount] at hname
  revert hname
  decide +kernel

end Tsumugi.LinkTime
