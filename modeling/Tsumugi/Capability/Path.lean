import Mathlib.Algebra.Ring.Nat
import Mathlib.Data.List.Basic
import Mathlib.Order.Basic
import Mathlib.Data.String.Basic
import Tsumugi.Lib.FileTree

/-!
# Script paths (`capability.rs`)

The lexical part of filesystem authority: mount names, relative paths, the parser
of `@mount/...` paths and the translator of host paths that a legacy profile uses.
A relative path carries the proof that its components are plain names, so that
joining them to a directory cannot climb out of it.
-/

namespace Tsumugi.Capability

open FileTree (PathComponent)

/-- `NonZeroU128`: policy ids and host function ids. -/
structure NonZeroU128 where
  val : Nat
  pos : 0 < val
  lt : val < 2 ^ 128
deriving DecidableEq

namespace NonZeroU128

theorem val_injective : Function.Injective val := by
  rintro ⟨a, _, _⟩ ⟨b, _, _⟩ h
  cases h
  rfl

instance : LinearOrder NonZeroU128 := LinearOrder.lift' val val_injective

theorem one_fits : 1 < 2 ^ 128 := by decide

end NonZeroU128

/-- The variants of `ConfigError` that this part of the source builds. -/
inductive ConfigError (Kind : Type)
  | emptyIdentifier (field : String)
  | identifierTooLong (field : String) (maxBytes : Nat)
  | identifierContainsNul (field : String)
  | duplicateCapability (kind : Kind)
  | duplicateCallableName (name : String)
  | invalidFilesystemPolicy (code : String)
deriving DecidableEq, Repr

theorem bind_ok {ε α β : Type} {x : Except ε α} {f : α → Except ε β} {b : β}
    (h : (x >>= f) = .ok b) : ∃ a, x = .ok a ∧ f a = .ok b := by
  cases x with
  | error e => cases h
  | ok a => exact ⟨a, rfl, h⟩

/-- The check of `MountName::new`: an ASCII letter, then letters, digits, `_` and `-`,
at most 32 bytes. -/
def isMountName (s : String) : Bool :=
  (s.toList.head?.elim false Char.isAlpha) && s.utf8ByteSize ≤ 32 &&
    s.toList.all fun c => c.isAlphanum || c = '_' || c = '-'

/-- `MountName`. -/
structure MountName where
  name : String
  valid : isMountName name = true
deriving DecidableEq

/-- `MountName::new`. -/
def MountName.new {Kind : Type} (s : String) : Except (ConfigError Kind) MountName :=
  if h : isMountName s = true then .ok ⟨s, h⟩
  else .error (.invalidFilesystemPolicy "invalid_mount_name")

/-- A name that stays in the directory it is joined to. -/
def IsComponent (c : String) : Prop :=
  c ≠ "" ∧ c ≠ "." ∧ c ≠ ".." ∧ '/' ∉ c.toList ∧ '\x00' ∉ c.toList

instance (c : String) : Decidable (IsComponent c) :=
  inferInstanceAs (Decidable (_ ∧ _ ∧ _ ∧ _ ∧ _))

/-- `RelativePath`. -/
structure RelativePath where
  components : List String
  plain : ∀ c ∈ components, IsComponent c

@[ext] theorem RelativePath.ext {p q : RelativePath} (h : p.components = q.components) : p = q := by
  cases p
  cases q
  cases h
  rfl

/-- `PathError`. -/
inductive PathError
  | empty
  | containsNul
  | absolute
  | dotComponent
  | parentComponent
  | emptyComponent
  | backslashSeparator
  | colonInComponent
  | invalidMountName
deriving DecidableEq, Repr

/-- `FilesystemTarget`. -/
structure FilesystemTarget where
  mount : MountName
  path : RelativePath

/-- `str::split('/')`. -/
def splitSlash : List Char → List (List Char)
  | [] => [[]]
  | c :: rest =>
    if c = '/' then [] :: splitSlash rest
    else
      match splitSlash rest with
      | [] => [[c]]
      | w :: ws => (c :: w) :: ws

theorem of_mem_splitSlash {l w : List Char} (h : w ∈ splitSlash l) :
    '/' ∉ w ∧ ∀ c ∈ w, c ∈ l := by
  induction l generalizing w with
  | nil =>
    obtain rfl := List.mem_singleton.mp h
    simp
  | cons c rest ih =>
    rw [splitSlash] at h
    split at h
    · rcases List.mem_cons.mp h with rfl | h
      · simp
      · exact ⟨(ih h).1, fun x hx => List.mem_cons_of_mem c ((ih h).2 x hx)⟩
    · rename_i hc
      split at h
      · obtain rfl := List.mem_singleton.mp h
        exact ⟨fun hm => hc (List.mem_singleton.mp hm).symm, fun x hx => by
          rw [List.mem_singleton.mp hx]
          exact List.mem_cons_self⟩
      · rename_i w' ws hsplit
        rcases List.mem_cons.mp h with rfl | h
        · obtain ⟨hslash, hsub⟩ := ih (hsplit ▸ List.mem_cons_self)
          refine ⟨fun hm => ?_, fun x hx => ?_⟩
          · exact (List.mem_cons.mp hm).elim (fun he => hc he.symm) hslash
          · exact (List.mem_cons.mp hx).elim (fun he => he ▸ List.mem_cons_self)
              fun hx => List.mem_cons_of_mem c (hsub x hx)
        · obtain ⟨hslash, hsub⟩ := ih (hsplit ▸ List.mem_cons_of_mem w' h)
          exact ⟨hslash, fun x hx => List.mem_cons_of_mem c (hsub x hx)⟩

theorem isComponent_ofList {w : List Char} (hempty : w ≠ []) (hdot : w ≠ ['.'])
    (hparent : w ≠ ['.', '.']) (hslash : '/' ∉ w) (hnul : '\x00' ∉ w) :
    IsComponent (String.ofList w) := by
  refine ⟨fun h => hempty ?_, fun h => hdot ?_, fun h => hparent ?_, ?_, ?_⟩
  · simpa using congrArg String.toList h
  · simpa using congrArg String.toList h
  · simpa using congrArg String.toList h
  · simpa using hslash
  · simpa using hnul

/-- The component loop of `FilesystemTarget::parse`, over words without separators. -/
def parseComponents : (words : List (List Char)) →
    (∀ w ∈ words, '/' ∉ w ∧ '\x00' ∉ w) → Except PathError RelativePath
  | [], _ => .ok ⟨[], by simp⟩
  | w :: ws, hsep =>
    if hempty : w = [] then .error .emptyComponent
    else if hdot : w = ['.'] then .error .dotComponent
    else if hparent : w = ['.', '.'] then .error .parentComponent
    else if ':' ∈ w then .error .colonInComponent
    else do
      let rest ← parseComponents ws fun w' hw' => hsep w' (List.mem_cons_of_mem w hw')
      .ok ⟨String.ofList w :: rest.components, by
        intro c hc
        rcases List.mem_cons.mp hc with rfl | hc
        · obtain ⟨hslash, hnul⟩ := hsep w List.mem_cons_self
          exact isComponent_ofList hempty hdot hparent hslash hnul
        · exact rest.plain c hc⟩

/-- `has_drive_prefix`. -/
def hasDrivePrefix : List Char → Bool
  | c :: ':' :: _ => c.isAlpha
  | _ => false

/-- The mount and the body of a script path: `@MOUNT/body`, `@MOUNT`, or a body in the
mount `default`. -/
def splitMount : List Char → List Char × List Char
  | '@' :: rest => (rest.takeWhile (· ≠ '/'), (rest.dropWhile (· ≠ '/')).drop 1)
  | body => ("default".toList, body)

theorem mem_of_mem_splitMount {l : List Char} {c : Char} (h : c ∈ (splitMount l).2) : c ∈ l := by
  rw [splitMount.eq_def] at h
  split at h
  · exact List.mem_cons_of_mem _ ((List.dropWhile_sublist _).subset (List.mem_of_mem_drop h))
  · exact h

/-- `FilesystemTarget::parse`. -/
def FilesystemTarget.parse (scriptPath : String) : Except PathError FilesystemTarget :=
  let chars := scriptPath.toList
  if chars = [] then .error .empty
  else if hnul : '\x00' ∈ chars then .error .containsNul
  else if '\\' ∈ chars then .error .backslashSeparator
  else
    let body := (splitMount chars).2
    if hm : isMountName (String.ofList (splitMount chars).1) = true then
      if body.head? = some '/' then .error .absolute
      else if hasDrivePrefix body then .error .absolute
      else if body = [] then .ok ⟨⟨_, hm⟩, ⟨[], by simp⟩⟩
      else do
        let path ← parseComponents (splitSlash body) fun w hw =>
          ⟨(of_mem_splitSlash hw).1, fun h =>
            hnul (mem_of_mem_splitMount ((of_mem_splitSlash hw).2 _ h))⟩
        .ok ⟨⟨_, hm⟩, path⟩
    else .error .invalidMountName

/-! ## The translator of a legacy profile -/

/-- `LegacyFsTranslator`: the roots, longest first, and the working directory, which the
source asks the process for. The names of the working directory are plain. -/
structure LegacyFsTranslator where
  entries : List (MountName × List PathComponent)
  currentDir : RelativePath

namespace LegacyFsTranslator

/-- One component of `absolutize_lexical` on the names kept so far, last first. -/
def pushLexical (names : List String) (word : List Char) : List String :=
  if word = [] ∨ word = ['.'] then names
  else if word = ['.', '.'] then names.tail
  else String.ofList word :: names

/-- `absolutize_lexical`: the normal components of the absolute path, without following
links. -/
def absolutizeLexical (currentDir : List String) (path : List Char) : List String :=
  ((splitSlash path).foldl pushLexical
    (if path.head? = some '/' then [] else currentDir.reverse)).reverse

theorem isComponent_absolutizeLexical {currentDir : RelativePath} {path : List Char}
    (hnul : '\x00' ∉ path) {c : String}
    (h : c ∈ absolutizeLexical currentDir.components path) : IsComponent c := by
  have key : ∀ (words : List (List Char)) (names : List String),
      (∀ w ∈ words, '/' ∉ w ∧ '\x00' ∉ w) → (∀ n ∈ names, IsComponent n) →
      ∀ n ∈ words.foldl pushLexical names, IsComponent n := by
    intro words
    induction words with
    | nil => exact fun names _ hnames => hnames
    | cons w ws ih =>
      intro names hws hnames
      refine ih _ (fun w' hw' => hws w' (List.mem_cons_of_mem w hw')) fun n hn => ?_
      rw [pushLexical] at hn
      split at hn
      · exact hnames n hn
      split at hn
      · exact hnames n (List.mem_of_mem_tail hn)
      · rename_i hne hparent
        rcases List.mem_cons.mp hn with rfl | hn
        · obtain ⟨hslash, hnul'⟩ := hws w List.mem_cons_self
          exact isComponent_ofList (fun h => hne (.inl h)) (fun h => hne (.inr h)) hparent hslash
            hnul'
        · exact hnames n hn
  refine key _ _ (fun w hw => ⟨(of_mem_splitSlash hw).1, fun hm => ?_⟩) ?_ c (List.mem_reverse.mp h)
  · exact hnul ((of_mem_splitSlash hw).2 _ hm)
  · intro n hn
    split at hn
    · cases hn
    · exact currentDir.plain n (List.mem_reverse.mp hn)

/-- `root.components()` without the prefix and the dots. -/
def normalNames (root : List PathComponent) : List String :=
  root.filterMap fun
    | .normal n => some n
    | _ => none

/-- Whether an absolute path lies under a root: `abs.starts_with(root)` or a root
without names, and the names of the root are a prefix. -/
def under (names : List String) (root : List PathComponent) : Bool :=
  (root.isPrefixOf (.rootDir :: names.map .normal) || (normalNames root).isEmpty) &&
    (normalNames root).isPrefixOf names

/-- `translate`: the target under the first root that contains the path. -/
def translate (t : LegacyFsTranslator) (scriptPath : String) :
    Except PathError (Option FilesystemTarget) :=
  let chars := scriptPath.toList
  if chars = [] then .error .empty
  else if hnul : '\x00' ∈ chars then .error .containsNul
  else
    let names := absolutizeLexical t.currentDir.components chars
    if names.any fun c => c.toList.contains ':' then .error .colonInComponent
    else
      .ok <| (t.entries.find? fun e => under names e.2).map fun e =>
        ⟨e.1, ⟨names.drop (normalNames e.2).length, fun _ hc =>
          isComponent_absolutizeLexical hnul (List.mem_of_mem_drop hc)⟩⟩

end LegacyFsTranslator

end Tsumugi.Capability
