import Mathlib.Data.Finset.Basic
import Tsumugi.Lang.Ast
import Tsumugi.Lang.Error
import Tsumugi.Lib.Proc

/-!
# The import loader of a session (`module.rs`)

`link` rewrites a program before it runs: the statements of a module take the place
of the `import` that first meets it. The loader remembers across programs which
modules were met.

The file system, the sandbox and the parser are a fixed `FileTree` over a type `P` of
paths; `T` are the heap tokens of the module records. `link_into` calls itself, so it
runs on fuel, one unit for each active call.
-/

namespace Tsumugi.Modules

/-- `MAX_IMPORT_DEPTH`. -/
def maxImportDepth : Nat := 128

/-- What linking reads: `Path::join`, `fs::canonicalize`, `sandbox::check_path`,
`fs::read_to_string`, `Path::parent`, and the lexer with the parser. -/
structure FileTree (P : Type) where
  join : P → String → P
  canonicalize : P → Option P
  checkPath : P → Nat → Except TsumugiError P
  readToString : P → Option String
  parent : P → Option P
  parse : String → Except (List TsumugiError) Program

/-- `LoadedModule`. -/
structure LoadedModule (P : Type) where
  path : P
  byteLen : Nat
  line : Nat
deriving DecidableEq

/-- `ModuleLoader`. -/
structure ModuleLoader (P T : Type) where
  baseDir : P
  loaded : Finset P
  recordTokens : P → Option T

variable {P T : Type} [DecidableEq P]

namespace ModuleLoader

/-- One step of `forget`. -/
def remove (l : ModuleLoader P T) (path : P) : ModuleLoader P T :=
  { l with
    loaded := l.loaded.erase path
    recordTokens := Function.update l.recordTokens path none }

/-- `forget`. -/
def forget (l : ModuleLoader P T) (modules : List (LoadedModule P)) : ModuleLoader P T :=
  modules.foldl (fun l m => l.remove m.path) l

/-- `register_record_token`. -/
def registerRecordToken (l : ModuleLoader P T) (path : P) (token : T) : ModuleLoader P T :=
  { l with recordTokens := Function.update l.recordTokens path (some token) }

/-- `set_base_dir`. -/
def setBaseDir (fs : FileTree P) (l : ModuleLoader P T) (script : P) : ModuleLoader P T :=
  let l := match fs.parent script with
    | some parent => { l with baseDir := parent }
    | none => l
  match fs.canonicalize script with
  | some canonical => { l with loaded := insert canonical l.loaded }
  | none => l

end ModuleLoader

/-! ## Errors -/

/-- `import_error`. -/
def importError (line messageId : Nat) (message : String) : TsumugiError :=
  .runtime line message .«import» [] (some messageId)

/-- `message_id::IMPORT_DEPTH`. -/
def depthError (line : Nat) : TsumugiError :=
  importError line 31 s!"import 失敗: ネストが深すぎます (上限: {maxImportDepth})"

/-- `message_id::IMPORT_UNREADABLE`. -/
def unreadableError (path : String) (line : Nat) : TsumugiError :=
  importError line 32 s!"import に失敗しました: モジュールを読み込めません: {path}"

/-- `message_id::IMPORT_SYNTAX`: the first parse error is quoted. -/
def syntaxError (path : String) (line : Nat) : List TsumugiError → TsumugiError
  | cause :: _ => importError line 33
      s!"import に失敗しました: モジュールの構文が不正です: {path} ({cause.line}行目: {cause.message})"
  | [] => importError line 33 s!"import に失敗しました: モジュールの構文が不正です: {path}"

/-! ## Linking -/

/-- Why linking stops: an error of the source, or a call below the last unit of fuel. -/
inductive Halt
  | raised (error : TsumugiError)
  | exhausted
deriving DecidableEq

/-- The loader with the two vectors that `link_into` writes to. -/
structure Linking (P T : Type) where
  loader : ModuleLoader P T
  out : List Stmt
  newlyLoaded : List (LoadedModule P)

/-- A part of the linker. -/
abbrev Link (P T α : Type) := Proc (Linking P T) Halt α

namespace Linking

def push (stmt : Stmt) (s : Linking P T) : Linking P T := { s with out := s.out ++ [stmt] }

/-- `self.loaded.insert` and `newly_loaded.push`. -/
def mark (module : LoadedModule P) (s : Linking P T) : Linking P T :=
  { s with
    loader := { s.loader with loaded := insert module.path s.loader.loaded }
    newlyLoaded := s.newlyLoaded ++ [module] }

end Linking

/-- `?` on a result that has not touched the loader. -/
def liftExcept {α : Type} : Except TsumugiError α → Link P T α
  | .ok a => pure a
  | .error e => Proc.stop (.raised e)

/-- `resolve`: `none` for a module that was met before. The depth is only checked for
the others. -/
def resolve (fs : FileTree P) (loader : ModuleLoader P T) (baseDir : P) (path : String)
    (line depth : Nat) : Except TsumugiError (Option (P × String)) :=
  match fs.canonicalize (fs.join baseDir path) with
  | none => .error (unreadableError path line)
  | some canonical => do
    let _ ← fs.checkPath canonical line
    if canonical ∈ loader.loaded then return none
    if maxImportDepth ≤ depth then throw (depthError line)
    match fs.readToString canonical with
    | none => throw (unreadableError path line)
    | some source => return some (canonical, source)

/-- `parse_module`. -/
def parseModule (fs : FileTree P) (source path : String) (line : Nat) :
    Except TsumugiError Program :=
  match fs.parse source with
  | .ok program => .ok program
  | .error errors => .error (syntaxError path line errors)

/-- One round of the loop of `link_into`; `child` is the recursive call. -/
def linkStmt (fs : FileTree P) (child : P → Program → Link P T Unit) (baseDir : P) (depth : Nat) :
    Stmt → Link P T Unit
  | .«import» path line => do
    let loader ← Proc.gets Linking.loader
    match ← liftExcept (resolve fs loader baseDir path line depth) with
    | none => pure ()
    | some (canonical, source) =>
      Proc.modify (Linking.mark ⟨canonical, source.utf8ByteSize, line⟩)
      let module ← liftExcept (parseModule fs source path line)
      child ((fs.parent canonical).getD baseDir) module
  | stmt => Proc.modify (Linking.push stmt)

/-- `link_into`. -/
def linkInto (fs : FileTree P) : Nat → Program → P → Nat → Link P T Unit
  | 0, _, _, _ => Proc.stop .exhausted
  | fuel + 1, program, baseDir, depth =>
    program.forM (linkStmt fs (fun dir module => linkInto fs fuel module dir (depth + 1))
      baseDir depth)

/-- `matches!(stmt, Stmt::Import { .. })`. -/
def isImport : Stmt → Bool
  | .«import» .. => true
  | _ => false

/-- `link`, with the loader it leaves. -/
def link (fs : FileTree P) (fuel : Nat) (loader : ModuleLoader P T) (program : Program) :
    Except Halt (Option Program × List (LoadedModule P)) × ModuleLoader P T :=
  if program.any isImport then
    match (linkInto fs fuel program loader.baseDir 0).run ⟨loader, [], []⟩ with
    | (.ok (), s) => (.ok (some s.out, s.newlyLoaded), s.loader)
    | (.error e, s) => (.error e, s.loader.forget s.newlyLoaded)
  else (.ok (none, []), loader)

end Tsumugi.Modules
