import Tsumugi.Lang.Value

/-!
# Bytecode (`opcode.rs`, `chunk.rs`, `builtin_registry.rs`)

The instruction set, the registry of builtins the compiler and the machine consult,
the values of the machine, and the chunk with its builder. Values and chunks are
mutually recursive: a constant may be a function value, and a function value holds
the chunk of its body.

Two fields of a chunk are not in the source and nothing reads them: `boundaries` logs
where statements begin and end, with the number of declared locals there, and `live`
has the number of declared locals for every instruction. They say what the compiler
believed, so that results can compare it with what the machine does.
-/

namespace Tsumugi.Bytecode

/-- `MutationTarget`. -/
inductive MutationTarget
  | localSlot (slot : Nat)
  | upvalue (index : Nat)
  | globalName (name : String)
deriving DecidableEq, Repr

/-- `CaptureDesc`. -/
inductive CaptureDesc
  | localSlot (slot : Nat)
  | upvalue (index : Nat)
deriving DecidableEq, Repr

/-! ## The registry of builtins -/

/-- `BuiltinId`. -/
inductive BuiltinId
  | len | push | pop | keys | values | hasKey | type | slice | contains | sort | reverse | range
  | split | join | trim | upper | lower | startsWith | endsWith | replace
  | toInt | toStr | toFloat | abs | min | max | floor | ceil | round
  | now | formatTime
  | print | input | args | exit
  | map | filter | each
  | readFile | readLines | writeFile | appendFile
  | env
  | pathExists | pathJoin | mkdir | remove | removeDir | removeTree | rename | listDir | fileSize
  | isFile | isDir
deriving DecidableEq, Repr

/-- `Execution`. -/
inductive Execution
  | pureCore
  | context
deriving DecidableEq, Repr

/-- `BuiltinSpec`. -/
structure BuiltinSpec where
  id : BuiltinId
  name : String
  execution : Execution

/-- `PUBLIC_BUILTINS`. -/
def publicBuiltins : List BuiltinSpec :=
  [⟨.len, "len", .pureCore⟩, ⟨.push, "push", .context⟩, ⟨.pop, "pop", .context⟩,
    ⟨.keys, "keys", .pureCore⟩, ⟨.values, "values", .pureCore⟩, ⟨.hasKey, "has_key", .pureCore⟩,
    ⟨.type, "type", .pureCore⟩, ⟨.slice, "slice", .pureCore⟩, ⟨.contains, "contains", .pureCore⟩,
    ⟨.sort, "sort", .pureCore⟩, ⟨.reverse, "reverse", .pureCore⟩, ⟨.range, "range", .pureCore⟩,
    ⟨.split, "split", .pureCore⟩, ⟨.join, "join", .pureCore⟩, ⟨.trim, "trim", .pureCore⟩,
    ⟨.upper, "upper", .pureCore⟩, ⟨.lower, "lower", .pureCore⟩,
    ⟨.startsWith, "starts_with", .pureCore⟩, ⟨.endsWith, "ends_with", .pureCore⟩,
    ⟨.replace, "replace", .pureCore⟩, ⟨.toInt, "to_int", .pureCore⟩, ⟨.toStr, "to_str", .pureCore⟩,
    ⟨.toFloat, "to_float", .pureCore⟩, ⟨.abs, "abs", .pureCore⟩, ⟨.min, "min", .pureCore⟩,
    ⟨.max, "max", .pureCore⟩, ⟨.floor, "floor", .pureCore⟩, ⟨.ceil, "ceil", .pureCore⟩,
    ⟨.round, "round", .pureCore⟩, ⟨.now, "now", .context⟩, ⟨.formatTime, "format_time", .pureCore⟩,
    ⟨.print, "print", .context⟩, ⟨.input, "input", .context⟩, ⟨.args, "args", .context⟩,
    ⟨.exit, "exit", .context⟩, ⟨.map, "map", .context⟩, ⟨.filter, "filter", .context⟩,
    ⟨.each, "each", .context⟩, ⟨.readFile, "read_file", .pureCore⟩,
    ⟨.readLines, "read_lines", .pureCore⟩, ⟨.writeFile, "write_file", .pureCore⟩,
    ⟨.appendFile, "append_file", .pureCore⟩, ⟨.env, "env", .context⟩,
    ⟨.pathExists, "path_exists", .pureCore⟩, ⟨.pathJoin, "path_join", .pureCore⟩,
    ⟨.mkdir, "mkdir", .pureCore⟩, ⟨.remove, "remove", .pureCore⟩,
    ⟨.removeDir, "remove_dir", .pureCore⟩, ⟨.removeTree, "remove_tree", .pureCore⟩,
    ⟨.rename, "rename", .pureCore⟩, ⟨.listDir, "list_dir", .pureCore⟩,
    ⟨.fileSize, "file_size", .pureCore⟩, ⟨.isFile, "is_file", .pureCore⟩,
    ⟨.isDir, "is_dir", .pureCore⟩]

/-- `lookup_public`. -/
def lookupPublic (name : String) : Option BuiltinSpec := publicBuiltins.find? (·.name = name)

/-- `is_public_builtin`. -/
def isPublicBuiltin (name : String) : Bool := (lookupPublic name).isSome

/-- `builtin_core::is_context_builtin`: `print` is left to the compiler. -/
def isContextBuiltin (name : String) : Bool :=
  ((lookupPublic name).any fun spec => spec.execution == .context) && name != "print"

/-- `id_of`. -/
def idOf (name : String) : Option BuiltinId := (lookupPublic name).map (·.id)

/-- `is_registered`. -/
def isRegistered (id : BuiltinId) : Bool := publicBuiltins.any (·.id = id)

/-- `name_of`. -/
def nameOf (id : BuiltinId) : String :=
  ((publicBuiltins.find? (·.id = id)).map (·.name)).getD ""

theorem isRegistered_of_idOf {name : String} {id : BuiltinId} (h : idOf name = some id) :
    isRegistered id = true := by
  cases id <;> rfl

/-! ## Instructions -/

/-- `OpCode`. -/
inductive OpCode
  | loadConst (index : Nat)
  | loadConstRaw (index : Nat)
  | add | sub | mul | div | mod
  | eq | notEq | lt | gt | ltEq | gtEq
  | not
  | negate
  | getLocal (slot : Nat)
  | setLocal (slot : Nat)
  | getGlobal (name : String)
  | getGlobalForCall (name : String)
  | setGlobal (name : String)
  | registerGlobal (name : String) (slot : Nat)
  | jumpIfGlobalDefined (name : String) (target : Nat)
  | requireGlobal (name : String)
  | jump (target : Nat)
  | jumpIfFalse (target : Nat)
  | jumpIfFalseKeep (target : Nat)
  | jumpIfTrueKeep (target : Nat)
  | loop (target : Nat)
  | prepareCall
  | validateCall (argCount : Nat)
  | call (argCount : Nat)
  | returnValue
  | getUpvalue (index : Nat)
  | setUpvalue (index : Nat)
  | makeClosure (prototype : Nat)
  | validateBuiltinCall (name : String) (argCount : Nat) (firstArgIsIdentifier : Bool)
  | print (argCount : Nat)
  | pop
  | popN (count : Nat)
  | lenLocal (slot : Nat)
  | index
  | indexLocal (slot : Nat)
  | listPush
  | dictInsert
  | setIndex (target : MutationTarget)
  | toIterList
  | callBuiltin (id : BuiltinId) (argCount : Nat)
  | popUpdate
  | listPushBinding (target : MutationTarget)
  | «return»
  | setupTry (catchIp : Nat)
  | teardownTry
  | fStrConcat (count : Nat)
deriving DecidableEq, Repr

/-! ## Values and chunks -/

mutual

/-- `Value`, as the machine sees it. `fn` is a function value of the tree evaluator, which the
machine cannot call. Shared backings are not seen: every write detaches first. -/
inductive Value
  | int (n : Int)
  | float (bits : UInt64)
  | str (s : String)
  | bool (b : Bool)
  | null
  | list (items : List Value)
  | dict (entries : List (String × Value))
  | error (errorType message : String) (line : Nat)
  | fn (defn : FnDef)
  | vmFn (f : FnValue)

/-- `Value::VmFn`. An upvalue is the address of a shared cell; `captured` numbers the variable
instances that the upvalues were captured from and is read by nothing. -/
structure FnValue where
  id : Nat
  name : String
  arity : Nat
  params : List String
  chunk : Chunk
  upvalues : List Addr
  captured : List Nat

/-- `Chunk`. -/
structure Chunk where
  name : String
  code : List OpCode
  constants : List Value
  lines : List Nat
  prototypes : List FunctionPrototype
  maxLocals : Nat
  boundaries : List (Nat × Nat)
  live : List Nat

/-- `FunctionPrototype`. -/
structure FunctionPrototype where
  name : String
  arity : Nat
  params : List String
  chunk : Chunk
  captures : List CaptureDesc

end

/-- `ChunkBuildError`. -/
inductive ChunkBuildError
  | badOffset
  | notAJump
deriving DecidableEq, Repr

/-- The same jump with another target. `SetupTry` is not among the instructions that
`patch_jump` rewrites. -/
def OpCode.retarget (target : Nat) : OpCode → Option OpCode
  | .jump _ => some (.jump target)
  | .jumpIfFalse _ => some (.jumpIfFalse target)
  | .jumpIfFalseKeep _ => some (.jumpIfFalseKeep target)
  | .jumpIfTrueKeep _ => some (.jumpIfTrueKeep target)
  | .jumpIfGlobalDefined name _ => some (.jumpIfGlobalDefined name target)
  | _ => none

namespace Chunk

/-- `new`. -/
def new : Chunk where
  name := "<main>"
  code := []
  constants := []
  lines := []
  prototypes := []
  maxLocals := 0
  boundaries := []
  live := []

/-- `emit`, with the number of declared locals. -/
def emit (c : Chunk) (op : OpCode) (line declared : Nat) : Chunk :=
  { c with code := c.code ++ [op], lines := c.lines ++ [line], live := c.live ++ [declared] }

/-- `add_constant`. -/
def addConstant (c : Chunk) (value : Value) : Chunk := { c with constants := c.constants ++ [value] }

/-- `add_prototype`. -/
def addPrototype (c : Chunk) (prototype : FunctionPrototype) : Chunk :=
  { c with prototypes := c.prototypes ++ [prototype] }

/-- `patch_jump`. -/
def patchJump (c : Chunk) (offset : Nat) : Except ChunkBuildError Chunk :=
  match c.code[offset]? with
  | none => .error .badOffset
  | some op =>
    match op.retarget c.code.length with
    | some op => .ok { c with code := c.code.set offset op }
    | none => .error .notAJump

end Chunk

/-! ## What the machine asks of a value -/

namespace Value

/-- A value of the tree evaluator with the same `type_name`; the errors say no more of a value. -/
def sample : Value → Tsumugi.Value
  | .int n => .int n
  | .float bits => .float bits
  | .str s => .str 0 s
  | .bool b => .bool b
  | .null => .null
  | .list _ => .list 0 []
  | .dict _ => .dict 0 []
  | .error errorType message line => .error errorType message line
  | .fn defn => .fn 0 defn [] 0 []
  | .vmFn f => .fn 0 ⟨f.name, f.params, []⟩ [] 0 []

/-- `is_truthy`. -/
def isTruthy : Value → Bool
  | .bool b => b
  | .null => false
  | .int n => n != 0
  | .float bits => bits != 0 && bits != 0x8000000000000000
  | .str s => s != ""
  | .list items => !items.isEmpty
  | .dict entries => !entries.isEmpty
  | .error .. | .fn _ | .vmFn _ => true

mutual

/-- `depth`. -/
def depth : Value → Nat
  | .list items => 1 + itemsDepth items
  | .dict entries => 1 + entriesDepth entries
  | _ => 0

def itemsDepth : List Value → Nat
  | [] => 0
  | v :: rest => max (depth v) (itemsDepth rest)

def entriesDepth : List (String × Value) → Nat
  | [] => 0
  | (_, v) :: rest => max (depth v) (entriesDepth rest)

end

/-- `check_element_depth`. -/
def checkElementDepth (v : Value) (line : Nat) : Except TsumugiError Unit :=
  if maxValueDepth ≤ v.depth then .error (.valueDepthLimit line) else .ok ()

mutual

/-- Every function value inside meets `P`. The constants of a chunk are not inside. -/
def All (P : FnValue → Prop) : Value → Prop
  | .list items => AllItems P items
  | .dict entries => AllEntries P entries
  | .vmFn f => P f
  | _ => True

def AllItems (P : FnValue → Prop) : List Value → Prop
  | [] => True
  | v :: rest => All P v ∧ AllItems P rest

def AllEntries (P : FnValue → Prop) : List (String × Value) → Prop
  | [] => True
  | (_, v) :: rest => All P v ∧ AllEntries P rest

end

theorem allItems_iff {P : FnValue → Prop} {items : List Value} :
    AllItems P items ↔ ∀ v ∈ items, v.All P := by
  induction items with
  | nil => simp [AllItems]
  | cons v rest ih => simp [AllItems, ih]

theorem allEntries_iff {P : FnValue → Prop} {entries : List (String × Value)} :
    AllEntries P entries ↔ ∀ e ∈ entries, e.2.All P := by
  induction entries with
  | nil => simp [AllEntries]
  | cons e rest ih =>
    obtain ⟨k, v⟩ := e
    simp [AllEntries, ih]

@[simp] theorem all_list {P : FnValue → Prop} {items : List Value} :
    (list items).All P ↔ ∀ v ∈ items, v.All P := allItems_iff

@[simp] theorem all_dict {P : FnValue → Prop} {entries : List (String × Value)} :
    (dict entries).All P ↔ ∀ e ∈ entries, e.2.All P := allEntries_iff

@[simp] theorem all_vmFn {P : FnValue → Prop} {f : FnValue} : (vmFn f).All P ↔ P f := Iff.rfl

end Value

end Tsumugi.Bytecode
