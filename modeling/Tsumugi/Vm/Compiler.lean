import Tsumugi.Vm.Chunk
import Tsumugi.Lib.Proc

/-!
# The compiler (`compiler.rs`)

One pass over the syntax tree that emits instructions, remembers where jumps wait for
their target, and keeps the table of declared locals, whose positions are the stack
slots of the running function. A function body is compiled by a compiler of its own,
which sees the locals of its parent and the names of the ancestors.

The functions that compile a construct take the compilation of its parts as actions, so
the recursion over the tree is in `compileStmt` and `compileExpr` alone. `loops` is
kept innermost first. A compilation stops with an error of the language or, where the
source indexes without a check, with a panic.
-/

namespace Tsumugi.Bytecode

/-- `Local`. -/
structure Local where
  name : String
  depth : Nat
deriving DecidableEq, Repr

/-- `LoopState`. -/
structure LoopState where
  continueTarget : Nat
  breaks : List Nat
  continues : List Nat
  localsCount : Nat
  continueResolved : Bool
  tryDepth : Nat
  line : Nat
deriving DecidableEq, Repr

/-- `Upvalue`. -/
structure Upvalue where
  slot : Nat
  isLocal : Bool
  name : String
deriving DecidableEq, Repr

/-- `Compiler`. -/
structure Compiler where
  chunk : Chunk
  locals : List Local
  scopeDepth : Nat
  loops : List LoopState
  upvalues : List Upvalue
  enclosingLocals : Option (List Local)
  enclosingUpvalues : Option (List Upvalue)
  maxLocals : Nat

/-- Why a compilation ends without a chunk. -/
inductive CompileStop
  | error (e : TsumugiError)
  | panic
deriving DecidableEq, Repr

/-- A function of the compiler. -/
abbrev Compile (α : Type) := Proc Compiler CompileStop α

/-- The position of the last member that passes a test. -/
def lastIndex {α : Type} (p : α → Bool) : List α → Option Nat
  | [] => none
  | a :: rest =>
    match lastIndex p rest with
    | some i => some (i + 1)
    | none => if p a then some 0 else none

/-- The position of the first member that passes a test. -/
def firstIndex {α : Type} (p : α → Bool) (l : List α) : Option Nat := l.findIdx? p

/-- `Expr::Ident(name)`. -/
def identName : Expr → Option String
  | .ident name => some name
  | _ => none

namespace Compiler

/-- `new`. -/
def new : Compiler where
  chunk := Chunk.new
  locals := []
  scopeDepth := 0
  loops := []
  upvalues := []
  enclosingLocals := none
  enclosingUpvalues := none
  maxLocals := 0

/-- `new_enclosed`. -/
def newEnclosed (enclosingLocals : List Local) (enclosingUpvalues : List Upvalue) : Compiler :=
  { new with
    enclosingLocals := some enclosingLocals, enclosingUpvalues := some enclosingUpvalues }

/-- `add_local`. -/
def addLocal (name : String) (c : Compiler) : Compiler :=
  { c with
    maxLocals := max c.maxLocals (c.locals.length + 1)
    locals := c.locals ++ [⟨name, c.scopeDepth⟩] }

/-- `resolve_local`. -/
def resolveLocal (c : Compiler) (name : String) : Option Nat :=
  lastIndex (fun l => l.name == name) c.locals

/-- `add_upvalue`. -/
def addUpvalue (slot : Nat) (isLocal : Bool) (name : String) (c : Compiler) : Nat × Compiler :=
  match firstIndex (fun uv => uv.slot == slot && uv.isLocal == isLocal) c.upvalues with
  | some i => (i, c)
  | none => (c.upvalues.length, { c with upvalues := c.upvalues ++ [⟨slot, isLocal, name⟩] })

/-- Where a name stands outside the function: a local of the parent, then a name of the
ancestors. -/
def outerBinding (c : Compiler) (name : String) : Option (Nat × Bool) :=
  match c.enclosingLocals.bind (lastIndex fun l => l.name == name) with
  | some i => some (i, true)
  | none => (c.enclosingUpvalues.bind (firstIndex fun uv => uv.name == name)).map (·, false)

/-- `resolve_upvalue`. -/
def resolveUpvalue (name : String) (c : Compiler) : Option Nat × Compiler :=
  match c.outerBinding name with
  | some (slot, isLocal) => (some (c.addUpvalue slot isLocal name).1, (c.addUpvalue slot isLocal name).2)
  | none => (none, c)

/-- The fold of `build_ancestor_vars`: a name that is already there is not added. -/
def addAncestors (vars : List Upvalue) : List Upvalue → List Upvalue
  | [] => vars
  | uv :: rest =>
    addAncestors (if vars.any fun v => v.name == uv.name then vars else vars ++ [uv]) rest

/-- `build_ancestor_vars`. -/
def buildAncestorVars (c : Compiler) : List Upvalue :=
  addAncestors ((c.enclosingLocals.getD []).map fun l => ⟨0, true, l.name⟩)
    (c.enclosingUpvalues.getD [])

/-- `ensure_upvalue_for_ancestor`. -/
def ensureUpvalueForAncestor (name : String) (c : Compiler) : Nat × Compiler :=
  match firstIndex (fun uv => uv.name == name) c.upvalues with
  | some i => (i, c)
  | none =>
    match c.outerBinding name with
    | some (slot, isLocal) => c.addUpvalue slot isLocal name
    | none => c.addUpvalue 0 false name

/-- `resolve_child_upvalues`. -/
def resolveChildUpvalues : List Upvalue → Compiler → List Upvalue × Compiler
  | [], c => ([], c)
  | uv :: rest, c =>
    if uv.isLocal then
      (uv :: (resolveChildUpvalues rest c).1, (resolveChildUpvalues rest c).2)
    else
      let r := c.ensureUpvalueForAncestor uv.name
      ({ uv with slot := r.1 } :: (resolveChildUpvalues rest r.2).1,
        (resolveChildUpvalues rest r.2).2)

end Compiler

/-- The capture descriptor of an upvalue, as `add_prototype` writes it. -/
def Upvalue.capture (uv : Upvalue) : CaptureDesc :=
  if uv.isLocal then .localSlot uv.slot else .upvalue uv.slot

namespace Compile

/-- `Chunk::emit`. -/
def emit (op : OpCode) (line : Nat) : Compile Unit :=
  Proc.modify fun c => { c with chunk := c.chunk.emit op line c.locals.length }

/-- `Chunk::emit_constant`. -/
def emitConstant (value : Value) (line : Nat) : Compile Unit := do
  Proc.modify fun c => { c with chunk := c.chunk.addConstant value }
  let c ← Proc.gets id
  emit (.loadConst (c.chunk.constants.length - 1)) line

/-- `Chunk::len`. -/
def here : Compile Nat := Proc.gets fun c => c.chunk.code.length

/-- `self.locals.len()`. -/
def localsLen : Compile Nat := Proc.gets fun c => c.locals.length

/-- `Chunk::emit_jump`. -/
def emitJump (op : OpCode) (line : Nat) : Compile Nat := do
  let offset ← here
  emit op line
  pure offset

/-- `patch_jump`. -/
def patchJump (offset : Nat) : Compile Unit where
  run c :=
    match c.chunk.patchJump offset with
    | .ok chunk => (.ok (), { c with chunk })
    | .error .badOffset => (.error (.error (.internal 0 "jump offset が範囲外です")), c)
    | .error .notAJump =>
      (.error (.error (.internal 0 "jump 命令ではない offset を patch しました")), c)

/-- Patch several jumps to the same place. -/
def patchAll : List Nat → Compile Unit
  | [] => pure ()
  | offset :: rest => do
    patchJump offset
    patchAll rest

/-- Log the beginning or the end of a statement. -/
def mark : Compile Unit :=
  Proc.modify fun c => { c with chunk := { c.chunk with
    boundaries := c.chunk.boundaries ++ [(c.chunk.code.length, c.locals.length)] } }

/-- A statement, between its two marks. -/
def marked (m : Compile Unit) : Compile Unit := do
  mark
  m
  mark

/-! ## Scopes and names -/

/-- `begin_scope`. -/
def beginScope : Compile Unit := Proc.modify fun c => { c with scopeDepth := c.scopeDepth + 1 }

/-- The locals that are left when a scope at this depth is open. -/
def keepLocals (depth : Nat) (locals : List Local) : List Local :=
  (locals.reverse.dropWhile fun l => depth < l.depth).reverse

/-- `end_scope`. The instruction that pops the locals still finds them declared. -/
def endScope (line : Nat) : Compile Unit := do
  Proc.modify fun c => { c with scopeDepth := c.scopeDepth - 1 }
  let c ← Proc.gets id
  let kept := keepLocals c.scopeDepth c.locals
  Proc.when (kept.length < c.locals.length) do
    emit (.popN (c.locals.length - kept.length)) line
  Proc.modify fun c => { c with locals := kept }

/-- A block in a scope of its own. -/
def inScope (body : Compile Unit) (line : Nat) : Compile Unit := do
  beginScope
  body
  endScope line

/-- `add_local`. -/
def addLocal (name : String) : Compile Unit := Proc.modify (Compiler.addLocal name)

/-- `declare_local`. -/
def declareLocal (name : String) (line : Nat) : Compile Unit := do
  let c ← Proc.gets id
  addLocal name
  Proc.when (c.scopeDepth = 0 ∧ c.enclosingLocals = none) do
    emit (.registerGlobal name c.locals.length) line

/-- `resolve_upvalue`. -/
def resolveUpvalue (name : String) : Compile (Option Nat) :=
  Proc.update fun c => c.resolveUpvalue name

/-- `resolve_mutation_target`. -/
def resolveMutationTarget (name : String) : Compile MutationTarget := do
  let c ← Proc.gets id
  match c.resolveLocal name with
  | some slot => pure (.localSlot slot)
  | none =>
    match ← resolveUpvalue name with
    | some index => pure (.upvalue index)
    | none => pure (.globalName name)

/-- `emit_get_mutation_target`. -/
def emitGetMutationTarget (target : MutationTarget) (line : Nat) : Compile Unit :=
  match target with
  | .localSlot slot => emit (.getLocal slot) line
  | .upvalue index => emit (.getUpvalue index) line
  | .globalName name => emit (.getGlobal name) line

/-- `emit_set_mutation_target`. -/
def emitSetMutationTarget (target : MutationTarget) (line : Nat) : Compile Unit :=
  match target with
  | .localSlot slot => emit (.setLocal slot) line
  | .upvalue index => emit (.setUpvalue index) line
  | .globalName name => emit (.setGlobal name) line

/-- `RequireGlobal` for a target that is a global, before the operands. -/
def requireTarget (target : MutationTarget) (line : Nat) : Compile Unit :=
  match target with
  | .globalName name => emit (.requireGlobal name) line
  | .localSlot _ | .upvalue _ => pure ()

/-- `compile_name_read`. -/
def compileNameRead (name : String) (line : Nat) (forCall : Bool) : Compile Unit := do
  let c ← Proc.gets id
  match c.resolveLocal name with
  | some slot => emit (.getLocal slot) line
  | none =>
    match ← resolveUpvalue name with
    | some index => emit (.getUpvalue index) line
    | none => if forCall then emit (.getGlobalForCall name) line else emit (.getGlobal name) line

/-- `Stmt::Assign`, after the value. -/
def compileAssign (name : String) (line : Nat) : Compile Unit := do
  let target ← resolveMutationTarget name
  emitSetMutationTarget target line
  emit .pop line

/-- `Stmt::IndexAssign`. -/
def compileIndexAssign (name : String) (index value : Compile Unit) (line : Nat) :
    Compile Unit := do
  let target ← resolveMutationTarget name
  requireTarget target line
  index
  value
  emit (.setIndex target) line

/-! ## Control flow -/

/-- Change the innermost loop, if there is one. -/
def onLoop (f : LoopState → LoopState) : Compile Unit :=
  Proc.modify fun c =>
    match c.loops with
    | l :: rest => { c with loops := f l :: rest }
    | [] => c

/-- `loops.pop().unwrap()`. -/
def popLoop : Compile LoopState where
  run c :=
    match c.loops with
    | l :: rest => (.ok l, { c with loops := rest })
    | [] => (.error .panic, c)

/-- `loops.push`. -/
def pushLoop (l : LoopState) : Compile Unit :=
  Proc.modify fun c => { c with loops := l :: c.loops }

/-- `compile_if`. -/
def compileIf (condition thenBody elseBody : Compile Unit) (elseEmpty : Bool) (line : Nat) :
    Compile Unit := do
  condition
  let jumpToElse ← emitJump (.jumpIfFalse 0) line
  inScope thenBody line
  if elseEmpty then patchJump jumpToElse
  else do
    let jumpOverElse ← emitJump (.jump 0) line
    patchJump jumpToElse
    inScope elseBody line
    patchJump jumpOverElse

/-- `compile_while`. -/
def compileWhile (condition body : Compile Unit) (line : Nat) : Compile Unit := do
  let loopStart ← here
  let localsCount ← localsLen
  pushLoop ⟨loopStart, [], [], localsCount, true, 0, line⟩
  condition
  let exitJump ← emitJump (.jumpIfFalse 0) line
  inScope body line
  emit (.loop loopStart) line
  patchJump exitJump
  let l ← popLoop
  patchAll l.breaks

/-- The hidden locals of `compile_for`: the collection, the position and the variable. The
slots of the first two are returned. -/
def forHeader (var : String) (iter : Compile Unit) (line : Nat) : Compile (Nat × Nat) := do
  iter
  emit .toIterList line
  let collectionSlot ← localsLen
  addLocal "__collection__"
  emitConstant (.int 0) line
  let indexSlot ← localsLen
  addLocal "__index__"
  emitConstant .null line
  addLocal var
  pure (collectionSlot, indexSlot)

/-- The head of a `for` loop: test the position, then bind the next element to a new
instance of the variable. -/
def forAdvance (collectionSlot indexSlot line : Nat) : Compile Nat := do
  emit (.getLocal indexSlot) line
  emit (.lenLocal collectionSlot) line
  emit .lt line
  let exitJump ← emitJump (.jumpIfFalse 0) line
  emit .pop line
  emit (.getLocal indexSlot) line
  emit (.indexLocal collectionSlot) line
  pure exitJump

/-- The increment of a `for` loop. -/
def forIncrement (indexSlot line : Nat) : Compile Unit := do
  emit (.getLocal indexSlot) line
  emitConstant (.int 1) line
  emit .add line
  emit (.setLocal indexSlot) line
  emit .pop line

/-- The continues of the innermost loop now go here. -/
def patchContinues : Compile Unit := do
  let incrementStart ← here
  onLoop fun l => { l with continueTarget := incrementStart }
  let c ← Proc.gets id
  match c.loops with
  | [] => Proc.stop .panic
  | l :: _ => do
    onLoop fun l => { l with continues := [] }
    patchAll l.continues

/-- `compile_for`. -/
def compileFor (var : String) (iter body : Compile Unit) (line : Nat) : Compile Unit := do
  beginScope
  let (collectionSlot, indexSlot) ← forHeader var iter line
  let loopStart ← here
  let localsCount ← localsLen
  pushLoop ⟨0, [], [], localsCount, false, 0, line⟩
  let exitJump ← forAdvance collectionSlot indexSlot line
  inScope body line
  patchContinues
  forIncrement indexSlot line
  emit (.loop loopStart) line
  patchJump exitJump
  let l ← popLoop
  patchAll l.breaks
  endScope line

/-- `SetupTry` gets the address of the catch block. -/
def patchSetup (offset : Nat) : Compile Unit where
  run c :=
    match c.chunk.code[offset]? with
    | none => (.error .panic, c)
    | some (.setupTry _) =>
      (.ok (), { c with chunk := { c.chunk with
        code := c.chunk.code.set offset (.setupTry c.chunk.code.length) } })
    | some _ => (.ok (), c)

/-- `compile_try_catch`. -/
def compileTryCatch (tryBody : Compile Unit) (var : String) (catchBody : Compile Unit)
    (line : Nat) : Compile Unit := do
  let setupOffset ← here
  emit (.setupTry 0) line
  onLoop fun l => { l with tryDepth := l.tryDepth + 1 }
  inScope tryBody line
  emit .teardownTry line
  onLoop fun l => { l with tryDepth := l.tryDepth - 1 }
  let jumpOverCatch ← emitJump (.jump 0) line
  patchSetup setupOffset
  beginScope
  addLocal var
  catchBody
  endScope line
  patchJump jumpOverCatch

/-- Emit an instruction several times. -/
def emitTimes (op : OpCode) (line : Nat) : Nat → Compile Unit
  | 0 => pure ()
  | n + 1 => do
    emit op line
    emitTimes op line n

/-- What `break` and `continue` do before they jump: take down the handlers of the loop body
and pop its locals. -/
def leaveBody (l : LoopState) (line : Nat) : Compile Unit := do
  emitTimes .teardownTry line l.tryDepth
  let c ← Proc.gets id
  Proc.when (0 < c.locals.length - l.localsCount) do
    emit (.popN (c.locals.length - l.localsCount)) line

/-- `compile_break`. -/
def compileBreak (line : Nat) : Compile Unit := do
  let c ← Proc.gets id
  match c.loops with
  | [] => Proc.stop (.error (.breakOutsideLoop line))
  | l :: _ => do
    leaveBody l line
    let offset ← emitJump (.jump 0) line
    onLoop fun l => { l with breaks := l.breaks ++ [offset] }

/-- `compile_continue`. -/
def compileContinue (line : Nat) : Compile Unit := do
  let c ← Proc.gets id
  match c.loops with
  | [] => Proc.stop (.error (.continueOutsideLoop line))
  | l :: _ => do
    leaveBody l line
    if l.continueResolved then emit (.loop l.continueTarget) l.line
    else do
      let offset ← emitJump (.jump 0) line
      onLoop fun l => { l with continues := l.continues ++ [offset] }

/-! ## Functions and calls -/

/-- Run another compiler to its end. -/
def nested (child : Compiler) (m : Compile Unit) : Compile Compiler where
  run c :=
    match m.run child with
    | (.ok _, done) => (.ok done, c)
    | (.error e, _) => (.error e, c)

/-- What `compile_fn_def` and `compile_lambda` share: the body in a compiler of its own, the
prototype and `MakeClosure`. Slot 0 of the body is the function itself. -/
def compileClosure (name : String) (params : List String) (body : Compile Unit) (line : Nat) :
    Compile Unit := do
  let c ← Proc.gets id
  let child := Compiler.newEnclosed c.locals c.buildAncestorVars
  let child := { child with chunk := { child.chunk with name } }
  let child := params.foldl (fun c p => c.addLocal p) (child.addLocal name)
  let done ← nested child do
    body
    emitConstant .null line
    emit .returnValue line
  let fnChunk := { done.chunk with maxLocals := done.maxLocals }
  let upvalues ← Proc.update (Compiler.resolveChildUpvalues done.upvalues)
  let prototype : FunctionPrototype :=
    { name, arity := params.length, params, chunk := fnChunk, captures := upvalues.map (·.capture) }
  Proc.modify fun c => { c with chunk := c.chunk.addPrototype prototype }
  let c ← Proc.gets id
  emit (.makeClosure (c.chunk.prototypes.length - 1)) line

/-- `compile_fn_def`. -/
def compileFnDef (name : String) (params : List String) (body : Compile Unit) (line : Nat) :
    Compile Unit := do
  compileClosure name params body line
  declareLocal name line

/-- `compile_lambda`. -/
def compileLambda (params : List String) (body : Compile Unit) (line : Nat) : Compile Unit :=
  compileClosure "<lambda>" params body line

/-- `compile_user_call`. -/
def compileUserCall (callee args : Compile Unit) (argCount line : Nat) : Compile Unit := do
  emit .prepareCall line
  callee
  emit (.validateCall argCount) line
  args
  emit (.call argCount) line

/-- `len(name)` where the name is a local. -/
def lenSlot (c : Compiler) (name : String) (args : List Expr) : Option Nat :=
  match name, args with
  | "len", [.ident var] => c.resolveLocal var
  | _, _ => none

/-- `resolve_builtin_id`. -/
def resolveBuiltinId (name : String) (line : Nat) : Compile BuiltinId :=
  match idOf name with
  | some id => pure id
  | none =>
    Proc.stop (.error (.internal line s!"未登録の builtin をコンパイルしようとしました: {name}"))

/-- `compile_builtin_call`. `second` compiles `args[1]`, which is not checked to exist. -/
def compileBuiltinCall (name : String) (args : List Expr) (all second : Compile Unit)
    (line : Nat) : Compile Unit := do
  Proc.when (isContextBuiltin name = true) do
    emit (.validateBuiltinCall name args.length (args.head?.any Expr.isIdent)) line
  let c ← Proc.gets id
  match lenSlot c name args with
  | some slot => emit (.lenLocal slot) line
  | none => do
    let builtinId ← resolveBuiltinId name line
    match name, args.head?.bind identName with
    | "push", some var => do
      let target ← resolveMutationTarget var
      requireTarget target line
      second
      emit (.listPushBinding target) line
      emitConstant .null line
    | "pop", some var => do
      let target ← resolveMutationTarget var
      all
      emit (.callBuiltin builtinId args.length) line
      emitGetMutationTarget target line
      emit .popUpdate line
      emitSetMutationTarget target line
      emit .pop line
    | _, _ => do
      all
      emit (.callBuiltin builtinId args.length) line

/-- Whether a name is bound statically. Asking for an upvalue registers it. -/
def hasStaticBinding (name : String) : Compile Bool := do
  let c ← Proc.gets id
  match c.resolveLocal name with
  | some _ => pure true
  | none => do
    let index ← resolveUpvalue name
    pure index.isSome

/-- `Expr::Call`. `builtinCall` and `userCall` compile the two ways to call. -/
def compileCall (callee : Option String) (args : Compile Unit) (argCount : Nat)
    (builtinCall : String → Compile Unit) (userCall : Compile Unit) (line : Nat) :
    Compile Unit :=
  match callee with
  | none => userCall
  | some name =>
    if name = "print" then do
      args
      emit (.print argCount) line
      emitConstant .null line
    else if isPublicBuiltin name then do
      if ← hasStaticBinding name then userCall
      else do
        let userJump ← emitJump (.jumpIfGlobalDefined name 0) line
        builtinCall name
        let endJump ← emitJump (.jump 0) line
        patchJump userJump
        userCall
        patchJump endJump
    else userCall

/-- `and` and `or`: the jump keeps the left operand. -/
def compileShortCircuit (left right : Compile Unit) (jump : OpCode) (line : Nat) :
    Compile Unit := do
  left
  let offset ← emitJump jump line
  emit .pop line
  right
  patchJump offset

/-- The slot of a local whose element is read without copying the collection. -/
def indexSlot (c : Compiler) (object index : Expr) : Option Nat :=
  match identName object with
  | some name => if index.isSideEffectFree then c.resolveLocal name else none
  | none => none

/-- `Expr::Index`. -/
def compileIndex (object index : Expr) (compiledObject compiledIndex : Compile Unit) (line : Nat) :
    Compile Unit := do
  let c ← Proc.gets id
  match indexSlot c object index with
  | some slot => do
    compiledIndex
    emit (.indexLocal slot) line
  | none => do
    compiledObject
    compiledIndex
    emit .index line

/-- A literal part of an f-string. -/
def compileLiteralPart (s : String) (line : Nat) : Compile Unit := do
  Proc.modify fun c => { c with chunk := c.chunk.addConstant (.str s) }
  let c ← Proc.gets id
  emit (.loadConstRaw (c.chunk.constants.length - 1)) line

end Compile

/-- The instruction of a binary operator; the two that short-circuit have none. -/
def BinOpKind.opcode : BinOpKind → Option OpCode
  | .add => some .add
  | .sub => some .sub
  | .mul => some .mul
  | .div => some .div
  | .mod => some .mod
  | .eq => some .eq
  | .notEq => some .notEq
  | .lt => some .lt
  | .gt => some .gt
  | .ltEq => some .ltEq
  | .gtEq => some .gtEq
  | .and | .or => none

open Compile

/-- `Expr::BinOp`. -/
def compileBinOp (left : Compile Unit) (op : BinOpKind) (right : Compile Unit) (line : Nat) :
    Compile Unit :=
  match BinOpKind.opcode op with
  | some opcode => do
    left
    right
    emit opcode line
  | none =>
    compileShortCircuit left right
      (if op = .and then .jumpIfFalseKeep 0 else .jumpIfTrueKeep 0) line

mutual

/-- `compile_stmt`. -/
def compileStmt : Stmt → Compile Unit
  | .«let» name value line => marked do
    compileExpr value line
    declareLocal name line
  | .assign name value line => marked do
    compileExpr value line
    compileAssign name line
  | .indexAssign name index value line =>
    marked (compileIndexAssign name (compileExpr index line) (compileExpr value line) line)
  | .exprStmt e line => marked do
    compileExpr e line
    emit .pop line
  | .«if» condition thenBody elseBody line =>
    marked (compileIf (compileExpr condition line) (compileStmts thenBody) (compileStmts elseBody)
      elseBody.isEmpty line)
  | .«while» condition body line =>
    marked (compileWhile (compileExpr condition line) (compileStmts body) line)
  | .«for» var iter body line =>
    marked (compileFor var (compileExpr iter line) (compileStmts body) line)
  | .«break» line => marked (compileBreak line)
  | .«continue» line => marked (compileContinue line)
  | .fnDef name params body line => marked (compileFnDef name params (compileStmts body) line)
  | .«return» value line => marked do
    compileExpr value line
    emit .returnValue line
  | .«import» _ line => marked (Proc.stop (.error (.internal line "import がリンクされていません")))
  | .tryCatch tryBody var catchBody line =>
    marked (compileTryCatch (compileStmts tryBody) var (compileStmts catchBody) line)

/-- The statements of a block, in order. -/
def compileStmts : List Stmt → Compile Unit
  | [] => pure ()
  | s :: rest => do
    compileStmt s
    compileStmts rest

/-- `compile_expr`. -/
def compileExpr (e : Expr) (line : Nat) : Compile Unit :=
  match e with
  | .int n => emitConstant (.int n) line
  | .float bits => emitConstant (.float bits) line
  | .str s => emitConstant (.str s) line
  | .bool b => emitConstant (.bool b) line
  | .null => emitConstant .null line
  | .ident name => compileNameRead name line false
  | .binOp left op right => compileBinOp (compileExpr left line) op (compileExpr right line) line
  | .unaryOp op e => do
    compileExpr e line
    emit (match op with | .neg => .negate | .not => .not) line
  | .call callee args =>
    let userCall := compileUserCall
      (match identName callee with
        | some name => compileNameRead name line true
        | none => compileExpr callee line)
      (compileExprs args line) args.length line
    compileCall (identName callee) (compileExprs args line) args.length
      (fun name => compileBuiltinCall name args (compileExprs args line) (compileNth args 1 line)
        line) userCall line
  | .list items => do
    emitConstant (.list []) line
    compileElements items line
  | .dict pairs => do
    emitConstant (.dict []) line
    compilePairs pairs line
  | .index object index =>
    compileIndex object index (compileExpr object line) (compileExpr index line) line
  | .lambda params body => compileLambda params (compileStmts body) line
  | .fStr parts => do
    compileParts parts line
    emit (.fStrConcat parts.length) line

/-- Expressions in order, each leaving its value. -/
def compileExprs (es : List Expr) (line : Nat) : Compile Unit :=
  match es with
  | [] => pure ()
  | e :: rest => do
    compileExpr e line
    compileExprs rest line

/-- `compile_expr(&args[n])`. -/
def compileNth (es : List Expr) (n line : Nat) : Compile Unit :=
  match es, n with
  | [], _ => Proc.stop .panic
  | e :: _, 0 => compileExpr e line
  | _ :: rest, n + 1 => compileNth rest n line

/-- The elements of a list literal. -/
def compileElements (es : List Expr) (line : Nat) : Compile Unit :=
  match es with
  | [] => pure ()
  | e :: rest => do
    compileExpr e line
    emit .listPush line
    compileElements rest line

/-- The entries of a dict literal. -/
def compilePairs (pairs : List (Expr × Expr)) (line : Nat) : Compile Unit :=
  match pairs with
  | [] => pure ()
  | (k, v) :: rest => do
    compileExpr k line
    compileExpr v line
    emit .dictInsert line
    compilePairs rest line

/-- The parts of an f-string. -/
def compileParts (parts : List FStrExprPart) (line : Nat) : Compile Unit :=
  match parts with
  | [] => pure ()
  | .literal s :: rest => do
    compileLiteralPart s line
    compileParts rest line
  | .expr e :: rest => do
    compileExpr e line
    compileParts rest line

end

/-! ## Entry points -/

/-- The chunk of a program, from a compiler with an empty chunk. -/
def compileProgram (program : Program) : Compile Chunk := do
  compileStmts program
  emit .«return» 0
  Proc.gets fun c => { c.chunk with maxLocals := c.maxLocals }

/-- `compile`. -/
def compile (program : Program) : Except CompileStop Chunk :=
  match validateProgramDepth program with
  | .error e => .error (.error e)
  | .ok () => ((compileProgram program).run Compiler.new).1

/-- `compile_repl_line`. The compiler is restored when the compilation fails. -/
def compileReplLine (program : Program) (c : Compiler) : Except CompileStop Chunk × Compiler :=
  match validateProgramDepth program with
  | .error e => (.error (.error e), c)
  | .ok () =>
    match (compileProgram program).run { c with chunk := { Chunk.new with name := c.chunk.name } } with
    | (.ok chunk, done) => (.ok chunk, { done with chunk := Chunk.new })
    | (.error e, _) => (.error e, c)

end Tsumugi.Bytecode
