import Tsumugi.Vm.State
import Tsumugi.Lib.Transition

/-!
# The machine (`vm.rs`)

`dispatch` executes one instruction. `step` is one iteration of `run_frames`: fetch,
execute, catch an error, count the watchdog.

`map`, `filter` and `each` call back into `run_frames`. What the native stack of the
source holds then is kept as data: a `HostCall` is a call of one of the three that waits
for its callback, an `Iteration` is the iteration of the outer `run_frames` it was made
from. When an inner `run_frames` returns a value, `deliver` goes on with the waiting
call; when it returns an error, `escape` ends the waiting calls one after the other, as
`?` does, until an outer `run_frames` catches the error.
-/

namespace Tsumugi.Bytecode

open Budget (BudgetLedger BudgetConfig ControlStop)
open Word

/-! ## Callbacks -/

/-- The builtins that call a function value. -/
inductive Callback
  | map
  | filter
  | each
deriving DecidableEq, Repr

namespace Callback

/-- The name in the registry. -/
def name : Callback → String
  | map => "map"
  | filter => "filter"
  | each => "each"

/-- The builtin of a name. -/
def ofName : String → Option Callback
  | "map" => some map
  | "filter" => some filter
  | "each" => some each
  | _ => none

end Callback

/-- A call of `map`, `filter` or `each` whose callback is running: the item it was given, the
items that are left and what has been collected. -/
structure HostCall where
  callback : Callback
  func : Value
  item : Value
  rest : List Value
  result : List Value
  line : Nat

/-- How far a builtin has come. -/
inductive Progress
  | done (v : Value)
  | waiting (call : HostCall) (stopDepth : Nat)

/-- What an instruction leads to. -/
inductive Outcome
  | next
  | returned (v : Value)
  | suspended (call : HostCall) (stopDepth : Nat)

/-- `Value::check_elements_depth`. -/
def checkElementsDepth (line : Nat) : List Value → Except TsumugiError Unit
  | [] => .ok ()
  | v :: rest =>
    match v.checkElementDepth line with
    | .ok () => checkElementsDepth line rest
    | .error e => .error e

namespace Op

variable {W : Type} (natives : Natives W)

/-- The frame of a call. -/
def frameOf (f : FnValue) (base : Nat) : CallFrame where
  chunk := f.chunk
  ip := 0
  base
  upvalues := f.upvalues
  captured := f.captured
  localsCells := []

/-- `call_fn_value` up to `run_frames`, whose `stop_depth` is returned. -/
def callFnValue (builtin : String) (func arg : Value) (line : Nat) : Op W Nat := do
  countStep line
  checkCallDepth line
  match func with
  | .vmFn f =>
    if 1 ≠ f.arity then raise (.callbackArity line builtin f.arity)
    else do
      let s ← Proc.gets id
      push func
      push arg
      pushCallFrame (frameOf f s.stack.length) line
      pure s.frames.length
  | other => raise (.callbackNotCallable line builtin other.sample)

/-- What the three builtins do after the last callback. -/
def finishCallback (callback : Callback) (result : List Value) (line : Nat) : Op W Value :=
  match callback with
  | .map => do
    check (checkElementsDepth line result)
    host (natives.newList result) line
    pure (.list result)
  | .filter => do
    host (natives.newList result) line
    pure (.list result)
  | .each => pure .null

/-- The head of the loop over the items. -/
def advance (callback : Callback) (func : Value) (rest result : List Value) (line : Nat) :
    Op W Progress :=
  match rest with
  | [] => do
    let v ← finishCallback natives callback result line
    pure (.done v)
  | item :: rest => do
    let depth ← callFnValue callback.name func item line
    pure (.waiting ⟨callback, func, item, rest, result, line⟩ depth)

/-- What the loop collects when the callback has returned. -/
def collect (call : HostCall) (v : Value) : Op W (List Value) :=
  match call.callback with
  | .map => do
    checkCollection (call.result.length + 1) call.line
    pure (call.result ++ [v])
  | .filter =>
    if v.isTruthy then do
      checkCollection (call.result.length + 1) call.line
      pure (call.result ++ [call.item])
    else pure call.result
  | .each => pure call.result

/-- A waiting call goes on with the value of its callback. -/
def resume (call : HostCall) (v : Value) : Op W Progress := do
  let result ← collect call v
  advance natives call.callback call.func call.rest result call.line

/-- `exec_builtin`. -/
def execBuiltin (name : String) (args : List Value) (line : Nat) : Op W Progress :=
  match Callback.ofName name with
  | some callback => do
    check (checkArityCount name args.length 2 line)
    match args with
    | .list items :: func :: _ => advance natives callback func items [] line
    | other :: _ => raise (.builtinArgType line name 1 "List" other.sample)
    | [] => Proc.stop .panic
  | none => do
    let v ← native (natives.execBuiltin name args line)
    pure (.done v)

/-! ## Instructions -/

/-- `track_result`. -/
def trackResult (v : Value) (line : Nat) : Op W Value := do
  host (natives.trackResult v) line
  pure v

/-- `LoadConst`: strings and collections are charged when they are made. -/
def loadConst (index line : Nat) : Op W Unit := do
  let v ← constant index line
  match v with
  | .str _ | .list _ | .dict _ => do
    let v ← trackResult natives v line
    push v
  | v => push v

/-- The charge for a sum, which may be a new string. -/
def trackSum (op : BinOpKind) (v : Value) (line : Nat) : Op W Value :=
  if op = .add then trackResult natives v line else pure v

/-- The arithmetic and comparison instructions. -/
def binary (op : BinOpKind) (line : Nat) : Op W Unit := do
  let right ← pop natives line
  let left ← pop natives line
  let v ← check (natives.compute op left right line)
  let v ← trackSum natives op v line
  push v

/-- `Eq` and `NotEq`. -/
def equality (negated : Bool) (line : Nat) : Op W Unit := do
  let right ← pop natives line
  let left ← pop natives line
  let equal ← host (natives.valuesEqual left right) line
  push (.bool (equal != negated))

/-- `JumpIfFalseKeep` and `JumpIfTrueKeep`. -/
def jumpKeep (whenTrue : Bool) (target line : Nat) : Op W Unit := do
  let v ← peek line "スタックが空です"
  if v.isTruthy = whenTrue then setIp target line else pure ()

/-- The cell of a captured variable, with the number of the instance. -/
def captureCell (c : CaptureDesc) (line : Nat) : Op W (Addr × Nat) := do
  match c with
  | .localSlot slot => do
    let a ← ensureLocalCell natives slot line
    let f ← frame line
    let s ← Proc.gets id
    pure (a, ((s.stack[f.base + slot]?).map (·.birth)).getD 0)
  | .upvalue index => do
    let a ← upvalueCell index line
    let f ← frame line
    pure (a, f.captured.getD index 0)

/-- The cells of several captures, in order. -/
def captureAll (line : Nat) : List CaptureDesc → Op W (List (Addr × Nat))
  | [] => pure []
  | c :: rest => do
    let a ← captureCell natives c line
    let as ← captureAll line rest
    pure (a :: as)

/-- `allocate_function_id`. -/
def allocateFunctionId (line : Nat) : Op W Nat := do
  let s ← Proc.gets id
  match checkedAdd s.nextFunctionId 1 with
  | some next => do
    Proc.modify fun s => { s with nextFunctionId := next }
    pure s.nextFunctionId
  | none => raise (.internal line "FunctionId を割り当てできません")

/-- `MakeClosure`. -/
def makeClosure (index line : Nat) : Op W Unit := do
  let f ← frame line
  let p ← expect f.chunk.prototypes[index]? line
    "MakeClosure のプロトタイプ index が範囲外です"
  let cells ← captureAll natives line p.captures
  let fnId ← allocateFunctionId line
  host (natives.newVmFnHeader cells.length) line
  push (.vmFn ⟨fnId, p.name, p.arity, p.params, p.chunk, cells.map (·.1), cells.map (·.2)⟩)

/-- `ValidateCall`. -/
def validateCall (argCount line : Nat) : Op W Unit := do
  match ← peek line "ValidateCall のcalleeがありません" with
  | .vmFn f =>
    if argCount ≠ f.arity then raise (.userArity line f.name f.arity argCount) else pure ()
  | other => raise (.notCallable line other.sample)

/-- `Call`. -/
def call (argCount line : Nat) : Op W Unit := do
  checkCallDepth line
  let s ← Proc.gets id
  if s.stack.length < argCount + 1 then
    internalError line "Call のスタック要素が不足しています"
  else
    let fnPos := s.stack.length - (argCount + 1)
    match s.stack[fnPos]? with
    | none => Proc.stop .panic
    | some entry =>
      match entry.value with
      | .vmFn f =>
        if argCount ≠ f.arity then raise (.userArity line f.name f.arity argCount)
        else pushCallFrame (frameOf f fnPos) line
      | other => raise (.notCallable line other.sample)

/-- Render several values. -/
def renderAll (line : Nat) : List Value → Op W (List String)
  | [] => pure []
  | v :: rest => do
    let text ← host (natives.renderDisplay v) line
    let texts ← renderAll line rest
    pure (text :: texts)

/-- `Print`. -/
def print (argCount line : Nat) : Op W Unit := do
  requireStackLen argCount line
  let values ← popMany natives line argCount
  let output ← renderAll natives line values.reverse
  native (natives.print (" ".intercalate output) line)

/-- No cell for the slots from `start` on and below `stop`. -/
def clearRange (start stop : Nat) (cells : List (Option Addr)) : List (Option Addr) :=
  cells.mapIdx fun i c => if start ≤ i ∧ i < stop then none else c

/-- Drop the cells of the top `count` stack entries, as far as they are slots of the running
frame. -/
def dropCells (count line : Nat) : Op W Unit := do
  let s ← Proc.gets id
  let f ← frame line
  let stop := s.stack.length - f.base
  let start := s.stack.length - count - f.base
  onFrame fun f => { f with localsCells := clearRange start stop f.localsCells }

/-- `Pop`. -/
def popValue (line : Nat) : Op W Unit := do
  dropCells 1 line
  let _ ← pop natives line

/-- `PopN`. -/
def popN (count line : Nat) : Op W Unit := do
  requireStackLen count line
  dropCells count line
  let _ ← popMany natives line count

/-- `ListPush`. -/
def listPush (line : Nat) : Op W Unit := do
  let value ← pop natives line
  let s ← Proc.gets id
  checkpointStackSlot natives (s.stack.length - 1)
  match s.stack.getLast? with
  | none => internalError line "内部エラー: スタックが空です"
  | some entry =>
    match entry.value with
    | .list items => do
      checkCollection (items.length + 1) line
      check (value.checkElementDepth line)
      atStack (s.stack.length - 1) (listPushTracked natives value line)
    | _ => internalError line "内部エラー: ListPush の対象がリストではありません"

/-- `DictInsert`. -/
def dictInsert (line : Nat) : Op W Unit := do
  let value ← pop natives line
  let key ← pop natives line
  let s ← Proc.gets id
  checkpointStackSlot natives (s.stack.length - 1)
  match key with
  | .str key =>
    match s.stack.getLast? with
    | none => internalError line "内部エラー: スタックが空です"
    | some entry =>
      match entry.value with
      | .dict entries => do
        Proc.when (containsKey entries key = false) (checkCollection (entries.length + 1) line)
        check (value.checkElementDepth line)
        atStack (s.stack.length - 1) (indexSetTracked natives (.dictKey key) value line)
      | _ => internalError line "内部エラー: DictInsert の対象が辞書ではありません"
  | other => raise (.dictKeyType line other.sample)

/-- The list that `ToIterList` makes of a value; `none` for a list, which is left as it is. -/
def iterItems : Value → Option (List Value)
  | .dict entries => some (entries.map fun e => .str e.1)
  | .str s => some (s.toList.map fun c => .str c.toString)
  | _ => none

/-- `ToIterList`. -/
def toIterList (line : Nat) : Op W Unit := do
  let v ← pop natives line
  match v with
  | .list items => do
    checkCollection items.length line
    push v
  | v =>
    match iterItems v with
    | some items => do
      checkCollection items.length line
      host (natives.newList items) line
      push (.list items)
    | none => raise (.notIterable line v.sample)

/-- `PopUpdate`. -/
def popUpdate (line : Nat) : Op W Unit := do
  requireStackLen 1 line
  let s ← Proc.gets id
  checkpointStackSlot natives (s.stack.length - 1)
  atStack (s.stack.length - 1) (listPopTracked natives line)

/-- `FStrConcat`. -/
def fStrConcat (count line : Nat) : Op W Unit := do
  requireStackLen count line
  let s ← Proc.gets id
  let start := s.stack.length - count
  checkpointStackRange natives start s.stack.length
  Proc.modify fun s => { s with stack := s.stack.take start }
  let parts ← renderAll natives line ((s.stack.drop start).map (·.value))
  let v ← trackResult natives (.str (String.join parts)) line
  push v

/-- `CallBuiltin`. -/
def callBuiltin (id : BuiltinId) (argCount line : Nat) : Op W Progress := do
  requireStackLen argCount line
  let args ← popMany natives line argCount
  execBuiltin natives (nameOf id) args.reverse line

/-- An instruction that is over when it is done. -/
def plain (m : Op W Unit) : Op W Outcome := do
  m
  pure .next

/-- `dispatch`. A builtin that waits for a callback is returned. -/
def dispatch (op : OpCode) (line : Nat) : Op W Outcome :=
  match op with
  | .loadConst index => plain (loadConst natives index line)
  | .loadConstRaw index => plain do
    let v ← constant index line
    push v
  | .add => plain (binary natives .add line)
  | .sub => plain (binary natives .sub line)
  | .mul => plain (binary natives .mul line)
  | .div => plain (binary natives .div line)
  | .mod => plain (binary natives .mod line)
  | .eq => plain (equality natives false line)
  | .notEq => plain (equality natives true line)
  | .lt => plain (binary natives .lt line)
  | .gt => plain (binary natives .gt line)
  | .ltEq => plain (binary natives .ltEq line)
  | .gtEq => plain (binary natives .gtEq line)
  | .not => plain do
    let v ← pop natives line
    push (.bool (!v.isTruthy))
  | .negate => plain do
    let v ← pop natives line
    let r ← check (natives.negate v line)
    push r
  | .getLocal slot => plain do
    let v ← getLocal slot line
    push v
  | .setLocal slot => plain do
    let v ← peek line "内部エラー: スタックが空です"
    setLocal natives slot v line
  | .getGlobal name => plain do
    let v ← getGlobal name line
    push v
  | .getGlobalForCall name => plain do
    let v ← getGlobal name line
    push v
  | .setGlobal name => plain do
    let v ← peek line "SetGlobalの値がスタックにありません"
    setGlobal natives name v line
  | .registerGlobal name slot => plain (registerGlobal name slot line)
  | .jumpIfGlobalDefined name target => plain do
    let s ← Proc.gets id
    if (s.globals.lookup name).isSome then setIp target line else pure ()
  | .requireGlobal name => plain (requireGlobal name line)
  | .jump target => plain (setIp target line)
  | .jumpIfFalse target => plain do
    let v ← pop natives line
    if v.isTruthy then pure () else setIp target line
  | .jumpIfFalseKeep target => plain (jumpKeep false target line)
  | .jumpIfTrueKeep target => plain (jumpKeep true target line)
  | .loop target => plain do
    countStep line
    setIp target line
  | .getUpvalue index => plain do
    let a ← upvalueCell index line
    let s ← Proc.gets id
    push (readCell s a)
  | .setUpvalue index => plain do
    let v ← peek line "内部エラー: スタックが空です"
    let a ← upvalueCell index line
    assignCell natives a v
  | .makeClosure index => plain (makeClosure natives index line)
  | .prepareCall => plain do
    countStep line
    checkCallDepth line
  | .validateCall argCount => plain (validateCall argCount line)
  | .call argCount => plain (call argCount line)
  | .print argCount => plain (print natives argCount line)
  | .pop => plain (popValue natives line)
  | .popN count => plain (popN natives count line)
  | .lenLocal slot => plain do
    let v ← withLocalRef slot line
    let r ← check (builtinLen v line)
    push r
  | .index => plain do
    let index ← pop natives line
    let collection ← pop natives line
    let r ← check (evalIndex collection index line)
    push r
  | .indexLocal slot => plain do
    let index ← pop natives line
    let collection ← withLocalRef slot line
    let r ← check (evalIndex collection index line)
    push r
  | .listPush => plain (listPush natives line)
  | .dictInsert => plain (dictInsert natives line)
  | .setIndex target => plain do
    let value ← pop natives line
    let index ← pop natives line
    assignIndexBinding natives target index value line
  | .listPushBinding target => plain do
    let value ← pop natives line
    listPushBinding natives target value line
  | .toIterList => plain (toIterList natives line)
  | .validateBuiltinCall name argCount firstArgIsIdentifier =>
    plain (check (validateContextBuiltinCall name argCount firstArgIsIdentifier line))
  | .callBuiltin id argCount => do
    match ← callBuiltin natives id argCount line with
    | .done v => plain (push v)
    | .waiting call depth => pure (.suspended call depth)
  | .popUpdate => plain (popUpdate natives line)
  | .fStrConcat count => plain (fStrConcat natives count line)
  | .returnValue | .«return» =>
    internalError line "内部エラー: return命令がdispatchへ到達しました"
  | .setupTry _ | .teardownTry =>
    internalError line "内部エラー: try命令がdispatchへ到達しました"

/-! ## One iteration -/

/-- `take_frame`, then the stack of the frame and its handlers are dropped. -/
def leaveFrame (line : Nat) : Op W Unit := do
  let s ← Proc.gets id
  match s.frames with
  | [] => internalError line "戻り先のframeがありません"
  | f :: callers => do
    Proc.modify fun s => { s with frames := callers }
    truncateStack natives f.base
    Proc.modify fun s =>
      { s with tryHandlers := s.tryHandlers.filter (·.frameDepth ≤ s.frames.length) }

/-- The instructions that `run_frames` handles itself, and `dispatch`. -/
def execute (op : OpCode) (stopDepth line : Nat) : Op W Outcome :=
  match op with
  | .returnValue => do
    let v ← pop natives line
    leaveFrame natives line
    let s ← Proc.gets id
    if s.frames.length ≤ stopDepth then pure (.returned v)
    else do
      push v
      pure .next
  | .«return» => do
    let s ← Proc.gets id
    if s.frames.length ≤ stopDepth + 1 then pure (.returned .null)
    else do
      leaveFrame natives line
      push .null
      pure .next
  | .setupTry catchIp => do
    Proc.modify fun s =>
      let localsCount := ((s.frames.head?).map fun f => s.stack.length - f.base).getD 0
      { s with tryHandlers :=
        ⟨catchIp, s.stack.length, s.frames.length, localsCount⟩ :: s.tryHandlers }
    pure .next
  | .teardownTry => do
    Proc.modify fun s => { s with tryHandlers := s.tryHandlers.tail }
    pure .next
  | op => dispatch natives op line

end Op

/-- The two returns. -/
def OpCode.isReturn : OpCode → Bool
  | .returnValue | .«return» => true
  | _ => false

/-- What an iteration of `run_frames` has noted before it executes the instruction. -/
structure Iteration where
  stopDepth : Nat
  depthBefore : Nat
  ipBefore : Nat
  line : Nat
deriving DecidableEq, Repr

/-- The line of the call a frame waits in. -/
def CallFrame.callLine (f : CallFrame) : Nat :=
  if f.ip = 0 then 1 else (f.chunk.lines[f.ip - 1]?).getD 1

/-- The trace of the frames, innermost first. -/
def traceOf : List CallFrame → List TraceFrame
  | callee :: caller :: rest => ⟨callee.chunk.name, caller.callLine⟩ :: traceOf (caller :: rest)
  | _ => []

namespace VmStop

/-- The error of a stop that is one. -/
def error? : VmStop → Option TsumugiError
  | error e | guard e | watchdog e => some e
  | panic => none

/-- `attach_trace`. -/
def traced (frames : List CallFrame) : VmStop → VmStop
  | error e => error (e.withTrace (traceOf frames))
  | guard e => guard (e.withTrace (traceOf frames))
  | watchdog e => watchdog (e.withTrace (traceOf frames))
  | panic => panic

end VmStop

namespace Op

variable {W : Type} (natives : Natives W)

/-- Return an error from `run_frames`, with its trace. -/
def abandon {α : Type} (stop : VmStop) : Op W α := do
  let s ← Proc.gets id
  Proc.stop (stop.traced s.frames)

/-- The same frame runs as before the instruction, and it has not moved forward. -/
def stalled (it : Iteration) (s : Vm W) : Bool :=
  s.frames.length = it.depthBefore ∧ s.frames.head?.any fun f => f.ip ≤ it.ipBefore

/-- The watchdog at the end of an iteration. -/
def watchdogCheck (it : Iteration) : Op W Unit := do
  let s ← Proc.gets id
  if stalled it s then do
    let r ← (watchdogTick it.line).attempt some
    match r with
    | .ok () => pure ()
    | .error stop => abandon stop
  else pure ()

/-- Unwind to a handler and continue at its catch block with the error as a value. -/
def enterCatch (h : TryHandler) (handlers : List TryHandler) (e : TsumugiError) (line : Nat) :
    Op W Unit := do
  Proc.modify fun s => { s with
    tryHandlers := handlers, frames := s.frames.drop (s.frames.length - h.frameDepth) }
  onFrame fun f => { f with localsCells := f.localsCells.take h.localsCount }
  truncateStack natives h.stackDepth
  push (.error e.errorType e.message e.line)
  setIp h.catchIp line

/-- What an iteration does with a failed instruction: catch the error or return it. -/
def recover (it : Iteration) (stop : VmStop) : Op W Unit := do
  let s ← Proc.gets id
  match stop.error? with
  | none => Proc.stop stop
  | some e =>
    if ErrorKind.isUncatchable e.kind then abandon stop
    else
      match s.tryHandlers with
      | [] => abandon stop
      | h :: handlers =>
        if it.stopDepth < h.frameDepth then do
          enterCatch natives h handlers e it.line
          watchdogCheck it
        else abandon stop

end Op

/-- A running machine: the state, the `stop_depth` of the active `run_frames`, and the calls
that wait for it, innermost first. -/
structure Machine (W : Type) where
  vm : Vm W
  stopDepth : Nat
  suspended : List (HostCall × Iteration)

/-- What a step leads to. -/
inductive Next (W : Type)
  | running (m : Machine W)
  | finished (r : Except VmStop Value) (vm : Vm W)

section Step

variable {W : Type} (natives : Natives W)

/-- `run_frames` returns an error to the calls that wait. -/
def escape : List (HostCall × Iteration) → VmStop → Vm W → Next W
  | [], stop, vm => .finished (.error stop) vm
  | (_, it) :: rest, stop, vm =>
    match (Op.recover natives it stop).run vm with
    | (.ok (), vm) => .running ⟨vm, it.stopDepth, rest⟩
    | (.error stop, vm) => escape rest stop vm

/-- The end of an iteration: count the watchdog, or recover from the error. -/
def settle (suspended : List (HostCall × Iteration)) (it : Iteration)
    (r : Except VmStop Unit × Vm W) : Next W :=
  let after :=
    match r with
    | (.ok (), vm) => (Op.watchdogCheck it).run vm
    | (.error stop, vm) => (Op.recover natives it stop).run vm
  match after with
  | (.ok (), vm) => .running ⟨vm, it.stopDepth, suspended⟩
  | (.error stop, vm) => escape natives suspended stop vm

/-- `run_frames` returns a value to the call that waits. -/
def deliver (suspended : List (HostCall × Iteration)) (v : Value) (vm : Vm W) : Next W :=
  match suspended with
  | [] => .finished (.ok v) vm
  | (call, it) :: rest =>
    match (Op.resume natives call v).run vm with
    | (.ok (.done r), vm) => settle natives rest it ((Op.push r).run vm)
    | (.ok (.waiting call depth), vm) => .running ⟨vm, depth, (call, it) :: rest⟩
    | (.error stop, vm) => settle natives rest it (.error stop, vm)

/-- A frame whose instructions are used up: the outermost one of the active `run_frames` ends
it, another one returns null. -/
def implicitReturn (m : Machine W) : Next W :=
  if m.vm.frames.length ≤ m.stopDepth + 1 then deliver natives m.suspended .null m.vm
  else
    match (Op.leaveFrame natives 0 >>= fun _ => Op.push .null).run m.vm with
    | (.ok (), vm) => .running { m with vm }
    | (.error stop, vm) => escape natives m.suspended stop vm

/-- The iteration of `run_frames` for an instruction that has been fetched. An error of one of
the two returns leaves `run_frames` with `?`. -/
def runInstruction (op : OpCode) (it : Iteration) (suspended : List (HostCall × Iteration))
    (vm : Vm W) : Next W :=
  match (Op.surfacePendingHeapStop it.line).run vm with
  | (.error stop, vm) => settle natives suspended it (.error stop, vm)
  | (.ok (), vm) =>
    match (Op.execute natives op it.stopDepth it.line).run vm with
    | (.ok .next, vm) => settle natives suspended it (.ok (), vm)
    | (.ok (.returned v), vm) => deliver natives suspended v vm
    | (.ok (.suspended call depth), vm) => .running ⟨vm, depth, (call, it) :: suspended⟩
    | (.error stop, vm) =>
      if op.isReturn then escape natives suspended stop vm
      else settle natives suspended it (.error stop, vm)

/-- The stop of a check of the machine's own invariants. -/
def guardStop (line : Nat) (message : String) : VmStop :=
  .guard (.runtimeWithKind line .internal message)

/-- One iteration of `run_frames`. -/
def step (m : Machine W) : Next W :=
  match m.vm.frames with
  | [] => escape natives m.suspended (guardStop 0 "実行中のframeがありません") m.vm
  | f :: callers =>
    if f.chunk.code.length ≤ f.ip then implicitReturn natives m
    else
      match f.chunk.code[f.ip]?, f.chunk.lines[f.ip]? with
      | none, _ => escape natives m.suspended (guardStop 0 "命令の参照が不正です") m.vm
      | some _, none =>
        escape natives m.suspended (guardStop 0 "命令に対応する行番号がありません") m.vm
      | some op, some line =>
        runInstruction natives op ⟨m.stopDepth, m.vm.frames.length, f.ip, line⟩ m.suspended
          { m.vm with frames := { f with ip := f.ip + 1 } :: callers }

/-- The first `n` iterations from a machine, if they are enough. -/
def iterate : Nat → Machine W → Option (Except VmStop Value × Vm W)
  | 0, _ => none
  | n + 1, m =>
    match step natives m with
    | .running m => iterate n m
    | .finished r vm => some (r, vm)

/-- The machine at the beginning of `run_frames(0)`. -/
def Machine.start (vm : Vm W) : Machine W := ⟨vm, 0, []⟩

/-- `run_frames(0)`, in at most `n` iterations. -/
def runFrames (n : Nat) (vm : Vm W) : Option (Except VmStop Value × Vm W) :=
  iterate natives n (Machine.start vm)

/-- The machine as a transition system: the states that a run of `run_frames(0)` passes. -/
def machineSystem (vm : Vm W) : Transition.System (Machine W) Unit where
  init m := m = Machine.start vm
  step m _ :=
    match step natives m with
    | .running m => some m
    | .finished .. => none

/-- The states of a run. -/
def Reaches (vm : Vm W) (m : Machine W) : Prop :=
  Transition.Reach (machineSystem natives vm) Transition.anyStep m

/-! ## Runs -/

/-- The frame of a top-level chunk. -/
def rootFrame (chunk : Chunk) (localsCells : List (Option Addr)) : CallFrame where
  chunk
  ip := 0
  base := 0
  upvalues := []
  captured := []
  localsCells

/-- `with_budget`. -/
def Vm.withBudget (chunk : Chunk) (config : BudgetConfig) (world : W) : Vm W where
  frames := [rootFrame chunk []]
  stack := []
  cells := []
  replStackCheckpoint := none
  globals := []
  outer := ⟨BudgetLedger.fresh config (fun _ => false) none, world⟩
  tryHandlers := []
  pendingHeapStop := none
  watchdogTicks := 0
  nextFunctionId := 0
  adopted := false
  nextBirth := 0

/-- `new_repl_with_budget`. -/
def Vm.newReplWithBudget (config : BudgetConfig) (world : W) : Vm W :=
  { Vm.withBudget Chunk.new config world with frames := [] }

/-- Charge the chunk of the root frame, once. -/
def adopt : Op W Unit := do
  let s ← Proc.gets id
  match s.adopted, s.frames.getLast? with
  | false, some root => do
    Op.host (natives.chargeChunkTree root.chunk) 0
    Proc.modify fun s => { s with adopted := true }
  | _, _ => pure ()

/-- `run`, in at most `n` iterations. -/
def Vm.run (n : Nat) (vm : Vm W) : Option (Except VmStop Unit × Vm W) :=
  match (adopt natives).run vm with
  | (.error stop, vm) => some (.error stop, vm)
  | (.ok (), vm) =>
    (runFrames natives n vm).map fun r => (match r.1 with | .ok _ => .ok () | .error e => .error e, r.2)

/-! ## Submissions -/

/-- The state in which a submission runs: the journal is empty, the root frame has the new chunk
and keeps the cells of the top-level variables. -/
def beginSubmission (chunk : Chunk) (vm : Vm W) : Vm W :=
  let localsCells := ((vm.frames.getLast?).map (·.localsCells)).getD []
  { vm with
    pendingHeapStop := none
    replStackCheckpoint := some { stackLen := vm.stack.length }
    frames := [rootFrame chunk localsCells]
    outer := { vm.outer with budget := { vm.outer.budget with
      committed := { vm.outer.budget.committed with fuel := 0 }
      reserved := { vm.outer.budget.reserved with fuel := 0 } } }
    watchdogTicks := 0
    adopted := false }

/-- `restore_repl_stack`. The entries that are filled in are overwritten when the journal has
them. -/
def restoreReplStack (cp : ReplStackCheckpoint) (vm : Vm W) : Vm W :=
  let kept := vm.stack.take cp.stackLen
  let filled := kept ++ List.replicate (cp.stackLen - kept.length) ⟨.null, 0⟩
  { vm with
    stack := cp.originals.foldl (fun stack o => stack.set o.1 o.2) filled
    cells := cp.cellOriginals.foldl (fun cells o => cells.set o.1 o.2) vm.cells }

/-- What `run_repl_chunk` puts back after an error. -/
def rollbackSubmission (before after : Vm W) : Vm W :=
  let restored :=
    match after.replStackCheckpoint with
    | some cp => restoreReplStack cp after
    | none => after
  { restored with
    replStackCheckpoint := none
    frames := before.frames
    globals := before.globals
    tryHandlers := before.tryHandlers
    outer := { restored.outer with budget := { restored.outer.budget with
      committed := { restored.outer.budget.committed with
        fuel := before.outer.budget.committed.fuel }
      reserved := { restored.outer.budget.reserved with fuel := 0 } } } }

/-- `run_repl_chunk`, in at most `n` iterations. A refused charge of the chunk comes before the
first instruction, so there is nothing in the journal to put back. -/
def runReplChunk (n : Nat) (chunk : Chunk) (vm : Vm W) : Option (Except VmStop Unit × Vm W) :=
  match (adopt natives).run (beginSubmission chunk vm) with
  | (.error stop, after) =>
    some (.error stop, rollbackSubmission vm { after with replStackCheckpoint := none })
  | (.ok (), started) =>
    (runFrames natives n started).map fun r =>
      match r with
      | (.ok _, after) => (.ok (), { after with replStackCheckpoint := none })
      | (.error stop, after) => (.error stop, rollbackSubmission vm after)

end Step

end Tsumugi.Bytecode
