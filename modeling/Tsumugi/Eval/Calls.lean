import Tsumugi.Eval.Frames

/-!
# Expressions, calls and builtins (`eval.rs`, `builtin.rs`)

What the evaluation of an expression does up to its recursive calls. A call runs the body
of the function in a driver of its own, which does not yield.
-/

namespace Tsumugi.Eval

open Budget (Charge)

variable {E H : Type} (rt : Runtime E H) (self : Recur E H)

/-- `run_driver`. -/
def runDriver (stopDepth : Nat) (canYield : Bool) : Ev E H DriveOutcome where
  run s :=
    match (self.driverLoop stopDepth canYield).run { s with canYieldCtx := canYield } with
    | (r, t) => (r, { t with canYieldCtx := s.canYieldCtx })

/-- `drive_call_body`. -/
def driveCallBody (defn : FnDef) (saved : CallFrame) : Ev E H EvalResult := do
  let base ← Proc.gets fun s => s.frames.length
  push (← plainFrame defn.body (.call saved none))
  match ← runDriver self base false with
  | .done result => pure result
  | .yielded => unreachable

/-- The value of a call, from the result of its body. -/
def callResult : EvalResult → Ev E H Value
  | .return v => pure v
  | .val => pure .null
  | .break line => raise (.breakOutsideLoop line)
  | .continue line => raise (.continueOutsideLoop line)

/-- The values of arguments or of list items. -/
def evalArgs (line : Nat) : List Expr → Ev E H (List Value)
  | [] => pure []
  | e :: rest => do
    let v ← self.evalExpr e line
    let vs ← evalArgs line rest
    pure (v :: vs)

/-! ## Host functions -/

/-- `resolve_host_call`. -/
def resolveHostCall (name : String) (args : List Value) (line : Nat) : Ev E H Value := do
  if ¬ (← Proc.gets fun s => rt.grantsHostFunction name s.adapters) then
    raise (.capabilityDenied line name)
  else if ¬ rt.acceptsArity name args.length then
    raise (.hostFunctionArity line name args.length)
  else
    match ← Proc.update fun s =>
        ((rt.call name args s.host).1, { s with host := (rt.call name args s.host).2 }) with
    | .ok v => pure v
    | .error category => raise (.hostAdapterFailed line name category)

/-- `apply_host_call`. -/
def applyHostCall (name : String) (args : List Value) (line : Nat) : Ev E H Value := do
  let v ← resolveHostCall rt name args line
  charge (trackResult rt v) line

/-- `finish_cooperative_result`. -/
def finishCooperativeResult (name : String) (result : Except AdapterError Value) (line : Nat) :
    Ev E H Value :=
  match result with
  | .ok v => charge (trackResult rt v) line
  | .error (.control stop) => raiseStop stop line
  | .error .other => raise (.hostAdapterFailed line name "host")

/-- `start_cooperative_call`. -/
def startCooperativeCall (name : String) (args : List Value) (line : Nat) : Ev E H Value := do
  if ¬ (← Proc.gets fun s => rt.grantsHostFunction name s.adapters) then
    raise (.capabilityDenied line name)
  else if ¬ rt.acceptsArity name args.length then
    raise (.hostFunctionArity line name args.length)
  else
    let callId ← Proc.update fun s =>
      (s.nextHostCallId, { s with nextHostCallId := (s.nextHostCallId + 1) % 2 ^ 64 })
    let mayYield ← Proc.gets fun s => s.canYieldCtx && !s.inDriverCall
    match ← Proc.update fun s =>
        ((rt.start name args s.budget mayYield callId s.host).1,
          { s with host := (rt.start name args s.budget mayYield callId s.host).2 }) with
    | .ready result => finishCooperativeResult rt name result line
    | .pending =>
      if ¬ mayYield then
        Proc.modify fun s => { s with host := rt.cancelTicket callId s.host }
        raiseStop (.internalFailure .cooperativeAdapterYieldInSyncContext) line
      else
        Proc.modify fun s => { s with pendingHostCall := some callId, yieldForHostCall := true }
        raise (.internalControl line "cooperative host-call pending yield")

/-- The result that a resumption has left, if there is one: the first call that asks takes it. -/
def takeResumed : Ev E H (Option (Except AdapterError Value)) :=
  Proc.update fun s => (s.resumedHostCall.map (·.2), { s with resumedHostCall := none })

/-- `eval_cooperative_call`. -/
def evalCooperativeCall (name : String) (args : List Expr) (line : Nat) : Ev E H Value := do
  match ← takeResumed with
  | some result => finishCooperativeResult rt name result line
  | none =>
    countStep line
    let values ← evalArgs self line args
    startCooperativeCall rt name values line

/-! ## Builtins -/

/-- `call_fn_value`. -/
def callFnValue (builtin : String) (func : Value) (arg : Value) (line : Nat) : Ev E H Value := do
  beginUserCall line
  match func with
  | .fn _ defn .. =>
    if defn.params.length ≠ 1 then raise (.callbackArity line builtin defn.params.length)
    else
      let (defn, saved) ← bindUserCall rt func [arg] line
      callResult (← driveCallBody self defn saved)
  | other => raise (.callbackNotCallable line builtin other)

/-- The list that is the first argument of `map`, `filter` and `each`. -/
def listArg (builtin : String) (line : Nat) : Value → Ev E H (List Value)
  | .list _ items => pure items
  | other => raise (.builtinArgType line builtin 1 "List" other)

/-- The items of `map`. -/
def mapItems (func : Value) (line : Nat) : Nat → List Value → Ev E H (List Value)
  | _, [] => pure []
  | done, item :: rest => do
    let v ← callFnValue rt self "map" func item line
    checkCollection (done + 1) line
    let vs ← mapItems func line (done + 1) rest
    pure (v :: vs)

/-- The items of `filter`. -/
def filterItems (func : Value) (line : Nat) : Nat → List Value → Ev E H (List Value)
  | _, [] => pure []
  | kept, item :: rest => do
    let v ← callFnValue rt self "filter" func item line
    if v.isTruthy then
      checkCollection (kept + 1) line
      let vs ← filterItems func line (kept + 1) rest
      pure (item :: vs)
    else filterItems func line kept rest

/-- The calls of `each`. -/
def eachItem (func : Value) (line : Nat) : List Value → Ev E H Unit
  | [] => pure ()
  | item :: rest => do
    let _ ← callFnValue rt self "each" func item line
    eachItem func line rest

/-- `check_elements_depth`. -/
def checkElementsDepth (items : List Value) (line : Nat) : Except TsumugiError Unit :=
  items.forM fun v => v.checkElementDepth line

/-- `push_target_cell`. The first argument was checked to be a name. -/
def pushTargetCell (target : Option Expr) (line : Nat) : Ev E H Addr :=
  match target with
  | some (.ident name) => cellOf name line
  | _ => unreachable

/-- `apply_push`. -/
def applyPush (cell : Addr) (value : Value) (line : Nat) : Ev E H Value := do
  match ← readCell cell with
  | .list _ items =>
    checkCollection (items.length + 1) line
    orStop (journalCell rt cell) line
    budgetListPush rt cell value line
    pure .null
  | other => raise (.builtinArgType line "push" 1 "List" other)

/-- `pop`. -/
def applyPop (target : Option Expr) (line : Nat) : Ev E H Value := do
  let cell ← pushTargetCell target line
  match ← readCell cell with
  | .list _ items =>
    match items.getLast? with
    | none => raise (.popEmptyList line)
    | some last =>
      orStop (journalCell rt cell) line
      listPopTracked rt cell line
      pure last
  | other => raise (.builtinArgType line "pop" 1 "List" other)

/-- An argument that was checked to be there. -/
def evalArg (args : List Expr) (i line : Nat) : Ev E H Value := do
  self.evalExpr (← expect args[i]?) line

/-- The two arguments of `map`, `filter` and `each`. -/
def callbackArgs (builtin : String) (args : List Expr) (line : Nat) :
    Ev E H (List Value × Value) := do
  let listValue ← evalArg self args 0 line
  let func ← evalArg self args 1 line
  let items ← listArg builtin line listValue
  pure (items, func)

/-- `builtin_collection`. -/
def builtinCollection (name : String) (args : List Expr) (line : Nat) :
    Ev E H (Option Value) := do
  match name with
  | "push" =>
    let cell ← pushTargetCell args[0]? line
    let value ← evalArg self args 1 line
    some <$> applyPush rt cell value line
  | "pop" => some <$> applyPop rt args[0]? line
  | "map" =>
    let (items, func) ← callbackArgs self "map" args line
    let result ← mapItems rt self func line 0 items
    liftExcept (checkElementsDepth result line)
    some <$> charge (newList rt result) line
  | "filter" =>
    let (items, func) ← callbackArgs self "filter" args line
    let result ← filterItems rt self func line 0 items
    some <$> charge (newList rt result) line
  | "each" =>
    let (items, func) ← callbackArgs self "each" args line
    eachItem rt self func line items
    pure (some .null)
  | _ => pure none

/-- `render_print_part`. -/
def renderPrintPart (v : Value) (line : Nat) : Ev E H String := charge (rt.renderDisplay v) line

/-- The rendered arguments of `print`. -/
def printParts (line : Nat) : List Expr → Ev E H (List String)
  | [] => pure []
  | e :: rest => do
    let v ← self.evalExpr e line
    let part ← renderPrintPart rt v line
    let parts ← printParts line rest
    pure (part :: parts)

/-- `apply_print`. -/
def applyPrint (parts : List String) (line : Nat) : Ev E H Value := do
  let payload := " ".intercalate parts
  charge (onBudget (Charge.chargeOutput payload.utf8ByteSize .run)) line
  adapter (rt.resolvePrint payload line)
  pure .null

/-- `apply_env`. -/
def applyEnv (key : Value) (line : Nat) : Ev E H Value := do
  match key with
  | .str _ key =>
    let found ← liftExcept (← Proc.gets fun s => rt.resolveEnv key line s.adapters)
    charge (trackResult rt (found.elim .null .strConstant)) line
  | other => raise (.builtinArgType line "env" 1 "Str" other)

/-- `resolve_exit`. -/
def resolveExit (code : Option Int) (hasProcessExit : Bool) (line : Nat) :
    Except TsumugiError Nat :=
  let code := code.getD 0
  if code < 0 ∨ 255 < code then .error (.exitCodeOutOfRange line code)
  else if ¬ hasProcessExit then .error (.capabilityDenied line "exit")
  else .ok code.toNat

/-- `apply_exit`: a granted exit is an error that no `try` catches. -/
def applyExit (code : Option Value) (line : Nat) : Ev E H Value := do
  let code ←
    match code with
    | none => pure none
    | some (.int n) => pure (some n)
    | some other => raise (.builtinArgType line "exit" 1 "Int" other)
  let has ← Proc.gets fun s => rt.hasProcessExit s.adapters
  let code ← liftExcept (resolveExit code has line)
  Proc.modify fun s => { s with pendingExit := some code }
  raise (.processExitSignal line)

/-- `input`. -/
def applyInput (line : Nat) : Ev E H Value := do
  let read ← adapter (rt.resolveInput line)
  charge (onBudget (Charge.chargeInput (read.elim 0 (·.utf8ByteSize)) .run)) line
  pure (read.elim .null .strConstant)

/-- `args`. -/
def applyArgs (line : Nat) : Ev E H Value := do
  let argv ← Proc.gets fun s => (rt.scriptArgs s.adapters).map Value.strConstant
  checkCollection argv.length line
  charge (newList rt argv) line

/-- `builtin_io`. -/
def builtinIo (name : String) (args : List Expr) (line : Nat) : Ev E H (Option Value) := do
  match name with
  | "print" =>
    let parts ← printParts rt self line args
    some <$> applyPrint rt parts line
  | "input" =>
    liftExcept (Bytecode.checkArityCount "input" args.length 0 line)
    some <$> applyInput rt line
  | "args" =>
    liftExcept (Bytecode.checkArityCount "args" args.length 0 line)
    some <$> applyArgs rt line
  | "env" =>
    liftExcept (Bytecode.checkArityCount name args.length 1 line)
    let key ← evalArg self args 0 line
    some <$> applyEnv rt key line
  | "now" =>
    liftExcept (Bytecode.checkArityCount name args.length 0 line)
    let seconds ← adapter (rt.resolveNow line)
    pure (some (.int seconds))
  | "exit" =>
    if 1 < args.length then raise (.exitArity line args.length)
    else
      match args with
      | [] => some <$> applyExit rt none line
      | e :: _ =>
        let code ← self.evalExpr e line
        some <$> applyExit rt (some code) line
  | _ => pure none

/-- `is_pure_core_builtin`. -/
def isPureCoreBuiltin (name : String) : Bool :=
  match Bytecode.lookupPublic name with
  | some spec => spec.execution = .pureCore
  | none => false

/-- `apply_pure_core_builtin`. -/
def applyPureCoreBuiltin (name : String) (args : List Value) (line : Nat) :
    Ev E H (Option Value) := do
  charge (rt.chargeHostCallRequest name args) line
  match ← builtin (rt.dispatch name args line) line with
  | some v =>
    charge (rt.chargeHostCallResponse name v) line
    some <$> charge (trackResult rt v) line
  | none => pure none

/-- `builtin_len`. -/
def builtinLen (v : Value) (line : Nat) : Except TsumugiError Value :=
  match v with
  | .list _ items => .ok (.int items.length)
  | .str _ s => .ok (.int s.toList.length)
  | .dict _ entries => .ok (.int entries.length)
  | other => .error (.builtinArgType line "len" 1 "List/Str/Dict" other)

/-- The variable of `len(name)`: its length is read without a copy. -/
def lenCell (s : Evaluator E H) (name : String) (args : List Expr) : Option Addr :=
  match name, args with
  | "len", [.ident var] => s.env.getCell var
  | _, _ => none

/-- `eval_builtin`. -/
def evalBuiltin (name : String) (args : List Expr) (line : Nat) : Ev E H (Option Value) := do
  liftExcept (Bytecode.validateContextBuiltinCall name args.length
    ((args[0]?).elim false (·.isIdent)) line)
  match name with
  | "print" | "input" | "args" | "exit" | "env" | "now" => builtinIo rt self name args line
  | "push" | "pop" | "map" | "filter" | "each" => builtinCollection rt self name args line
  | _ =>
    match ← Proc.gets fun s => lenCell s name args with
    | some cell =>
      let v ← readCell cell
      some <$> liftExcept (builtinLen v line)
    | none =>
      if isPureCoreBuiltin name then
        let values ← evalArgs self line args
        applyPureCoreBuiltin rt name values line
      else pure none

/-! ## Calls -/

/-- `CallPrep`. -/
inductive CallPrep
  | done (v : Value)
  | user (defn : FnDef) (savedScopes : CallFrame) (callee : Value)

/-- The value of the callee of a user call. -/
def evalCallee (callee : Expr) (line : Nat) : Ev E H Value :=
  match callee with
  | .ident name => do orRaise ((← Proc.gets Evaluator.env).get name) (.undefinedName line name)
  | callee => self.evalExpr callee line

/-- `prepare_call`, from `begin_user_call` on. -/
def prepareUserCall (callee : Expr) (args : List Expr) (line : Nat) : Ev E H CallPrep := do
  beginUserCall line
  let func ← evalCallee self callee line
  liftExcept (checkUserCallee func args.length line)
  let values ← evalArgs self line args
  let (defn, saved) ← bindUserCall rt func values line
  pure (.user defn saved func)

/-- A call of a host function. -/
def evalHostCall (name : String) (args : List Expr) (line : Nat) : Ev E H Value := do
  countStep line
  let values ← evalArgs self line args
  applyHostCall rt name values line

/-- `prepare_call`: a name that is not bound is a builtin or a host function, if there is one. -/
def prepareCall (callee : Expr) (args : List Expr) (line : Nat) : Ev E H CallPrep := do
  match callee with
  | .ident name =>
    if ((← Proc.gets Evaluator.env).getCell name).isSome then
      prepareUserCall rt self callee args line
    else
      match ← evalBuiltin rt self name args line with
      | some v => pure (.done v)
      | none =>
        if rt.containsCooperativeName name then
          .done <$> evalCooperativeCall rt self name args line
        else if rt.containsName name then
          .done <$> evalHostCall rt self name args line
        else prepareUserCall rt self callee args line
  | callee => prepareUserCall rt self callee args line

/-- `eval_call`. -/
def evalCall (callee : Expr) (args : List Expr) (line : Nat) : Ev E H Value := do
  match ← prepareCall rt self callee args line with
  | .done v => pure v
  | .user defn saved _ => callResult (← driveCallBody self defn saved)

/-! ## Expressions -/

/-- The items of a list literal; `done` were evaluated before. -/
def evalItems (line : Nat) : Nat → List Expr → Ev E H (List Value)
  | _, [] => pure []
  | done, e :: rest => do
    let v ← self.evalExpr e line
    checkCollection (done + 1) line
    liftExcept (v.checkElementDepth line)
    let vs ← evalItems line (done + 1) rest
    pure (v :: vs)

/-- The key of an entry. -/
def dictKey (line : Nat) : Value → Except TsumugiError String
  | .str _ s => .ok s
  | other => .error (.dictKeyType line other)

/-- Put an entry into a dict literal. -/
def insertEntry (map : Dict) (key : String) (v : Value) (line : Nat) : Ev E H Dict := do
  if ¬ map.containsKey key then checkCollection (map.length + 1) line
  liftExcept (v.checkElementDepth line)
  pure (map.insert key v)

/-- The entries of a dict literal. -/
def evalEntries (line : Nat) (map : Dict) : List (Expr × Expr) → Ev E H Dict
  | [] => pure map
  | (keyExpr, valExpr) :: rest => do
    let key ← liftExcept (dictKey line (← self.evalExpr keyExpr line))
    let v ← self.evalExpr valExpr line
    let map ← insertEntry map key v line
    evalEntries line map rest

/-- The text of an f-string. -/
def evalParts (line : Nat) (text : String) : List FStrExprPart → Ev E H String
  | [] => pure text
  | .literal s :: rest => evalParts line (text ++ s) rest
  | .expr e :: rest => do
    let v ← self.evalExpr e line
    let rendered ← charge (rt.renderDisplay v) line
    evalParts line (text ++ rendered) rest

/-- The cell of `x[e]` where `e` has no side effects: it is read in place. -/
def indexCell (s : Evaluator E H) (object index : Expr) : Option Addr :=
  match object with
  | .ident name => if index.isSideEffectFree then s.env.getCell name else none
  | _ => none

/-- `eval_expr`. -/
def evalExpr (expr : Expr) (line : Nat) : Ev E H Value := do
  match expr with
  | .int n => pure (.int n)
  | .float bits => pure (.float bits)
  | .str s => charge (trackResult rt (.strConstant s)) line
  | .bool b => pure (.bool b)
  | .null => pure .null
  | .list items =>
    let values ← evalItems self line 0 items
    charge (newList rt values) line
  | .dict pairs =>
    let map ← evalEntries self line [] pairs
    charge (newDict rt map) line
  | .ident name => orRaise ((← Proc.gets Evaluator.env).get name) (.undefinedName line name)
  | .binOp left .and right =>
    let l ← self.evalExpr left line
    if l.isTruthy then self.evalExpr right line else pure l
  | .binOp left .or right =>
    let l ← self.evalExpr left line
    if l.isTruthy then pure l else self.evalExpr right line
  | .binOp left op right =>
    let l ← self.evalExpr left line
    let r ← self.evalExpr right line
    let result ← evalBinop rt l op r line
    charge (trackResult rt result) line
  | .unaryOp op e =>
    let v ← self.evalExpr e line
    liftExcept (evalUnary rt op v line)
  | .call callee args => evalCall rt self callee args line
  | .lambda params body => makeFunction rt "<lambda>" params body line
  | .index object index =>
    match ← Proc.gets fun s => indexCell s object index with
    | some cell =>
      let idx ← self.evalExpr index line
      let collection ← readCell cell
      liftExcept (evalIndex collection idx line)
    | none =>
      let obj ← self.evalExpr object line
      let idx ← self.evalExpr index line
      liftExcept (evalIndex obj idx line)
  | .fStr parts =>
    let text ← evalParts rt self line "" parts
    charge (trackResult rt (.strConstant text)) line

end Tsumugi.Eval
