import Tsumugi.Eval.Calls

/-!
# The driver (`eval.rs`)

Statements run on the frame stack. Where the driver may yield, the calls in a statement
run on it too: an expression with a call is evaluated by a frame that keeps its operands,
and the body of a function by a call frame that delivers its value.
-/

namespace Tsumugi.Eval

variable {E H : Type} (rt : Runtime E H) (self : Recur E H)

/-! ## Expression frames -/

/-- `resolve_call_target`. -/
def resolveCallTarget (name : String) : Option CallTarget :=
  match name with
  | "print" | "exit" | "env" | "push" => some .builtin
  | "input" | "args" | "now" | "pop" | "map" | "filter" | "each" => none
  | _ =>
    if isPureCoreBuiltin name then some .builtin
    else if rt.containsCooperativeName name then some .cooperative
    else if rt.containsName name then some .host
    else none

/-- `needs_expr_frame`. -/
def needsExprFrame (env : Env) (expr : Expr) : Bool :=
  expr.containsCall &&
    match expr with
    | .call (.ident name) args =>
      (env.getCell name).isSome ||
        args.any (·.containsCall) && (resolveCallTarget rt name).isSome
    | .call .. | .binOp .. | .unaryOp .. | .index .. | .list _ | .dict _ | .fStr _ => true
    | _ => false

/-- `expr_frame_mut`, to read it. -/
def topExpr : Ev E H ExprFrame := do
  match ← Proc.gets Evaluator.frames with
  | ⟨_, _, .expr frame, _, _⟩ :: _ => pure frame
  | _ => unreachable

/-- `expr_frame_mut`, to write it. -/
def onExpr (f : ExprFrame → ExprFrame) : Ev E H Unit :=
  Proc.modify fun s => s.onTop fun top =>
    match top.kind with
    | .expr frame => { top with kind := .expr (f frame) }
    | _ => top

/-- `operands.push`. -/
def pushOperand (v : Value) : Ev E H Unit :=
  onExpr fun frame => { frame with operands := frame.operands ++ [v] }

/-- `std::mem::take` of the operands. -/
def takeOperands : Ev E H (List Value) := do
  let frame ← topExpr
  onExpr fun frame => { frame with operands := [] }
  pure frame.operands

/-- `operands.pop`. -/
def popOperand : Ev E H (Option Value) := do
  let frame ← topExpr
  onExpr fun frame => { frame with operands := frame.operands.dropLast }
  pure frame.operands.getLast?

/-- `begin_expr_child`. -/
def beginExprChild (frame : ExprFrame) (index : Nat) : Ev E H (Option FlowSignal) := do
  let node ← expect (exprAt frame.owner frame.stmtIndex frame.slot frame.path)
  let child ← expect (node.child index)
  if needsExprFrame rt (← Proc.gets Evaluator.env) child then
    push (← newExprFrame frame.owner frame.stmtIndex frame.slot (frame.path ++ [index]) frame.line
      .operand)
    pure none
  else
    let v ← self.evalExpr child frame.line
    pushOperand v
    pure none

/-! ## Delivery -/

/-- `deliver_call_result`. -/
def deliverCallResult (dest : CallDest) (value : Value) : Ev E H (Option FlowSignal) := do
  match dest with
  | .discard => pure none
  | .let name line =>
    envSet rt name value line
    pure none
  | .assign name line =>
    assignExisting rt name value line
    pure none
  | .return => pure (some (.return value))
  | .operand =>
    pushOperand value
    pure none
  | .exprResult => self.finishExprFrame value
  | _ => unreachable

/-- Mark the iteration of the loop frame on top as one to charge for. -/
def setPending : Ev E H Unit :=
  Proc.modify fun s => s.onTop fun top =>
    match top.kind with
    | .while site body line _ => { top with kind := .while site body line true }
    | .for site body line items index _ collection =>
      { top with kind := .for site body line items index true collection }
    | _ => top

/-- `index_assign_after_index`. -/
def indexAssignAfterIndex (cell : Addr) (idx : Value) (owner : Block) (stmtIndex line : Nat) :
    Ev E H Unit := do
  match owner[stmtIndex]? with
  | some (.indexAssign _ _ value _) =>
    if needsExprFrame rt (← Proc.gets Evaluator.env) value then
      push (← newExprFrame owner stmtIndex 1 [] line (.indexAssignValue cell idx))
    else
      let v ← self.evalExpr value line
      finishIndexAssign rt cell idx v line
  | _ => unreachable

/-- What follows on the condition of a `while` that runs. -/
def whileIteration (body : Block) (line : Nat) (condition : Value) : Ev E H Unit := do
  if condition.isTruthy then
    setPending
    beginLoopIteration body line
  else Proc.modify Evaluator.popFrame

/-- What follows on the collection of a `for`. -/
def forCollection (owner : Block) (stmtIndex line : Nat) (collection : Value) :
    Ev E H (Option Frame) := do
  let items ← materializeForItems collection line
  if items.isEmpty then pure none
  else some <$> enterFor owner stmtIndex items collection line

/-- The frame of the branch of an `if`. -/
def ifBranch (stmt : Option Stmt) (condition : Value) (line : Nat) : Ev E H Frame :=
  match stmt with
  | some (.if _ thenBody elseBody _) =>
    enterScopedBlock (if condition.isTruthy then thenBody else elseBody) line
  | _ => unreachable

/-- `deliver_slot_result`. -/
def deliverSlotResult (dest : CallDest) (owner : Block) (stmtIndex line : Nat) (value : Value) :
    Ev E H Unit := do
  match dest with
  | .ifCond => push (← ifBranch owner[stmtIndex]? value line)
  | .whileFirst => if value.isTruthy then push (← enterWhile owner stmtIndex line)
  | .whileIter =>
    match owner[stmtIndex]? with
    | some (.while _ body _) => whileIteration body line value
    | _ => unreachable
  | .forIter =>
    match ← forCollection owner stmtIndex line value with
    | some frame => push frame
    | none => pure ()
  | .indexAssignIndex cell => indexAssignAfterIndex rt self cell value owner stmtIndex line
  | .indexAssignValue cell idx => finishIndexAssign rt cell idx value line
  | _ => unreachable

/-- The destination is a slot of a statement. -/
def CallDest.isSlot : CallDest → Bool
  | .ifCond | .whileFirst | .whileIter | .forIter | .indexAssignIndex _ | .indexAssignValue .. =>
    true
  | _ => false

/-- `finish_expr_frame`. -/
def finishExprFrame (value : Value) : Ev E H (Option FlowSignal) := do
  let frame ← topExpr
  Proc.modify Evaluator.popFrame
  if frame.dest.isSlot then
    deliverSlotResult rt self frame.dest frame.owner frame.stmtIndex frame.line value
    pure none
  else deliverCallResult rt self frame.dest value

/-! ## Steps of an expression -/

/-- A user call whose callee is there: the checks, the arguments, the body. -/
def stepUserArgs (args : List Expr) : Ev E H (Option FlowSignal) := do
  let frame ← topExpr
  if ¬ frame.checked then
    liftExcept (checkUserCallee (← expect frame.operands.head?) args.length frame.line)
    onExpr fun frame => { frame with checked := true }
  if frame.operands.length ≤ args.length then beginExprChild rt self frame frame.operands.length
  else
    match ← takeOperands with
    | [] => unreachable
    | callee :: values =>
      let (defn, saved) ← bindUserCall rt callee values frame.line
      push (← plainFrame defn.body (.call saved (some ⟨.exprResult, callee⟩)))
      pure none

/-- A user call. -/
def stepUserCall (callee : Expr) (args : List Expr) (frame : ExprFrame) :
    Ev E H (Option FlowSignal) := do
  if frame.started then stepUserArgs rt self args
  else
    beginUserCall frame.line
    onExpr fun frame => { frame with started := true }
    match callee with
    | .ident name =>
      let v ← orRaise ((← Proc.gets Evaluator.env).get name) (.undefinedName frame.line name)
      pushOperand v
      stepUserArgs rt self args
    | _ => beginExprChild rt self frame 0

/-- The value of a call of a builtin or a host function, from its arguments. -/
def applyTarget (target : CallTarget) (name : String) (operands : List Value) (line : Nat) :
    Ev E H Value := do
  match target with
  | .host => applyHostCall rt name operands line
  | .cooperative => startCooperativeCall rt name operands line
  | .builtin =>
    match name with
    | "print" =>
      let frame ← topExpr
      onExpr fun frame => { frame with parts := [] }
      applyPrint rt frame.parts line
    | "env" => applyEnv rt (← expect operands.getLast?) line
    | "exit" => applyExit rt operands.getLast? line
    | "push" =>
      let frame ← topExpr
      onExpr fun frame => { frame with cell := none }
      applyPush rt (← expect frame.cell) (← expect operands.getLast?) line
    | _ =>
      match ← applyPureCoreBuiltin rt name operands line with
      | some v => pure v
      | none => raise (.internalControl line "unknown PureCore builtin")

/-- The arguments of a call of a builtin or a host function. -/
def stepTargetArgs (target : CallTarget) (name : String) (args : List Expr) (line : Nat) :
    Ev E H (Option FlowSignal) := do
  if target = .builtin ∧ name = "print" then
    match ← popOperand with
    | some v =>
      let rendered ← renderPrintPart rt v line
      onExpr fun frame => { frame with parts := frame.parts ++ [rendered] }
    | none => pure ()
  let frame ← topExpr
  let skip := if target = .builtin ∧ name = "push" then 1 else 0
  let next := frame.operands.length + frame.parts.length + skip
  if next < args.length then beginExprChild rt self frame (next + 1)
  else
    let operands ← takeOperands
    finishExprFrame rt self (← applyTarget rt target name operands line)

/-- `step_target_call`. -/
def stepTargetCall (target : CallTarget) (name : String) (args : List Expr) (frame : ExprFrame) :
    Ev E H (Option FlowSignal) := do
  if frame.started then stepTargetArgs rt self target name args frame.line
  else
    onExpr fun frame => { frame with started := true }
    match target with
    | .builtin =>
      liftExcept (Bytecode.validateContextBuiltinCall name args.length
        ((args[0]?).elim false (·.isIdent)) frame.line)
      if name = "env" then
        liftExcept (Bytecode.checkArityCount name args.length 1 frame.line)
      else if name = "push" then
        let cell ← pushTargetCell args[0]? frame.line
        onExpr fun frame => { frame with cell := some cell }
      stepTargetArgs rt self target name args frame.line
    | .host =>
      countStep frame.line
      stepTargetArgs rt self target name args frame.line
    | .cooperative =>
      match ← takeResumed with
      | some result =>
        finishExprFrame rt self (← finishCooperativeResult rt name result frame.line)
      | none =>
        countStep frame.line
        stepTargetArgs rt self target name args frame.line

/-- A call: where its callee is resolved to is decided once. -/
def stepCall (callee : Expr) (args : List Expr) (frame : ExprFrame) :
    Ev E H (Option FlowSignal) := do
  match callee with
  | .ident name =>
    let env ← Proc.gets Evaluator.env
    let target :=
      if ¬ frame.started ∧ (env.getCell name).isNone then
        resolveCallTarget rt name <|> frame.target
      else frame.target
    onExpr fun frame => { frame with target }
    match target with
    | some target => stepTargetCall rt self target name args frame
    | none => stepUserCall rt self callee args frame
  | _ => stepUserCall rt self callee args frame

/-- A binary operation. -/
def stepBinop (op : BinOpKind) (frame : ExprFrame) : Ev E H (Option FlowSignal) := do
  match op, frame.operands with
  | _, [] => beginExprChild rt self frame 0
  | .and, [l] => if l.isTruthy then beginExprChild rt self frame 1 else finishExprFrame rt self l
  | .or, [l] => if l.isTruthy then finishExprFrame rt self l else beginExprChild rt self frame 1
  | .and, _ :: r :: _ | .or, _ :: r :: _ => finishExprFrame rt self r
  | _, [_] => beginExprChild rt self frame 1
  | op, l :: r :: _ =>
    let _ ← takeOperands
    let result ← evalBinop rt l op r frame.line
    finishExprFrame rt self (← charge (trackResult rt result) frame.line)

/-- A list literal. -/
def stepList (items : List Expr) (frame : ExprFrame) : Ev E H (Option FlowSignal) := do
  match frame.operands.getLast? with
  | some last =>
    checkCollection frame.operands.length frame.line
    liftExcept (last.checkElementDepth frame.line)
  | none => pure ()
  if frame.operands.length < items.length then
    beginExprChild rt self frame frame.operands.length
  else
    let values ← takeOperands
    finishExprFrame rt self (← charge (newList rt values) frame.line)

/-- A dict literal. -/
def stepDict (pairs : List (Expr × Expr)) (frame : ExprFrame) : Ev E H (Option FlowSignal) := do
  match frame.pendingKey, ← popOperand with
  | none, none => beginExprChild rt self frame (2 * frame.item)
  | none, some key =>
    let key ← liftExcept (dictKey frame.line key)
    onExpr fun frame => { frame with pendingKey := some key }
    pure none
  | some _, none => beginExprChild rt self frame (2 * frame.item + 1)
  | some key, some v =>
    onExpr fun frame => { frame with pendingKey := none }
    let map ← insertEntry frame.map key v frame.line
    onExpr fun frame => { frame with map, item := frame.item + 1 }
    if frame.item + 1 < pairs.length then pure none
    else
      onExpr fun frame => { frame with map := [] }
      finishExprFrame rt self (← charge (newDict rt map) frame.line)

/-- The literals from a part on are added to the text. -/
def skipLiterals : Nat → String → List FStrExprPart → Nat × String
  | item, text, .literal s :: rest => skipLiterals (item + 1) (text ++ s) rest
  | item, text, _ => (item, text)

/-- An f-string. -/
def stepFStr (parts : List FStrExprPart) (line : Nat) : Ev E H (Option FlowSignal) := do
  match ← popOperand with
  | some v =>
    let rendered ← charge (rt.renderDisplay v) line
    onExpr fun frame => { frame with text := frame.text ++ rendered }
  | none => pure ()
  let frame ← topExpr
  let (item, text) := skipLiterals frame.item frame.text (parts.drop frame.item)
  onExpr fun frame => { frame with item, text }
  if parts.length ≤ item then
    onExpr fun frame => { frame with text := "" }
    finishExprFrame rt self (← charge (trackResult rt (.strConstant text)) line)
  else
    onExpr fun frame => { frame with item := item + 1 }
    beginExprChild rt self frame item

/-- `step_expr`. -/
def stepExpr : Ev E H (Option FlowSignal) := do
  let frame ← topExpr
  match ← expect (exprAt frame.owner frame.stmtIndex frame.slot frame.path) with
  | .call callee args => stepCall rt self callee args frame
  | .binOp _ op _ => stepBinop rt self op frame
  | .unaryOp op _ =>
    match frame.operands with
    | [] => beginExprChild rt self frame 0
    | v :: _ =>
      let _ ← takeOperands
      finishExprFrame rt self (← liftExcept (evalUnary rt op v frame.line))
  | .index _ _ =>
    match frame.operands with
    | [] => beginExprChild rt self frame 0
    | [_] => beginExprChild rt self frame 1
    | object :: index :: _ =>
      let _ ← takeOperands
      finishExprFrame rt self (← liftExcept (evalIndex object index frame.line))
  | .list items => stepList rt self items frame
  | .dict pairs => stepDict rt self pairs frame
  | .fStr parts => stepFStr rt self parts frame.line
  | _ => unreachable

/-! ## Statements -/

/-- `exec_driver_slot_stmt`. -/
def execDriverSlotStmt (stmt : Stmt) (owner : Block) (stmtIndex : Nat) :
    Ev E H (Option StmtStep) := do
  let env ← Proc.gets Evaluator.env
  let enter (expr : Expr) (line : Nat) (dest : CallDest) : Ev E H (Option StmtStep) := do
    if needsExprFrame rt env expr then
      pure (some (.enter (← newExprFrame owner stmtIndex 0 [] line dest)))
    else pure none
  match stmt with
  | .if condition _ _ line => enter condition line .ifCond
  | .while condition _ line => enter condition line .whileFirst
  | .for _ iter _ line => enter iter line .forIter
  | .indexAssign name index value line =>
    if ¬ needsExprFrame rt env index ∧ ¬ needsExprFrame rt env value then pure none
    else
      let cell ← cellOf name line
      if needsExprFrame rt env index then
        pure (some (.enter (← newExprFrame owner stmtIndex 0 [] line (.indexAssignIndex cell))))
      else
        let idx ← self.evalExpr index line
        indexAssignAfterIndex rt self cell idx owner stmtIndex line
        pure (some .val)
  | _ => pure none

/-- Where a statement puts the value of its expression. -/
def stmtDest : Stmt → CallDest
  | .let name _ line => .let name line
  | .assign name _ line => .assign name line
  | .return _ _ => .return
  | _ => .discard

/-- A call without calls inside it, as the value of a statement. -/
def execDriverCall (dest : CallDest) (callee : Expr) (args : List Expr) (line : Nat) :
    Ev E H StmtStep := do
  match ← prepareCall rt self callee args line with
  | .done v =>
    match ← deliverCallResult rt self dest v with
    | some signal => pure (.flow signal)
    | none => pure .val
  | .user defn saved callee =>
    .enter <$> plainFrame defn.body (.call saved (some ⟨dest, callee⟩))

/-- `exec_driver_call_stmt`. -/
def execDriverCallStmt (stmt : Stmt) (owner : Block) (stmtIndex : Nat) :
    Ev E H (Option StmtStep) := do
  match ← execDriverSlotStmt rt self stmt owner stmtIndex with
  | some step => pure (some step)
  | none =>
    match stmt.valueExpr with
    | none => pure none
    | some expr =>
      let frame : Ev E H (Option StmtStep) := do
        if needsExprFrame rt (← Proc.gets Evaluator.env) expr then
          pure (some (.enter (← newExprFrame owner stmtIndex 0 [] stmt.line (stmtDest stmt))))
        else pure none
      match expr with
      | .call callee args =>
        if ¬ callee.containsCall ∧ ¬ args.any (·.containsCall) then
          some <$> execDriverCall rt self (stmtDest stmt) callee args stmt.line
        else frame
      | _ => frame

/-- The leaves of `exec_stmt`. -/
def execLeafStmt (stmt : Stmt) (owner : Block) (stmtIndex : Nat) : Ev E H StmtStep := do
  match stmt with
  | .let name value line =>
    let v ← self.evalExpr value line
    envSet rt name v line
    pure .val
  | .assign name value line =>
    let v ← self.evalExpr value line
    assignExisting rt name v line
    pure .val
  | .indexAssign name index value line =>
    let cell ← cellOf name line
    let idx ← self.evalExpr index line
    let v ← self.evalExpr value line
    finishIndexAssign rt cell idx v line
    pure .val
  | .return value line =>
    let v ← self.evalExpr value line
    pure (.flow (.return v))
  | .if condition thenBody elseBody line =>
    let v ← self.evalExpr condition line
    .enter <$> enterScopedBlock (if v.isTruthy then thenBody else elseBody) line
  | .while condition _ line =>
    let v ← self.evalExpr condition line
    if v.isTruthy then .enter <$> enterWhile owner stmtIndex line else pure .val
  | .for _ iter _ line =>
    let collection ← self.evalExpr iter line
    match ← forCollection owner stmtIndex line collection with
    | some frame => pure (.enter frame)
    | none => pure .val
  | .fnDef name params body line =>
    let f ← makeFunction rt name params body line
    envSet rt name f line
    pure .val
  | .break line => pure (.flow (.break line))
  | .continue line => pure (.flow (.continue line))
  | .import _ line => raise (.internal line "import がリンクされていません")
  | .tryCatch tryBody var catchBody line => .enter <$> enterTry tryBody var catchBody line
  | .exprStmt expr line =>
    let _ ← self.evalExpr expr line
    pure .val

/-- `exec_stmt`. -/
def execStmt (stmt : Stmt) (owner : Block) (stmtIndex : Nat) : Ev E H StmtStep := do
  if ← Proc.gets Evaluator.canYieldCtx then
    match ← execDriverCallStmt rt self stmt owner stmtIndex with
    | some step => pure step
    | none => execLeafStmt rt self stmt owner stmtIndex
  else execLeafStmt rt self stmt owner stmtIndex

/-! ## The driver -/

/-- `advance_frame` of a `while`. -/
def advanceWhile (site : LoopSite) (body : Block) (line : Nat) (chargeStep : Bool) :
    Ev E H Unit := do
  if chargeStep then countStep line
  match site.owner[site.stmtIndex]? with
  | some (.while condition _ _) =>
    let s ← Proc.gets id
    if s.canYieldCtx && needsExprFrame rt s.env condition then
      push (← newExprFrame site.owner site.stmtIndex 0 [] line .whileIter)
    else
      let v ← self.evalExpr condition line
      whileIteration body line v
  | _ => unreachable

/-- `advance_frame` of a `for`. -/
def advanceFor (site : LoopSite) (body : Block) (line : Nat) (chargeStep : Bool)
    (nextItem : Option Value) : Ev E H Unit := do
  if chargeStep then countStep line
  match nextItem, site.owner[site.stmtIndex]? with
  | none, _ => Proc.modify Evaluator.popFrame
  | some item, some (.for var _ _ _) =>
    setPending
    beginForIteration rt var item body line
  | _, _ => unreachable

/-- `advance_frame`. -/
def advanceFrame : Ev E H Unit := do
  match ← Proc.gets Evaluator.frames with
  | [] => unreachable
  | top :: _ =>
    match top.kind with
    | .while site body line pending =>
      Proc.modify fun s => s.onTop fun top => { top with kind := .while site body line false }
      advanceWhile rt self site body line pending
    | .for site body line items index pending collection =>
      let next := if index < items.length then index + 1 else index
      Proc.modify fun s => s.onTop fun top =>
        { top with kind := .for site body line items next false collection }
      advanceFor rt site body line pending items[index]?
    | _ => Proc.modify Evaluator.popFrame

/-- `pop_driver_call`. -/
def popDriverCall : Ev E H DriverCall := do
  match ← Proc.gets Evaluator.frames with
  | ⟨_, _, .call _ (some driver), _, _⟩ :: _ =>
    Proc.modify Evaluator.popFrame
    pure driver
  | _ => unreachable

/-- `finish_driver_call`. -/
def finishDriverCall (value : Value) : Ev E H (Option FlowSignal) := do
  let driver ← popDriverCall
  deliverCallResult rt self driver.dest value

/-- A signal that no frame of the activation takes. -/
def FlowSignal.surface : FlowSignal → EvalResult
  | .return v => .return v
  | .break line => .break line
  | .continue line => .continue line

/-- `unwind_flow`: one frame, then the rest. -/
def unwindFlow (signal : FlowSignal) (stopDepth : Nat) : Ev E H (Option EvalResult) := do
  match ← Proc.gets Evaluator.frames with
  | [] => pure (some signal.surface)
  | top :: rest =>
    if rest.length + 1 ≤ stopDepth then pure (some signal.surface)
    else
      match signal with
      | .return v =>
        if top.isDriverCall then
          match ← finishDriverCall rt self v with
          | none => pure none
          | some next => self.unwindFlow next stopDepth
        else
          Proc.modify Evaluator.popFrame
          if top.isCall then pure (some (.return v)) else self.unwindFlow (.return v) stopDepth
      | .break line =>
        if top.isLoop then
          Proc.modify Evaluator.popFrame
          pure none
        else if top.isDriverCall then
          let _ ← popDriverCall
          raise (.breakOutsideLoop line)
        else
          Proc.modify Evaluator.popFrame
          self.unwindFlow (.break line) stopDepth
      | .continue line =>
        if top.isLoop then pure none
        else if top.isDriverCall then
          let _ ← popDriverCall
          raise (.continueOutsideLoop line)
        else
          Proc.modify Evaluator.popFrame
          self.unwindFlow (.continue line) stopDepth

/-- `drive_flow`. -/
def driveFlow (signal : FlowSignal) (stopDepth : Nat) : Ev E H (Option EvalResult) := do
  match ← caught (self.unwindFlow signal stopDepth) with
  | .ok result => pure result
  | .error e =>
    recoverError rt e stopDepth
    pure none

/-- `complete_driver_call`. -/
def completeDriverCall (stopDepth : Nat) : Ev E H (Option EvalResult) := do
  match ← caught (finishDriverCall rt self .null) with
  | .ok none => pure none
  | .ok (some signal) => driveFlow rt self signal stopDepth
  | .error e =>
    recoverError rt e stopDepth
    pure none

/-- The expression frames on top are gone. -/
def Evaluator.popExprFrames : Nat → Evaluator E H → Evaluator E H
  | 0, s => s
  | n + 1, s =>
    match s.frames with
    | ⟨_, _, .expr _, _, _⟩ :: _ => popExprFrames n s.popFrame
    | _ => s

/-- The statement on top is to be run again. -/
def Evaluator.stepBack (s : Evaluator E H) : Evaluator E H :=
  s.onTop fun top => { top with cursor := top.cursor - 1 }

/-- `yield_for_host_call`, which is taken back. -/
def takeYield : Ev E H Bool :=
  Proc.update fun s => (s.yieldForHostCall, { s with yieldForHostCall := false })

/-- `drive_expr_step`. -/
def driveExprStep (stopDepth : Nat) : Ev E H (Option DriveOutcome) := do
  Proc.modify fun s => { s with exprProgress := true }
  match ← caught (stepExpr rt self) with
  | .ok none => pure none
  | .ok (some signal) => return (← driveFlow rt self signal stopDepth).map .done
  | .error e =>
    if ← takeYield then
      Proc.modify fun s => (s.popExprFrames s.frames.length).stepBack
      pure (some .yielded)
    else
      recoverError rt e stopDepth
      pure none

/-- The end of the statements of the frame on top. -/
def driveEnd (top : Frame) (stopDepth : Nat) : Ev E H (Option DriveOutcome) := do
  Proc.modify fun s => { s with auditQueueProgress := true }
  if top.isDriverCall then return (← completeDriverCall rt self stopDepth).map .done
  else
    match ← caught (advanceFrame rt self) with
    | .ok _ => pure none
    | .error e =>
      if ← takeYield then pure (some .yielded)
      else
        recoverError rt e stopDepth
        pure none

/-- The next statement of the frame on top. -/
def driveStmt (top : Frame) (stmt : Stmt) (stopDepth : Nat) : Ev E H (Option DriveOutcome) := do
  Proc.modify fun s => s.onTop fun top => { top with cursor := top.cursor + 1 }
  Proc.modify fun s => { s with auditQueueProgress := true }
  match ← caught (execStmt rt self stmt top.stmts top.cursor) with
  | .ok .val => pure none
  | .ok (.enter child) =>
    push child
    pure none
  | .ok (.flow signal) => return (← driveFlow rt self signal stopDepth).map .done
  | .error e =>
    if ← takeYield then
      Proc.modify Evaluator.stepBack
      pure (some .yielded)
    else
      recoverError rt e stopDepth
      pure none

/-- `checkpoint_cancel`, then `checkpoint_deadline`. -/
def checkpoints : Tracked E Unit :=
  onBudget (Budget.Charge.checkCancel >>= fun _ => Budget.Charge.checkDeadline)

/-- A statement or a loop boundary: the audit queue, the checkpoints, the frame on top. -/
def driveBoundary (top : Frame) (stopDepth : Nat) (canYield : Bool) :
    Ev E H (Option DriveOutcome) := do
  let s ← Proc.gets id
  if canYield && s.auditQueueProgress && rt.auditQueueExceeded s.budget s.adapters &&
      !s.inDriverCall then
    Proc.modify fun s => { s with yieldForAuditQueue := true }
    pure (some .yielded)
  else
    match ← caught (charge checkpoints 0) with
    | .error e =>
      Proc.modify (Evaluator.unwindTo stopDepth)
      raise e
    | .ok _ =>
      match top.stmts[top.cursor]? with
      | none => driveEnd rt self top stopDepth
      | some stmt => driveStmt rt self top stmt stopDepth

/-- One pass of the loop of `run_driver_inner`. -/
def driverStep (stopDepth : Nat) (canYield : Bool) : Ev E H (Option DriveOutcome) := do
  let s ← Proc.gets id
  match s.frames with
  | [] => pure (some (.done .val))
  | top :: rest =>
    if rest.length + 1 ≤ stopDepth then pure (some (.done .val))
    else if canYield && (s.sliceExhausted || s.forcedYieldDue) then pure (some .yielded)
    else
      match top.kind with
      | .expr _ => driveExprStep rt self stopDepth
      | _ => driveBoundary rt self top stopDepth canYield

/-- `run_driver_inner`. -/
def driverLoop (stopDepth : Nat) (canYield : Bool) : Ev E H DriveOutcome := do
  match ← driverStep rt self stopDepth canYield with
  | some outcome => pure outcome
  | none => self.driverLoop stopDepth canYield

/-- The functions, when a call nests or repeats at most `n` times. -/
def recur : Nat → Recur E H
  | 0 =>
    { evalExpr _ _ := Proc.stop .outOfFuel
      driverLoop _ _ := Proc.stop .outOfFuel
      unwindFlow _ _ := Proc.stop .outOfFuel
      finishExprFrame _ := Proc.stop .outOfFuel }
  | n + 1 =>
    { evalExpr := evalExpr rt (recur n)
      driverLoop := driverLoop rt (recur n)
      unwindFlow := unwindFlow rt (recur n)
      finishExprFrame := finishExprFrame rt (recur n) }

end Tsumugi.Eval
