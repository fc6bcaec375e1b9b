import Tsumugi.Eval.Operators

/-!
# Frames (`eval.rs`)

The frames that a statement enters, what is charged and bound for them, and how errors
unwind them. `Recur` are the functions that call each other without a bound: they are
closed over a number of steps in `Driver.lean`.
-/

namespace Tsumugi.Eval

open Budget (Charge)

/-- The recursive calls: the evaluation of an expression, the loop of the driver, the unwinding of
a signal, and the end of an expression frame. -/
structure Recur (E H : Type) where
  evalExpr : Expr → Nat → Ev E H Value
  driverLoop : Nat → Bool → Ev E H DriveOutcome
  unwindFlow : FlowSignal → Nat → Ev E H (Option EvalResult)
  finishExprFrame : Value → Ev E H (Option FlowSignal)

variable {E H : Type}

/-! ## New frames -/

/-- `continuation_frame`. -/
def continuationFrame (localCount : Nat) : Nat := 96 + localCount * 32

/-- Push a scope and charge a continuation frame with `localCount` locals; the result is the depth
of the scopes before. -/
def openScope (localCount line : Nat) : Ev E H Nat := do
  let scopeBase ← Proc.gets fun s => s.env.scopeDepth
  Proc.modify fun s => { s with env := s.env.pushScope }
  match ← tracked (onBudget (Charge.chargeHeap (continuationFrame localCount) .run)) with
  | .ok _ => pure scopeBase
  | .error stop =>
    Proc.modify fun s => { s with env := s.env.truncateScopes scopeBase }
    raiseStop stop line

/-- A frame that owns the scope that was opened for it. -/
def scopedFrame (stmts : Block) (kind : FrameKind) (scopeBase localCount : Nat) : Frame :=
  { stmts, cursor := 0, kind, scopeBase, heapCharge := continuationFrame localCount }

/-- A frame without a scope of its own. -/
def plainFrame (stmts : Block) (kind : FrameKind) : Ev E H Frame :=
  Proc.gets fun s =>
    { stmts, cursor := 0, kind, scopeBase := s.env.scopeDepth, heapCharge := 0 }

/-- `enter_scoped_block`. -/
def enterScopedBlock (stmts : Block) (line : Nat) : Ev E H Frame := do
  let scopeBase ← openScope 0 line
  pure (scopedFrame stmts .scoped scopeBase 0)

/-- `enter_try`. -/
def enterTry (tryBody : Block) (var : String) (catchBody : Block) (line : Nat) : Ev E H Frame := do
  let scopeBase ← openScope 0 line
  pure (scopedFrame tryBody (.try var catchBody line) scopeBase 0)

/-- `enter_while`. -/
def enterWhile (owner : Block) (stmtIndex line : Nat) : Ev E H Frame :=
  match owner[stmtIndex]? with
  | some (.while _ body _) => plainFrame [] (.while ⟨owner, stmtIndex⟩ body line false)
  | _ => unreachable

/-- `enter_for`. -/
def enterFor (owner : Block) (stmtIndex : Nat) (items : List Value) (collection : Value)
    (line : Nat) : Ev E H Frame :=
  match owner[stmtIndex]? with
  | some (.for _ _ body _) =>
    plainFrame [] (.for ⟨owner, stmtIndex⟩ body line items 0 false collection)
  | _ => unreachable

/-- `new_expr_frame`. -/
def newExprFrame (owner : Block) (stmtIndex slot : Nat) (path : List Nat) (line : Nat)
    (dest : CallDest) : Ev E H Frame :=
  plainFrame []
    (.expr
      { owner, stmtIndex, slot, path, line, operands := [], started := false, checked := false,
        item := 0, map := [], pendingKey := none, text := "", target := none, parts := [],
        cell := none, dest })

/-- `self.frames.push`. -/
def push (frame : Frame) : Ev E H Unit := Proc.modify (Evaluator.pushFrame frame)

/-- `begin_loop_iteration`. -/
def beginLoopIteration (body : Block) (line : Nat) : Ev E H Unit := do
  let scopeBase ← openScope 0 line
  push (scopedFrame body .block scopeBase 0)

variable (rt : Runtime E H)

/-- `begin_for_iteration`. -/
def beginForIteration (var : String) (item : Value) (body : Block) (line : Nat) : Ev E H Unit := do
  let scopeBase ← openScope 1 line
  match ← set rt var item with
  | .ok _ => push (scopedFrame body .block scopeBase 1)
  | .error stop =>
    Proc.modify fun s =>
      { s.releaseHeap (continuationFrame 1) with env := s.env.truncateScopes scopeBase }
    raiseStop stop line

/-! ## Errors -/

/-- The frames down to the nearest `try` frame above `stopDepth` are gone. -/
def Evaluator.popToTry (stopDepth : Nat) : Nat → Evaluator E H → Evaluator E H
  | 0, s => s
  | n + 1, s =>
    match s.frames with
    | [] => s
    | top :: _ =>
      if s.frames.length ≤ stopDepth then s
      else
        match top.kind with
        | .try .. => s
        | _ => popToTry stopDepth n s.popFrame

/-- The error value that `catch` binds. -/
def errorValue (error : TsumugiError) : Value := .error error.errorType error.message error.line

/-- The body of a `catch` takes the place of the `try` frame on top. -/
def enterCatch (var : String) (catchBody : Block) (scopeBase heapCharge : Nat)
    (error : TsumugiError) : Ev E H Unit := do
  Proc.modify fun s => s.onTop fun top => { top with heapCharge := 0 }
  Proc.modify fun s =>
    { s.releaseHeap heapCharge with env := (s.env.truncateScopes scopeBase).pushScope }
  match ← tracked (onBudget (Charge.chargeHeap (continuationFrame 1) .run)) with
  | .error stop =>
    Proc.modify fun s => { s with env := s.env.truncateScopes scopeBase }
    raiseStop stop error.line
  | .ok _ =>
    match ← set rt var (errorValue error) with
    | .error stop =>
      Proc.modify fun s =>
        { s.releaseHeap (continuationFrame 1) with env := s.env.truncateScopes scopeBase }
      raiseStop stop error.line
    | .ok _ =>
      Proc.modify fun s => s.onTop fun top =>
        { top with
          stmts := catchBody, cursor := 0, kind := .scoped, heapCharge := continuationFrame 1 }

/-- `handle_error`. -/
def handleError (error : TsumugiError) (stopDepth : Nat) : Ev E H Unit := do
  if ErrorKind.isUncatchable error.kind then raise error
  else
    Proc.modify fun s => s.popToTry stopDepth s.frames.length
    let frames ← Proc.gets Evaluator.frames
    if frames.length ≤ stopDepth then raise error
    else
      match frames with
      | ⟨_, _, .try var catchBody _, scopeBase, heapCharge⟩ :: _ =>
        enterCatch rt var catchBody scopeBase heapCharge error
      | _ => unreachable

/-- `recover_error`. -/
def recoverError (error : TsumugiError) (stopDepth : Nat) : Ev E H Unit := do
  let error ← Proc.gets fun s => s.attachTrace error
  match ← caught (handleError rt error stopDepth) with
  | .ok _ => pure ()
  | .error e =>
    Proc.modify (Evaluator.unwindTo stopDepth)
    raise e

/-! ## Calls -/

/-- A step of `bind_user_call` that gives the call frame up when it fails. -/
def bindStep (saved : CallFrame) (m : Ev E H (Except Budget.ControlStop Unit)) (line : Nat) :
    Ev E H Unit := do
  match ← m with
  | .ok _ => pure ()
  | .error stop =>
    Proc.modify fun s => { s with env := s.env.popCallFrame saved }
    raiseStop stop line

/-- The captured cells. -/
def bindCaptured (saved : CallFrame) (line : Nat) : List (String × Addr) → Ev E H Unit
  | [] => pure ()
  | (name, cell) :: rest => do
    bindStep saved (setShared rt name cell) line
    bindCaptured saved line rest

/-- The parameters. -/
def bindParams (saved : CallFrame) (line : Nat) : List (String × Value) → Ev E H Unit
  | [] => pure ()
  | (name, v) :: rest => do
    bindStep saved (set rt name v) line
    bindParams saved line rest

/-- `bind_user_call`. -/
def bindUserCall (func : Value) (args : List Value) (line : Nat) : Ev E H (FnDef × CallFrame) :=
  match func with
  | .fn _ defn captured _ _ => do
    let saved ← Proc.update fun s => (s.env.pushCallFrame.1, { s with env := s.env.pushCallFrame.2 })
    bindCaptured rt saved line captured
    if defn.name ≠ "<lambda>" then
      bindStep saved (set rt defn.name func) line
    bindParams rt saved line (defn.params.zip args)
    Proc.modify fun s => { s with callStack := ⟨defn.name, line⟩ :: s.callStack }
    pure (defn, saved)
  | other => raise (.notCallable line other)

/-- `begin_user_call`. -/
def beginUserCall (line : Nat) : Ev E H Unit := do
  countStep line
  let depth ← Proc.gets fun s => s.callStack.length
  if maxUserCallDepth ≤ depth then raise (.callDepthLimit line maxUserCallDepth) else pure ()

/-- `check_user_callee`. -/
def checkUserCallee (func : Value) (argCount line : Nat) : Except TsumugiError Unit :=
  match func with
  | .fn _ defn .. =>
    if argCount ≠ defn.params.length then
      .error (.userArity line defn.name defn.params.length argCount)
    else .ok ()
  | other => .error (.notCallable line other)

/-- The value of a function expression: `FunctionId`, captured cells, header, retained code. -/
def makeFunction (name : String) (params : List String) (body : Block) (line : Nat) :
    Ev E H Value := do
  let id ← allocateFunctionId line
  let captured ← Proc.gets fun s => s.env.captureReferenced (referencedNames body)
  let header ← charge (rt.newFnHeader captured.length) line
  let retain ← Proc.gets fun s => rt.retainTokensForBody body s.adapters
  let f : FnValue := ⟨id, ⟨name, params, body⟩, captured, header, retain⟩
  Proc.modify fun s => { s with born := s.born ++ [f] }
  pure (.ofFn f)

end Tsumugi.Eval
