import Tsumugi.Vm.Chunk
import Tsumugi.Budget.Ledger

/-!
# The state of the machine and its primitives (`vm.rs`)

The operand stack is kept bottom first, so that a position in it is the index the
source uses; frames and handlers are kept innermost first. A shared cell is an address
into `cells`, which only grows.

What a value operation computes (arithmetic, equality, rendering, the builtins) and what
the allocator answers to a charge is taken from `Natives`: the control of the machine
does not depend on it. Its laws say that such an operation neither changes the limits
nor gives back fuel, and that it builds no function value of its own.

Every push gets a number, `birth`, that nothing reads: a slot keeps it until it is
popped, so it names the variable instance that lives in the slot.
-/

namespace Tsumugi.Bytecode

open Budget (BudgetLedger BudgetConfig Charge ControlStop)
open Word

/-! ## The state -/

/-- An entry of the operand stack, with the number of its push. -/
structure Slot where
  value : Value
  birth : Nat

/-- `CallFrame`. `captured` is that of the function value. -/
structure CallFrame where
  chunk : Chunk
  ip : Nat
  base : Nat
  upvalues : List Addr
  captured : List Nat
  localsCells : List (Option Addr)

/-- `TryHandler`. -/
structure TryHandler where
  catchIp : Nat
  stackDepth : Nat
  frameDepth : Nat
  localsCount : Nat
deriving DecidableEq, Repr

/-- `ReplStackCheckpoint`, without the heap tokens of its entries. -/
structure ReplStackCheckpoint where
  stackLen : Nat
  originals : List (Nat × Slot) := []
  cellOriginals : List (Addr × Value) := []

/-- What the machine shares with the value operations: the ledger and the world. -/
structure Outer (W : Type) where
  budget : BudgetLedger
  world : W

/-- `Vm`. `adopted` says that the chunk of the root frame has been charged. -/
structure Vm (W : Type) where
  frames : List CallFrame
  stack : List Slot
  cells : List Value
  replStackCheckpoint : Option ReplStackCheckpoint
  globals : List (String × Nat)
  outer : Outer W
  tryHandlers : List TryHandler
  pendingHeapStop : Option ControlStop
  watchdogTicks : Nat
  nextFunctionId : Nat
  adopted : Bool
  nextBirth : Nat

/-- Why an instruction, or a run, does not go on. An error is `guard` when it is one of the
checks of the machine's own invariants and `watchdog` when it is the step limit of the
watchdog; the source raises both like any other error. -/
inductive VmStop
  | error (e : TsumugiError)
  | guard (e : TsumugiError)
  | watchdog (e : TsumugiError)
  | panic
deriving DecidableEq, Repr

/-- A function of the machine. -/
abbrev Op (W : Type) (α : Type) := Proc (Vm W) VmStop α

/-! ## Value operations -/

/-- A charge of the ledger or the allocator. -/
abbrev Host (W : Type) (α : Type) := Proc (Outer W) ControlStop α

/-- Limits stay and committed fuel does not shrink. -/
def frugal (W : Type) (ε : Type) : Proc.Contract (Outer W) ε where
  rel _ s t := t.budget.config = s.budget.config ∧
    s.budget.committed.fuel ≤ t.budget.committed.fuel
  refl _ := ⟨rfl, Nat.le_refl _⟩
  trans h h' := ⟨h'.1.trans h.1, h.2.trans h'.2⟩

/-- The operations on values and the answers of the allocator. `compute` is `binary_add` and its
siblings; `trackResult` is the charge of a new value, `detach` that of a copy on write and
`retrack` that of a change of size. -/
structure Natives (W : Type) where
  compute : BinOpKind → Value → Value → Nat → Except TsumugiError Value
  negate : Value → Nat → Except TsumugiError Value
  valuesEqual : Value → Value → Host W Bool
  renderDisplay : Value → Host W String
  print : String → Nat → Proc (Outer W) TsumugiError Unit
  execBuiltin : String → List Value → Nat → Proc (Outer W) TsumugiError Value
  trackResult : Value → Host W Unit
  newList : List Value → Host W Unit
  newCell : Host W Unit
  newVmFnHeader : Nat → Host W Unit
  journalEntry : Host W Unit
  detach : Value → Host W Unit
  retrack : Value → Value → Host W Unit
  chargeChunkTree : Chunk → Host W Unit
  frugal_valuesEqual : ∀ a b, (valuesEqual a b).Meets (frugal W ControlStop)
  frugal_renderDisplay : ∀ v, (renderDisplay v).Meets (frugal W ControlStop)
  frugal_print : ∀ payload line, (print payload line).Meets (frugal W TsumugiError)
  frugal_execBuiltin : ∀ name args line,
    (execBuiltin name args line).Meets (frugal W TsumugiError)
  frugal_trackResult : ∀ v, (trackResult v).Meets (frugal W ControlStop)
  frugal_newList : ∀ items, (newList items).Meets (frugal W ControlStop)
  frugal_newCell : newCell.Meets (frugal W ControlStop)
  frugal_newVmFnHeader : ∀ n, (newVmFnHeader n).Meets (frugal W ControlStop)
  frugal_journalEntry : journalEntry.Meets (frugal W ControlStop)
  frugal_detach : ∀ v, (detach v).Meets (frugal W ControlStop)
  frugal_retrack : ∀ v w, (retrack v w).Meets (frugal W ControlStop)
  frugal_chargeChunkTree : ∀ c, (chargeChunkTree c).Meets (frugal W ControlStop)
  compute_all : ∀ (P : FnValue → Prop) op a b line v, compute op a b line = .ok v → v.All P
  negate_all : ∀ (P : FnValue → Prop) a line v, negate a line = .ok v → v.All P
  execBuiltin_all : ∀ (P : FnValue → Prop) name args line s v t, (∀ a ∈ args, a.All P) →
    (execBuiltin name args line).run s = (.ok v, t) → v.All P

/-- Natives for runs on fixed inputs that compute nothing: a charge is always granted, and an
operation on values raises an error. -/
def Natives.free : Natives Unit where
  compute _ _ _ line := .error (.runtimeWithKind line .type "")
  negate _ line := .error (.runtimeWithKind line .type "")
  valuesEqual _ _ := pure false
  renderDisplay _ := pure ""
  print _ _ := pure ()
  execBuiltin _ _ line := Proc.stop (.runtimeWithKind line .type "")
  trackResult _ := pure ()
  newList _ := pure ()
  newCell := pure ()
  newVmFnHeader _ := pure ()
  journalEntry := pure ()
  detach _ := pure ()
  retrack _ _ := pure ()
  chargeChunkTree _ := pure ()
  frugal_valuesEqual _ _ := Proc.meets_pure _
  frugal_renderDisplay _ := Proc.meets_pure _
  frugal_print _ _ := Proc.meets_pure _
  frugal_execBuiltin _ _ _ := Proc.meets_stop (frugal Unit TsumugiError).refl
  frugal_trackResult _ := Proc.meets_pure _
  frugal_newList _ := Proc.meets_pure _
  frugal_newCell := Proc.meets_pure _
  frugal_newVmFnHeader _ := Proc.meets_pure _
  frugal_journalEntry := Proc.meets_pure _
  frugal_detach _ := Proc.meets_pure _
  frugal_retrack _ _ := Proc.meets_pure _
  frugal_chargeChunkTree _ := Proc.meets_pure _
  compute_all _ _ _ _ _ _ h := nomatch h
  negate_all _ _ _ _ h := nomatch h
  execBuiltin_all _ _ _ _ _ _ _ _ h := nomatch h

/-- A charge of the ledger. -/
def onBudget {W : Type} {α : Type} (m : Charge α) : Host W α where
  run s := ((m.run s.budget).1, { s with budget := (m.run s.budget).2 })

/-- Work on a value in place, with the ledger. An error may come after the value has changed. -/
abbrev InPlace (W : Type) (α : Type) := Proc (Value × Outer W) TsumugiError α

section InPlace

variable {W : Type}

/-- A charge in the course of such work. -/
def InPlace.host {α : Type} (m : Host W α) (line : Nat) : InPlace W α where
  run s :=
    match m.run s.2 with
    | (.ok a, o) => (.ok a, (s.1, o))
    | (.error stop, o) => (.error (stop.toError line), (s.1, o))

/-- A check that does not touch the state. -/
def InPlace.check {α : Type} (r : Except TsumugiError α) : InPlace W α :=
  match r with
  | .ok a => pure a
  | .error e => Proc.stop e

/-- Replace the value by one of another size: the copy on write, the write, the charge of the
difference. -/
def InPlace.resize (natives : Natives W) (old new : Value) (line : Nat) : InPlace W Unit := do
  InPlace.host (natives.detach old) line
  Proc.modify fun s => (new, s.2)
  InPlace.host (natives.retrack old new) line

/-- `list_push_tracked`. -/
def listPushTracked (natives : Natives W) (item : Value) (line : Nat) : InPlace W Unit := do
  let s ← Proc.gets id
  match s.1 with
  | .list items => InPlace.resize natives (.list items) (.list (items ++ [item])) line
  | _ => pure ()

/-- `list_pop_tracked`. -/
def listPopTracked (natives : Natives W) (line : Nat) : InPlace W Unit := do
  let s ← Proc.gets id
  match s.1 with
  | .list items =>
    if items.isEmpty then pure ()
    else InPlace.resize natives (.list items) (.list items.dropLast) line
  | _ => pure ()

/-- `BTreeMap::contains_key` on the entries of a dict. -/
def containsKey (entries : List (String × Value)) (key : String) : Bool :=
  entries.any (·.1 = key)

/-- `BTreeMap::insert`. -/
def insertKey (key : String) (value : Value) : List (String × Value) → List (String × Value)
  | [] => [(key, value)]
  | (k, v) :: rest =>
    if key = k then (key, value) :: rest
    else if key < k then (key, value) :: (k, v) :: rest
    else (k, v) :: insertKey key value rest

/-- `IndexTarget`. -/
inductive IndexTarget
  | listIndex (index : Nat)
  | dictKey (key : String)

/-- `index_set_tracked`. -/
def indexSetTracked (natives : Natives W) (target : IndexTarget) (value : Value) (line : Nat) :
    InPlace W Unit := do
  let s ← Proc.gets id
  match s.1, target with
  | .list items, .listIndex i =>
    InPlace.resize natives (.list items) (.list (items.set i value)) line
  | .dict entries, .dictKey key =>
    InPlace.resize natives (.dict entries) (.dict (insertKey key value entries)) line
  | _, _ => pure ()

/-- `list_index` as `assign_index` and `eval_index` compute it: a negative index counts from the
end. -/
def listPosition (len : Nat) (i : Int) : Option Nat :=
  let actual := if i < 0 then (len : Int) + i else i
  if 0 ≤ actual ∧ actual < len then some actual.toNat else none

/-- The part of `assign_index` that finds the place. -/
def indexTarget (target index : Value) (maxCollection line : Nat) :
    Except TsumugiError IndexTarget :=
  match target with
  | .list items =>
    match index with
    | .int i =>
      match listPosition items.length i with
      | some at' => .ok (.listIndex at')
      | none => .error (.listIndexOutOfRange line i items.length)
    | other => .error (.listIndexType line other.sample)
  | .dict entries =>
    match index with
    | .str key =>
      if ¬ containsKey entries key ∧ maxCollection < entries.length + 1 then
        .error (.collectionLimit line (entries.length + 1) maxCollection)
      else .ok (.dictKey key)
    | other => .error (.dictKeyType line other.sample)
  | other => .error (.indexAssignUnsupported line other.sample)

/-- `assign_index`. -/
def assignIndex (natives : Natives W) (index value : Value) (line : Nat) : InPlace W Unit := do
  let s ← Proc.gets id
  let place ← InPlace.check (indexTarget s.1 index s.2.budget.config.maxCollectionElements line)
  InPlace.check (value.checkElementDepth line)
  indexSetTracked natives place value line

end InPlace

/-- `eval_index`. -/
def evalIndex (collection index : Value) (line : Nat) : Except TsumugiError Value :=
  match collection with
  | .list items =>
    match index with
    | .int i =>
      match (listPosition items.length i).bind (items[·]?) with
      | some v => .ok v
      | none => .error (.listIndexOutOfRange line i items.length)
    | other => .error (.listIndexType line other.sample)
  | .str s =>
    match index with
    | .int i =>
      match (listPosition s.toList.length i).bind (s.toList[·]?) with
      | some c => .ok (.str c.toString)
      | none => .error (.strIndexOutOfRange line i s.toList.length)
    | other => .error (.strIndexType line other.sample)
  | .dict entries =>
    match index with
    | .str key => .ok (((entries.find? (·.1 = key)).map (·.2)).getD .null)
    | other => .error (.dictKeyType line other.sample)
  | .error errorType message errLine =>
    match index with
    | .str "type" => .ok (.str errorType)
    | .str "message" => .ok (.str message)
    | .str "line" => .ok (.int errLine)
    | .str _ => .ok .null
    | other => .error (.dictKeyType line other.sample)
  | other => .error (.indexReadUnsupported line other.sample)

/-- `builtin_len` of one value. -/
def builtinLen (v : Value) (line : Nat) : Except TsumugiError Value :=
  match v with
  | .list items => .ok (.int items.length)
  | .str s => .ok (.int s.toList.length)
  | .dict entries => .ok (.int entries.length)
  | other => .error (.builtinArgType line "len" 1 "List/Str/Dict" other.sample)

/-- `check_arity_count`. -/
def checkArityCount (name : String) (actual expected line : Nat) : Except TsumugiError Unit :=
  if actual ≠ expected then .error (.builtinArity line name expected actual) else .ok ()

/-- `validate_context_builtin_call`. -/
def validateContextBuiltinCall (name : String) (argCount : Nat) (firstArgIsIdentifier : Bool)
    (line : Nat) : Except TsumugiError Unit :=
  let mutation (expected : Nat) : Except TsumugiError Unit :=
    match checkArityCount name argCount expected line with
    | .error e => .error e
    | .ok () =>
      if firstArgIsIdentifier then .ok () else .error (.mutationTargetNotVariable line name)
  match name with
  | "input" | "args" => checkArityCount name argCount 0 line
  | "exit" => if 1 < argCount then .error (.exitArity line argCount) else .ok ()
  | "push" => mutation 2
  | "pop" => mutation 1
  | "map" | "filter" | "each" => checkArityCount name argCount 2 line
  | _ => .ok ()

/-! ## Primitives of the machine -/

namespace Op

variable {W : Type}

/-- An error that a value operation or a check of the language raises. -/
def raise {α : Type} (e : TsumugiError) : Op W α := Proc.stop (.error e)

/-- `internal_error`. -/
def internalError {α : Type} (line : Nat) (message : String) : Op W α :=
  Proc.stop (.guard (.runtimeWithKind line .internal message))

/-- A check that does not touch the state. -/
def check {α : Type} (r : Except TsumugiError α) : Op W α :=
  match r with
  | .ok a => pure a
  | .error e => raise e

/-- A part of the state that must be there. -/
def expect {α : Type} (o : Option α) (line : Nat) (message : String) : Op W α :=
  match o with
  | some a => pure a
  | none => internalError line message

/-- A charge of the ledger or the allocator. -/
def host {α : Type} (m : Host W α) (line : Nat) : Op W α where
  run s :=
    match m.run s.outer with
    | (.ok a, o) => (.ok a, { s with outer := o })
    | (.error stop, o) => (.error (.error (stop.toError line)), { s with outer := o })

/-- A value operation that raises errors of its own. -/
def native {α : Type} (m : Proc (Outer W) TsumugiError α) : Op W α where
  run s :=
    match m.run s.outer with
    | (.ok a, o) => (.ok a, { s with outer := o })
    | (.error e, o) => (.error (.error e), { s with outer := o })

/-- The running frame. -/
def frameOr (line : Nat) (message : String) : Op W CallFrame := do
  let s ← Proc.gets id
  expect s.frames.head? line message

/-- `frame`. -/
def frame (line : Nat) : Op W CallFrame := frameOr line "実行中のframeがありません"

/-- Change the running frame, if there is one. -/
def onFrame (f : CallFrame → CallFrame) : Op W Unit :=
  Proc.modify fun s =>
    match s.frames with
    | top :: rest => { s with frames := f top :: rest }
    | [] => s

/-- `set_ip`. -/
def setIp (target line : Nat) : Op W Unit := do
  let _ ← frame line
  onFrame fun f => { f with ip := target }

/-- `self.stack.push`. -/
def push (v : Value) : Op W Unit :=
  Proc.modify fun s =>
    { s with stack := s.stack ++ [⟨v, s.nextBirth⟩], nextBirth := s.nextBirth + 1 }

/-- The contents of a cell. An address is never dangling. -/
def readCell (s : Vm W) (a : Addr) : Value := s.cells.getD a .null

/-- Write a cell. -/
def writeCell (a : Addr) (v : Value) : Op W Unit :=
  Proc.modify fun s => { s with cells := s.cells.set a v }

/-! ### The journal of a submission -/

variable (natives : Natives W)

/-- `charge_journal_entry`: a refusal waits for the next instruction. -/
def chargeJournalEntry : Op W Unit where
  run s :=
    match natives.journalEntry.run s.outer with
    | (.ok (), o) => (.ok (), { s with outer := o })
    | (.error stop, o) =>
      (.ok (), { s with outer := o, pendingHeapStop := s.pendingHeapStop <|> some stop })

/-- Change the journal, if a submission is open. -/
def onCheckpoint (f : ReplStackCheckpoint → ReplStackCheckpoint) : Op W Unit :=
  Proc.modify fun s => { s with replStackCheckpoint := s.replStackCheckpoint.map f }

/-- `checkpoint_stack_slot`. -/
def checkpointStackSlot (index : Nat) : Op W Unit := do
  let s ← Proc.gets id
  match s.replStackCheckpoint with
  | none => pure ()
  | some cp =>
    if index < cp.stackLen ∧ (cp.originals.lookup index).isNone then
      match s.stack[index]? with
      | none => pure ()
      | some slot => do
        chargeJournalEntry natives
        onCheckpoint fun cp => { cp with originals := (index, slot) :: cp.originals }
    else pure ()

/-- Checkpoint some positions. -/
def checkpointSlots : List Nat → Op W Unit
  | [] => pure ()
  | index :: rest => do
    checkpointStackSlot natives index
    checkpointSlots rest

/-- `checkpoint_stack_range`. -/
def checkpointStackRange (start stop : Nat) : Op W Unit := do
  let s ← Proc.gets id
  let stop := min stop s.stack.length
  checkpointSlots natives (List.range' (min start stop) (stop - min start stop))

/-- `checkpoint_cell`. -/
def checkpointCell (a : Addr) : Op W Unit := do
  let s ← Proc.gets id
  match s.replStackCheckpoint with
  | none => pure ()
  | some cp =>
    if (cp.cellOriginals.lookup a).isSome then pure ()
    else do
      chargeJournalEntry natives
      onCheckpoint fun cp => { cp with cellOriginals := (a, readCell s a) :: cp.cellOriginals }

/-- `truncate_stack`. -/
def truncateStack (len : Nat) : Op W Unit := do
  let s ← Proc.gets id
  Proc.when (len < s.stack.length) (checkpointStackRange natives len s.stack.length)
  Proc.modify fun s => { s with stack := s.stack.take len }

/-- `pop`. -/
def pop (line : Nat) : Op W Value := do
  let s ← Proc.gets id
  Proc.when (0 < s.stack.length) (checkpointStackSlot natives (s.stack.length - 1))
  match s.stack.getLast? with
  | none => internalError line "内部エラー: スタックが空です"
  | some slot => do
    Proc.modify fun s => { s with stack := s.stack.dropLast }
    pure slot.value

/-- Pop several values, the last pushed first. -/
def popMany (line : Nat) : Nat → Op W (List Value)
  | 0 => pure []
  | n + 1 => do
    let v ← pop natives line
    let rest ← popMany line n
    pure (v :: rest)

/-- `require_stack_len`. -/
def requireStackLen (count line : Nat) : Op W Unit := do
  let s ← Proc.gets id
  if s.stack.length < count then
    internalError line
      s!"スタックの要素数が不足しています (要求: {count}, 実際: {s.stack.length})"
  else pure ()

/-- The value on top of the stack. -/
def peek (line : Nat) (message : String) : Op W Value := do
  let s ← Proc.gets id
  match s.stack.getLast? with
  | some slot => pure slot.value
  | none => internalError line message

/-- Work in place on a stack entry, which the caller has found to exist. -/
def atStack (index : Nat) (m : InPlace W Unit) : Op W Unit where
  run s :=
    match s.stack[index]? with
    | none => (.error .panic, s)
    | some slot =>
      match m.run (slot.value, s.outer) with
      | (.ok (), (v, o)) => (.ok (), { s with
          outer := o, stack := s.stack.set index { slot with value := v } })
      | (.error e, (v, o)) => (.error (.error e), { s with
          outer := o, stack := s.stack.set index { slot with value := v } })

/-- Work in place on a cell. -/
def atCell (a : Addr) (m : InPlace W Unit) : Op W Unit where
  run s :=
    match m.run (readCell s a, s.outer) with
    | (.ok (), (v, o)) => (.ok (), { s with outer := o, cells := s.cells.set a v })
    | (.error e, (v, o)) => (.error (.error e), { s with outer := o, cells := s.cells.set a v })

/-! ### Fuel and the watchdog -/

/-- `surface_pending_heap_stop`. -/
def surfacePendingHeapStop (line : Nat) : Op W Unit := do
  let s ← Proc.gets id
  match s.pendingHeapStop with
  | none => pure ()
  | some stop => do
    Proc.modify fun s => { s with pendingHeapStop := none }
    raise (stop.toError line)

/-- `count_step`. -/
def countStep (line : Nat) : Op W Unit := do
  surfacePendingHeapStop line
  host (onBudget (Charge.chargeFuel 1 .run)) line

/-- `check_collection`. -/
def checkCollection (size line : Nat) : Op W Unit :=
  host (onBudget (Charge.checkCollectionElements size .run)) line

/-- `step_limit`. -/
def stepLimit (line limit : Nat) : TsumugiError :=
  .runtimeWithKind line .stepLimit s!"ステップ上限に達しました (上限: {limit})"

/-- `watchdog_limit`. -/
def watchdogLimit (s : Vm W) : Nat := satAdd (satMul s.outer.budget.config.totalFuel 2) 16

/-- `watchdog_tick`. -/
def watchdogTick (line : Nat) : Op W Unit := do
  Proc.modify fun s => { s with watchdogTicks := satAdd s.watchdogTicks 1 }
  let s ← Proc.gets id
  if watchdogLimit s < s.watchdogTicks then
    Proc.stop (.watchdog (stepLimit line s.outer.budget.config.totalFuel))
  else pure ()

/-- `push_call_frame`. -/
def pushCallFrame (f : CallFrame) (line : Nat) : Op W Unit := do
  watchdogTick line
  Proc.modify fun s => { s with frames := f :: s.frames }

/-- `active_user_frame_count`. -/
def activeUserFrameCount (s : Vm W) : Nat := s.frames.length - 1

/-- The check of the call depth. -/
def checkCallDepth (line : Nat) : Op W Unit := do
  let s ← Proc.gets id
  if maxUserCallDepth ≤ activeUserFrameCount s then raise (.callDepthLimit line maxUserCallDepth)
  else pure ()

/-! ### Variables -/

/-- The cell of a slot of a frame, if the variable has been captured. -/
def cellOf (f : CallFrame) (slot : Nat) : Option Addr := (f.localsCells[slot]?).join

/-- `constant`. -/
def constant (index line : Nat) : Op W Value := do
  let f ← frame line
  expect f.chunk.constants[index]? line s!"定数表の参照が不正です: {index}"

/-- `upvalue_cell`. -/
def upvalueCell (index line : Nat) : Op W Addr := do
  let f ← frame line
  expect f.upvalues[index]? line s!"upvalueの参照が不正です: {index}"

/-- `local_stack_index`. Positions are far below the range of `usize`. -/
def localStackIndex (base slot line : Nat) : Op W Nat := do
  let s ← Proc.gets id
  if s.stack.length ≤ base + slot then internalError line s!"local slotが不正です: {slot}"
  else pure (base + slot)

/-- The value of a slot of a frame: that of its cell, or the stack entry. -/
def readSlot (f : CallFrame) (slot line : Nat) (message : String) : Op W Value := do
  let s ← Proc.gets id
  match cellOf f slot with
  | some a => pure (readCell s a)
  | none =>
    match s.stack[f.base + slot]? with
    | some entry => pure entry.value
    | none => internalError line message

/-- `get_local`. -/
def getLocal (slot line : Nat) : Op W Value := do
  let f ← frame line
  readSlot f slot line s!"local slotが不正です: {slot}"

/-- The value that `with_local_ref` lends. -/
def withLocalRef (slot line : Nat) : Op W Value := do
  let f ← frameOr line "local参照用のframeがありません"
  readSlot f slot line "local slotが不正です"

/-- Overwrite a stack entry that exists. -/
def writeStack (index : Nat) (v : Value) : Op W Unit where
  run s :=
    match s.stack[index]? with
    | none => (.error .panic, s)
    | some slot => (.ok (), { s with stack := s.stack.set index { slot with value := v } })

/-- Write a cell in the course of a submission. -/
def assignCell (a : Addr) (v : Value) : Op W Unit := do
  checkpointCell natives a
  writeCell a v

/-- `set_local`. -/
def setLocal (slot : Nat) (v : Value) (line : Nat) : Op W Unit := do
  let f ← frame line
  match cellOf f slot with
  | some a => assignCell natives a v
  | none => do
    let index ← localStackIndex f.base slot line
    checkpointStackSlot natives index
    writeStack index v

/-- `while frame.locals_cells.len() <= slot { push(None) }`. -/
def padCells (slot : Nat) (cells : List (Option Addr)) : List (Option Addr) :=
  cells ++ List.replicate (slot + 1 - cells.length) none

/-- `ensure_local_cell`. -/
def ensureLocalCell (slot line : Nat) : Op W Addr := do
  let f ← frame line
  let index ← localStackIndex f.base slot line
  onFrame fun f => { f with localsCells := padCells slot f.localsCells }
  match cellOf f slot with
  | some a => pure a
  | none => do
    let s ← Proc.gets id
    host natives.newCell line
    match s.stack[index]? with
    | none => Proc.stop .panic
    | some entry => do
      let a := s.cells.length
      Proc.modify fun s => { s with cells := s.cells ++ [entry.value] }
      onFrame fun f => { f with localsCells := f.localsCells.set slot (some a) }
      pure a

/-- The top-level frame and the slot of a registered global. -/
def globalSlot (name : String) (line : Nat) (undefined : TsumugiError) (message : String) :
    Op W (CallFrame × Nat) := do
  let s ← Proc.gets id
  match s.globals.lookup name with
  | none => raise undefined
  | some slot => do
    let f ← expect s.frames.getLast? line message
    pure (f, slot)

/-- `get_global`. -/
def getGlobal (name : String) (line : Nat) : Op W Value := do
  let (f, slot) ← globalSlot name line (.undefinedName line name)
    "global参照用のtop-level frameがありません"
  readSlot f slot line s!"global registryのslotが不正です: {name}"

/-- `require_global`. -/
def requireGlobal (name : String) (line : Nat) : Op W Unit := do
  let s ← Proc.gets id
  if (s.globals.lookup name).isSome then pure () else raise (.undefinedName line name)

/-- `set_global`. -/
def setGlobal (name : String) (v : Value) (line : Nat) : Op W Unit := do
  let (f, slot) ← globalSlot name line (.assignUndefined line name)
    "global更新用のtop-level frameがありません"
  match cellOf f slot with
  | some a => assignCell natives a v
  | none => do
    checkpointStackSlot natives (f.base + slot)
    let s ← Proc.gets id
    if f.base + slot < s.stack.length then writeStack (f.base + slot) v
    else internalError line s!"global registryのslotが不正です: {name}"

/-- `HashMap::insert`. -/
def insertGlobal (name : String) (slot : Nat) (globals : List (String × Nat)) :
    List (String × Nat) := (name, slot) :: globals.filter (·.1 ≠ name)

/-- `register_global`. -/
def registerGlobal (name : String) (slot line : Nat) : Op W Unit := do
  let s ← Proc.gets id
  match s.frames with
  | [f] =>
    if s.stack.length ≤ f.base + slot then
      internalError line s!"global登録対象のslotが不正です: {name}"
    else Proc.modify fun s => { s with globals := insertGlobal name slot s.globals }
  | _ => internalError line "関数frameからglobalを登録しようとしました"

/-- `BindingStorage`. -/
inductive BindingStorage
  | cell (a : Addr)
  | stack (index : Nat)

/-- The storage of a slot of a frame. -/
def slotStorage (f : CallFrame) (slot : Nat) : BindingStorage :=
  match cellOf f slot with
  | some a => .cell a
  | none => .stack (f.base + slot)

/-- `resolve_binding_storage`. -/
def resolveBindingStorage (target : MutationTarget) (line : Nat) : Op W BindingStorage :=
  match target with
  | .localSlot slot => do
    let f ← frameOr line "local参照用のframeがありません"
    pure (slotStorage f slot)
  | .upvalue index => do
    let f ← frameOr line "upvalue参照用のframeがありません"
    let a ← expect f.upvalues[index]? line s!"upvalue indexが不正です: {index}"
    pure (.cell a)
  | .globalName name => do
    let (f, slot) ← globalSlot name line (.undefinedName line name)
      "global参照用のtop-level frameがありません"
    pure (slotStorage f slot)

/-- `assign_index_binding`. -/
def assignIndexBinding (target : MutationTarget) (index value : Value) (line : Nat) :
    Op W Unit := do
  match ← resolveBindingStorage target line with
  | .cell a => do
    checkpointCell natives a
    atCell a (assignIndex natives index value line)
  | .stack at' => do
    checkpointStackSlot natives at'
    let s ← Proc.gets id
    if at' < s.stack.length then atStack at' (assignIndex natives index value line)
    else internalError line "インデックス代入の対象slotが不正です"

/-- The list that `push` finds in the binding, and its checks. -/
def checkPushTarget (target : Value) (line : Nat) : Op W Unit :=
  match target with
  | .list items => checkCollection (items.length + 1) line
  | other => raise (.builtinArgType line "push" 1 "List" other.sample)

/-- `list_push_binding`. -/
def listPushBinding (target : MutationTarget) (value : Value) (line : Nat) : Op W Unit := do
  match ← resolveBindingStorage target line with
  | .cell a => do
    let s ← Proc.gets id
    checkPushTarget (readCell s a) line
    check (value.checkElementDepth line)
    checkpointCell natives a
    atCell a (listPushTracked natives value line)
  | .stack at' => do
    let s ← Proc.gets id
    match s.stack[at']? with
    | none => internalError line "push の対象slotが不正です"
    | some entry => do
      checkPushTarget entry.value line
      checkpointStackSlot natives at'
      check (value.checkElementDepth line)
      atStack at' (listPushTracked natives value line)

end Op

end Tsumugi.Bytecode
