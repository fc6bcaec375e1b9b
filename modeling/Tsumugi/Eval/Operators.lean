import Tsumugi.Eval.Runtime
import Tsumugi.Value.FormatTime

/-!
# Operations on values (`eval.rs`, `value.rs`, `budget.rs`)

The operators, indexing, the operations that work on the value in a cell, and
`track_result`, which turns untracked backings into charged ones.
-/

namespace Tsumugi.Eval

open Budget (Charge)
open Bytecode (IndexTarget listPosition)
open Shared (NumericOrdering compareIntFloat)
open FormatTime (checkedI64)

/-! ## Numbers -/

/-- `CANONICAL_NAN_BITS`. -/
def canonicalNanBits : UInt64 := 0x7ff8000000000000

/-- `canonicalize_float`. -/
def canonicalizeFloat (bits : UInt64) : UInt64 :=
  if Shared.Float64.isNan bits then canonicalNanBits else bits

namespace Compare

/-- `from_ord` of the order of integers. -/
def ints (a b : Int) : NumericOrdering :=
  if a < b then .less else if a = b then .equal else .greater

/-- `flip`. -/
def flip : NumericOrdering → NumericOrdering
  | .less => .greater
  | .greater => .less
  | other => other

/-- The test of a relational operator. -/
def test : BinOpKind → NumericOrdering → Bool
  | .lt, o => o == .less
  | .gt, o => o == .greater
  | .ltEq, o => o == .less || o == .equal
  | .gtEq, o => o == .greater || o == .equal
  | _, _ => false

end Compare

variable {E H : Type} (rt : Runtime E H)

/-- `compare_relational`. -/
def compareRelational : Value → Value → Option NumericOrdering
  | .int a, .int b => some (Compare.ints a b)
  | .float a, .float b => some (rt.float.partialCmp a b)
  | .int i, .float f => some (compareIntFloat i f)
  | .float f, .int i => some (Compare.flip (compareIntFloat i f))
  | _, _ => none

/-- The operations on `f64` under the operators. -/
def FloatOps.arith (float : FloatOps) : BinOpKind → Option (UInt64 → UInt64 → UInt64)
  | .add => some float.add
  | .sub => some float.sub
  | .mul => some float.mul
  | .div => some float.div
  | .mod => some float.rem
  | _ => none

/-- The operators on two `Int`. -/
def intArith (l : Int) (op : BinOpKind) (r : Int) (line : Nat) : Option (Except TsumugiError Int) :=
  let checked (n : Int) (operation : String) : Except TsumugiError Int :=
    match checkedI64 n with
    | some n => .ok n
    | none => .error (.intOverflow line operation)
  match op with
  | .add => some (checked (l + r) "加算")
  | .sub => some (checked (l - r) "減算")
  | .mul => some (checked (l * r) "乗算")
  | .div => some (if r = 0 then .error (.zeroDivision line) else checked (l.tdiv r) "除算")
  | .mod => some
      -- `checked_rem` fails where the quotient overflows
      (if r = 0 then .error (.zeroDivision line)
       else if l = -2 ^ 63 ∧ r = -1 then .error (.intOverflow line "剰余")
       else .ok (l.tmod r))
  | _ => none

/-- The arithmetic arms of `eval_binop`: two numbers, or a text. -/
def arith (left : Value) (op : BinOpKind) (right : Value) (line : Nat) :
    Option (Except TsumugiError Value) :=
  let floats (l r : UInt64) : Option (Except TsumugiError Value) :=
    (rt.float.arith op).map fun f => .ok (.float (canonicalizeFloat (f l r)))
  match left, right with
  | .int l, .int r => (intArith l op r line).map (·.map .int)
  | .float l, .float r => floats l r
  | .int l, .float r => floats (rt.float.ofInt l) r
  | .float l, .int r => floats l (rt.float.ofInt r)
  | .str _ l, .str _ r => if op = .add then some (.ok (.strConstant (l ++ r))) else none
  | .str _ l, .error _ message _ =>
    if op = .add then some (.ok (.strConstant (l ++ message))) else none
  | .error _ message _, .str _ r =>
    if op = .add then some (.ok (.strConstant (message ++ r))) else none
  | _, _ => none

/-- `values_equal` of the ledger. -/
def valuesEqual (l r : Value) : Tracked E Bool := onBudget (Shared.valuesEqual .run l.view r.view)

/-- `eval_binop`. -/
def evalBinop (left : Value) (op : BinOpKind) (right : Value) (line : Nat) : Ev E H Value :=
  match op with
  | .eq => do
    let equal ← charge (valuesEqual left right) line
    pure (.bool equal)
  | .notEq => do
    let equal ← charge (valuesEqual left right) line
    pure (.bool !equal)
  | .and | .or => unreachable
  | .lt | .gt | .ltEq | .gtEq =>
    match compareRelational rt left right with
    | some o => pure (.bool (Compare.test op o))
    | none => raise (.comparisonType line op left right)
  | _ =>
    match arith rt left op right line with
    | some r => liftExcept r
    | none => raise (.arithmeticType line op left right)

/-- `eval_unary`. -/
def evalUnary (op : UnaryOpKind) (v : Value) (line : Nat) : Except TsumugiError Value :=
  match op, v with
  | .neg, .int n =>
    match checkedI64 (-n) with
    | some n => .ok (.int n)
    | none => .error (.intOverflow line "符号反転")
  | .neg, .float bits => .ok (.float (canonicalizeFloat (rt.float.neg bits)))
  | .not, v => .ok (.bool !v.isTruthy)
  | op, v => .error (.unaryType line op v)

/-! ## Indexing -/

/-- `eval_index`. -/
def evalIndex (object index : Value) (line : Nat) : Except TsumugiError Value :=
  match object with
  | .list _ items =>
    match index with
    | .int i =>
      match (listPosition items.length i).bind (items[·]?) with
      | some v => .ok v
      | none => .error (.listIndexOutOfRange line i items.length)
    | other => .error (.listIndexType line other)
  | .str _ s =>
    match index with
    | .int i =>
      match (listPosition s.toList.length i).bind (s.toList[·]?) with
      | some c => .ok (.strConstant c.toString)
      | none => .error (.strIndexOutOfRange line i s.toList.length)
    | other => .error (.strIndexType line other)
  | .dict _ entries =>
    match index with
    | .str _ key => .ok ((Dict.get entries key).getD .null)
    | other => .error (.dictKeyType line other)
  | .error errorType message errLine =>
    match index with
    | .str _ "type" => .ok (.strConstant errorType)
    | .str _ "message" => .ok (.strConstant message)
    | .str _ "line" => .ok (.int errLine)
    | .str _ _ => .ok .null
    | other => .error (.dictKeyType line other)
  | other => .error (.indexReadUnsupported line other)

/-- The part of `assign_index` that finds the place. -/
def indexTarget (target index : Value) (maxCollection line : Nat) :
    Except TsumugiError IndexTarget :=
  match target with
  | .list _ items =>
    match index with
    | .int i =>
      match listPosition items.length i with
      | some place => .ok (.listIndex place)
      | none => .error (.listIndexOutOfRange line i items.length)
    | other => .error (.listIndexType line other)
  | .dict _ entries =>
    match index with
    | .str _ key =>
      if ¬ Dict.containsKey entries key ∧ maxCollection < entries.length + 1 then
        .error (.collectionLimit line (entries.length + 1) maxCollection)
      else .ok (.dictKey key)
    | other => .error (.dictKeyType line other)
  | other => .error (.indexAssignUnsupported line other)

/-! ## Work on the value in a cell -/

/-- The copy on write of `old`, the write of its successor, which gets the backing that the copy
gives, and the charge of the difference. -/
def resizeCell (cell : Addr) (old : Value) (next : Nat → Value) (line : Nat) : Ev E H Unit := do
  let id ← chargeRaw (rt.detach old) line
  Proc.modify fun s => { s with env := s.env.write cell (next id) }
  chargeRaw (rt.retrack old (next id)) line

/-- `list_push_tracked`. -/
def listPushTracked (cell : Addr) (item : Value) (line : Nat) : Ev E H Unit := do
  match ← readCell cell with
  | .list old items => resizeCell rt cell (.list old items) (.list · (items ++ [item])) line
  | _ => pure ()

/-- `list_pop_tracked`. -/
def listPopTracked (cell : Addr) (line : Nat) : Ev E H Unit := do
  match ← readCell cell with
  | .list old items =>
    if items.isEmpty then pure ()
    else resizeCell rt cell (.list old items) (.list · items.dropLast) line
  | _ => pure ()

/-- `index_set_tracked`. -/
def indexSetTracked (cell : Addr) (target : IndexTarget) (value : Value) (line : Nat) :
    Ev E H Unit := do
  match ← readCell cell, target with
  | .list old items, .listIndex i =>
    resizeCell rt cell (.list old items) (.list · (items.set i value)) line
  | .dict old entries, .dictKey key =>
    resizeCell rt cell (.dict old entries) (.dict · (Dict.insert key value entries)) line
  | _, _ => pure ()

/-- `budget_list_push`. -/
def budgetListPush (cell : Addr) (value : Value) (line : Nat) : Ev E H Unit := do
  liftExcept (value.checkElementDepth line)
  listPushTracked rt cell value line

/-- `assign_index`. -/
def assignIndex (cell : Addr) (index value : Value) (line : Nat) : Ev E H Unit := do
  let limit ← Proc.gets fun s => s.budget.config.maxCollectionElements
  let place ← liftExcept (indexTarget (← readCell cell) index limit line)
  liftExcept (value.checkElementDepth line)
  indexSetTracked rt cell place value line

/-- `finish_index_assign`. -/
def finishIndexAssign (cell : Addr) (idx val : Value) (line : Nat) : Ev E H Unit := do
  orStop (journalCell rt cell) line
  assignIndex rt cell idx val line

/-- `materialize_for_items`. -/
def materializeForItems (collection : Value) (line : Nat) : Ev E H (List Value) :=
  match collection with
  | .list _ items => do
    checkCollection items.length line
    pure items
  | .dict _ entries => do
    checkCollection entries.length line
    pure (entries.map fun e => .strConstant e.1)
  | .str _ s => do
    checkCollection s.toList.length line
    pure (s.toList.map fun c => .strConstant c.toString)
  | other => raise (.notIterable line other)

/-! ## New values -/

/-- `new_list`. -/
def newList (items : List Value) : Tracked E Value := do
  let id ← rt.newList items
  pure (.list id items)

/-- `new_dict`. -/
def newDict (entries : Dict) : Tracked E Value := do
  let id ← rt.newDict entries
  pure (.dict id entries)

mutual

/-- `track_result`. -/
def trackResult : Value → Tracked E Value
  | .str 0 s => do
    onBudget (Charge.chargeString s.utf8ByteSize .run)
    let id ← rt.newStr s
    pure (.str id s)
  | .list 0 items => do
    let items ← trackItems items
    newList rt items
  | .dict 0 entries => do
    let entries ← trackEntries entries
    newDict rt entries
  | other => pure other

def trackItems : List Value → Tracked E (List Value)
  | [] => pure []
  | v :: rest => do
    let v ← trackResult v
    let rest ← trackItems rest
    pure (v :: rest)

def trackEntries : List (String × Value) → Tracked E (List (String × Value))
  | [] => pure []
  | (key, v) :: rest => do
    let v ← trackResult v
    let rest ← trackEntries rest
    pure ((key, v) :: rest)

end

end Tsumugi.Eval
