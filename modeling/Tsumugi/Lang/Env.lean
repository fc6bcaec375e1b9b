import Tsumugi.Lang.Value

/-!
# The environment and its undo journal (`env.rs`)

Scopes stand outermost first; a scope is a partial map from names to cells, and
the cells live in a store. The heap charges that the source makes inside these
operations are made by the evaluator, which calls the parts below in the same
order.
-/

namespace Tsumugi

/-- One scope: `HashMap<String, SharedValue>`. -/
abbrev Scope := String → Option Addr

namespace Scope

def empty : Scope := fun _ => none

/-- `HashMap::insert`, or `HashMap::remove` for `none`. -/
def put (scope : Scope) (name : String) (cell : Option Addr) : Scope :=
  fun n => if n = name then cell else scope n

@[simp] theorem put_same (scope : Scope) (name : String) (cell : Option Addr) :
    scope.put name cell name = cell := if_pos rfl

theorem put_other (scope : Scope) {name n : String} (cell : Option Addr) (h : n ≠ name) :
    scope.put name cell n = scope n := if_neg h

end Scope

/-- `CallFrame`: what a return needs to restore. -/
structure CallFrame where
  previousBase : Nat
  scopeLen : Nat
deriving DecidableEq, Repr

/-- `UndoEntry`. -/
inductive UndoEntry
  | scopeEntry (scope : Nat) (name : String) (original : Option Addr)
  | cellValue (cell : Addr) (original : Value)

/-- `SubmissionJournal`, newest entry first. `mark` is the size of the store when the
submission began. -/
structure SubmissionJournal where
  undoLog : List UndoEntry
  seenCells : List Addr
  seenScopeEntries : List (Nat × String)
  mark : Nat

/-- `Env`. -/
structure Env where
  scopes : List Scope
  frameBase : Nat
  cells : List Value
  journal : Option SubmissionJournal

namespace Env

/-- `Env::new`. -/
def new : Env := { scopes := [.empty], frameBase := 0, cells := [], journal := none }

/-- `scope_depth`. -/
def scopeDepth (env : Env) : Nat := env.scopes.length

/-- `visible_scopes`: the scopes of the call frame from the inside out, then the
global scope. -/
def visibleScopes (env : Env) : List Scope :=
  (env.scopes.drop env.frameBase).reverse ++
    if 0 < env.frameBase then env.scopes.take 1 else []

/-- `get_cell`. -/
def getCell (env : Env) (name : String) : Option Addr :=
  env.visibleScopes.findSome? fun scope => scope name

/-- What the cell at an address holds. -/
def read (env : Env) (cell : Addr) : Option Value := env.cells[cell]?

/-- `get`. -/
def get (env : Env) (name : String) : Option Value := (env.getCell name).bind env.read

/-- `capture_referenced`. -/
def captureReferenced (env : Env) (names : List String) : List (String × Addr) :=
  names.filterMap fun name => (env.getCell name).map fun cell => (name, cell)

/-- `push_scope`. -/
def pushScope (env : Env) : Env := { env with scopes := env.scopes ++ [.empty] }

/-- `truncate_scopes`. -/
def truncateScopes (env : Env) (len : Nat) : Env := { env with scopes := env.scopes.take len }

/-- `push_call_frame`. -/
def pushCallFrame (env : Env) : CallFrame × Env :=
  ({ previousBase := env.frameBase, scopeLen := env.scopes.length },
    { env with scopes := env.scopes ++ [.empty], frameBase := env.scopes.length })

/-- `pop_call_frame`. -/
def popCallFrame (env : Env) (frame : CallFrame) : Env :=
  { env with scopes := env.scopes.take frame.scopeLen, frameBase := frame.previousBase }

/-- The allocation of `Value::new_cell`: the address of a new cell that holds `v`. -/
def newCell (env : Env) (v : Value) : Addr × Env :=
  (env.cells.length, { env with cells := env.cells ++ [v] })

/-- `*cell.borrow_mut() = v`. -/
def write (env : Env) (cell : Addr) (v : Value) : Env :=
  { env with cells := env.cells.set cell v }

/-- Insert a binding into the scope at an index. -/
def putIn (env : Env) (scope : Nat) (name : String) (cell : Option Addr) : Env :=
  { env with scopes := env.scopes.modify scope fun s => s.put name cell }

/-- The index of the current scope. -/
def current (env : Env) : Nat := env.scopes.length - 1

/-- Whether `journal_scope_entry` has to record the binding of a name in the current
scope: a submission is open and the entry is not recorded yet. -/
def recordsScopeEntry (env : Env) (name : String) : Bool :=
  match env.journal with
  | none => false
  | some j => !j.seenScopeEntries.contains (env.current, name)

/-- The recording of `journal_scope_entry`. -/
def recordScopeEntry (env : Env) (name : String) : Env :=
  { env with
    journal := env.journal.map fun j =>
      { j with
        seenScopeEntries := (env.current, name) :: j.seenScopeEntries
        undoLog := .scopeEntry env.current name
          ((env.scopes[env.current]?).bind fun s => s name) :: j.undoLog } }

/-- Whether `journal_cell` has to record the value of a cell. -/
def recordsCell (env : Env) (cell : Addr) : Bool :=
  match env.journal with
  | none => false
  | some j => !j.seenCells.contains cell

/-- The recording of `journal_cell`. -/
def recordCell (env : Env) (cell : Addr) : Env :=
  { env with
    journal := env.journal.map fun j =>
      { j with
        seenCells := cell :: j.seenCells
        undoLog := .cellValue cell ((env.read cell).getD .null) :: j.undoLog } }

/-- `begin_submission`. -/
def beginSubmission (env : Env) : Env :=
  { env with
    journal := some
      { undoLog := [], seenCells := [], seenScopeEntries := [], mark := env.cells.length } }

/-- `commit_submission`. -/
def commitSubmission (env : Env) : Env := { env with journal := none }

/-- One undo operation. -/
def undo (env : Env) : UndoEntry → Env
  | .scopeEntry scope name original => env.putIn scope name original
  | .cellValue cell original => env.write cell original

/-- `rollback_submission`. The cells made since the submission began go with the
bindings that held them. -/
def rollbackSubmission (env : Env) : Env :=
  match env.journal with
  | none => env
  | some j =>
    let env := j.undoLog.foldl undo { env with journal := none }
    { env with cells := env.cells.take j.mark }

end Env

end Tsumugi
