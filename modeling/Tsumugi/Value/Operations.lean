import Tsumugi.Value.Heap
import Tsumugi.Lib.Transition

/-!
# What a run can do with lists and dicts

The operations by which a script, the builtins and the host make, read, change and drop
values, as steps on the memory. Values are evaluated into the operand and kept in places; a
literal or a closure is made of the last places. A refused operation ends where it stopped,
and any operation may follow it.

A value that a builtin or a host function returns has no tracked backing yet; `track_result`
makes one for each list and dict of it, children first. What it returns is given as a tree:
nothing that is not tracked is shared when the pass is over.
-/

namespace Tsumugi.Backing

open Budget Word

variable {σ : Type}

/-- A returned value before `track_result`: `place` is a value that the host was given. The keys
of a returned dict are distinct. -/
inductive Untracked (σ : Type)
  | null
  | scalar (s : σ)
  | str (byteLen : Nat)
  | place (p : Nat)
  | list (items : List (Untracked σ))
  | dict (entries : List (String × Untracked σ))

/-- What is owned only by the operation is dropped when the operation fails. -/
def holding {α : Type} (values : List (Value σ)) (m : Mutation σ α) : Mutation σ α where
  run w :=
    match m.run w with
    | (.ok a, w) => (.ok a, w)
    | (.error e, w) => (.error e, w.dropAll values)

/-- The dict of some entries: `BTreeMap::insert` one by one. -/
def dictOf : List (String × Value σ) → OrderedMap String (Value σ)
  | [] => .empty
  | (key, v) :: rest => ((dictOf rest).insert key v).2

namespace World

/-- A value in a place. -/
def placeValue (w : World σ) (p : Nat) : Value σ := (w.places[p]?).getD .null

/-- The last places. -/
def lastPlaces (w : World σ) (n : Nat) : List (Value σ) := w.places.drop (w.places.length - n)

/-- Give the last places up. -/
def dropPlaces (n : Nat) (w : World σ) : World σ :=
  { w with places := w.places.take (w.places.length - n) }

/-- The operand, and what was the operand is dropped. -/
def setOperand (v : Value σ) (w : World σ) : World σ :=
  ({ w with operand := v }).dropAll [w.operand]

/-- The value of a variable is replaced by the operand. -/
def assign (p : Nat) (w : World σ) : World σ :=
  ({ w with places := w.places.set p w.operand, operand := .null }).dropAll [w.placeValue p]

end World

mutual

/-- `track_result`. -/
def trackResult (phase : ExecutionPhase) : Untracked σ → Mutation σ (Value σ)
  | .null => pure .null
  | .scalar s => pure (.scalar s)
  | .str byteLen => do
    onLedger (Charge.chargeString byteLen phase)
    let a ← newTracked (.other (satAdd 24 byteLen) []) phase
    pure (.ref a)
  | .place p => Proc.gets fun w => w.placeValue p
  | .list items => do
    let values ← trackItems phase items
    let a ← holding values (newTracked (.list values) phase)
    pure (.ref a)
  | .dict entries => do
    let values ← trackEntries phase entries
    let a ← holding (values.map (·.2)) (newTracked (.dict (dictOf values.reverse)) phase)
    pure (.ref a)

def trackItems (phase : ExecutionPhase) : List (Untracked σ) → Mutation σ (List (Value σ))
  | [] => pure []
  | t :: rest => do
    let v ← trackResult phase t
    let values ← holding [v] (trackItems phase rest)
    pure (v :: values)

def trackEntries (phase : ExecutionPhase) :
    List (String × Untracked σ) → Mutation σ (List (String × Value σ))
  | [] => pure []
  | (key, t) :: rest => do
    let v ← trackResult phase t
    let entries ← holding [v] (trackEntries phase rest)
    pure ((key, v) :: entries)

end

/-- `check_elements_depth`. -/
def checkElementsDepth : List (Value σ) → Mutation σ Unit
  | [] => pure ()
  | v :: rest => do
    checkElementDepth v
    checkElementsDepth rest

/-- A list literal, and the result of `map`: the last places are the elements. -/
def makeList (n : Nat) : Mutation σ Unit := do
  let w ← Proc.gets id
  checkElementsDepth (w.lastPlaces n)
  Proc.modify (World.dropPlaces n)
  let a ← holding (w.lastPlaces n) (newTracked (.list (w.lastPlaces n)) .run)
  Proc.modify (World.setOperand (.ref a))

/-- A dict literal: the last places are the values of these keys. -/
def makeDict (keys : List String) : Mutation σ Unit := do
  let w ← Proc.gets id
  let values := w.lastPlaces keys.length
  checkElementsDepth values
  Proc.modify (World.dropPlaces keys.length)
  let a ← holding values (newTracked (.dict (dictOf (keys.zip values).reverse)) .run)
  Proc.modify fun w => (w.setOperand (.ref a)).dropAll values

/-- A function that captures the last places: only its header is charged. -/
def makeClosure (n header : Nat) : Mutation σ Unit := do
  let w ← Proc.gets id
  Proc.modify (World.dropPlaces n)
  let id ← Proc.gets fun w => w.ledger.heap.nextId
  holding (w.lastPlaces n) (onLedger (Charge.newViaHandle header .run))
  Proc.modify fun v => ({ v with
    cells := v.cells ++ [some (Tracked.mk (.other header (w.lastPlaces n)) id header ⟨0, 0⟩)] }
      : World σ).setOperand (.ref v.cells.length)

/-- A builtin that arranges elements of a list or values of a dict: `values`, `slice`, `sort`,
`reverse`, `filter` and the like. -/
def gather (p : Nat) (positions : List Nat) : Mutation σ Unit := do
  let w ← Proc.gets id
  match w.containerAt p with
  | none => pure ()
  | some (_, c) => do
    let a ← newTracked (.list (positions.filterMap fun i => c.data.children[i]?)) .run
    Proc.modify (World.setOperand (.ref a))

/-- A constant of the program: an empty list or dict without a charge. -/
def loadConstant (isList : Bool) : Mutation σ Unit :=
  Proc.modify fun w => ({ w with
    cells := w.cells ++ [some (Tracked.mk (if isList then .list [] else .dict .empty) 0 0 ⟨0, 0⟩)] }
      : World σ).setOperand (.ref w.cells.length)

/-- A step of a run, as far as lists and dicts go. -/
inductive Operation (σ : Type)
  | scalar (s : σ)
  | load (p : Nat)
  | element (p i : Nat)
  | declare
  | assign (p : Nat)
  | leave (n : Nat)
  | constant (isList : Bool)
  | list (n : Nat)
  | dict (keys : List String)
  | closure (n header : Nat)
  | gather (p : Nat) (positions : List Nat)
  | returned (t : Untracked σ)
  | push (p : Nat)
  | pop (p : Nat)
  | assignIndex (p : Nat) (index : Index) (maxCollection : Nat)

/-- The element of a container at a position. -/
def World.elementAt (w : World σ) (p i : Nat) : Value σ :=
  match w.containerAt p with
  | some (_, c) => (c.data.children[i]?).getD .null
  | none => .null

namespace Operation

/-- What an operation does. -/
def mutation : Operation σ → Mutation σ Unit
  | .scalar s => Proc.modify (World.setOperand (.scalar s))
  | .load p => Proc.modify fun w => w.setOperand (w.placeValue p)
  | .element p i => Proc.modify fun w => w.setOperand (w.elementAt p i)
  | .declare => Proc.modify fun w => { w with places := w.places ++ [w.operand], operand := .null }
  | .assign p => Proc.modify (World.assign p)
  | .leave n => Proc.modify fun w => (w.dropPlaces n).dropAll (w.lastPlaces n)
  | .constant isList => loadConstant isList
  | .list n => makeList n
  | .dict keys => makeDict keys
  | .closure n header => makeClosure n header
  | .gather p positions => Backing.gather p positions
  | .returned t => do
    let v ← trackResult .run t
    Proc.modify (World.setOperand v)
  | .push p => Backing.push p
  | .pop p => listPopTracked p .run
  | .assignIndex p index maxCollection => Backing.assignIndex p index maxCollection

end Operation

/-- The memory of a run, from an empty one. -/
def memory (σ : Type) : Transition.System (World σ) (Operation σ) where
  init w := w.cells = [] ∧ w.places = [] ∧ w.operand = .null
  step w o := some (o.mutation.run w).2

end Tsumugi.Backing
