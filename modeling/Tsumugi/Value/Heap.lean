import Tsumugi.Budget.Ledger
import Tsumugi.Lib.OrderedMap
import Mathlib.Data.String.Basic

/-!
# Shared backings and their mutation (`value.rs`)

Lists and dicts live behind an `Rc`. The memory of a run is a list of cells, one for each
backing ever made, and the places that own a handle: variables, operands, temporaries. A
strong count is not stored but counted, over the places and the cells that are live; there
are no weak handles to a backing. `dropAll` frees what nobody owns any more.

A backing with id 0 is a constant of the program: it was never charged, and a write copies
it even when it has one owner. Strings, functions and captured variables are the third kind
of data, of which only their size and what they own is seen.
-/

namespace Tsumugi.Backing

open Budget Word

variable {σ : Type}

/-- `u32::MAX`. -/
def maxU32 : Nat := 2 ^ 32 - 1

/-- `Value`: `Null`, other data that nobody shares, or a handle. -/
inductive Value (σ : Type)
  | null
  | scalar (s : σ)
  | ref (addr : Nat)
deriving DecidableEq, Repr

/-- Whether the value is a handle to this backing. -/
def Value.isRef (addr : Nat) : Value σ → Bool
  | .ref a => a == addr
  | .null | .scalar _ => false

/-! ## Backings -/

/-- What a backing holds. -/
inductive Data (σ : Type)
  | list (items : List (Value σ))
  | dict (entries : OrderedMap String (Value σ))
  | other (bytes : Nat) (held : List (Value σ))

namespace Data

/-- The handles and scalars that it owns. -/
def children : Data σ → List (Value σ)
  | .list items => items
  | .dict entries => entries.entries.map (·.2)
  | .other _ held => held

/-- `Value::List` and `Value::Dict`. -/
def isContainer : Data σ → Bool
  | .list _ | .dict _ => true
  | .other .. => false

/-- `heap_size::list_body`, `heap_size::dict_body`, and the size of what is neither. -/
def logicalBytes : Data σ → Nat
  | .list items => satAdd 24 (satMul items.length 32)
  | .dict entries =>
    satAdd (satAdd 24 (satMul entries.entries.length 64))
      ((entries.entries.map fun e => e.1.utf8ByteSize).foldl satAdd 0)
  | .other bytes _ => bytes

end Data

/-- `child_max` and `child_max_count`. -/
structure DepthCache where
  max : Nat
  count : Nat
deriving DecidableEq, Repr

namespace DepthCache

/-- `note_child_removed`. -/
def removed (d : Nat) (k : DepthCache) : DepthCache :=
  if d = k.max ∧ 0 < k.count then { k with count := k.count - 1 } else k

/-- `note_child_added`. -/
def added (d : Nat) (k : DepthCache) : DepthCache :=
  if k.max < d then ⟨d, 1⟩
  else if d = k.max then { k with count := min (k.count + 1) maxU32 }
  else k

/-- `summarize_depths`: its loop does for each child what `note_child_added` does. -/
def summarize (depths : List Nat) : DepthCache := depths.foldl (fun k d => k.added d) ⟨0, 0⟩

/-- `settle_child_depth`. -/
def settle (depths : List Nat) (k : DepthCache) : DepthCache :=
  if k.count = 0 then summarize depths else k

end DepthCache

/-- `Tracked`. -/
structure Tracked (σ : Type) where
  data : Data σ
  id : Nat
  bytes : Nat
  cache : DepthCache

/-- `Tracked::depth`. -/
def Tracked.depth (c : Tracked σ) : Nat := min (c.cache.max + 1) maxU32

/-! ## The memory -/

/-- The memory of a run and its ledger. `operand` is the value an operation was given. -/
structure World (σ : Type) where
  cells : List (Option (Tracked σ))
  places : List (Value σ)
  operand : Value σ
  ledger : BudgetLedger

namespace World

/-- The backing at an address, if it is live. -/
def cell? (w : World σ) (a : Nat) : Option (Tracked σ) := (w.cells[a]?).join

/-- `Value::depth`. -/
def depth (w : World σ) : Value σ → Nat
  | .ref a =>
    match w.cell? a with
    | some c => if c.data.isContainer then c.depth else 0
    | none => 0
  | .null | .scalar _ => 0

/-- `child_depth_summary`; what is neither a list nor a dict is not summarized. -/
def summary (w : World σ) (data : Data σ) : DepthCache :=
  if data.isContainer then .summarize (data.children.map w.depth) else ⟨0, 0⟩

/-- What a cell owns. -/
def owned : Option (Tracked σ) → List (Value σ)
  | some c => c.data.children
  | none => []

/-- Everything that is owned. -/
def handles (w : World σ) : List (Value σ) := w.places ++ w.operand :: w.cells.flatMap owned

/-- `Rc::strong_count`. -/
def strongCount (w : World σ) (a : Nat) : Nat := w.handles.countP (·.isRef a)

/-- The live backings. -/
def liveCells (w : World σ) : Nat := w.cells.countP Option.isSome

/-- The last handle of a backing is gone: `Drop` gives its bytes back. -/
def free (a : Nat) (c : Tracked σ) (w : World σ) : World σ :=
  { w with
    cells := w.cells.set a none
    ledger := if c.id = 0 then w.ledger else ((Charge.dropTracked c.bytes).run w.ledger).2 }

theorem liveCells_free {a : Nat} {c d : Tracked σ} {w : World σ} (h : w.cell? a = some c) :
    (w.free a d).liveCells < w.liveCells := by
  obtain ⟨ha, hc⟩ : ∃ ha : a < w.cells.length, w.cells[a] = some c := by
    unfold cell? at h
    exact List.getElem?_eq_some_iff.mp (Option.join_eq_some_iff.mp h)
  have hpos : 0 < w.cells.countP Option.isSome :=
    List.countP_pos_iff.mpr ⟨_, List.getElem_mem ha, by rw [hc]; rfl⟩
  show (w.cells.set a none).countP Option.isSome < w.cells.countP Option.isSome
  rw [List.countP_set ha, hc]
  exact Nat.sub_lt hpos Nat.one_pos

/-- Drop values that no place holds any more, and what they were the last to own. -/
def dropAll : List (Value σ) → World σ → World σ
  | [], w => w
  | .null :: rest, w | .scalar _ :: rest, w => dropAll rest w
  | .ref a :: rest, w =>
    match _hcell : w.cell? a with
    | some c =>
      if w.strongCount a = 0 then dropAll (c.data.children ++ rest) (w.free a c)
      else dropAll rest w
    | none => dropAll rest w
termination_by values w => (w.liveCells, values.length)
decreasing_by
  all_goals first
    | exact Prod.Lex.left _ _ (liveCells_free _hcell)
    | exact Prod.Lex.right _ (Nat.lt_succ_self _)

/-- Write a cell. -/
def setCell (a : Nat) (c : Tracked σ) (w : World σ) : World σ :=
  { w with cells := w.cells.set a (some c) }

/-- Write a place. -/
def setPlace (p : Nat) (v : Value σ) (w : World σ) : World σ :=
  { w with places := w.places.set p v }

end World

/-! ## Writing a list or a dict -/

/-- Why an operation on a list or a dict is refused. -/
inductive Refusal
  | listIndexType
  | listIndexOutOfRange
  | dictKeyType
  | indexAssignUnsupported
  | builtinArgType
  | collectionLimit
  | valueDepthLimit
  | stop (s : ControlStop)
deriving DecidableEq, Repr

/-- An operation on the memory. -/
abbrev Mutation (σ α : Type) := Proc (World σ) Refusal α

/-- Work on the ledger. -/
def onLedger {α : Type} (m : Charge α) : Mutation σ α where
  run w :=
    match m.run w.ledger with
    | (.ok a, ledger) => (.ok a, { w with ledger })
    | (.error s, ledger) => (.error (.stop s), { w with ledger })

/-- `Tracked::new`, and `summarized` for a list or a dict. -/
def newTracked (data : Data σ) (phase : ExecutionPhase) : Mutation σ Nat := do
  let w ← Proc.gets id
  onLedger (Charge.newTracked data.logicalBytes phase)
  Proc.update fun v => (v.cells.length, { v with
    cells := v.cells ++ [some ⟨data, w.ledger.heap.nextId, data.logicalBytes, v.summary data⟩] })

/-- `IndexTarget`, and the end of a list for `push`. -/
inductive Target
  | listEnd
  | listIndex (i : Nat)
  | dictKey (key : String)
deriving DecidableEq, Repr

/-- The backings that a target is for. -/
def Data.accepts (data : Data σ) (t : Target) : Bool :=
  match data, t with
  | .list _, .listEnd | .list _, .listIndex _ | .dict _, .dictKey _ => true
  | _, _ => false

/-- Put a value there: the new data, and the value that stood there before. Past the end of
a list nothing is written. -/
def Data.write (t : Target) (v : Value σ) (data : Data σ) : Option (Data σ × Option (Value σ)) :=
  match data, t with
  | .list items, .listEnd => some (.list (items ++ [v]), none)
  | .list items, .listIndex i =>
    match items[i]? with
    | some old => some (.list (items.set i v), some old)
    | none => none
  | .dict entries, .dictKey key =>
    some (.dict (entries.insert key v).2, (entries.insert key v).1)
  | _, _ => none

namespace World

/-- The list or dict in a place, with its address. -/
def containerAt (w : World σ) (p : Nat) : Option (Nat × Tracked σ) :=
  match w.places[p]? with
  | some (.ref a) =>
    match w.cell? a with
    | some c => if c.data.isContainer then some (a, c) else none
    | none => none
  | _ => none

/-- The depth cache after a write: `push` has nothing to settle. -/
def cacheAfter (w : World σ) (t : Target) (old : Option (Value σ)) (data : Data σ)
    (k : DepthCache) : DepthCache :=
  let k := match old with
    | some old => k.removed (w.depth old)
    | none => k
  let k := k.added (w.depth w.operand)
  if t = .listEnd then k else k.settle (data.children.map w.depth)

/-- Write the operand into a backing that has one owner; the value that stood there is
dropped. The charge is not adjusted yet. -/
def overwrite (a : Nat) (c : Tracked σ) (t : Target) (w : World σ) : World σ :=
  match c.data.write t w.operand with
  | some (data, old) =>
    dropAll old.toList
      { w.setCell a { c with data, cache := w.cacheAfter t old data c.cache } with operand := .null }
  | none => w

end World

/-- `detach_list`, `detach_dict`: the address to write to. -/
def detach (p a : Nat) (c : Tracked σ) (phase : ExecutionPhase) : Mutation σ Nat := do
  let w ← Proc.gets id
  if c.id ≠ 0 ∧ w.strongCount a = 1 then pure a
  else do
    let fresh ← newTracked c.data phase
    Proc.modify fun w => (w.setPlace p (.ref fresh)).dropAll [.ref a]
    pure fresh

/-- `retrack_list`, `retrack_dict`. -/
def retrack (a oldBytes : Nat) (phase : ExecutionPhase) : Mutation σ Unit := do
  let w ← Proc.gets id
  match w.cell? a with
  | some c => do
    onLedger (Charge.retrack oldBytes c.data.logicalBytes phase)
    Proc.modify (World.setCell a { c with bytes := c.data.logicalBytes })
  | none => pure ()

/-- The operand is written to the backing that was detached. -/
def writeDetached (a : Nat) (t : Target) (phase : ExecutionPhase) : Mutation σ Unit := do
  let w ← Proc.gets id
  match w.cell? a with
  | none => pure ()
  | some c => do
    Proc.modify (World.overwrite a c t)
    retrack a c.bytes phase

/-- What `list_push_tracked` and `index_set_tracked` share. -/
def writeTracked (p : Nat) (t : Target) (phase : ExecutionPhase) : Mutation σ Unit := do
  let w ← Proc.gets id
  match w.containerAt p with
  | none => pure ()
  | some (a, c) => Proc.when (c.data.accepts t = true) do
    let a ← detach p a c phase
    writeDetached a t phase

/-- `list_push_tracked`. -/
def listPushTracked (p : Nat) (phase : ExecutionPhase) : Mutation σ Unit :=
  writeTracked p .listEnd phase

/-- `index_set_tracked`. -/
def indexSetTracked (p : Nat) (t : Target) (phase : ExecutionPhase) : Mutation σ Unit :=
  writeTracked p t phase

/-- `list_pop_tracked`. -/
def listPopTracked (p : Nat) (phase : ExecutionPhase) : Mutation σ Unit := do
  let w ← Proc.gets id
  match w.containerAt p with
  | some (a, ⟨.list (item :: items), id, bytes, cache⟩) => do
    let a ← detach p a ⟨.list (item :: items), id, bytes, cache⟩ phase
    let w ← Proc.gets World.cell?
    match w a with
    | some c => do
      let items := c.data.children
      Proc.modify fun w =>
        let cache := match items.getLast? with
          | some last => c.cache.removed (w.depth last)
          | none => c.cache
        (w.setCell a { c with
          data := .list items.dropLast
          cache := cache.settle (items.dropLast.map w.depth) }).dropAll items.getLast?.toList
      retrack a c.bytes phase
    | none => pure ()
  | _ => pure ()

/-! ## The checks of the callers -/

/-- `MAX_VALUE_DEPTH`. -/
def maxValueDepth : Nat := 256

/-- `check_element_depth`. -/
def checkElementDepth (v : Value σ) : Mutation σ Unit := do
  let w ← Proc.gets id
  Proc.when (maxValueDepth ≤ w.depth v) (Proc.stop .valueDepthLimit)

/-- The value of an index expression. -/
inductive Index
  | int (n : Int)
  | str (s : String)
  | other
deriving DecidableEq, Repr

/-- The normalized target of `assign_index`, with the collection limit. -/
def indexTarget (data : Data σ) (index : Index) (maxCollection : Nat) : Except Refusal Target :=
  match data, index with
  | .list items, .int n =>
    let actual := if n < 0 then items.length + n else n
    if actual < 0 ∨ (items.length : Int) ≤ actual then .error .listIndexOutOfRange
    else .ok (.listIndex actual.toNat)
  | .list _, _ => .error .listIndexType
  | .dict entries, .str key =>
    if (entries.get key).isNone ∧ maxCollection < satAdd entries.entries.length 1 then
      .error .collectionLimit
    else .ok (.dictKey key)
  | .dict _, _ => .error .dictKeyType
  | .other .., _ => .error .indexAssignUnsupported

/-- `assign_index`. -/
def assignIndex (p : Nat) (index : Index) (maxCollection : Nat) : Mutation σ Unit := do
  let w ← Proc.gets id
  match w.containerAt p with
  | none => Proc.stop .indexAssignUnsupported
  | some (_, c) =>
    match indexTarget c.data index maxCollection with
    | .error e => Proc.stop e
    | .ok t => do
      checkElementDepth w.operand
      indexSetTracked p t .run

/-- `push(variable, value)`: `builtin_collection`, `list_push_binding` and `ListPush`. -/
def push (p : Nat) : Mutation σ Unit := do
  let w ← Proc.gets id
  match w.containerAt p with
  | some (_, ⟨.list items, _, _, _⟩) => do
    onLedger (Charge.checkCollectionElements (satAdd items.length 1) .run)
    checkElementDepth w.operand
    listPushTracked p .run
  | _ => Proc.stop .builtinArgType

end Tsumugi.Backing
