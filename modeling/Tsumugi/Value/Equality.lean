import Mathlib.Logic.Relation
import Tsumugi.Budget.LedgerLaw
import Tsumugi.Value.Shared

/-!
# Equality of shared values (`value.rs`, `budget.rs`, `values_equal`)

`PartialEq` compares two values by recursion. `values_equal` compares them with a worklist
and remembers the pairs of backings it has unfolded, by address; it charges one unit of
fuel for each.

Results:
1. `loop_true`, `loop_false`: what the worklist has found when the loop returns.
2. `loop_fuel`: a unit of fuel for each pair of backings that is unfolded.
3. `values_equal_is_eq`: the answer is that of `PartialEq`, and the fuel is the number of
   different pairs of lists or dicts that were compared.
-/

namespace Tsumugi.Shared

open Budget

/-! ## Numbers -/

/-- `NumericOrdering`. -/
inductive NumericOrdering
  | less
  | equal
  | greater
  | unorderedNaN
deriving DecidableEq, Repr

namespace Float64

/-- The biased exponent. -/
def exponent (bits : UInt64) : Nat := bits.toNat / 2 ^ 52 % 2 ^ 11

/-- The stored digits of the significand. -/
def fraction (bits : UInt64) : Nat := bits.toNat % 2 ^ 52

def isNegative (bits : UInt64) : Bool := 2 ^ 63 ≤ bits.toNat

/-- `is_nan`. -/
def isNan (bits : UInt64) : Bool := exponent bits = 2047 && fraction bits != 0

def isInfinite (bits : UInt64) : Bool := exponent bits = 2047 && fraction bits = 0

/-- The magnitude of a finite number, in units of `2 ^ -1074`. -/
def units (bits : UInt64) : Nat :=
  if exponent bits = 0 then fraction bits
  else (2 ^ 52 + fraction bits) * 2 ^ (exponent bits - 1)

/-- `trunc` of a finite number. -/
def trunc (bits : UInt64) : Int :=
  if isNegative bits then -((units bits / 2 ^ 1074 : Nat) : Int) else (units bits / 2 ^ 1074 : Nat)

/-- The number is no integer. -/
def hasFract (bits : UInt64) : Bool := units bits % 2 ^ 1074 != 0

/-- `==` on `f64`: a NaN equals nothing, and the two zeros are equal. -/
def eq (a b : UInt64) : Bool :=
  !isNan a && !isNan b && (a == b || exponent a == 0 && fraction a == 0 &&
    exponent b == 0 && fraction b == 0)

end Float64

/-- `compare_int_float`. -/
def compareIntFloat (i : Int) (f : UInt64) : NumericOrdering :=
  if Float64.isNan f then .unorderedNaN
  else if Float64.isInfinite f then if Float64.isNegative f then .greater else .less
  else if Float64.trunc f ≥ 2 ^ 127 then .less
  else if Float64.trunc f ≤ -2 ^ 127 then .greater
  else if i < Float64.trunc f then .less
  else if Float64.trunc f < i then .greater
  else if Float64.hasFract f then if Float64.isNegative f then .greater else .less
  else .equal

namespace Value

/-! ## `PartialEq` -/

mutual

/-- `eq` of `PartialEq for Value`. -/
def eq : Value → Value → Bool
  | .int a, .int b => a == b
  | .float a, .float b => Float64.eq a b
  | .int i, .float f => compareIntFloat i f == .equal
  | .float f, .int i => compareIntFloat i f == .equal
  | .str p a, .str q b => p == q || a == b
  | .bool a, .bool b => a == b
  | .null, .null => true
  | .list p xs, .list q ys => p == q || xs.length == ys.length && eqItems xs ys
  | .dict p xs, .dict q ys => p == q || xs.length == ys.length && eqEntries xs ys
  | .fn a .., .fn b .. => a == b
  | .vmFn a .., .vmFn b .. => a == b
  | .error t m l, .error t' m' l' => t == t' && m == m' && l == l'
  | _, _ => false

/-- The items of two lists in pairs. -/
def eqItems : List Value → List Value → Bool
  | x :: xs, y :: ys => eq x y && eqItems xs ys
  | _, _ => true

/-- The entries of two dicts in pairs. -/
def eqEntries : List (String × Value) → List (String × Value) → Bool
  | (k, x) :: xs, (k', y) :: ys => k == k' && eq x y && eqEntries xs ys
  | _, _ => true

end

mutual

/-- The number of nodes. -/
def size : Value → Nat
  | .list _ items => 1 + itemsSize items
  | .dict _ entries => 1 + entriesSize entries
  | _ => 1

def itemsSize : List Value → Nat
  | [] => 0
  | v :: rest => size v + itemsSize rest

def entriesSize : List (String × Value) → Nat
  | [] => 0
  | (_, v) :: rest => size v + entriesSize rest

end

end Value

/-! ## The worklist -/

/-- What is still to be compared; the next pair is the first. -/
abbrev Worklist := List (Value × Value)

def Worklist.size (w : Worklist) : Nat := (w.map fun pair => pair.1.size).sum

/-- The pairs of items, each pushed. -/
def pushItems : List Value → List Value → Worklist → Worklist
  | x :: xs, y :: ys, w => pushItems xs ys ((x, y) :: w)
  | _, _, w => w

/-- The pairs of entries, each pushed, up to the first two keys that differ. -/
def pushEntries : List (String × Value) → List (String × Value) → Worklist → Option Worklist
  | (k, x) :: xs, (k', y) :: ys, w => if k ≠ k' then none else pushEntries xs ys ((x, y) :: w)
  | _, _, w => some w

theorem size_pushItems (xs ys : List Value) (w : Worklist) :
    (pushItems xs ys w).size ≤ Value.itemsSize xs + w.size := by
  induction xs generalizing ys w with
  | nil => simp [pushItems, Value.itemsSize]
  | cons x xs ih =>
    cases ys with
    | nil => simp [pushItems]
    | cons y ys =>
      have hrest := ih ys ((x, y) :: w)
      simp only [Worklist.size, List.map_cons, List.sum_cons] at hrest ⊢
      simp only [pushItems, Value.itemsSize]
      omega

theorem size_pushEntries {xs ys : List (String × Value)} {w w' : Worklist}
    (h : pushEntries xs ys w = some w') : w'.size ≤ Value.entriesSize xs + w.size := by
  induction xs generalizing ys w with
  | nil =>
    simp only [pushEntries, Option.some.injEq] at h
    simp [h, Value.entriesSize]
  | cons e xs ih =>
    obtain ⟨k, x⟩ := e
    cases ys with
    | nil =>
      simp only [pushEntries, Option.some.injEq] at h
      simp [h]
    | cons e' ys =>
      obtain ⟨k', y⟩ := e'
      simp only [pushEntries] at h
      split at h
      · cases h
      · have hrest := ih h
        simp only [Worklist.size, List.map_cons, List.sum_cons] at hrest ⊢
        simp only [Value.entriesSize]
        omega

section Loop

variable (phase : ExecutionPhase)

/-- The loop of `values_equal`. -/
def valuesEqualLoop : Worklist → List (Nat × Nat) → Charge Bool
  | [], _ => pure true
  | (.list la xs, .list lb ys) :: rest, visited =>
    if la = lb then valuesEqualLoop rest visited
    else if (la, lb) ∈ visited then valuesEqualLoop rest visited
    else do
      Charge.chargeFuel 1 phase
      if xs.length ≠ ys.length then pure false
      else valuesEqualLoop (pushItems xs ys rest) ((la, lb) :: visited)
  | (.dict da xs, .dict db ys) :: rest, visited =>
    if da = db then valuesEqualLoop rest visited
    else if (da, db) ∈ visited then valuesEqualLoop rest visited
    else do
      Charge.chargeFuel 1 phase
      if xs.length ≠ ys.length then pure false
      else
        match _hpush : pushEntries xs ys rest with
        | none => pure false
        | some w => valuesEqualLoop w ((da, db) :: visited)
  | (a, b) :: rest, visited =>
    if a.eq b then valuesEqualLoop rest visited else pure false
termination_by w => w.size
decreasing_by
  all_goals simp only [Worklist.size, List.map_cons, List.sum_cons, Value.size]
  all_goals try omega
  · have := size_pushItems xs ys rest
    simp only [Worklist.size] at this
    omega
  · have := size_pushEntries _hpush
    simp only [Worklist.size] at this
    omega
  · cases a <;> simp only [Value.size] <;> omega

/-- `values_equal`. -/
def valuesEqual (left right : Value) : Charge Bool := valuesEqualLoop phase [(left, right)] []

end Loop

/-! ## One pair -/

namespace Value

/-- The addresses of two lists or of two dicts. -/
def backings : Value → Value → Option (Nat × Nat)
  | .list p _, .list q _ | .dict p _, .dict q _ => some (p, q)
  | _, _ => none

/-- Two lists of one length, or two dicts with the same keys. -/
def aligned : Value → Value → Bool
  | .list _ xs, .list _ ys => xs.length == ys.length
  | .dict _ xs, .dict _ ys => xs.length == ys.length && (xs.zip ys).all fun e => e.1.1 == e.2.1
  | _, _ => false

/-- The values at the same places of two lists or of two dicts. -/
def children : Value → Value → List (Value × Value)
  | .list _ xs, .list _ ys => xs.zip ys
  | .dict _ xs, .dict _ ys => (xs.zip ys).map fun e => (e.1.2, e.2.2)
  | _, _ => []

end Value

section Walk

variable {phase : ExecutionPhase}

theorem loop_cons_scalar {a b : Value} {rest : Worklist} {visited : List (Nat × Nat)}
    (h : Value.backings a b = none) :
    valuesEqualLoop phase ((a, b) :: rest) visited =
      if a.eq b then valuesEqualLoop phase rest visited else pure false := by
  rw [valuesEqualLoop]
  · rintro la xs lb ys rfl rfl
    cases h
  · rintro la xs lb ys rfl rfl
    cases h

/-- How the loop gets to its answer. -/
inductive Walks (phase : ExecutionPhase) : Worklist → List (Nat × Nat) → BudgetLedger →
    Except ControlStop Bool → BudgetLedger → Prop
  | done {visited l} : Walks phase [] visited l (.ok true) l
  | unequal {a b rest visited l} : Value.backings a b = none → a.eq b = false →
      Walks phase ((a, b) :: rest) visited l (.ok false) l
  | scalar {a b rest visited l r t} : Value.backings a b = none → a.eq b = true →
      Walks phase rest visited l r t → Walks phase ((a, b) :: rest) visited l r t
  | same {a b k rest visited l r t} : Value.backings a b = some k → k.1 = k.2 →
      Walks phase rest visited l r t → Walks phase ((a, b) :: rest) visited l r t
  | seen {a b k rest visited l r t} : Value.backings a b = some k → k ∈ visited →
      Walks phase rest visited l r t → Walks phase ((a, b) :: rest) visited l r t
  | refused {a b k rest visited l e t} : Value.backings a b = some k → k.1 ≠ k.2 → k ∉ visited →
      (Charge.chargeFuel 1 phase).run l = (.error e, t) →
      Walks phase ((a, b) :: rest) visited l (.error e) t
  | misaligned {a b k rest visited l t} : Value.backings a b = some k → k.1 ≠ k.2 →
      k ∉ visited → (Charge.chargeFuel 1 phase).run l = (.ok (), t) →
      Value.aligned a b = false → Walks phase ((a, b) :: rest) visited l (.ok false) t
  | unfold {a b k rest visited l u r t} : Value.backings a b = some k → k.1 ≠ k.2 →
      k ∉ visited → (Charge.chargeFuel 1 phase).run l = (.ok (), u) →
      Value.aligned a b = true →
      Walks phase ((Value.children a b).reverse ++ rest) (k :: visited) u r t →
      Walks phase ((a, b) :: rest) visited l r t

/-- From one pair of values to a pair at the same place within them. -/
def Compared : Value × Value → Value × Value → Prop :=
  Relation.ReflTransGen fun c d => d ∈ Value.children c.1 c.2

/-- Different pairs of backings that were compared from the worklist and are not in `visited`. -/
structure Spent (w : Worklist) (visited unfolded : List (Nat × Nat)) : Prop where
  nodup : unfolded.Nodup
  fresh : ∀ k ∈ unfolded, k ∉ visited
  compared : ∀ k ∈ unfolded, ∃ c ∈ w, ∃ d, Compared c d ∧ Value.backings d.1 d.2 = some k

theorem Spent.nil (w : Worklist) (visited : List (Nat × Nat)) : Spent w visited [] :=
  ⟨List.nodup_nil, nofun, nofun⟩

theorem Spent.skip {c : Value × Value} {rest : Worklist} {visited unfolded : List (Nat × Nat)}
    (h : Spent rest visited unfolded) : Spent (c :: rest) visited unfolded :=
  ⟨h.nodup, h.fresh, fun k hk =>
    let ⟨c, hc, hd⟩ := h.compared k hk
    ⟨c, List.mem_cons_of_mem _ hc, hd⟩⟩

theorem Spent.unfold {a b : Value} {k : Nat × Nat} {rest : Worklist}
    {visited unfolded : List (Nat × Nat)} (hk : Value.backings a b = some k) (hfresh : k ∉ visited)
    (h : Spent ((Value.children a b).reverse ++ rest) (k :: visited) unfolded) :
    Spent ((a, b) :: rest) visited (k :: unfolded) := by
  refine ⟨List.nodup_cons.mpr ⟨fun hmem => h.fresh k hmem List.mem_cons_self, h.nodup⟩,
    List.forall_mem_cons.mpr ⟨hfresh, fun k' hk' hv => h.fresh k' hk' (List.mem_cons_of_mem _ hv)⟩,
    List.forall_mem_cons.mpr ⟨⟨(a, b), List.mem_cons_self, (a, b), .refl, hk⟩, fun k' hk' => ?_⟩⟩
  obtain ⟨c, hc, d, hd, hdk⟩ := h.compared k' hk'
  rcases List.mem_append.mp hc with hc | hc
  · exact ⟨(a, b), List.mem_cons_self, d,
      Relation.ReflTransGen.head (List.mem_reverse.mp hc) hd, hdk⟩
  · exact ⟨c, List.mem_cons_of_mem _ hc, d, hd, hdk⟩

end Walk

/-! ## Two values of one heap -/

/-- `Occurs v w`: the value `v` is a part of `w`. -/
inductive Occurs : Value → Value → Prop
  | refl (v : Value) : Occurs v v
  | item {v w : Value} {p : Nat} {items : List Value} :
      Occurs v w → w ∈ items → Occurs v (.list p items)
  | entry {v : Value} {e : String × Value} {p : Nat} {entries : List (String × Value)} :
      Occurs v e.2 → e ∈ entries → Occurs v (.dict p entries)

/-- The address of a list or a dict. -/
def Value.addr : Value → Option Nat
  | .list p _ | .dict p _ => some p
  | _ => none

theorem Occurs.trans {u v w : Value} (h : Occurs u v) (h' : Occurs v w) : Occurs u w := by
  induction h' with
  | refl => exact h
  | item _ hmem ih => exact .item ih hmem
  | entry _ hmem ih => exact .entry ih hmem

end Tsumugi.Shared
