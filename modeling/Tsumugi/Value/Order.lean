import Mathlib.Algebra.Order.Field.Rat
import Mathlib.Order.Compare
import Mathlib.Tactic.FieldSimp
import Mathlib.Tactic.Linarith
import Mathlib.Tactic.Positivity
import Tsumugi.Lib.Comparison
import Tsumugi.Value.Equality

/-!
# The order of all values (`value.rs`)

`TotalOrder` puts the values into bands and orders each band: numbers exactly, with a NaN
after every other number, lists and dicts lexicographically; the functions and the errors
are all equal. `compare_budgeted` walks the same way and charges for each element.

Results:
1. `compareNumeric_eq`: numbers compare as one integer each.
2. `compareIntFloat_exact`: an integer and a finite float compare as rationals.
3. `order_laws`: the order is a total preorder, and the comparison that charges agrees
   with it.
-/

namespace Tsumugi.Shared

open Budget Comparison

/-! ## Numbers -/

namespace Float64

/-- A number in units of `2 ^ -1074`; an infinity counts as the first power of two past the
finite numbers. -/
def scaled (bits : UInt64) : Int := if isNegative bits then -(units bits : Int) else units bits

/-- The units in one. -/
def unit : Nat := 2 ^ 1074

/-- The value of a finite number. -/
def toRat (bits : UInt64) : ℚ := scaled bits / unit

def isFinite (bits : UInt64) : Bool := exponent bits != 2047

/-- `partial_cmp`: unordered with a NaN, and the two zeros are equal. -/
def partialCmp (a b : UInt64) : Option Ordering :=
  if isNan a || isNan b then none else some (compare (scaled a) (scaled b))

end Float64

/-- `from_ord`. -/
def NumericOrdering.fromOrd : Ordering → NumericOrdering
  | .lt => .less
  | .eq => .equal
  | .gt => .greater

/-- `flip`. -/
def NumericOrdering.flip : NumericOrdering → NumericOrdering
  | .less => .greater
  | .greater => .less
  | other => other

/-- `compare_float_float`. -/
def compareFloatFloat (x y : UInt64) : NumericOrdering :=
  match Float64.partialCmp x y with
  | some o => .fromOrd o
  | none => .unorderedNaN

namespace Value

/-- `NumericOrder::compare`. -/
def numericCompare : Value → Value → Option NumericOrdering
  | .int x, .int y => some (.fromOrd (compare x y))
  | .float x, .float y => some (compareFloatFloat x y)
  | .int x, .float y => some (compareIntFloat x y)
  | .float x, .int y => some (compareIntFloat y x).flip
  | _, _ => none

/-! ## `TotalOrder` -/

/-- `is_nan_value`. -/
def isNanValue : Value → Bool
  | .float f => Float64.isNan f
  | _ => false

/-- `compare_numeric`: a NaN is after every number, and the NaNs are equal. -/
def compareNumeric (a b : Value) : Ordering :=
  match numericCompare a b with
  | some .less => .lt
  | some .equal => .eq
  | some .greater => .gt
  | some .unorderedNaN =>
    match a.isNanValue, b.isNanValue with
    | true, true => .eq
    | true, false => .gt
    | false, true => .lt
    | false, false => .eq
  | none => .eq

/-- `band_rank`. -/
def bandRank : Value → Nat
  | .null => 0
  | .bool _ => 1
  | .int _ | .float _ => 2
  | .str .. => 3
  | .list .. => 4
  | .dict .. => 5
  | .fn .. | .vmFn .. => 6
  | .error .. => 7

mutual

/-- `TotalOrder::compare`. -/
def totalCompare (a b : Value) : Ordering :=
  if a.bandRank ≠ b.bandRank then compare a.bandRank b.bandRank
  else
    match a, b with
    | .null, .null => .eq
    | .bool x, .bool y => compare x y
    | .str _ x, .str _ y => compare x y
    | .list _ xs, .list _ ys => compareSeq xs ys
    | .dict _ xs, .dict _ ys => compareDict xs ys
    | .fn .., .fn .. | .fn .., .vmFn .. | .vmFn .., .fn .. | .vmFn .., .vmFn .. => .eq
    | .error .., .error .. => .eq
    | a, b => compareNumeric a b

/-- `compare_seq`: a list that ends first is smaller. -/
def compareSeq : List Value → List Value → Ordering
  | x :: xs, y :: ys =>
    match totalCompare x y with
    | .eq => compareSeq xs ys
    | o => o
  | _ :: _, [] => .gt
  | [], _ :: _ => .lt
  | [], [] => .eq

/-- `compare_dict`: by the key, and then by the value. -/
def compareDict : List (String × Value) → List (String × Value) → Ordering
  | (kx, x) :: xs, (ky, y) :: ys =>
    match compare kx ky with
    | .eq =>
      match totalCompare x y with
      | .eq => compareDict xs ys
      | o => o
    | o => o
  | _ :: _, [] => .gt
  | [], _ :: _ => .lt
  | [], [] => .eq

end

section Budgeted

variable (phase : ExecutionPhase)

mutual

/-- `compare_budgeted`. -/
def compareBudgeted (a b : Value) : Charge Ordering :=
  if a.bandRank ≠ b.bandRank then pure (compare a.bandRank b.bandRank)
  else
    match a, b with
    | .list _ xs, .list _ ys => compareItemsBudgeted xs ys
    | .dict _ xs, .dict _ ys => compareEntriesBudgeted xs ys
    | a, b => pure (totalCompare a b)

/-- The loop over the items of two lists. -/
def compareItemsBudgeted : List Value → List Value → Charge Ordering
  | x :: xs, y :: ys => do
    Charge.chargeFuel 1 phase
    match ← compareBudgeted x y with
    | .eq => compareItemsBudgeted xs ys
    | o => pure o
  | _ :: _, [] => pure .gt
  | [], _ :: _ => pure .lt
  | [], [] => pure .eq

/-- The loop over the entries of two dicts. -/
def compareEntriesBudgeted :
    List (String × Value) → List (String × Value) → Charge Ordering
  | (kx, x) :: xs, (ky, y) :: ys => do
    Charge.chargeFuel 1 phase
    match compare kx ky with
    | .eq => do
      match ← compareBudgeted x y with
      | .eq => compareEntriesBudgeted xs ys
      | o => pure o
    | o => pure o
  | _ :: _, [] => pure .gt
  | [], _ :: _ => pure .lt
  | [], [] => pure .eq

end

end Budgeted

mutual

/-- Every integer in the value is an `i64`. -/
def InRange : Value → Prop
  | .int n => -2 ^ 63 ≤ n ∧ n < 2 ^ 63
  | .list _ items => ItemsInRange items
  | .dict _ entries => EntriesInRange entries
  | _ => True

def ItemsInRange : List Value → Prop
  | [] => True
  | v :: rest => InRange v ∧ ItemsInRange rest

def EntriesInRange : List (String × Value) → Prop
  | [] => True
  | (_, v) :: rest => InRange v ∧ EntriesInRange rest

end

end Value

namespace OrderLemmas

open Tsumugi.Shared.Value
open Float64 (unit)

/-! ## Exact comparison of numbers -/

theorem unit_pos : 0 < unit := by
  unfold unit
  positivity

/-- An integer against a magnitude in units, by the whole part and the rest. -/
theorem compare_whole (i : Int) (u S : Nat) (hS : 0 < S) :
    compare (i * S) (u : Int) =
      if i < (u / S : Nat) then .lt else if ((u / S : Nat) : Int) < i then .gt
      else if u % S ≠ 0 then .lt else .eq := by
  have hdiv : (S : Int) * (u / S : Nat) + (u % S : Nat) = u := by exact_mod_cast Nat.div_add_mod u S
  have hmod : ((u % S : Nat) : Int) < S := by exact_mod_cast Nat.mod_lt u hS
  have hmod0 : (0 : Int) ≤ (u % S : Nat) := Int.natCast_nonneg _
  have hSpos : (0 : Int) < S := by exact_mod_cast hS
  generalize hq : ((u / S : Nat) : Int) = q at *
  generalize hr : u % S = r at *
  split
  next hlt =>
    rw [compare_lt_iff_lt]
    nlinarith
  next hge =>
    split
    next hgt =>
      rw [compare_gt_iff_gt]
      nlinarith
    next hle =>
      have hi : i = q := by omega
      subst hi
      split
      next hne =>
        rw [compare_lt_iff_lt]
        have : 0 < (r : Int) := by omega
        nlinarith
      next heq =>
        rw [compare_eq_iff_eq]
        have : (r : Int) = 0 := by omega
        nlinarith

theorem compare_neg (a b : Int) : compare a (-b) = (compare (-a) b).swap := by
  rcases lt_trichotomy (-a) b with h | h | h
  · rw [compare_lt_iff_lt.mpr h, compare_gt_iff_gt.mpr (by omega)]
    rfl
  · rw [compare_eq_iff_eq.mpr h, compare_eq_iff_eq.mpr (by omega)]
    rfl
  · rw [compare_gt_iff_gt.mpr h, compare_lt_iff_lt.mpr (by omega)]
    rfl

theorem trunc_eq (f : UInt64) : Float64.trunc f =
    if Float64.isNegative f then -((Float64.units f / unit : Nat) : Int)
    else (Float64.units f / unit : Nat) := rfl

theorem hasFract_eq (f : UInt64) : Float64.hasFract f = (Float64.units f % unit != 0) := rfl

/-- The comparison by whole and fractional part is that of the scaled numbers. -/
theorem compareIntFloat_scaled {i : Int} {f : UInt64} (hi : -2 ^ 63 ≤ i ∧ i < 2 ^ 63)
    (hnan : Float64.isNan f = false) (hinf : Float64.isInfinite f = false) :
    compareIntFloat i f = .fromOrd (compare (i * unit) (Float64.scaled f)) := by
  unfold compareIntFloat Float64.scaled
  rw [hnan, hinf, trunc_eq, hasFract_eq]
  simp only [Bool.false_eq_true, if_false]
  cases hneg : Float64.isNegative f
  · simp only [Bool.false_eq_true, if_false]
    rw [compare_whole i _ _ unit_pos]
    generalize hq : ((Float64.units f / unit : Nat) : Int) = q
    have hq0 : 0 ≤ q := hq ▸ Int.natCast_nonneg _
    generalize Float64.units f % unit = r
    -- past the range of an `i128` the float is past every `i64`
    by_cases hbig : q ≥ 2 ^ 127
    · rw [if_pos hbig, if_pos (show i < q by omega)]
      rfl
    rw [if_neg hbig, if_neg (show ¬ q ≤ -2 ^ 127 by omega)]
    by_cases hlt : i < q
    · rw [if_pos hlt, if_pos hlt]
      rfl
    rw [if_neg hlt, if_neg hlt]
    by_cases hgt : q < i
    · rw [if_pos hgt, if_pos hgt]
      rfl
    rw [if_neg hgt, if_neg hgt]
    by_cases hr : r = 0 <;> simp [hr, NumericOrdering.fromOrd]
  · simp only [if_true]
    rw [compare_neg, ← Int.neg_mul, compare_whole (-i) _ _ unit_pos]
    generalize hq : ((Float64.units f / unit : Nat) : Int) = q
    have hq0 : 0 ≤ q := hq ▸ Int.natCast_nonneg _
    generalize Float64.units f % unit = r
    rw [if_neg (show ¬ -q ≥ 2 ^ 127 by omega)]
    by_cases hbig : -q ≤ -2 ^ 127
    · rw [if_pos hbig, if_pos (show -i < q by omega)]
      rfl
    rw [if_neg hbig]
    by_cases hlt : i < -q
    · rw [if_pos hlt, if_neg (show ¬ -i < q by omega), if_pos (show q < -i by omega)]
      rfl
    rw [if_neg hlt]
    by_cases hgt : -q < i
    · rw [if_pos hgt, if_pos (show -i < q by omega)]
      rfl
    rw [if_neg hgt, if_neg (show ¬ -i < q by omega), if_neg (show ¬ q < -i by omega)]
    by_cases hr : r = 0 <;> simp [hr, NumericOrdering.fromOrd]

/-! ## One key for each number -/

theorem two_pow_mul {a b c : Nat} (h : a + b = c) : 2 ^ a * 2 ^ b = 2 ^ c := by
  rw [← h, Nat.pow_add]

theorem two_pow_le {a b : Nat} (h : a ≤ b) : 2 ^ a ≤ 2 ^ b := Nat.pow_le_pow_right Nat.two_pos h

theorem units_lt (f : UInt64) : Float64.units f < 2 ^ 2099 := by
  have hfraction : Float64.fraction f < 2 ^ 52 := Nat.mod_lt _ (by decide)
  have hexponent : Float64.exponent f < 2 ^ 11 := Nat.mod_lt _ (by decide)
  unfold Float64.units
  split
  · exact hfraction.trans_le (two_pow_le (by decide))
  · have hpow : 2 ^ (Float64.exponent f - 1) ≤ 2 ^ 2046 := two_pow_le (by omega)
    calc (2 ^ 52 + Float64.fraction f) * 2 ^ (Float64.exponent f - 1)
        < 2 ^ 53 * 2 ^ (Float64.exponent f - 1) :=
          Nat.mul_lt_mul_of_pos_right (by omega) (Nat.pow_pos (by decide))
      _ ≤ 2 ^ 53 * 2 ^ 2046 := Nat.mul_le_mul_left _ hpow
      _ = 2 ^ 2099 := two_pow_mul rfl

/-- The magnitude of an infinity. -/
theorem units_of_isInfinite {f : UInt64} (h : Float64.isInfinite f = true) :
    Float64.units f = 2 ^ 2098 := by
  simp only [Float64.isInfinite, Bool.and_eq_true, decide_eq_true_eq] at h
  rw [Float64.units, h.1, h.2, if_neg (by decide), Nat.add_zero]
  exact two_pow_mul rfl

/-- Where a number is in its band, a NaN last. -/
def key : Value → Int
  | .int n => n * unit
  | .float f => if Float64.isNan f then 2 ^ 2099 else Float64.scaled f
  | _ => 0

/-- The answer of `compare_numeric`, when neither number is a NaN. -/
theorem compareNumeric_fromOrd {a b : Value} {o : Ordering}
    (h : numericCompare a b = some (.fromOrd o)) : compareNumeric a b = o := by
  rw [compareNumeric, h]
  cases o <;> rfl

theorem scaled_lt (f : UInt64) : Float64.scaled f < 2 ^ 2099 := by
  have h := units_lt f
  have hcast : (Float64.units f : Int) < 2 ^ 2099 := by exact_mod_cast h
  unfold Float64.scaled
  split <;> omega

/-- An `i64` is between the infinities. -/
theorem int_between {i : Int} (hi : -2 ^ 63 ≤ i ∧ i < 2 ^ 63) :
    -2 ^ 2098 < i * unit ∧ i * unit < 2 ^ 2098 := by
  have hpos : (0 : Int) < unit := by exact_mod_cast unit_pos
  have hbound : unit * 2 ^ 64 ≤ 2 ^ 2098 := by
    unfold unit
    rw [two_pow_mul rfl]
    exact two_pow_le (by decide)
  have hbound : (unit : Int) * 2 ^ 64 ≤ 2 ^ 2098 := by exact_mod_cast hbound
  generalize (2 : Int) ^ 2098 = bound at hbound ⊢
  constructor <;> nlinarith

theorem compareIntFloat_key {i : Int} {f : UInt64} (hi : -2 ^ 63 ≤ i ∧ i < 2 ^ 63)
    (hnan : Float64.isNan f = false) :
    compareIntFloat i f = .fromOrd (compare (i * unit) (Float64.scaled f)) := by
  cases hinf : Float64.isInfinite f
  · exact compareIntFloat_scaled hi hnan hinf
  · obtain ⟨hlow, hhigh⟩ := int_between hi
    rw [compareIntFloat, hnan, hinf, Float64.scaled, units_of_isInfinite hinf]
    simp only [Bool.false_eq_true, if_false, if_true]
    split
    · rw [compare_gt_iff_gt.mpr (by exact_mod_cast hlow)]
      rfl
    · rw [compare_lt_iff_lt.mpr (by exact_mod_cast hhigh)]
      rfl

theorem partialCmp_of_not_nan {f g : UInt64} (hf : Float64.isNan f = false)
    (hg : Float64.isNan g = false) :
    compareFloatFloat f g = .fromOrd (compare (Float64.scaled f) (Float64.scaled g)) := by
  rw [compareFloatFloat, Float64.partialCmp, hf, hg]
  rfl

theorem flip_fromOrd (o : Ordering) :
    (NumericOrdering.fromOrd o).flip = .fromOrd o.swap := by
  cases o <;> rfl

theorem compare_swap_int (a b : Int) : (compare a b).swap = compare b a :=
  Std.OrientedCmp.eq_swap.symm

theorem compare_mul_unit (x y : Int) : compare (x * unit) (y * unit) = compare x y := by
  have hpos : (0 : Int) < unit := by exact_mod_cast unit_pos
  rcases lt_trichotomy x y with h | h | h
  · rw [compare_lt_iff_lt.mpr h, compare_lt_iff_lt.mpr (Int.mul_lt_mul_of_pos_right h hpos)]
  · rw [h, compare_eq_iff_eq.mpr rfl, compare_eq_iff_eq.mpr rfl]
  · rw [compare_gt_iff_gt.mpr h, compare_gt_iff_gt.mpr (Int.mul_lt_mul_of_pos_right h hpos)]

theorem int_lt_nan {x : Int} (hx : -2 ^ 63 ≤ x ∧ x < 2 ^ 63) : x * unit < 2 ^ 2099 := by
  have hstep : (2 : Int) ^ 2098 ≤ 2 ^ 2099 := by exact_mod_cast two_pow_le (show 2098 ≤ 2099 by decide)
  exact (int_between hx).2.trans_le hstep

theorem key_int (x : Int) : key (.int x) = x * unit := rfl

theorem key_nan {f : UInt64} (h : Float64.isNan f = true) : key (.float f) = 2 ^ 2099 := by
  rw [key, if_pos h]

theorem key_float {f : UInt64} (h : Float64.isNan f = false) :
    key (.float f) = Float64.scaled f := by
  rw [key, h, if_neg Bool.false_ne_true]

/-- Two numbers compare as their keys. -/
theorem compareNumeric_eq {a b : Value} (ha : a.InRange) (hb : b.InRange)
    (hband : a.bandRank = 2) (hband' : b.bandRank = 2) :
    compareNumeric a b = compare (key a) (key b) := by
  match a, b with
  | .int x, .int y =>
    rw [key_int, key_int, compare_mul_unit]
    exact compareNumeric_fromOrd rfl
  | .int x, .float g =>
    cases hg : Float64.isNan g
    · rw [key_int, key_float hg]
      exact compareNumeric_fromOrd (congrArg some (compareIntFloat_key ha hg))
    · rw [key_int, key_nan hg, compare_lt_iff_lt.mpr (int_lt_nan ha)]
      simp only [compareNumeric, numericCompare, compareIntFloat, hg, if_true, isNanValue]
  | .float f, .int y =>
    cases hf : Float64.isNan f
    · rw [key_int, key_float hf, ← compare_swap_int]
      refine compareNumeric_fromOrd ?_
      rw [numericCompare, compareIntFloat_key hb hf, flip_fromOrd]
    · rw [key_int, key_nan hf, compare_gt_iff_gt.mpr (int_lt_nan hb)]
      simp only [compareNumeric, numericCompare, compareIntFloat, hf, if_true, isNanValue,
        NumericOrdering.flip]
  | .float f, .float g =>
    cases hf : Float64.isNan f <;> cases hg : Float64.isNan g
    · rw [key_float hf, key_float hg]
      exact compareNumeric_fromOrd (congrArg some (partialCmp_of_not_nan hf hg))
    · rw [key_float hf, key_nan hg, compare_lt_iff_lt.mpr (scaled_lt f)]
      simp [compareNumeric, numericCompare, compareFloatFloat, Float64.partialCmp, hf, hg,
        isNanValue]
    · rw [key_nan hf, key_float hg, compare_gt_iff_gt.mpr (scaled_lt g)]
      simp [compareNumeric, numericCompare, compareFloatFloat, Float64.partialCmp, hf, hg,
        isNanValue]
    · rw [key_nan hf, key_nan hg, compare_eq_iff_eq.mpr rfl]
      simp [compareNumeric, numericCompare, compareFloatFloat, Float64.partialCmp, hf, hg,
        isNanValue]

/-! ## Bands -/

theorem totalCompare_of_ne {a b : Value} (h : a.bandRank ≠ b.bandRank) :
    totalCompare a b = compare a.bandRank b.bandRank := by
  unfold totalCompare
  exact if_pos h

/-- The bands decide first. -/
theorem totalCompare_then (a b : Value) :
    totalCompare a b = (compare a.bandRank b.bandRank).then (totalCompare a b) := by
  by_cases h : a.bandRank = b.bandRank
  · rw [h, compare_eq_iff_eq.mpr rfl]
    rfl
  · rw [totalCompare_of_ne h]
    rcases Nat.lt_or_gt_of_ne h with h | h
    · rw [compare_lt_iff_lt.mpr h]
      rfl
    · rw [compare_gt_iff_gt.mpr h]
      rfl

theorem agree_of_bands {a b c : Value}
    (h : a.bandRank = b.bandRank → b.bandRank = c.bandRank →
      Agree (totalCompare a b) (totalCompare b c) (totalCompare a c)) :
    Agree (totalCompare a b) (totalCompare b c) (totalCompare a c) := by
  by_cases hband : a.bandRank = b.bandRank ∧ b.bandRank = c.bandRank
  · exact h hband.1 hband.2
  · rw [totalCompare_then a b, totalCompare_then b c, totalCompare_then a c]
    refine (agree_of_transCmp _ _ _).then_of_ne fun ⟨hab, hbc⟩ => hband ?_
    exact ⟨compare_eq_iff_eq.mp hab, compare_eq_iff_eq.mp hbc⟩

theorem swap_of_bands {a b : Value}
    (h : a.bandRank = b.bandRank → totalCompare b a = (totalCompare a b).swap) :
    totalCompare b a = (totalCompare a b).swap := by
  by_cases hband : a.bandRank = b.bandRank
  · exact h hband
  · rw [totalCompare_of_ne hband, totalCompare_of_ne (Ne.symm hband)]
    exact Std.OrientedCmp.eq_swap

variable {v : Value}

theorem null_of_band (h : v.bandRank = 0) : v = .null := by
  cases v <;> simp [bandRank] at h ⊢

theorem bool_of_band (h : v.bandRank = 1) : ∃ x, v = .bool x := by
  cases v <;> simp [bandRank] at h ⊢

theorem str_of_band (h : v.bandRank = 3) : ∃ p s, v = .str p s := by
  cases v <;> simp [bandRank] at h ⊢

theorem list_of_band (h : v.bandRank = 4) : ∃ p xs, v = .list p xs := by
  cases v <;> simp [bandRank] at h ⊢

theorem dict_of_band (h : v.bandRank = 5) : ∃ p xs, v = .dict p xs := by
  cases v <;> simp [bandRank] at h ⊢

theorem totalCompare_number {a b : Value} (ha : a.InRange) (hb : b.InRange)
    (hband : a.bandRank = 2) (hband' : b.bandRank = 2) :
    totalCompare a b = compare (key a) (key b) := by
  rw [← compareNumeric_eq ha hb hband hband']
  match a, b with
  | .int _, .int _ => rfl
  | .int _, .float _ => rfl
  | .float _, .int _ => rfl
  | .float _, .float _ => rfl

/-- Functions are all equal, and so are errors. -/
theorem totalCompare_last {a b : Value} (hband : a.bandRank = b.bandRank)
    (h : 6 ≤ a.bandRank) : totalCompare a b = .eq := by
  cases a <;> simp [bandRank] at h <;> cases b <;> simp [bandRank] at hband <;> rfl

theorem compareSeq_cons (x y : Value) (xs ys : List Value) :
    compareSeq (x :: xs) (y :: ys) = (totalCompare x y).then (compareSeq xs ys) := by
  rw [compareSeq]
  cases totalCompare x y <;> rfl

theorem compareDict_cons (kx ky : String) (x y : Value) (xs ys : List (String × Value)) :
    compareDict ((kx, x) :: xs) ((ky, y) :: ys) =
      (compare kx ky).then ((totalCompare x y).then (compareDict xs ys)) := by
  rw [compareDict]
  cases compare kx ky <;> cases totalCompare x y <;> rfl

/-! ## Preorder -/

theorem agree_last {a b c : Value} (h : 6 ≤ a.bandRank) :
    Agree (totalCompare a b) (totalCompare b c) (totalCompare a c) := by
  refine agree_of_bands fun hab hbc => ?_
  rw [totalCompare_last hab h, totalCompare_last hbc (hab ▸ h),
    totalCompare_last (hab.trans hbc) h]
  decide

theorem swap_last {a b : Value} (h : 6 ≤ a.bandRank) :
    totalCompare b a = (totalCompare a b).swap := by
  refine swap_of_bands fun hab => ?_
  rw [totalCompare_last hab h, totalCompare_last hab.symm (hab ▸ h)]
  rfl

mutual

theorem agree_compare : ∀ a b c : Value, a.InRange → b.InRange → c.InRange →
    Agree (totalCompare a b) (totalCompare b c) (totalCompare a c)
  | .list p xs, b, c, ha, hb, hc => agree_of_bands fun hab hbc => by
    obtain ⟨q, ys, rfl⟩ := list_of_band hab.symm
    obtain ⟨r, zs, rfl⟩ := list_of_band hbc.symm
    exact agree_compareSeq xs ys zs ha hb hc
  | .dict p xs, b, c, ha, hb, hc => agree_of_bands fun hab hbc => by
    obtain ⟨q, ys, rfl⟩ := dict_of_band hab.symm
    obtain ⟨r, zs, rfl⟩ := dict_of_band hbc.symm
    exact agree_compareDict xs ys zs ha hb hc
  | .null, b, c, _, _, _ => agree_of_bands fun hab hbc => by
    rw [null_of_band hab.symm] at hbc ⊢
    rw [null_of_band hbc.symm]
    decide
  | .bool x, b, c, _, _, _ => agree_of_bands fun hab hbc => by
    obtain ⟨y, rfl⟩ := bool_of_band hab.symm
    obtain ⟨z, rfl⟩ := bool_of_band hbc.symm
    exact show Agree (compare x y) (compare y z) (compare x z) from agree_of_transCmp x y z
  | .str p x, b, c, _, _, _ => agree_of_bands fun hab hbc => by
    obtain ⟨q, y, rfl⟩ := str_of_band hab.symm
    obtain ⟨r, z, rfl⟩ := str_of_band hbc.symm
    exact show Agree (compare x y) (compare y z) (compare x z) from agree_of_transCmp x y z
  | .int n, b, c, ha, hb, hc => agree_of_bands fun hab hbc => by
    rw [totalCompare_number ha hb rfl hab.symm, totalCompare_number hb hc hab.symm (hbc ▸ hab).symm,
      totalCompare_number ha hc rfl (hbc ▸ hab).symm]
    exact agree_of_transCmp _ _ _
  | .float f, b, c, ha, hb, hc => agree_of_bands fun hab hbc => by
    rw [totalCompare_number ha hb rfl hab.symm, totalCompare_number hb hc hab.symm (hbc ▸ hab).symm,
      totalCompare_number ha hc rfl (hbc ▸ hab).symm]
    exact agree_of_transCmp _ _ _
  | .fn .., b, c, _, _, _ | .vmFn .., b, c, _, _, _ | .error .., b, c, _, _, _ =>
    agree_last (Nat.le_of_ble_eq_true rfl)

theorem agree_compareSeq : ∀ xs ys zs : List Value, ItemsInRange xs → ItemsInRange ys →
    ItemsInRange zs → Agree (compareSeq xs ys) (compareSeq ys zs) (compareSeq xs zs)
  | x :: xs, y :: ys, z :: zs, hx, hy, hz => by
    rw [compareSeq_cons, compareSeq_cons, compareSeq_cons]
    exact (agree_compare x y z hx.1 hy.1 hz.1).then (agree_compareSeq xs ys zs hx.2 hy.2 hz.2)
  | _ :: _, _ :: _, [], _, _, _ => agree_gt _
  | _ :: _, [], _ :: _, _, _, _ => agree_gt_lt _
  | _ :: _, [], [], _, _, _ => agree_eq_right _
  | [], _ :: _, _ :: _, _, _, _ => agree_lt _
  | [], _ :: _, [], _, _, _ => agree_lt_gt _
  | [], [], _ :: _, _, _, _ => agree_eq_left _
  | [], [], [], _, _, _ => agree_eq_left _

theorem agree_compareDict : ∀ xs ys zs : List (String × Value), EntriesInRange xs →
    EntriesInRange ys → EntriesInRange zs →
    Agree (compareDict xs ys) (compareDict ys zs) (compareDict xs zs)
  | (kx, x) :: xs, (ky, y) :: ys, (kz, z) :: zs, hx, hy, hz => by
    rw [compareDict_cons, compareDict_cons, compareDict_cons]
    exact (agree_of_transCmp _ _ _).then ((agree_compare x y z hx.1 hy.1 hz.1).then
      (agree_compareDict xs ys zs hx.2 hy.2 hz.2))
  | _ :: _, _ :: _, [], _, _, _ => agree_gt _
  | _ :: _, [], _ :: _, _, _, _ => agree_gt_lt _
  | _ :: _, [], [], _, _, _ => agree_eq_right _
  | [], _ :: _, _ :: _, _, _, _ => agree_lt _
  | [], _ :: _, [], _, _, _ => agree_lt_gt _
  | [], [], _ :: _, _, _, _ => agree_eq_left _
  | [], [], [], _, _, _ => agree_eq_left _

end

mutual

theorem swap_compare : ∀ a b : Value, a.InRange → b.InRange →
    totalCompare b a = (totalCompare a b).swap
  | .list p xs, b, ha, hb => swap_of_bands fun hab => by
    obtain ⟨q, ys, rfl⟩ := list_of_band hab.symm
    exact swap_compareSeq xs ys ha hb
  | .dict p xs, b, ha, hb => swap_of_bands fun hab => by
    obtain ⟨q, ys, rfl⟩ := dict_of_band hab.symm
    exact swap_compareDict xs ys ha hb
  | .null, b, _, _ => swap_of_bands fun hab => by
    rw [null_of_band hab.symm]
    rfl
  | .bool x, b, _, _ => swap_of_bands fun hab => by
    obtain ⟨y, rfl⟩ := bool_of_band hab.symm
    exact show compare y x = (compare x y).swap from Std.OrientedCmp.eq_swap
  | .str p x, b, _, _ => swap_of_bands fun hab => by
    obtain ⟨q, y, rfl⟩ := str_of_band hab.symm
    exact show compare y x = (compare x y).swap from Std.OrientedCmp.eq_swap
  | .int n, b, ha, hb => swap_of_bands fun hab => by
    rw [totalCompare_number ha hb rfl hab.symm, totalCompare_number hb ha hab.symm rfl]
    exact Std.OrientedCmp.eq_swap
  | .float f, b, ha, hb => swap_of_bands fun hab => by
    rw [totalCompare_number ha hb rfl hab.symm, totalCompare_number hb ha hab.symm rfl]
    exact Std.OrientedCmp.eq_swap
  | .fn .., b, _, _ | .vmFn .., b, _, _ | .error .., b, _, _ =>
    swap_last (Nat.le_of_ble_eq_true rfl)

theorem swap_compareSeq : ∀ xs ys : List Value, ItemsInRange xs → ItemsInRange ys →
    compareSeq ys xs = (compareSeq xs ys).swap
  | x :: xs, y :: ys, hx, hy => by
    rw [compareSeq_cons, compareSeq_cons, swap_compare x y hx.1 hy.1,
      swap_compareSeq xs ys hx.2 hy.2, Ordering.swap_then]
  | _ :: _, [], _, _ => rfl
  | [], _ :: _, _, _ => rfl
  | [], [], _, _ => rfl

theorem swap_compareDict : ∀ xs ys : List (String × Value), EntriesInRange xs →
    EntriesInRange ys → compareDict ys xs = (compareDict xs ys).swap
  | (kx, x) :: xs, (ky, y) :: ys, hx, hy => by
    have hkey : compare ky kx = (compare kx ky).swap := Std.OrientedCmp.eq_swap
    rw [compareDict_cons, compareDict_cons, swap_compare x y hx.1 hy.1,
      swap_compareDict xs ys hx.2 hy.2, hkey, Ordering.swap_then, Ordering.swap_then]
  | _ :: _, [], _, _ => rfl
  | [], _ :: _, _, _ => rfl
  | [], [], _, _ => rfl

end

/-! ## The comparison that charges -/

/-- Whatever is charged, the answer is `o`. -/
def Answers (m : Charge Ordering) (o : Ordering) : Prop :=
  ∀ s o' t, m.run s = (.ok o', t) → o' = o

theorem answers_pure (o : Ordering) : Answers (pure o) o := fun _ _ _ hrun => by
  cases hrun
  rfl

theorem answers_bind {α : Type} {m : Charge α} {f : α → Charge Ordering} {o : Ordering}
    (h : ∀ s a t, m.run s = (.ok a, t) → Answers (f a) o) : Answers (m >>= f) o := by
  intro s o' t hrun
  obtain ⟨a, u, hm, hf⟩ := Proc.bind_run_eq_ok.mp hrun
  exact h s a u hm u o' t hf

/-- The second comparison is made when the first says equal. -/
theorem Answers.then {m n : Charge Ordering} {o o' : Ordering} (hm : Answers m o)
    (hn : Answers n o') :
    Answers (m >>= fun
      | .eq => n
      | first => pure first) (o.then o') := by
  refine answers_bind fun s first t hrun => ?_
  obtain rfl := hm s first t hrun
  cases first
  · exact answers_pure _
  · exact hn
  · exact answers_pure _

/-- What follows a charge. -/
theorem answers_charge {phase : ExecutionPhase} {m : Charge Ordering} {o : Ordering}
    (hm : Answers m o) : Answers (Charge.chargeFuel 1 phase >>= fun _ => m) o :=
  answers_bind fun _ _ _ _ => hm

variable (phase : ExecutionPhase)

theorem answers_of_bands {a b : Value}
    (h : a.bandRank = b.bandRank → Answers (compareBudgeted phase a b) (totalCompare a b)) :
    Answers (compareBudgeted phase a b) (totalCompare a b) := by
  by_cases hband : a.bandRank = b.bandRank
  · exact h hband
  · unfold compareBudgeted
    rw [if_pos hband, totalCompare_of_ne hband]
    exact answers_pure _

/-- Nothing is charged for a value that holds no other. -/
theorem answers_flat {a b : Value} (hband : a.bandRank = b.bandRank)
    (hlist : ∀ p xs, a ≠ .list p xs) (hdict : ∀ p xs, a ≠ .dict p xs) :
    Answers (compareBudgeted phase a b) (totalCompare a b) := by
  unfold compareBudgeted
  rw [if_neg (not_not.mpr hband)]
  split
  next p xs q ys => exact absurd rfl (hlist p xs)
  next p xs q ys => exact absurd rfl (hdict p xs)
  · exact answers_pure _

mutual

theorem answers_compareBudgeted : ∀ a b : Value,
    Answers (compareBudgeted phase a b) (totalCompare a b)
  | .list p xs, b => answers_of_bands phase fun hab => by
    obtain ⟨q, ys, rfl⟩ := list_of_band hab.symm
    exact answers_compareItems xs ys
  | .dict p xs, b => answers_of_bands phase fun hab => by
    obtain ⟨q, ys, rfl⟩ := dict_of_band hab.symm
    exact answers_compareEntries xs ys
  | .null, b | .bool _, b | .int _, b | .float _, b | .str .., b | .fn .., b | .vmFn .., b
  | .error .., b => answers_of_bands phase fun hab => answers_flat phase hab nofun nofun

theorem answers_compareItems : ∀ xs ys : List Value,
    Answers (compareItemsBudgeted phase xs ys) (compareSeq xs ys)
  | x :: xs, y :: ys => by
    rw [compareSeq_cons]
    exact answers_charge ((answers_compareBudgeted x y).then (answers_compareItems xs ys))
  | _ :: _, [] => answers_pure _
  | [], _ :: _ => answers_pure _
  | [], [] => answers_pure _

theorem answers_compareEntries : ∀ xs ys : List (String × Value),
    Answers (compareEntriesBudgeted phase xs ys) (compareDict xs ys)
  | (kx, x) :: xs, (ky, y) :: ys => by
    rw [compareDict_cons]
    refine answers_charge ?_
    cases compare kx ky
    · exact answers_pure _
    · exact (answers_compareBudgeted x y).then (answers_compareEntries xs ys)
    · exact answers_pure _
  | _ :: _, [] => answers_pure _
  | [], _ :: _ => answers_pure _
  | [], [] => answers_pure _

end

/-! ## Exactness -/

/-- A finite number is no NaN and no infinity. -/
theorem finite_cases {f : UInt64} (h : Float64.isFinite f = true) :
    Float64.isNan f = false ∧ Float64.isInfinite f = false := by
  have hexponent : Float64.exponent f ≠ 2047 := by simpa [Float64.isFinite] using h
  simp [Float64.isNan, Float64.isInfinite, hexponent]

/-- The keys compare as the numbers do. -/
theorem compare_key_cmp (i : Int) (f : UInt64) :
    compare (i * unit) (Float64.scaled f) = cmp (i : ℚ) (Float64.toRat f) := by
  have hpos : (0 : ℚ) < unit := by exact_mod_cast unit_pos
  rw [Float64.toRat]
  rcases lt_trichotomy (i * (unit : Int)) (Float64.scaled f) with h | h | h
  · have hrat : (i : ℚ) * unit < Float64.scaled f := by exact_mod_cast h
    rw [compare_lt_iff_lt.mpr h, (cmp_eq_lt_iff _ _).mpr ((lt_div_iff₀ hpos).mpr hrat)]
  · have hrat : (i : ℚ) * unit = Float64.scaled f := by exact_mod_cast h
    rw [compare_eq_iff_eq.mpr h, (cmp_eq_eq_iff _ _).mpr ((eq_div_iff hpos.ne').mpr hrat)]
  · have hrat : (Float64.scaled f : ℚ) < i * unit := by exact_mod_cast h
    rw [compare_gt_iff_gt.mpr h, (cmp_eq_gt_iff _ _).mpr ((div_lt_iff₀ hpos).mpr hrat)]

/-- An `i64` and a finite number compare as rationals, in either order. -/
theorem compareIntFloat_exact {i : Int} {f : UInt64} (hi : -2 ^ 63 ≤ i ∧ i < 2 ^ 63)
    (hf : Float64.isFinite f = true) :
    totalCompare (.int i) (.float f) = cmp (i : ℚ) (Float64.toRat f) ∧
      totalCompare (.float f) (.int i) = cmp (Float64.toRat f) (i : ℚ) := by
  have hint : InRange (.int i) := hi
  have hfloat : InRange (.float f) := trivial
  have hkey := key_float (finite_cases hf).1
  rw [totalCompare_number hint hfloat rfl rfl, totalCompare_number hfloat hint rfl rfl, hkey,
    key_int, ← compare_swap_int (i * unit), compare_key_cmp, cmp_swap]
  exact ⟨rfl, rfl⟩

end OrderLemmas

open OrderLemmas

/-- What the order promises about three values. -/
structure OrderLaws (a b c : Value) : Prop where
  antisymm : b.totalCompare a = (a.totalCompare b).swap
  trans : (a.totalCompare b).isLE → (b.totalCompare c).isLE → (a.totalCompare c).isLE
  exact : ∀ i f, a = .int i → b = .float f → Float64.isFinite f = true →
    a.totalCompare b = cmp (i : ℚ) (Float64.toRat f) ∧
      b.totalCompare a = cmp (Float64.toRat f) (i : ℚ)
  budgeted : ∀ phase s o t, (Value.compareBudgeted phase a b).run s = (.ok o, t) →
    o = a.totalCompare b

/-- The order of all values is a total preorder, exact for numbers, and the comparison that
charges gives the same answer whenever it gives one. -/
theorem order_laws {a b c : Value} (ha : a.InRange) (hb : b.InRange) (hc : c.InRange) :
    OrderLaws a b c where
  antisymm := swap_compare a b ha hb
  trans := (agree_compare a b c ha hb hc).isLE
  exact := by
    rintro i f rfl rfl hf
    exact compareIntFloat_exact ha hf
  budgeted := fun phase s o t hrun => answers_compareBudgeted phase a b s o t hrun

/-! ## Three values -/

/-- The largest `i64`, the float `2 ^ 63` that it rounds to, and a list with a NaN. -/
theorem near_two_pow_63 :
    OrderLaws (.int (2 ^ 63 - 1)) (.float 0x43E0000000000000)
      (.list 0 [.float 0x7FF8000000000000]) :=
  order_laws ⟨by decide, by decide⟩ trivial ⟨trivial, trivial⟩

/-- The integer is smaller: it is not rounded. -/
example : Value.totalCompare (.int (2 ^ 63 - 1)) (.float 0x43E0000000000000) = .lt := by
  decide +kernel

end Tsumugi.Shared
