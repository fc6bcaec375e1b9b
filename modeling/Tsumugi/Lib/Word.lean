import Mathlib.Algebra.Ring.Nat
import Mathlib.Order.MinMax
import Mathlib.Tactic.Common

/-!
# Unsigned machine arithmetic on `Nat`

Counters are natural numbers that stay below `2 ^ 64`; the operations say what
the machine does at the bound. `satAdd` and `satSub` saturate, `checkedAdd` fails.
`wrapAdd` and `wrapSub` wrap at a modulus, which is that of the counter's type.
-/

namespace Word

/-- The largest 64-bit value. -/
def maxU64 : Nat := 2 ^ 64 - 1

/-- `saturating_add`. -/
def satAdd (a b : Nat) : Nat := min (a + b) maxU64

/-- `saturating_mul`. -/
def satMul (a b : Nat) : Nat := min (a * b) maxU64

/-- `saturating_sub`. -/
def satSub (a b : Nat) : Nat := a - b

/-- `checked_add`. -/
def checkedAdd (a b : Nat) : Option Nat := if a + b ≤ maxU64 then some (a + b) else none

/-- `+=` where overflow is not checked. -/
def wrapAdd (m a b : Nat) : Nat := (a + b) % m

/-- `-=` where overflow is not checked. -/
def wrapSub (m a b : Nat) : Nat := (a + (m - b % m)) % m

theorem wrapAdd_of_lt {m a b : Nat} (h : a + b < m) : wrapAdd m a b = a + b :=
  Nat.mod_eq_of_lt h

theorem wrapAdd_lt {m : Nat} (h : 0 < m) (a b : Nat) : wrapAdd m a b < m := Nat.mod_lt _ h

theorem wrapSub_of_le {m a b : Nat} (hb : b ≤ a) (ha : a < m) : wrapSub m a b = a - b := by
  have hsplit : a + (m - b) = a - b + m := by omega
  rw [wrapSub, Nat.mod_eq_of_lt (Nat.lt_of_le_of_lt hb ha), hsplit, Nat.add_mod_right,
    Nat.mod_eq_of_lt (Nat.lt_of_le_of_lt (Nat.sub_le _ _) ha)]

theorem wrapSub_lt {m : Nat} (h : 0 < m) (a b : Nat) : wrapSub m a b < m := Nat.mod_lt _ h

theorem satAdd_le (a b : Nat) : satAdd a b ≤ maxU64 := Nat.min_le_right _ _

theorem satAdd_of_le {a b : Nat} (h : a + b ≤ maxU64) : satAdd a b = a + b := Nat.min_eq_left h

theorem satAdd_mono {a a' b b' : Nat} (ha : a ≤ a') (hb : b ≤ b') : satAdd a b ≤ satAdd a' b' := by
  unfold satAdd
  omega

theorem checkedAdd_eq_some {a b c : Nat} : checkedAdd a b = some c ↔ a + b ≤ maxU64 ∧ c = a + b := by
  unfold checkedAdd
  split <;> simp_all [eq_comm]

end Word
