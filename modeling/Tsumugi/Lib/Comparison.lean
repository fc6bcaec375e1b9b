import Mathlib.Tactic.Common

/-!
# Three-way comparisons

A comparison is a total preorder when swapping its arguments swaps the answer and its
answers on three values fit together. Answers that fit together do so through a
lexicographic comparison, whatever is compared first and second.

Results:
1. `Agree.then`: agreement of a lexicographic comparison, from that of its parts.
2. `Agree.isLE`: agreeing answers are transitive.
-/

namespace Comparison

/-- The answers for `a` and `b`, for `b` and `c`, and for `a` and `c` fit together. -/
def Agree (ab bc ac : Ordering) : Prop :=
  (ab = .eq → ac = bc) ∧ (bc = .eq → ac = ab) ∧ (ab = .lt → bc = .lt → ac = .lt) ∧
    (ab = .gt → bc = .gt → ac = .gt)

instance (ab bc ac : Ordering) : Decidable (Agree ab bc ac) :=
  inferInstanceAs (Decidable (_ ∧ _))

variable {α : Type*} {ab bc ac ab' bc' ac' : Ordering}

theorem Agree.then (h : Agree ab bc ac) (h' : Agree ab' bc' ac') :
    Agree (ab.then ab') (bc.then bc') (ac.then ac') := by
  cases ab <;> cases bc <;> cases ac <;> first
    | exact absurd h (by decide)
    | exact h'
    | exact h
    | (cases ab' <;> cases bc' <;> cases ac' <;> decide)

/-- Where the first answers are not all equal, they decide. -/
theorem Agree.then_of_ne (h : Agree ab bc ac) (hne : ¬ (ab = .eq ∧ bc = .eq)) :
    Agree (ab.then ab') (bc.then bc') (ac.then ac') := by
  cases ab <;> cases bc <;> cases ac <;> first
    | exact absurd h (by decide)
    | exact absurd ⟨rfl, rfl⟩ hne
    | (cases ab' <;> cases bc' <;> cases ac' <;> decide)

theorem Agree.isLE (h : Agree ab bc ac) (hab : ab.isLE) (hbc : bc.isLE) : ac.isLE := by
  revert h hab hbc
  cases ab <;> cases bc <;> cases ac <;> decide

/-- The answers of a comparison that is a total preorder. -/
theorem agree_of_transCmp {cmp : α → α → Ordering} [Std.TransCmp cmp] (a b c : α) :
    Agree (cmp a b) (cmp b c) (cmp a c) :=
  ⟨fun h => Std.TransCmp.congr_left h, fun h => (Std.TransCmp.congr_right h).symm,
    Std.TransCmp.lt_trans, Std.TransCmp.gt_trans⟩

theorem agree_eq_left (bc : Ordering) : Agree .eq bc bc := by cases bc <;> decide

theorem agree_eq_right (ab : Ordering) : Agree ab .eq ab := by cases ab <;> decide

theorem agree_lt (bc : Ordering) : Agree .lt bc .lt := by cases bc <;> decide

theorem agree_gt_lt (ac : Ordering) : Agree .gt .lt ac := by cases ac <;> decide

theorem agree_lt_gt (ac : Ordering) : Agree .lt .gt ac := by cases ac <;> decide

theorem agree_gt (ab : Ordering) : Agree ab .gt .gt := by cases ab <;> decide

end Comparison
