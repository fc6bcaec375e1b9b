import Mathlib.Data.List.Basic

/-!
# Identities from a counter

A counter gives each thing that is made its present value and then moves on; it may skip
values, and it never goes back. `Issued id n made` says that the things in `made` got their
identities so, in this order, and that the counter stands at `n`.

Results:
1. `Issued.nil`, `Issued.skip`, `Issued.issue`: the two things a counter does.
2. `Issued.nodup`, `Issued.eq_iff`: two things have one identity only if they are the same one.
-/

namespace Counter

variable {α : Type*}

/-- The identities of what was made ascend, and stay below the counter. -/
structure Issued (id : α → Nat) (n : Nat) (made : List α) : Prop where
  ascending : (made.map id).Pairwise (· < ·)
  below : ∀ a ∈ made, id a < n

variable {id : α → Nat} {n n' : Nat} {made : List α}

theorem Issued.nil : Issued id n [] := ⟨.nil, nofun⟩

theorem Issued.skip (h : Issued id n made) (hn : n ≤ n') : Issued id n' made :=
  ⟨h.ascending, fun a ha => Nat.lt_of_lt_of_le (h.below a ha) hn⟩

theorem Issued.issue (h : Issued id n made) {a : α} (ha : id a = n) (hn : n < n') :
    Issued id n' (made ++ [a]) := by
  constructor
  · rw [List.map_append, List.pairwise_append]
    refine ⟨h.ascending, List.pairwise_singleton _ _, fun i hi j hj => ?_⟩
    obtain ⟨b, hb, rfl⟩ := List.mem_map.mp hi
    rw [List.map_singleton, List.mem_singleton] at hj
    exact hj.symm ▸ ha.symm ▸ h.below b hb
  · intro b hb
    rcases List.mem_append.mp hb with hb | hb
    · exact Nat.lt_trans (h.below b hb) hn
    · exact List.mem_singleton.mp hb ▸ ha.symm ▸ hn

theorem Issued.nodup (h : Issued id n made) : (made.map id).Nodup :=
  h.ascending.imp Nat.ne_of_lt

/-- Two things that were made have one identity if and only if they were made as one. -/
theorem Issued.eq_iff (h : Issued id n made) {a b : α} (ha : a ∈ made) (hb : b ∈ made) :
    id a = id b ↔ ∃ i : Nat, made[i]? = some a ∧ made[i]? = some b := by
  constructor
  · intro heq
    obtain ⟨i, hi⟩ := List.mem_iff_getElem?.mp ha
    obtain ⟨j, hj⟩ := List.mem_iff_getElem?.mp hb
    have hi' : (made.map id)[i]? = some (id a) := by rw [List.getElem?_map, hi, Option.map_some]
    have hj' : (made.map id)[j]? = some (id a) := by
      rw [List.getElem?_map, hj, Option.map_some, heq]
    obtain rfl : i = j :=
      (List.getElem?_inj (List.getElem?_eq_some_iff.mp hi').1 h.nodup).mp (hi'.trans hj'.symm)
    exact ⟨i, hi, hj⟩
  · rintro ⟨i, hi, hj⟩
    rw [Option.some.inj (hi.symm.trans hj)]

end Counter
