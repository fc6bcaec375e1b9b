import Tsumugi.Lib.Proc

/-!
# Loops of stateful computations

A loop repeats a step that answers with the next accumulator or with the result. It is
run with fuel: one more round than the size of the state. If each round that goes on
makes the state smaller, the fuel does not matter.

Results:
1. `loop_run`: a loop is its first round and the loop from there;
2. `loop_induction`: what holds of the last round, and is handed back from one round to
   the one before it, holds of the loop;
3. `meets_loop`: a loop keeps the contract of its rounds.
-/

namespace Proc

variable {σ ε β γ : Type}

/-- At most `fuel` rounds. -/
def iterate (spent : ε) (step : β → Proc σ ε (β ⊕ γ)) : Nat → β → Proc σ ε γ
  | 0, _ => stop spent
  | fuel + 1, b => do
    match ← step b with
    | .inl b' => iterate spent step fuel b'
    | .inr c => pure c

/-- A loop over a state with a size. -/
def loop (spent : ε) (size : σ → Nat) (step : β → Proc σ ε (β ⊕ γ)) (b : β) : Proc σ ε γ := do
  let fuel ← gets size
  iterate spent step (fuel + 1) b

/-- Each round that goes on makes the state smaller. -/
def Shrinking (size : σ → Nat) (step : β → Proc σ ε (β ⊕ γ)) : Prop :=
  ∀ b s b' t, (step b).run s = (.ok (.inl b'), t) → size t < size s

variable {spent : ε} {size : σ → Nat} {step : β → Proc σ ε (β ⊕ γ)}

theorem iterate_fuel (h : Shrinking size step) :
    ∀ {n m : Nat} {b : β} {s : σ}, size s < n → size s < m →
      (iterate spent step n b).run s = (iterate spent step m b).run s := by
  intro n
  induction n with
  | zero => exact fun hn => absurd hn (Nat.not_lt_zero _)
  | succ n ih =>
    intro m b s hn hm
    cases m with
    | zero => exact absurd hm (Nat.not_lt_zero _)
    | succ m =>
      rcases hstep : (step b).run s with ⟨e | r, t⟩
      · rw [iterate, iterate, bind_run_error hstep, bind_run_error hstep]
      · rw [iterate, iterate, bind_run_ok hstep, bind_run_ok hstep]
        cases r with
        | inl b' =>
          have hless := h b s b' t hstep
          exact ih (by omega) (by omega)
        | inr c => rfl

/-- A loop is its first round and the loop from there. -/
theorem loop_run (h : Shrinking size step) (b : β) (s : σ) :
    (loop spent size step b).run s =
      (step b >>= fun r =>
        match r with
        | .inl b' => loop spent size step b'
        | .inr c => pure c).run s := by
  change (iterate spent step (size s + 1) b).run s = _
  rcases hstep : (step b).run s with ⟨e | r, t⟩
  · rw [iterate, bind_run_error hstep, bind_run_error hstep]
  · rw [iterate, bind_run_ok hstep, bind_run_ok hstep]
    cases r with
    | inl b' =>
      have hless := h b s b' t hstep
      exact iterate_fuel h hless (Nat.lt_succ_self (size t))
    | inr c => rfl

/-- A loop from a state of a size: the induction is on the size. -/
theorem loop_induction (h : Shrinking size step) {motive : β → σ → Except ε γ × σ → Prop}
    (hstop : ∀ b s e t, (step b).run s = (.error e, t) → motive b s (.error e, t))
    (hdone : ∀ b s c t, (step b).run s = (.ok (.inr c), t) → motive b s (.ok c, t))
    (hnext : ∀ b s b' t r, (step b).run s = (.ok (.inl b'), t) → motive b' t r → motive b s r)
    (b : β) (s : σ) : motive b s ((loop spent size step b).run s) := by
  generalize hn : size s = n
  induction n using Nat.strongRecOn generalizing b s with
  | ind n ih =>
    rw [loop_run h]
    rcases hstep : (step b).run s with ⟨e | r, t⟩
    · rw [bind_run_error hstep]
      exact hstop b s e t hstep
    · rw [bind_run_ok hstep]
      cases r with
      | inl b' =>
        have hless := h b s b' t hstep
        exact hnext b s b' t _ hstep (ih (size t) (hn ▸ hless) b' t rfl)
      | inr c => exact hdone b s c t hstep

/-- What each round keeps, the loop keeps; it does not run out of fuel. -/
theorem meets_loop {c : Contract σ ε} (h : Shrinking size step) (hstep : ∀ b, Meets c (step b))
    (b : β) : Meets c (loop spent size step b) := by
  refine fun s => loop_induction (motive := fun _ s r => c.rel (stopOf r.1) s r.2) h ?_ ?_ ?_ b s
  · intro b s e t hrun
    have := hstep b s
    rwa [hrun] at this
  · intro b s d t hrun
    have := hstep b s
    rwa [hrun] at this
  · intro b s b' t r hrun hr
    have := hstep b s
    rw [hrun] at this
    exact c.trans this hr

end Proc
