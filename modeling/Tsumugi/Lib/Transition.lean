import Mathlib.Data.List.Basic

/-!
# Guarded transition systems

A labelled transition system whose step function is partial and deterministic
given the label, so that all nondeterminism (which thread moves, what the
environment answers) sits in the labels. A run may be restricted by a guard on
the state *before* a step and the label: `Reach sys ok s` says that `s` is the
end of a run all of whose steps meet `ok`.

Results:
1. `Reach.invariant`: what an initial state has and every guarded step keeps
   holds of every state a guarded run reaches.
2. `Reach.mono`: a weaker guard reaches more states.
3. `reach_of_execute`: a computed run witnesses reachability, so that concrete
   runs are checked by evaluation.
-/

namespace Transition

/-- A transition system: initial states, and a partial step function. `none`
means that the label is not enabled in the state. -/
structure System (σ α : Type*) where
  init : σ → Prop
  step : σ → α → Option σ

variable {σ α : Type*}

/-- The guard that allows every step. -/
def anyStep : σ → α → Prop := fun _ _ => True

instance : DecidableRel (anyStep (σ := σ) (α := α)) := fun _ _ => isTrue trivial

/-- The states reached by runs whose steps all meet the guard `ok`. -/
inductive Reach (sys : System σ α) (ok : σ → α → Prop) : σ → Prop
  | init {s : σ} : sys.init s → Reach sys ok s
  | step {s t : σ} {a : α} : Reach sys ok s → ok s a → sys.step s a = some t → Reach sys ok t

/-- A predicate that every guarded step keeps, assuming the predicate itself. -/
def Preserved (sys : System σ α) (ok : σ → α → Prop) (P : σ → Prop) : Prop :=
  ∀ s a t, P s → ok s a → sys.step s a = some t → P t

theorem Reach.invariant {sys : System σ α} {ok : σ → α → Prop} {P : σ → Prop}
    (hinit : ∀ s, sys.init s → P s) (hstep : Preserved sys ok P) {s : σ}
    (h : Reach sys ok s) : P s := by
  induction h with
  | init hs => exact hinit _ hs
  | step _ hok hst ih => exact hstep _ _ _ ih hok hst

theorem Reach.mono {sys : System σ α} {ok ok' : σ → α → Prop}
    (hsub : ∀ s a, ok s a → ok' s a) {s : σ} (h : Reach sys ok s) : Reach sys ok' s := by
  induction h with
  | init hs => exact .init hs
  | step _ hok hst ih => exact .step ih (hsub _ _ hok) hst

/-- Run a list of labels, refusing a step that the guard or the step function
refuses. -/
def System.execute (sys : System σ α) (ok : σ → α → Prop) [DecidableRel ok] :
    σ → List α → Option σ
  | s, [] => some s
  | s, a :: as =>
    if ok s a then
      match sys.step s a with
      | some t => sys.execute ok t as
      | none => none
    else none

theorem Reach.execute {sys : System σ α} {ok : σ → α → Prop} [DecidableRel ok] {s t : σ}
    {as : List α} (hs : Reach sys ok s) (h : sys.execute ok s as = some t) : Reach sys ok t := by
  induction as generalizing s with
  | nil =>
    simp only [System.execute, Option.some.injEq] at h
    exact h ▸ hs
  | cons a as ih =>
    simp only [System.execute] at h
    split at h
    · next hok =>
      split at h
      · next u hu => exact ih (hs.step hok hu) h
      · cases h
    · cases h

theorem reach_of_execute {sys : System σ α} {ok : σ → α → Prop} [DecidableRel ok] {s t : σ}
    (hs : sys.init s) (as : List α) (h : sys.execute ok s as = some t) : Reach sys ok t :=
  (Reach.init hs).execute h

end Transition
