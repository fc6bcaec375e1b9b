import Mathlib.Tactic.Common

/-!
# Stateful computations that stop

`Proc σ ε α` is a computation on a state `σ` that returns a value or stops with a
reason `ε`. A stop keeps the state it happened in, as `?` keeps what was written
through a mutable reference.

Five sets of rules:
1. `Keeps P m`: the invariant `P` holds of the last state, whether `m` returns or
   stops.
2. `Meets c m`: the first and the last state are related, by a relation that may
   depend on the stop. `Ends Q m` also sees the result, and `MeetsFrom P c m` only
   speaks about the runs that begin in `P`.
3. `Triple P m Q`: from `P`, a return is in `Q`; nothing is said of a stop.
4. `Ensures P m Q E`: from `P`, a return is in `Q` and a stop in `E`.
5. `Sim T E R m m' Q`: whenever the second computation returns, so does the first,
   with related results; a stop of the second in `T` is matched by the same stop.
   Other stops of the second computation are not matched.
-/

/-- A computation on `σ` that returns an `α` or stops with an `ε`. -/
structure Proc (σ ε α : Type) where
  run : σ → Except ε α × σ

namespace Proc

variable {σ σ' ε ε' α α' β β' : Type}

/-- Sequential composition: a stop of the first part is the stop of the whole. -/
def andThen (m : Proc σ ε α) (f : α → Proc σ ε β) : Proc σ ε β where
  run s :=
    match m.run s with
    | (.ok a, t) => (f a).run t
    | (.error e, t) => (.error e, t)

instance : Monad (Proc σ ε) where
  pure a := ⟨fun s => (.ok a, s)⟩
  bind := andThen

/-- Read a part of the state. -/
def gets (f : σ → α) : Proc σ ε α := ⟨fun s => (.ok (f s), s)⟩

/-- Change the state. -/
def modify (f : σ → σ) : Proc σ ε Unit := ⟨fun s => (.ok (), f s)⟩

/-- Run a state transformer that always returns. -/
def update (f : σ → α × σ) : Proc σ ε α := ⟨fun s => (.ok (f s).1, (f s).2)⟩

/-- Stop. -/
def stop (e : ε) : Proc σ ε α := ⟨fun s => (.error e, s)⟩

/-- Run `m` if the condition holds. -/
def when (c : Prop) [Decidable c] (m : Proc σ ε Unit) : Proc σ ε Unit := if c then m else pure ()

/-- Turn the stops that `f` accepts into values. -/
def attempt (f : ε → Option ε') (m : Proc σ ε α) : Proc σ ε (Except ε' α) where
  run s :=
    match m.run s with
    | (.ok a, t) => (.ok (.ok a), t)
    | (.error e, t) =>
      match f e with
      | some e' => (.ok (.error e'), t)
      | none => (.error e, t)

@[simp] theorem pure_run (a : α) (s : σ) : (pure a : Proc σ ε α).run s = (.ok a, s) := rfl

@[simp] theorem gets_run (f : σ → α) (s : σ) : (gets f : Proc σ ε α).run s = (.ok (f s), s) := rfl

@[simp] theorem modify_run (f : σ → σ) (s : σ) :
    (modify f : Proc σ ε Unit).run s = (.ok (), f s) := rfl

@[simp] theorem update_run (f : σ → α × σ) (s : σ) :
    (update f : Proc σ ε α).run s = (.ok (f s).1, (f s).2) := rfl

@[simp] theorem stop_run (e : ε) (s : σ) : (stop e : Proc σ ε α).run s = (.error e, s) := rfl

theorem bind_run (m : Proc σ ε α) (f : α → Proc σ ε β) (s : σ) :
    (m >>= f).run s =
      match m.run s with
      | (.ok a, t) => (f a).run t
      | (.error e, t) => (.error e, t) := rfl

theorem bind_run_ok {m : Proc σ ε α} {f : α → Proc σ ε β} {s t : σ} {a : α}
    (h : m.run s = (.ok a, t)) : (m >>= f).run s = (f a).run t := by rw [bind_run, h]

theorem bind_run_error {m : Proc σ ε α} {f : α → Proc σ ε β} {s t : σ} {e : ε}
    (h : m.run s = (.error e, t)) : (m >>= f).run s = (.error e, t) := by rw [bind_run, h]

/-- Of a sequence that returns, both parts return. -/
theorem bind_run_eq_ok {m : Proc σ ε α} {f : α → Proc σ ε β} {s u : σ} {b : β} :
    (m >>= f).run s = (.ok b, u) ↔ ∃ a t, m.run s = (.ok a, t) ∧ (f a).run t = (.ok b, u) := by
  rcases h : m.run s with ⟨e | a, t⟩
  · simp [bind_run_error h]
  · simp [bind_run_ok h]

theorem attempt_run_ok {f : ε → Option ε'} {m : Proc σ ε α} {s t : σ} {a : α}
    (h : m.run s = (.ok a, t)) : (m.attempt f).run s = (.ok (.ok a), t) := by
  simp only [attempt, h]

theorem attempt_run_some {f : ε → Option ε'} {m : Proc σ ε α} {s t : σ} {e : ε} {e' : ε'}
    (h : m.run s = (.error e, t)) (hf : f e = some e') :
    (m.attempt f).run s = (.ok (.error e'), t) := by
  simp only [attempt, h, hf]

theorem attempt_run_none {f : ε → Option ε'} {m : Proc σ ε α} {s t : σ} {e : ε}
    (h : m.run s = (.error e, t)) (hf : f e = none) : (m.attempt f).run s = (.error e, t) := by
  simp only [attempt, h, hf]

/-! ## Invariants -/

/-- `m` keeps the invariant `P`, also when it stops. -/
def Keeps (P : σ → Prop) (m : Proc σ ε α) : Prop := ∀ s, P s → P (m.run s).2

variable {P : σ → Prop}

theorem keeps_pure (a : α) : Keeps P (pure a : Proc σ ε α) := fun _ h => h

theorem keeps_gets (f : σ → α) : Keeps P (gets f : Proc σ ε α) := fun _ h => h

theorem keeps_stop (e : ε) : Keeps P (stop e : Proc σ ε α) := fun _ h => h

theorem keeps_modify {f : σ → σ} (hf : ∀ s, P s → P (f s)) :
    Keeps P (modify f : Proc σ ε Unit) := hf

theorem keeps_update {f : σ → α × σ} (hf : ∀ s, P s → P (f s).2) :
    Keeps P (update f : Proc σ ε α) := hf

theorem keeps_bind {m : Proc σ ε α} {f : α → Proc σ ε β} (hm : Keeps P m)
    (hf : ∀ a, Keeps P (f a)) : Keeps P (m >>= f) := by
  intro s hs
  have hm' := hm s hs
  rcases h : m.run s with ⟨a | a, t⟩ <;> rw [h] at hm'
  · rw [bind_run_error h]
    exact hm'
  · rw [bind_run_ok h]
    exact hf a t hm'

theorem keeps_ite {c : Prop} [Decidable c] {m n : Proc σ ε α} (hm : Keeps P m) (hn : Keeps P n) :
    Keeps P (if c then m else n) := by
  split <;> assumption

theorem keeps_when {c : Prop} [Decidable c] {m : Proc σ ε Unit} (hm : Keeps P m) :
    Keeps P (when c m) :=
  keeps_ite hm (keeps_pure ())

theorem keeps_attempt {f : ε → Option ε'} {m : Proc σ ε α} (hm : Keeps P m) :
    Keeps P (m.attempt f) := by
  intro s hs
  have hm' := hm s hs
  rcases h : m.run s with ⟨e | a, t⟩ <;> rw [h] at hm' <;> simp only [attempt, h]
  · cases f e <;> exact hm'
  · exact hm'

/-! ## Contracts -/

/-- What a computation may do to the state, by the reason it stops with, if it stops. -/
structure Contract (σ ε : Type) where
  rel : Option ε → σ → σ → Prop
  refl : ∀ s, rel none s s
  trans : ∀ {o s t u}, rel none s t → rel o t u → rel o s u

/-- The reason of a stop. -/
def stopOf : Except ε α → Option ε
  | .ok _ => none
  | .error e => some e

/-- The result of `m` and its two states are in `Q`. -/
def Ends (Q : Except ε α → σ → σ → Prop) (m : Proc σ ε α) : Prop :=
  ∀ s, Q (m.run s).1 s (m.run s).2

/-- `m` keeps the contract, however it ends. -/
def Meets (c : Contract σ ε) (m : Proc σ ε α) : Prop := Ends (fun r => c.rel (stopOf r)) m

variable {c : Contract σ ε}

theorem meets_pure (a : α) : Meets c (pure a) := c.refl

theorem meets_gets (f : σ → α) : Meets c (gets f) := c.refl

theorem meets_modify {f : σ → σ} (hf : ∀ s, c.rel none s (f s)) : Meets c (modify f) := hf

theorem meets_update {f : σ → α × σ} (hf : ∀ s, c.rel none s (f s).2) : Meets c (update f) := hf

theorem meets_stop {e : ε} (h : ∀ s, c.rel (some e) s s) : Meets c (stop e : Proc σ ε α) := h

theorem meets_ite {p : Prop} [Decidable p] {m n : Proc σ ε α} (hm : Meets c m) (hn : Meets c n) :
    Meets c (if p then m else n) := by
  split <;> assumption

theorem meets_when {p : Prop} [Decidable p] {m : Proc σ ε Unit} (hm : Meets c m) :
    Meets c (when p m) :=
  meets_ite hm (meets_pure ())

/-- A first part that keeps the contract can be put before any relation that the contract
composes with. -/
theorem ends_bind {Q : Except ε β → σ → σ → Prop} {m : Proc σ ε α} {f : α → Proc σ ε β}
    (hm : Meets c m) (hf : ∀ a, Ends Q (f a))
    (hafter : ∀ {r s t u}, c.rel none s t → Q r t u → Q r s u)
    (hstop : ∀ {e s t}, c.rel (some e) s t → Q (.error e) s t) : Ends Q (m >>= f) := by
  intro s
  have hm' := hm s
  rcases h : m.run s with ⟨e | a, t⟩ <;> rw [h] at hm'
  · rw [bind_run_error h]
    exact hstop hm'
  · rw [bind_run_ok h]
    exact hafter hm' (hf a t)

theorem meets_bind {m : Proc σ ε α} {f : α → Proc σ ε β} (hm : Meets c m)
    (hf : ∀ a, Meets c (f a)) : Meets c (m >>= f) :=
  ends_bind hm hf (fun h h' => c.trans h h') fun h => h

/-- The same for a first part whose stops `f` turns into values: `Q'` speaks about what
follows such a stop. -/
theorem ends_bind_attempt {Q Q' : Except ε β → σ → σ → Prop} {f : ε → Option ε'}
    {m : Proc σ ε α} {g : Except ε' α → Proc σ ε β} (hm : Meets c m)
    (hok : ∀ a, Ends Q (g (.ok a))) (hhandled : ∀ e', Ends Q' (g (.error e')))
    (hafter : ∀ {r s t u}, c.rel none s t → Q r t u → Q r s u)
    (hcaught : ∀ {e r s t u}, c.rel (some e) s t → Q' r t u → Q r s u)
    (hstop : ∀ {e s t}, c.rel (some e) s t → Q (.error e) s t) :
    Ends Q (m.attempt f >>= g) := by
  intro s
  have hm' := hm s
  rcases h : m.run s with ⟨e | a, t⟩ <;> rw [h] at hm'
  · cases hf : f e with
    | some e' =>
      rw [bind_run_ok (attempt_run_some h hf)]
      exact hcaught hm' (hhandled e' t)
    | none =>
      rw [bind_run_error (attempt_run_none h hf)]
      exact hstop hm'
  · rw [bind_run_ok (attempt_run_ok h)]
    exact hafter hm' (hok a t)

theorem Ends.mono {Q Q' : Except ε α → σ → σ → Prop} {m : Proc σ ε α} (h : Ends Q m)
    (hQ : ∀ {r s t}, Q r s t → Q' r s t) : Ends Q' m := fun s => hQ (h s)

/-- A stop that is turned into a value counts as a return. -/
theorem meets_attempt {f : ε → Option ε'} {m : Proc σ ε α} (hm : Meets c m)
    (hf : ∀ {e e' s t}, f e = some e' → c.rel (some e) s t → c.rel none s t) :
    Meets c (m.attempt f) := by
  intro s
  have hm' := hm s
  rcases h : m.run s with ⟨e | a, t⟩ <;> rw [h] at hm' <;> simp only [attempt, h]
  · rcases he : f e with _ | e'
    · exact hm'
    · exact hf he hm'
  · exact hm'

/-- `m` keeps the contract from the states in `P`, however it ends. -/
def MeetsFrom (P : σ → Prop) (c : Contract σ ε) (m : Proc σ ε α) : Prop :=
  ∀ s, P s → c.rel (stopOf (m.run s).1) s (m.run s).2

theorem Meets.meetsFrom {m : Proc σ ε α} (h : Meets c m) : MeetsFrom P c m := fun s _ => h s

/-- The rest of a computation may use the state it reads. -/
theorem meets_read {f : σ → Proc σ ε β} (h : ∀ s, MeetsFrom (· = s) c (f s)) :
    Meets c (gets id >>= f) :=
  fun s => h s s rfl

theorem meetsFrom_read {f : σ → Proc σ ε β} (h : ∀ s, P s → MeetsFrom (· = s) c (f s)) :
    MeetsFrom P c (gets id >>= f) :=
  fun s hs => h s hs s rfl

theorem meetsFrom_ite {p : Prop} [Decidable p] {m n : Proc σ ε α} (hm : p → MeetsFrom P c m)
    (hn : ¬ p → MeetsFrom P c n) : MeetsFrom P c (if p then m else n) := by
  split
  · exact hm ‹_›
  · exact hn ‹_›

/-! ## Partial correctness -/

/-- From `P`, whatever `m` returns is in `Q`, with the last state. -/
def Triple (P : σ → Prop) (m : Proc σ ε α) (Q : α → σ → Prop) : Prop :=
  ∀ s, P s → ∀ a t, m.run s = (.ok a, t) → Q a t

variable {Q : α → σ → Prop}

theorem triple_pure {a : α} (h : ∀ s, P s → Q a s) : Triple P (pure a : Proc σ ε α) Q := by
  intro s hs a t hr
  cases hr
  exact h s hs

theorem triple_gets {f : σ → α} (h : ∀ s, P s → Q (f s) s) :
    Triple P (gets f : Proc σ ε α) Q := by
  intro s hs a t hr
  cases hr
  exact h s hs

theorem triple_modify {f : σ → σ} {Q : Unit → σ → Prop} (h : ∀ s, P s → Q () (f s)) :
    Triple P (modify f : Proc σ ε Unit) Q := by
  intro s hs a t hr
  cases hr
  exact h s hs

theorem triple_update {f : σ → α × σ} (h : ∀ s, P s → Q (f s).1 (f s).2) :
    Triple P (update f : Proc σ ε α) Q := by
  intro s hs a t hr
  cases hr
  exact h s hs

theorem triple_stop (e : ε) : Triple P (stop e : Proc σ ε α) Q := fun _ _ _ _ hr => by cases hr

theorem triple_bind {m : Proc σ ε α} {f : α → Proc σ ε β} {R : β → σ → Prop}
    (hm : Triple P m Q) (hf : ∀ a, Triple (Q a) (f a) R) : Triple P (m >>= f) R := by
  intro s hs b u hr
  rcases h : m.run s with ⟨e | a, t⟩
  · rw [bind_run_error h] at hr
    cases hr
  · rw [bind_run_ok h] at hr
    exact hf a t (hm s hs a t h) b u hr

theorem triple_ite {c : Prop} [Decidable c] {m n : Proc σ ε α} (hm : Triple P m Q)
    (hn : Triple P n Q) : Triple P (if c then m else n) Q := by
  split <;> assumption

/-- A piece that runs under a condition leaves `Q` either way. -/
theorem triple_when {c : Prop} [Decidable c] {m : Proc σ ε Unit} {Q : Unit → σ → Prop}
    (hm : c → Triple P m Q) (hn : ¬ c → ∀ s, P s → Q () s) : Triple P (when c m) Q := by
  unfold when
  split
  · exact hm ‹_›
  · exact triple_pure (hn ‹_›)

theorem Triple.conseq {P' : σ → Prop} {Q' : α → σ → Prop} {m : Proc σ ε α} (h : Triple P m Q)
    (hP : ∀ s, P' s → P s) (hQ : ∀ a s, Q a s → Q' a s) : Triple P' m Q' :=
  fun s hs a t hr => hQ a t (h s (hP s hs) a t hr)

theorem triple_of_keeps {m : Proc σ ε α} (h : Keeps P m) : Triple P m fun _ => P := by
  intro s hs a t hr
  have := h s hs
  rwa [hr] at this

/-- The rest of a computation may use the state it reads. -/
theorem triple_read {f : σ → Proc σ ε β} {R : β → σ → Prop}
    (h : ∀ s, P s → Triple (· = s) (f s) R) : Triple P (gets id >>= f) R :=
  fun s hs b t hr => h s hs s rfl b t hr

theorem triple_exists {ι : Sort*} {P : ι → σ → Prop} {m : Proc σ ε α}
    (h : ∀ i, Triple (P i) m Q) : Triple (fun s => ∃ i, P i s) m Q :=
  fun s ⟨i, hs⟩ => h i s hs

theorem triple_and {p : Prop} {m : Proc σ ε α} (h : p → Triple P m Q) :
    Triple (fun s => p ∧ P s) m Q :=
  fun s ⟨hp, hs⟩ => h hp s hs

/-- A first part that keeps the contract, and what it leaves for the rest. -/
theorem meetsFrom_bind {m : Proc σ ε α} {f : α → Proc σ ε β} (hm : MeetsFrom P c m)
    (ht : Triple P m Q) (hf : ∀ a, MeetsFrom (Q a) c (f a)) : MeetsFrom P c (m >>= f) := by
  intro s hs
  have hm' := hm s hs
  rcases h : m.run s with ⟨e | a, t⟩ <;> rw [h] at hm'
  · rw [bind_run_error h]
    exact hm'
  · rw [bind_run_ok h]
    exact c.trans hm' (hf a t (ht s hs a t h))

/-- Of a stop that is turned into a value nothing is known. -/
theorem triple_attempt {f : ε → Option ε'} {m : Proc σ ε α} (h : Triple P m Q) :
    Triple P (m.attempt f) fun r s => ∀ a, r = .ok a → Q a s := by
  rintro s hs r t hr a rfl
  rcases hm : m.run s with ⟨e | b, u⟩
  · simp only [attempt, hm] at hr
    split at hr <;> cases hr
  · rw [attempt_run_ok hm] at hr
    cases hr
    exact h s hs _ _ hm

/-! ## Total rules -/

/-- From `P`, whatever `m` returns is in `Q`, and what it stops with is in `E`. -/
def Ensures (P : σ → Prop) (m : Proc σ ε α) (Q : α → σ → Prop) (E : ε → σ → Prop) : Prop :=
  ∀ s, P s →
    match m.run s with
    | (.ok a, t) => Q a t
    | (.error e, t) => E e t

variable {E : ε → σ → Prop}

theorem ensures_pure {a : α} (h : ∀ s, P s → Q a s) : Ensures P (pure a : Proc σ ε α) Q E := h

theorem ensures_gets {f : σ → α} (h : ∀ s, P s → Q (f s) s) :
    Ensures P (gets f : Proc σ ε α) Q E := h

theorem ensures_modify {f : σ → σ} {Q : Unit → σ → Prop} (h : ∀ s, P s → Q () (f s)) :
    Ensures P (modify f : Proc σ ε Unit) Q E := h

theorem ensures_update {f : σ → α × σ} (h : ∀ s, P s → Q (f s).1 (f s).2) :
    Ensures P (update f : Proc σ ε α) Q E := h

theorem ensures_stop {e : ε} (h : ∀ s, P s → E e s) : Ensures P (stop e : Proc σ ε α) Q E := h

theorem ensures_bind {m : Proc σ ε α} {f : α → Proc σ ε β} {R : β → σ → Prop}
    (hm : Ensures P m Q E) (hf : ∀ a, Ensures (Q a) (f a) R E) : Ensures P (m >>= f) R E := by
  intro s hs
  have hm' := hm s hs
  rcases h : m.run s with ⟨e | a, t⟩ <;> simp only [h] at hm'
  · rw [bind_run_error h]
    exact hm'
  · rw [bind_run_ok h]
    exact hf a t hm'

theorem ensures_ite {c : Prop} [Decidable c] {m n : Proc σ ε α} (hm : c → Ensures P m Q E)
    (hn : ¬ c → Ensures P n Q E) : Ensures P (if c then m else n) Q E := by
  split
  · exact hm ‹_›
  · exact hn ‹_›

theorem Ensures.conseq {P' : σ → Prop} {Q' : α → σ → Prop} {E' : ε → σ → Prop}
    {m : Proc σ ε α} (h : Ensures P m Q E) (hP : ∀ s, P' s → P s) (hQ : ∀ a s, Q a s → Q' a s)
    (hE : ∀ e s, E e s → E' e s) : Ensures P' m Q' E' := by
  intro s hs
  have h' := h s (hP s hs)
  rcases hm : m.run s with ⟨e | a, t⟩ <;> simp only [hm] at h'
  · exact hE e t h'
  · exact hQ a t h'

/-- The stops that `f` accepts come back as values. -/
theorem ensures_attempt {f : ε → Option ε'} {m : Proc σ ε α} {R : Except ε' α → σ → Prop}
    {E' : ε → σ → Prop} (hm : Ensures P m Q E) (hok : ∀ a s, Q a s → R (.ok a) s)
    (hcaught : ∀ e e' s, f e = some e' → E e s → R (.error e') s)
    (hstop : ∀ e s, f e = none → E e s → E' e s) : Ensures P (m.attempt f) R E' := by
  intro s hs
  have hm' := hm s hs
  rcases h : m.run s with ⟨e | a, t⟩ <;> simp only [h] at hm'
  · cases hf : f e with
    | some e' =>
      rw [attempt_run_some h hf]
      exact hcaught e e' t hf hm'
    | none =>
      rw [attempt_run_none h hf]
      exact hstop e t hf hm'
  · rw [attempt_run_ok h]
    exact hok a t hm'

theorem ensures_or {P' : σ → Prop} {m : Proc σ ε α} (h : Ensures P m Q E)
    (h' : Ensures P' m Q E) : Ensures (fun s => P s ∨ P' s) m Q E := by
  rintro s (hs | hs)
  · exact h s hs
  · exact h' s hs

/-- What holds of every return. -/
theorem Ensures.returns {m : Proc σ ε α} (h : Ensures P m Q E) {s : σ} (hs : P s) {a : α}
    (hrun : (m.run s).1 = .ok a) : Q a (m.run s).2 := by
  have h' := h s hs
  rcases hm : m.run s with ⟨e | b, t⟩ <;> rw [hm] at h' hrun <;> cases hrun
  exact h'

/-- What holds of every end. -/
theorem Ensures.ends {R : σ → Prop} {m : Proc σ ε α} (h : Ensures P m Q E)
    (hQ : ∀ a t, Q a t → R t) (hE : ∀ e t, E e t → R t) {s : σ} (hs : P s) : R (m.run s).2 := by
  have h' := h s hs
  rcases hm : m.run s with ⟨e | a, t⟩ <;> rw [hm] at h'
  · exact hE e t h'
  · exact hQ a t h'

theorem ensures_exists {ι : Sort*} {P : ι → σ → Prop} {m : Proc σ ε α}
    (h : ∀ i, Ensures (P i) m Q E) : Ensures (fun s => ∃ i, P i s) m Q E :=
  fun s ⟨i, hs⟩ => h i s hs

/-- An invariant can be carried along. -/
theorem Ensures.and_keeps {R : σ → Prop} {m : Proc σ ε α} (h : Ensures P m Q E)
    (hm : Keeps R m) : Ensures (fun s => P s ∧ R s) m (fun a s => Q a s ∧ R s) E := by
  rintro s ⟨hs, hr⟩
  have h' := h s hs
  have hr' := hm s hr
  rcases hrun : m.run s with ⟨e | a, t⟩ <;> simp only [hrun] at h' hr'
  · exact h'
  · exact ⟨h', hr'⟩

theorem ensures_of_keeps {m : Proc σ ε α} (h : Keeps P m) :
    Ensures P m (fun _ => P) fun _ => P := by
  intro s hs
  have h' := h s hs
  rcases hm : m.run s with ⟨e | a, t⟩ <;> simpa only [hm] using h'

/-! ## Simulation -/

/-- From `R`-related states: if `m'` returns, `m` returns and the results are in `Q`;
if `m'` stops with a reason in `T`, `m` stops with it and the states are in `E`. -/
def Sim (T : ε → Prop) (E : σ → σ' → Prop) (R : σ → σ' → Prop) (m : Proc σ ε α)
    (m' : Proc σ' ε α') (Q : α → α' → σ → σ' → Prop) : Prop :=
  ∀ s s', R s s' →
    (∀ a' t', m'.run s' = (.ok a', t') → ∃ a t, m.run s = (.ok a, t) ∧ Q a a' t t') ∧
    (∀ e t', m'.run s' = (.error e, t') → T e → ∃ t, m.run s = (.error e, t) ∧ E t t')

variable {T : ε → Prop} {E : σ → σ' → Prop} {R : σ → σ' → Prop}

/-- Both computations return at once. -/
theorem sim_of_run {m : Proc σ ε α} {m' : Proc σ' ε α'} {Q : α → α' → σ → σ' → Prop}
    {g : σ → α} {g' : σ' → α'} {k : σ → σ} {k' : σ' → σ'}
    (hm : ∀ s, m.run s = (.ok (g s), k s)) (hm' : ∀ s', m'.run s' = (.ok (g' s'), k' s'))
    (h : ∀ s s', R s s' → Q (g s) (g' s') (k s) (k' s')) : Sim T E R m m' Q := by
  intro s s' hs
  refine ⟨fun a' t' hr => ⟨g s, k s, hm s, ?_⟩, fun e t' hr => ?_⟩
  · rw [hm'] at hr
    cases hr
    exact h s s' hs
  · rw [hm'] at hr
    cases hr

theorem sim_pure {a : α} {a' : α'} {Q : α → α' → σ → σ' → Prop}
    (h : ∀ s s', R s s' → Q a a' s s') : Sim T E R (pure a) (pure a') Q :=
  sim_of_run (fun _ => rfl) (fun _ => rfl) h

theorem sim_gets {f : σ → α} {f' : σ' → α'} {Q : α → α' → σ → σ' → Prop}
    (h : ∀ s s', R s s' → Q (f s) (f' s') s s') : Sim T E R (gets f) (gets f') Q :=
  sim_of_run (fun _ => rfl) (fun _ => rfl) h

theorem sim_modify {f : σ → σ} {f' : σ' → σ'} {Q : Unit → Unit → σ → σ' → Prop}
    (h : ∀ s s', R s s' → Q () () (f s) (f' s')) : Sim T E R (modify f) (modify f') Q :=
  sim_of_run (fun _ => rfl) (fun _ => rfl) h

theorem sim_update {f : σ → α × σ} {f' : σ' → α' × σ'} {Q : α → α' → σ → σ' → Prop}
    (h : ∀ s s', R s s' → Q (f s).1 (f' s').1 (f s).2 (f' s').2) :
    Sim T E R (update f) (update f') Q :=
  sim_of_run (fun _ => rfl) (fun _ => rfl) h

theorem sim_stop {e : ε} {Q : α → α' → σ → σ' → Prop} (h : ∀ s s', R s s' → T e → E s s') :
    Sim T E R (stop e) (stop e) Q := by
  intro s s' hs
  refine ⟨fun a' t' hr => (by cases hr), fun e' t' hr hT => ?_⟩
  cases hr
  exact ⟨s, rfl, h s s' hs hT⟩

/-- A stop outside `T` need not be matched. -/
theorem sim_unmatched {m : Proc σ ε α} {e : ε} {Q : α → α' → σ → σ' → Prop} (h : ¬ T e) :
    Sim T E R m (stop e) Q := by
  intro s s' _
  refine ⟨fun a' t' hr => (by cases hr), fun e' t' hr hT => ?_⟩
  cases hr
  exact absurd hT h

theorem sim_bind {m : Proc σ ε α} {m' : Proc σ' ε α'} {f : α → Proc σ ε β}
    {f' : α' → Proc σ' ε β'} {Q : α → α' → σ → σ' → Prop} {Q' : β → β' → σ → σ' → Prop}
    (hm : Sim T E R m m' Q) (hf : ∀ a a', Sim T E (Q a a') (f a) (f' a') Q') :
    Sim T E R (m >>= f) (m' >>= f') Q' := by
  intro s s' hs
  obtain ⟨hok, herr⟩ := hm s s' hs
  rcases h' : m'.run s' with ⟨e | a', t'⟩
  · rw [bind_run_error h']
    refine ⟨fun _ _ hr => (by cases hr), fun e' u' hr hT => ?_⟩
    cases hr
    obtain ⟨t, ht, hE⟩ := herr e t' h' hT
    exact ⟨t, bind_run_error ht, hE⟩
  · obtain ⟨a, t, ht, hQ⟩ := hok a' t' h'
    rw [bind_run_ok h', bind_run_ok ht]
    exact hf a a' t t' hQ

/-- Both computations return the same value, in states that are related by `R`. -/
def Same (R : σ → σ' → Prop) (a a' : α) (s : σ) (s' : σ') : Prop := a = a' ∧ R s s'

theorem sim_bind_same {m : Proc σ ε α} {m' : Proc σ' ε α} {f : α → Proc σ ε β}
    {f' : α → Proc σ' ε β'} {R' : σ → σ' → Prop} {Q : β → β' → σ → σ' → Prop}
    (hm : Sim T E R m m' (Same R')) (hf : ∀ a, Sim T E R' (f a) (f' a) Q) :
    Sim T E R (m >>= f) (m' >>= f') Q := by
  refine sim_bind hm fun a a' s s' => ?_
  rintro ⟨rfl, hs⟩
  exact hf a s s' hs

theorem sim_conseq {R' : σ → σ' → Prop} {m : Proc σ ε α} {m' : Proc σ' ε α'}
    {Q Q' : α → α' → σ → σ' → Prop} (h : Sim T E R' m m' Q') (hR : ∀ s s', R s s' → R' s s')
    (hQ : ∀ a a' s s', Q' a a' s s' → Q a a' s s') : Sim T E R m m' Q := by
  intro s s' hs
  obtain ⟨hok, herr⟩ := h s s' (hR s s' hs)
  refine ⟨fun a' t' hr => ?_, herr⟩
  obtain ⟨a, t, ht, hq⟩ := hok a' t' hr
  exact ⟨a, t, ht, hQ a a' t t' hq⟩

end Proc
