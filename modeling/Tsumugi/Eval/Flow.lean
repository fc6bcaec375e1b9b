import Tsumugi.Eval.Session
import Tsumugi.Lang.Literals
import Tsumugi.Lib.Counter

/-!
# The flow of values through the evaluator

A `Tracking` is a property of values, of the float literals in code, and of what the host
keeps. It may speak about the function values that were evaluated, and stays true when more
of them are. `Carried` says that the operations on values keep it, and `Holds` that
everything an evaluator reaches has it.

`Flows p b m Q`: from a state in which everything has the property, and in which at least `b`
were evaluated, `m` leaves such a state, and a result in `Q`. What was evaluated before still
counts afterwards, so the rule for a sequence (`Flows.bind`) goes on with a larger `b`.

Results:
1. `Flows.bind`, `Flows.imp`, `Flows.map` and `Flows.caught`: the rules.
2. `flows_gets`, `flows_update`, `flows_charge`, `flows_adapter`, `flows_builtin`: what the
   evaluator is made of.
-/

namespace Tsumugi.Eval

open Budget (BudgetLedger Charge ControlStop)

/-! ## Properties -/

/-- What is known about values, float literals and the host. -/
structure Tracking (H : Type) where
  literal : UInt64 → Prop
  value : List FnValue → Value → Prop
  host : List FnValue → H → Prop

variable {E H α β : Type}

/-- The operations on values keep the property. -/
structure Tracking.Carried (p : Tracking H) (rt : Runtime E H) : Prop where
  mono : ∀ {b b' v}, b ⊆ b' → p.value b v → p.value b' v
  host_mono : ∀ {b b' h}, b ⊆ b' → p.host b h → p.host b' h
  int : ∀ b n, p.value b (.int n)
  float : ∀ b {bits}, p.literal bits → p.value b (.float bits)
  str : ∀ b id s, p.value b (.str id s)
  bool : ∀ b c, p.value b (.bool c)
  null : ∀ b, p.value b .null
  error : ∀ b errorType message line, p.value b (.error errorType message line)
  list : ∀ {b id items}, p.value b (.list id items) ↔ ∀ v ∈ items, p.value b v
  dict : ∀ {b id entries}, p.value b (.dict id entries) ↔ ∀ e ∈ entries, p.value b e.2
  fn : ∀ {b f}, f ∈ b → Admits p.literal (stmtsFloats f.defn.body) → p.value b (.ofFn f)
  body : ∀ {b id defn captured header retain}, p.value b (.fn id defn captured header retain) →
    Admits p.literal (stmtsFloats defn.body)
  canonical : ∀ bits, p.literal (canonicalizeFloat bits)
  dispatch : ∀ b name args line s v t, (∀ a ∈ args, p.value b a) →
    (rt.dispatch name args line).run s = (.ok (some v), t) → p.value b v
  call : ∀ b name args h, (∀ a ∈ args, p.value b a) → p.host b h →
    (∀ v, (rt.call name args h).1 = .ok v → p.value b v) ∧ p.host b (rt.call name args h).2
  start : ∀ b name args l mayYield callId h, (∀ a ∈ args, p.value b a) → p.host b h →
    (∀ v, (rt.start name args l mayYield callId h).1 = .ready (.ok v) → p.value b v) ∧
      p.host b (rt.start name args l mayYield callId h).2
  cancelTicket : ∀ b callId h, p.host b h → p.host b (rt.cancelTicket callId h)
  tryTakeValue : ∀ b callId h, p.host b h →
    (∀ v, (rt.tryTakeValue callId h).1 = some (.ok v) → p.value b v) ∧
      p.host b (rt.tryTakeValue callId h).2
  link : ∀ program e linked loaded e', Admits p.literal (stmtsFloats program) →
    (rt.link program).run e = (.ok (some linked, loaded), e') →
      Admits p.literal (stmtsFloats linked)

/-! ## What an evaluator reaches -/

/-- The values that a destination keeps. -/
def CallDest.Holds (Ok : Value → Prop) : CallDest → Prop
  | .indexAssignValue _ idx => Ok idx
  | _ => True

structure DriverCall.Holds (Ok : Value → Prop) (call : DriverCall) : Prop where
  dest : call.dest.Holds Ok
  callee : Ok call.callee

structure ExprFrame.Holds (F : UInt64 → Prop) (Ok : Value → Prop) (frame : ExprFrame) : Prop where
  owner : Admits F (stmtsFloats frame.owner)
  operands : ∀ v ∈ frame.operands, Ok v
  map : ∀ e ∈ frame.map, Ok e.2
  dest : frame.dest.Holds Ok

/-- The code and the values of a frame. -/
def FrameKind.Holds (F : UInt64 → Prop) (Ok : Value → Prop) : FrameKind → Prop
  | .block | .scoped => True
  | .while site body _ _ => Admits F (stmtsFloats site.owner) ∧ Admits F (stmtsFloats body)
  | .for site body _ items _ _ collection =>
    Admits F (stmtsFloats site.owner) ∧ Admits F (stmtsFloats body) ∧ (∀ v ∈ items, Ok v) ∧
      Ok collection
  | .try _ catchBody _ => Admits F (stmtsFloats catchBody)
  | .call _ driver => ∀ call, driver = some call → call.Holds Ok
  | .expr frame => frame.Holds F Ok

structure Frame.Holds (F : UInt64 → Prop) (Ok : Value → Prop) (frame : Frame) : Prop where
  stmts : Admits F (stmtsFloats frame.stmts)
  kind : frame.kind.Holds F Ok

def UndoEntry.Holds (Ok : Value → Prop) : UndoEntry → Prop
  | .scopeEntry .. => True
  | .cellValue _ original => Ok original

structure EnvHolds (Ok : Value → Prop) (env : Env) : Prop where
  cells : ∀ v ∈ env.cells, Ok v
  journal : ∀ j ∈ env.journal, ∀ e ∈ j.undoLog, UndoEntry.Holds Ok e

/-- Every value has the property. -/
abbrev Tracking.values (p : Tracking H) (b : List FnValue) (vs : List Value) : Prop :=
  ∀ v ∈ vs, p.value b v

theorem Tracking.values_cons {p : Tracking H} {b : List FnValue} {v : Value} {vs : List Value} :
    p.values b (v :: vs) ↔ p.value b v ∧ p.values b vs :=
  List.forall_mem_cons

/-- Every entry has the property. -/
abbrev Tracking.entries (p : Tracking H) (b : List FnValue) (entries : Dict) : Prop :=
  ∀ e ∈ entries, p.value b e.2

/-- A value that may be missing. -/
abbrev Tracking.option (p : Tracking H) (b : List FnValue) (o : Option Value) : Prop :=
  ∀ v, o = some v → p.value b v

abbrev Tracking.frame (p : Tracking H) (b : List FnValue) (frame : Frame) : Prop :=
  frame.Holds p.literal (p.value b)

abbrev Tracking.exprFrame (p : Tracking H) (b : List FnValue) (frame : ExprFrame) : Prop :=
  frame.Holds p.literal (p.value b)

abbrev Tracking.dest (p : Tracking H) (b : List FnValue) (dest : CallDest) : Prop :=
  dest.Holds (p.value b)

/-- The value that a signal carries. -/
def Tracking.signal (p : Tracking H) (b : List FnValue) : FlowSignal → Prop
  | .return v => p.value b v
  | _ => True

/-- A signal that may be missing. -/
abbrev Tracking.flow (p : Tracking H) (b : List FnValue) (o : Option FlowSignal) : Prop :=
  ∀ signal, o = some signal → p.signal b signal

/-- The value that a body returns. -/
def Tracking.result (p : Tracking H) (b : List FnValue) : EvalResult → Prop
  | .return v => p.value b v
  | _ => True

def Tracking.outcome (p : Tracking H) (b : List FnValue) : DriveOutcome → Prop
  | .done result => p.result b result
  | .yielded => True

def Tracking.step (p : Tracking H) (b : List FnValue) : StmtStep → Prop
  | .val => True
  | .flow signal => p.signal b signal
  | .enter frame => p.frame b frame

/-- Everything that the evaluator reaches has the property, and the functions got their
identities from the counter. -/
structure Evaluator.Holds (p : Tracking H) (s : Evaluator E H) : Prop where
  env : EnvHolds (p.value s.born) s.env
  frames : ∀ f ∈ s.frames, f.Holds p.literal (p.value s.born)
  resumed : ∀ r, s.resumedHostCall = some r → ∀ v, r.2 = .ok v → p.value s.born v
  host : p.host s.born s.host
  issued : Counter.Issued FnValue.id s.nextFunctionId s.born

section Mono

variable {F : UInt64 → Prop} {Ok Ok' : Value → Prop}

theorem CallDest.Holds.mono {dest : CallDest} (h : dest.Holds Ok) (himp : ∀ v, Ok v → Ok' v) :
    dest.Holds Ok' := by
  cases dest with
  | indexAssignValue cell idx => exact himp idx h
  | _ => trivial

theorem ExprFrame.Holds.mono {frame : ExprFrame} (h : frame.Holds F Ok)
    (himp : ∀ v, Ok v → Ok' v) : frame.Holds F Ok' :=
  ⟨h.owner, fun v hv => himp v (h.operands v hv), fun e he => himp e.2 (h.map e he),
    h.dest.mono himp⟩

theorem FrameKind.Holds.mono {kind : FrameKind} (h : kind.Holds F Ok)
    (himp : ∀ v, Ok v → Ok' v) : kind.Holds F Ok' := by
  cases kind with
  | block | «scoped» | «while» | «try» => exact h
  | «for» => exact ⟨h.1, h.2.1, fun v hv => himp v (h.2.2.1 v hv), himp _ h.2.2.2⟩
  | call =>
    exact fun call hcall => ⟨(h call hcall).dest.mono himp, himp _ (h call hcall).callee⟩
  | expr => exact ExprFrame.Holds.mono h himp

theorem Frame.Holds.mono {frame : Frame} (h : frame.Holds F Ok) (himp : ∀ v, Ok v → Ok' v) :
    frame.Holds F Ok' :=
  ⟨h.stmts, h.kind.mono himp⟩

theorem UndoEntry.Holds.mono {e : UndoEntry} (h : UndoEntry.Holds Ok e) (himp : ∀ v, Ok v → Ok' v) :
    UndoEntry.Holds Ok' e := by
  cases e with
  | scopeEntry => trivial
  | cellValue cell original => exact himp original h

theorem EnvHolds.mono {env : Env} (h : EnvHolds Ok env) (himp : ∀ v, Ok v → Ok' v) :
    EnvHolds Ok' env :=
  ⟨fun v hv => himp v (h.cells v hv), fun j hj e he => (h.journal j hj e he).mono himp⟩

end Mono

/-! ## Triples -/

/-- From a state in which everything has the property, `m` leaves one, and results in `Q`. -/
def Flows (p : Tracking H) (b : List FnValue) (m : Ev E H α) (Q : List FnValue → α → Prop) :
    Prop :=
  ∀ s : Evaluator E H, s.Holds p → b ⊆ s.born →
    (m.run s).2.Holds p ∧ s.born ⊆ (m.run s).2.born ∧
      ∀ a, (m.run s).1 = .ok a → Q (m.run s).2.born a

/-- Nothing is said of the result. -/
abbrev Any : List FnValue → α → Prop := fun _ _ => True

variable {p : Tracking H} {b b' : List FnValue} {Q : List FnValue → α → Prop}

theorem flows_pure {a : α} (h : ∀ b', b ⊆ b' → Q b' a) :
    Flows p b (pure a : Ev E H α) Q := by
  intro s hs hb
  refine ⟨hs, List.Subset.refl _, fun a' ha => ?_⟩
  cases ha
  exact h s.born hb

theorem flows_any (a : α) : Flows p b (pure a : Ev E H α) Any := flows_pure fun _ _ => trivial

theorem flows_stop (e : Stop) : Flows p b (Proc.stop e : Ev E H α) Q :=
  fun _ hs _ => ⟨hs, List.Subset.refl _, nofun⟩

theorem flows_raise (e : TsumugiError) : Flows p b (raise e : Ev E H α) Q := flows_stop _

theorem flows_unreachable : Flows p b (unreachable : Ev E H α) Q := flows_stop _

theorem Flows.bind {m : Ev E H α} {f : α → Ev E H β} {R : List FnValue → β → Prop}
    (hm : Flows p b m Q) (hf : ∀ b' a, b ⊆ b' → Q b' a → Flows p b' (f a) R) :
    Flows p b (m >>= f) R := by
  intro s hs hb
  obtain ⟨ht, hsub, hres⟩ := hm s hs hb
  rcases hrun : m.run s with ⟨e | a, t⟩ <;> rw [hrun] at ht hsub hres
  · rw [Proc.bind_run_error hrun]
    exact ⟨ht, hsub, nofun⟩
  · rw [Proc.bind_run_ok hrun]
    obtain ⟨hu, hsub', hres'⟩ :=
      hf t.born a (List.Subset.trans hb hsub) (hres a rfl) t ht (List.Subset.refl _)
    exact ⟨hu, List.Subset.trans hsub hsub', hres'⟩

/-- More is known in a larger `b`. -/
theorem Flows.weaken {m : Ev E H α} (h : Flows p b m Q) (hb : b ⊆ b') : Flows p b' m Q :=
  fun s hs hsub => h s hs (List.Subset.trans hb hsub)

/-- A sequence, if what is known of the first result does not depend on the state. -/
theorem Flows.seq {m : Ev E H α} {f : α → Ev E H β} {P : α → Prop} {R : List FnValue → β → Prop}
    (hm : Flows p b m fun _ => P) (hf : ∀ a, P a → Flows p b (f a) R) : Flows p b (m >>= f) R :=
  hm.bind fun _ a hb ha => (hf a ha).weaken hb

/-- A sequence, if nothing is known of the first result. -/
theorem Flows.andThen {m : Ev E H α} {f : α → Ev E H β} {R : List FnValue → β → Prop}
    (hm : Flows p b m Any) (hf : ∀ a, Flows p b (f a) R) : Flows p b (m >>= f) R :=
  hm.seq fun a _ => hf a

theorem Flows.imp {m : Ev E H α} {R : List FnValue → α → Prop} (h : Flows p b m Q)
    (himp : ∀ b' a, b ⊆ b' → Q b' a → R b' a) : Flows p b m R := by
  intro s hs hb
  obtain ⟨ht, hsub, hres⟩ := h s hs hb
  exact ⟨ht, hsub, fun a ha => himp _ a (List.Subset.trans hb hsub) (hres a ha)⟩

theorem Flows.any {m : Ev E H α} (h : Flows p b m Q) : Flows p b m Any :=
  h.imp fun _ _ _ _ => trivial

theorem Flows.map {m : Ev E H α} {f : α → β} {R : List FnValue → β → Prop}
    (h : Flows p b m Q) (himp : ∀ b' a, b ⊆ b' → Q b' a → R b' (f a)) : Flows p b (f <$> m) R := by
  have hbind : Flows p b (m >>= fun a => pure (f a)) R := by
    intro s hs hb
    obtain ⟨ht, hsub, hres⟩ := h s hs hb
    rcases hrun : m.run s with ⟨e | a, t⟩ <;> rw [hrun] at ht hsub hres
    · rw [Proc.bind_run_error hrun]
      exact ⟨ht, hsub, nofun⟩
    · rw [Proc.bind_run_ok hrun]
      refine ⟨ht, hsub, fun a' ha => ?_⟩
      cases ha
      exact himp _ a (List.Subset.trans hb hsub) (hres a rfl)
  exact hbind

theorem Flows.caught {m : Ev E H α} (h : Flows p b m Q) :
    Flows p b (caught m) fun b' r => ∀ a, r = .ok a → Q b' a := by
  intro s hs hb
  obtain ⟨ht, hsub, hres⟩ := h s hs hb
  rcases hrun : m.run s with ⟨e | a, t⟩ <;> rw [hrun] at ht hsub hres
  · cases e with
    | raised e =>
      rw [Eval.caught, Proc.attempt_run_some (f := Stop.toError) hrun rfl]
      refine ⟨ht, hsub, fun r hr a ha => ?_⟩
      cases hr
      cases ha
    | panic =>
      rw [Eval.caught, Proc.attempt_run_none (f := Stop.toError) hrun rfl]
      exact ⟨ht, hsub, nofun⟩
    | outOfFuel =>
      rw [Eval.caught, Proc.attempt_run_none (f := Stop.toError) hrun rfl]
      exact ⟨ht, hsub, nofun⟩
  · rw [Eval.caught, Proc.attempt_run_ok hrun]
    refine ⟨ht, hsub, fun r hr a' ha => ?_⟩
    cases hr
    cases ha
    exact hres a rfl

/-- A part of the state, with the state it was read in. -/
theorem flows_gets (f : Evaluator E H → α) :
    Flows p b (Proc.gets f) fun b' a =>
      ∃ s : Evaluator E H, s.Holds p ∧ s.born = b' ∧ f s = a := by
  intro s hs _
  refine ⟨hs, List.Subset.refl _, fun a ha => ?_⟩
  cases ha
  exact ⟨s, hs, rfl, rfl⟩

theorem flows_read (f : Evaluator E H → α) : Flows p b (Proc.gets f : Ev E H α) Any :=
  (flows_gets f).any

/-- A change of the state that evaluates no function. -/
theorem flows_modify {f : Evaluator E H → Evaluator E H}
    (h : ∀ s, s.Holds p → b ⊆ s.born → (f s).Holds p) (hborn : ∀ s, (f s).born = s.born) :
    Flows p b (Proc.modify f) Any := by
  intro s hs hb
  refine ⟨h s hs hb, ?_, fun _ _ => trivial⟩
  rw [Proc.modify_run, hborn]
  exact List.Subset.refl _

theorem flows_update {f : Evaluator E H → α × Evaluator E H}
    (h : ∀ s, s.Holds p → b ⊆ s.born → (f s).2.Holds p ∧ Q s.born (f s).1)
    (hborn : ∀ s, (f s).2.born = s.born) : Flows p b (Proc.update f) Q := by
  intro s hs hb
  rw [Proc.update_run]
  refine ⟨(h s hs hb).1, (hborn s).symm ▸ List.Subset.refl _, fun a ha => ?_⟩
  cases ha
  exact (hborn s).symm ▸ (h s hs hb).2

theorem flows_liftExcept {r : Except TsumugiError α} (h : ∀ a, r = .ok a → ∀ b', b ⊆ b' → Q b' a) :
    Flows p b (liftExcept r : Ev E H α) Q := by
  cases r with
  | error e => exact flows_raise e
  | ok a => exact flows_pure (h a rfl)

theorem flows_check (r : Except TsumugiError α) : Flows p b (liftExcept r : Ev E H α) Any :=
  flows_liftExcept fun _ _ _ _ => trivial

theorem flows_expect {o : Option α} (h : ∀ a, o = some a → ∀ b', b ⊆ b' → Q b' a) :
    Flows p b (expect o : Ev E H α) Q := by
  cases o with
  | none => exact flows_unreachable
  | some a => exact flows_pure (h a rfl)

theorem flows_orRaise {o : Option α} {e : TsumugiError}
    (h : ∀ a, o = some a → ∀ b', b ⊆ b' → Q b' a) : Flows p b (orRaise o e : Ev E H α) Q := by
  cases o with
  | none => exact flows_raise e
  | some a => exact flows_pure (h a rfl)

/-- A part that runs under a condition, before the rest. -/
theorem flows_when {c : Prop} [Decidable c] {m : Ev E H Unit} {k : Unit → Ev E H β}
    {R : List FnValue → β → Prop} (hm : c → Flows p b m Any) (hk : Flows p b (k ()) R) :
    Flows p b (if c then m >>= k else k ()) R := by
  split
  · exact (hm ‹_›).seq fun _ _ => hk
  · exact hk

/-! ## Charges -/

/-- The results of an operation on values. -/
def Yields (m : Tracked E α) (P : α → Prop) : Prop := ∀ s a t, m.run s = (.ok a, t) → P a

theorem yields_pure {a : α} {P : α → Prop} (h : P a) : Yields (pure a : Tracked E α) P := by
  intro s a' t hrun
  cases hrun
  exact h

theorem yields_any (m : Tracked E α) : Yields m fun _ => True := fun _ _ _ _ => trivial

theorem Yields.bind {m : Tracked E α} {f : α → Tracked E β} {P : α → Prop} {R : β → Prop}
    (hm : Yields m P) (hf : ∀ a, P a → Yields (f a) R) : Yields (m >>= f) R := by
  intro s c t hrun
  obtain ⟨a, u, hmrun, hfrun⟩ := Proc.bind_run_eq_ok.mp hrun
  exact hf a (hm s a u hmrun) u c t hfrun

theorem flows_tracked {m : Tracked E α} {P : α → Prop} (h : Yields m P) :
    Flows p b (tracked m : Ev E H (Except ControlStop α)) fun _ r => ∀ a, r = .ok a → P a := by
  intro s hs _
  rcases hrun : m.run (s.budget, s.adapters) with ⟨r, budget, adapters⟩
  simp only [tracked, hrun]
  refine ⟨{ hs with }, List.Subset.refl _, fun r' hr a ha => ?_⟩
  cases hr
  exact h _ a _ (ha ▸ hrun)

theorem flows_raiseStop (stop : ControlStop) (line : Nat) :
    Flows p b (raiseStop stop line : Ev E H α) Q := by
  intro s hs _
  refine ⟨?_, ?_, nofun⟩ <;> cases stop <;> first | exact { hs with } | exact List.Subset.refl _

theorem Flows.orStop {m : Ev E H (Except ControlStop α)}
    (h : Flows p b m fun b' r => ∀ a, r = .ok a → Q b' a)
    (hmono : ∀ b₁ b₂ a, b₁ ⊆ b₂ → Q b₁ a → Q b₂ a) (line : Nat) : Flows p b (orStop m line) Q :=
  h.bind fun b' r _ hr => by
    cases r with
    | error stop => exact flows_raiseStop stop line
    | ok a => exact flows_pure fun b'' hsub => hmono _ _ a hsub (hr a rfl)

theorem flows_charge {m : Tracked E α} {P : α → Prop} (h : Yields m P) (line : Nat) :
    Flows p b (charge m line : Ev E H α) fun _ => P :=
  Flows.orStop (flows_tracked h) (fun _ _ _ _ => id) line

theorem flows_chargeRaw {m : Tracked E α} {P : α → Prop} (h : Yields m P) (line : Nat) :
    Flows p b (chargeRaw m line : Ev E H α) fun _ => P :=
  (flows_tracked h).bind fun b' r _ hr => by
    cases r with
    | error stop => exact flows_raise _
    | ok a => exact flows_pure fun _ _ => hr a rfl

theorem flows_adapter (m : Proc E TsumugiError α) {P : α → Prop}
    (h : ∀ e a e', m.run e = (.ok a, e') → P a) :
    Flows p b (adapter m : Ev E H α) fun _ => P := by
  intro s hs _
  rcases hrun : m.run s.adapters with ⟨e | a, adapters⟩ <;> simp only [adapter, hrun]
  · exact ⟨{ hs with }, List.Subset.refl _, nofun⟩
  · refine ⟨{ hs with }, List.Subset.refl _, fun a' ha => ?_⟩
    cases ha
    exact h _ a _ hrun

theorem flows_builtin {m : Builtin E α} {P : α → Prop}
    (h : ∀ s a t, m.run s = (.ok a, t) → P a) (line : Nat) :
    Flows p b (builtin m line : Ev E H α) fun _ => P := by
  intro s hs hb
  rcases hrun : m.run (s.budget, s.adapters) with ⟨(stop | e) | a, budget, adapters⟩ <;>
    simp only [builtin, hrun]
  · exact flows_raiseStop (Q := fun _ => P) stop line { s with budget, adapters } { hs with } hb
  · exact ⟨{ hs with }, List.Subset.refl _, nofun⟩
  · refine ⟨{ hs with }, List.Subset.refl _, fun a' ha => ?_⟩
    cases ha
    exact h _ a _ hrun

theorem flows_countStep (line : Nat) : Flows p b (countStep line : Ev E H Unit) Any :=
  (flows_charge (yields_any _) line).seq fun _ _ =>
    flows_modify (fun _ hs _ => { hs with }) fun _ => rfl

theorem flows_checkCollection (size line : Nat) :
    Flows p b (checkCollection size line : Ev E H Unit) Any :=
  (flows_charge (yields_any _) line).any

end Tsumugi.Eval
