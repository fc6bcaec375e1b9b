import Tsumugi.Eval.DriverFlow
import Tsumugi.Eval.Session

/-!
# The flow of values through runs and sessions

Runs, submissions and sessions in slices keep the property, whether they end, fail, yield or
are given up, and so does everything else that the embedder does with an evaluator.

Results:
1. `flows_run`, `flows_runReplSubmission`, `flows_beginExecution`, `flows_runSlice`.
2. `Evaluator.Holds.abortSession`: a session that is given up.
3. `Context.act_holds`: every act, on code whose literals have the property.
-/

namespace Tsumugi.Eval

open Budget (Charge ControlStop)

variable {E H α : Type} {rt : Runtime E H} {p : Tracking H} {b : List FnValue}

/-! ## Runs -/

theorem flows_forget (loaded : LoadedModules) : Flows p b (forget rt loaded : Ev E H Unit) Any :=
  flows_modify (fun _ hs _ => { hs with }) fun _ => rfl

theorem flows_onEnv {f : Env → Env}
    (h : ∀ {Ok : Value → Prop} {env}, EnvHolds Ok env → EnvHolds Ok (f env)) :
    Flows p b (onEnv f : Ev E H Unit) Any :=
  flows_env f fun _ hs _ => h hs.env

theorem flows_chargeLink (rootSourceBytes : Nat) (loaded : LoadedModules) (target : Program) :
    Flows p b (chargeLink rt rootSourceBytes loaded target : Ev E H Unit) Any := by
  refine Flows.andThen (flows_update (fun _ hs _ => ⟨{ hs with }, trivial⟩) fun _ => rfl) ?_
  intro r
  cases r with
  | ok _ => exact flows_any _
  | error e => exact flows_raiseStop e.1 e.2

theorem flows_programEnd (result : EvalResult) :
    Flows p b (programEnd result : Ev E H Unit) Any := by
  cases result with
  | val | «return» => exact flows_any _
  | «break» | «continue» => exact flows_raise _

section Carried

variable (hp : p.Carried rt)

include hp

/-- The code that a link gives. -/
theorem flows_link {program : Program} (hprogram : Admits p.literal (stmtsFloats program)) :
    Flows p b (adapter (rt.link program) : Ev E H (Option Program × LoadedModules)) fun _ r =>
      Admits p.literal (stmtsFloats (r.1.getD program)) := by
  refine flows_adapter _ fun e r e' hrun => ?_
  obtain ⟨linked, loaded⟩ := r
  cases linked with
  | none => exact hprogram
  | some linked => exact hp.link program e linked loaded e' hprogram hrun

theorem flows_execProgram (n : Nat) {program : Program}
    (hprogram : Admits p.literal (stmtsFloats program)) :
    Flows p b (execProgram (recur rt n) program) Any := by
  have hkind : FrameKind.Holds p.literal (p.value b) .block := trivial
  refine (flows_check _).seq fun _ _ => ?_
  refine Flows.bind (Q := p.outcome) ?_ fun b₁ outcome _ _ => ?_
  · refine (flows_read _).seq fun base _ => ?_
    refine (flows_plainFrame hp hprogram hkind).bind fun b₁ frame _ hframe => ?_
    exact (flows_push hp hframe).seq fun _ _ => flows_runDriver (recur_carries hp n) base false
  · cases outcome with
    | done result => exact flows_programEnd result
    | yielded => exact flows_unreachable

theorem flows_run (n : Nat) {program : Program}
    (hprogram : Admits p.literal (stmtsFloats program)) (rootSourceBytes : Nat) :
    Flows p b (run rt n program rootSourceBytes) Any := by
  refine (flows_link hp hprogram).seq ?_
  rintro ⟨linked, loaded⟩ htarget
  refine (flows_chargeLink _ loaded _).caught.any.seq fun r _ => ?_
  cases r with
  | error e => exact (flows_forget loaded).seq fun _ _ => flows_raise e
  | ok _ =>
    refine (flows_execProgram hp n htarget).caught.any.seq fun r _ => ?_
    cases r with
    | ok _ => exact flows_any _
    | error e => exact (flows_forget loaded).seq fun _ _ => flows_raise e

theorem flows_runReplSubmission (n : Nat) {program : Program}
    (hprogram : Admits p.literal (stmtsFloats program)) (rootSourceBytes : Nat) :
    Flows p b (runReplSubmission rt n program rootSourceBytes) Any := by
  refine (flows_onEnv EnvHolds.beginSubmission).seq fun _ _ => ?_
  refine (flows_link hp hprogram).caught.bind fun b₁ r _ hr => ?_
  cases r with
  | error e => exact (flows_onEnv EnvHolds.commitSubmission).seq fun _ _ => flows_raise e
  | ok r =>
    obtain ⟨linked, loaded⟩ := r
    have hfail (e : TsumugiError) : Flows p b₁ (do
        onEnv Env.rollbackSubmission
        forget rt loaded
        raise e : Ev E H Unit) Any :=
      (flows_onEnv EnvHolds.rollbackSubmission).seq fun _ _ =>
        (flows_forget loaded).seq fun _ _ => flows_raise e
    refine (flows_chargeLink _ loaded _).caught.any.seq fun r _ => ?_
    cases r with
    | error e => exact hfail e
    | ok _ =>
      refine (flows_execProgram hp n (hr _ rfl)).caught.any.seq fun r _ => ?_
      cases r with
      | ok _ => exact flows_onEnv EnvHolds.commitSubmission
      | error e => exact hfail e

/-! ## Sessions in slices -/

theorem flows_beginExecution {program : Program}
    (hprogram : Admits p.literal (stmtsFloats program)) (rootSourceBytes : Nat)
    (transactional : Bool) :
    Flows p b (beginExecution rt program rootSourceBytes transactional) Any := by
  unfold beginExecution
  extract_lets rollback rest
  have hrollback (b' : List FnValue) : Flows p b' rollback Any := by
    dsimp only [rollback]
    split
    · exact flows_onEnv EnvHolds.rollbackSubmission
    · exact flows_any _
  have hrest : Flows p b (rest ()) Any := by
    refine (flows_link hp hprogram).caught.bind fun b₁ r _ hr => ?_
    cases r with
    | error e =>
      exact flows_when (fun _ => flows_onEnv EnvHolds.commitSubmission) (flows_raise e)
    | ok r =>
      obtain ⟨linked, loaded⟩ := r
      have htarget := hr _ rfl
      have hprepare : Flows p b₁ (do
          chargeLink rt rootSourceBytes loaded (linked.getD program)
          liftExcept (validateProgramDepth (linked.getD program)) : Ev E H Unit) Any :=
        (flows_chargeLink _ _ _).seq fun _ _ => flows_check _
      refine hprepare.caught.any.seq fun r _ => ?_
      cases r with
      | error e =>
        exact (hrollback b₁).seq fun _ _ => (flows_forget loaded).seq fun _ _ => flows_raise e
      | ok _ =>
        have hkind : FrameKind.Holds p.literal (p.value b₁) .block := trivial
        refine (flows_read _).seq fun base _ => ?_
        refine (flows_plainFrame hp htarget hkind).bind fun b₂ frame _ hframe => ?_
        refine (flows_push hp hframe).seq fun _ _ => ?_
        exact flows_modify (fun _ hs _ => { hs with }) fun _ => rfl
  exact flows_when (fun _ => flows_onEnv EnvHolds.beginSubmission) hrest

end Carried

section Sessions

variable {s : Evaluator E H}

theorem Evaluator.Holds.finalizeSession (h : s.Holds p) (committed : Bool) :
    (s.finalizeSession rt committed).Holds p := by
  unfold Evaluator.finalizeSession
  split
  · exact h
  dsimp only
  split
  · split
    · exact { h with env := h.env.commitSubmission }
    · exact { h with }
  · split
    · exact { h with env := h.env.rollbackSubmission }
    · exact { h with }

theorem Evaluator.finalizeSession_born (committed : Bool) (s : Evaluator E H) :
    (s.finalizeSession rt committed).born = s.born := by
  unfold Evaluator.finalizeSession
  split
  · rfl
  dsimp only
  split
  · split <;> rfl
  · split <;> rfl

theorem Evaluator.Holds.abortFrame (h : s.Holds p) : s.abortFrame.Holds p := by
  unfold Evaluator.abortFrame
  split
  · exact h
  · rename_i frame rest hframes
    have hrest : ∀ f ∈ rest, p.frame s.born f := fun f hf =>
      h.frames f (hframes ▸ List.mem_cons_of_mem frame hf)
    split
    · exact { h with frames := hrest, env := ⟨h.env.cells, h.env.journal⟩ }
    · exact { h with frames := hrest }

theorem Evaluator.abortFrame_born (s : Evaluator E H) : s.abortFrame.born = s.born := by
  unfold Evaluator.abortFrame
  split
  · rfl
  · dsimp only
    split <;> rfl

theorem Evaluator.Holds.abortFrames (h : s.Holds p) (n : Nat) :
    (Evaluator.abortFrame^[n] s).Holds p ∧ (Evaluator.abortFrame^[n] s).born = s.born := by
  induction n generalizing s with
  | zero => exact ⟨h, rfl⟩
  | succ n ih => exact ⟨(ih h.abortFrame).1, (ih h.abortFrame).2.trans s.abortFrame_born⟩

theorem Evaluator.Holds.abortSession (h : s.Holds p) :
    (s.abortSession rt).Holds p ∧ (s.abortSession rt).born = s.born := by
  unfold Evaluator.abortSession
  extract_lets t
  have ht : t.Holds p ∧ t.born = s.born := by
    dsimp only [t]
    split
    · exact h.abortFrames _
    · exact ⟨h, rfl⟩
  have hfinal : (t.finalizeSession rt false).Holds p := ht.1.finalizeSession false
  exact ⟨{ hfinal with resumed := nofun }, (t.finalizeSession_born false).trans ht.2⟩

end Sessions

theorem flows_finish (committed : Bool) (result : Except TsumugiError Unit) :
    Flows p b (finish rt committed result : Ev E H SliceOutcome) Any :=
  Flows.andThen
    (flows_modify (fun _ hs _ => hs.finalizeSession committed)
      fun s => s.finalizeSession_born committed)
    fun _ => flows_any _

theorem flows_sliceYield : Flows p b (sliceYield rt : Ev E H SliceOutcome) Any := by
  refine Flows.andThen (flows_update (fun _ hs _ => ⟨{ hs with }, trivial⟩) fun _ => rfl) ?_
  intro auditQueueYield
  refine (flows_adapter (P := fun _ => True) _ fun _ _ _ _ => trivial).caught.any.seq fun r _ => ?_
  cases r with
  | error e => exact flows_finish false (.error e)
  | ok _ =>
    refine (flows_read _).seq fun pending _ => ?_
    cases pending <;> exact flows_any _

theorem flows_runSlice (hp : p.Carried rt) (n sliceFuel : Nat) :
    Flows p b (runSlice rt n sliceFuel) Any := by
  refine (flows_read _).seq fun session _ => ?_
  refine Flows.andThen (flows_expect fun _ _ _ _ => trivial) fun session => ?_
  refine Flows.andThen (flows_modify (fun _ hs _ => { hs with }) fun _ => rfl) fun _ => ?_
  refine (flows_runDriver (recur_carries hp n) _ true).caught.any.seq fun outcome _ => ?_
  refine Flows.andThen (flows_modify (fun _ hs _ => { hs with }) fun _ => rfl) fun _ => ?_
  split
  · exact flows_sliceYield
  all_goals exact flows_finish _ _

theorem flows_resumeHostCall (callId : Nat) {result : Except AdapterError Value}
    (h : ∀ v, result = .ok v → ∀ b', b ⊆ b' → p.value b' v) :
    Flows p b (resumeHostCall callId result : Ev E H Unit) Any := by
  refine (flows_read _).seq fun pending _ => ?_
  split
  · refine flows_modify (fun s hs hb => { hs with resumed := ?_ }) fun _ => rfl
    rintro _ ⟨⟩ v hv
    exact h v hv s.born hb
  · exact flows_raise _

theorem flows_resumeFromTicket (hp : p.Carried rt) :
    Flows p b (resumeFromTicket rt : Ev E H Unit) Any := by
  refine (flows_read _).seq fun pending _ => ?_
  split
  · exact flows_any _
  rename_i callId
  refine Flows.bind (Q := fun b' r => ∀ v, r = some (.ok v) → p.value b' v) ?_ fun b₁ r _ hr => ?_
  · refine flows_update (fun s hs _ => ?_) fun _ => rfl
    obtain ⟨hvalue, hhost⟩ := hp.tryTakeValue s.born callId s.host hs.host
    exact ⟨{ hs with host := hhost }, hvalue⟩
  · cases r with
    | none => exact flows_any _
    | some result =>
      exact flows_resumeHostCall callId fun v hv b' hb => hp.mono hb (hr v (hv ▸ rfl))

/-! ## Everything that the embedder does -/

/-- The literals of the code that an act runs. -/
def Act.Admits (F : UInt64 → Prop) : Act E → Prop
  | .run _ program _ | .submit _ program _ | .begin program _ _ =>
    Tsumugi.Admits F (stmtsFloats program)
  | _ => True

theorem Context.after_eval (m : Ev E H α) (s : Evaluator E H) :
    (Context.after m s).eval = (m.run s).2 := by
  unfold Context.after
  rcases m.run s with ⟨e | a, t⟩
  · cases e <;> rfl
  · rfl

theorem Context.after_holds {m : Ev E H α} {Q : List FnValue → α → Prop} {s : Evaluator E H}
    (h : s.Holds p) (hm : Flows p s.born m Q) :
    (Context.after m s).eval.Holds p ∧ s.born ⊆ (Context.after m s).eval.born := by
  rw [Context.after_eval]
  exact ⟨(hm s h (List.Subset.refl _)).1, (hm s h (List.Subset.refl _)).2.1⟩

/-- Every act keeps the property, and what was evaluated stays. -/
theorem Context.act_holds (hp : p.Carried rt) {s : Evaluator E H} (h : s.Holds p) {a : Act E}
    (ha : a.Admits p.literal) :
    (Context.act rt s a).eval.Holds p ∧ s.born ⊆ (Context.act rt s a).eval.born := by
  cases a with
  | run n program rootSourceBytes => exact after_holds h (flows_run hp n ha rootSourceBytes)
  | submit n program rootSourceBytes =>
    exact after_holds h (flows_runReplSubmission hp n ha rootSourceBytes)
  | begin program rootSourceBytes transactional =>
    exact after_holds h (flows_beginExecution hp ha rootSourceBytes transactional)
  | slice n sliceFuel => exact after_holds h (flows_runSlice hp n sliceFuel)
  | resume => exact after_holds h (flows_resumeFromTicket hp)
  | abort =>
    obtain ⟨habort, hborn⟩ := h.abortSession
    exact ⟨habort, hborn.symm ▸ List.Subset.refl _⟩
  | rearm | takePendingExit | forceYield => exact ⟨{ h with }, List.Subset.refl _⟩

theorem Context.step_holds (hp : p.Carried rt) {c t : Context E H} (h : c.eval.Holds p)
    {a : Act E} (ha : a.Admits p.literal) (ht : c.step rt a = some t) :
    t.eval.Holds p ∧ c.eval.born ⊆ t.eval.born := by
  unfold Context.step at ht
  split at ht <;> cases ht
  exact act_holds hp h ha

end Tsumugi.Eval
