import Tsumugi.Eval.ValueFlow

/-!
# The flow of values through frames

A frame holds the code and the values that it was entered with. Frames that errors unwind
give nothing back but the scopes, and `catch` binds an error value.

Results:
1. `flows_push`, `flows_popFrame`, `flows_unwindTo`, `flows_onTop`: the stack of frames.
2. `flows_beginForIteration`, `flows_enterFor` and their siblings: frames that are entered.
3. `flows_recoverError`: a frame that catches, or none.
4. `flows_bindUserCall`: the frame of a call.
5. `flows_makeFunction`: a function value gets the next identity.
-/

namespace Tsumugi.Eval

open Budget (Charge ControlStop)

variable {E H α : Type} {rt : Runtime E H} {p : Tracking H} {b : List FnValue}

/-! ## The stack of frames -/

section Stack

variable {s : Evaluator E H}

theorem Evaluator.Holds.releaseHeap (h : s.Holds p) (bytes : Nat) :
    (s.releaseHeap bytes).Holds p := { h with }

theorem Evaluator.Holds.withEnv (h : s.Holds p) {env : Env}
    (henv : EnvHolds (p.value s.born) env) : Evaluator.Holds p { s with env } :=
  { h with env := henv }

theorem Evaluator.Holds.popFrame (h : s.Holds p) : s.popFrame.Holds p := by
  unfold Evaluator.popFrame
  split
  · exact h
  · rename_i frame rest hframes
    have hrest : ∀ f ∈ rest, p.frame s.born f := fun f hf =>
      h.frames f (hframes ▸ List.mem_cons_of_mem frame hf)
    split <;> exact { h with frames := hrest, env := ⟨h.env.cells, h.env.journal⟩ }

theorem Evaluator.popFrame_born (s : Evaluator E H) : s.popFrame.born = s.born := by
  unfold Evaluator.popFrame
  split
  · rfl
  · dsimp only
    split <;> rfl

theorem Evaluator.Holds.popFrames (h : s.Holds p) (n : Nat) :
    (Evaluator.popFrame^[n] s).Holds p := by
  induction n generalizing s with
  | zero => exact h
  | succ n ih => exact ih h.popFrame

theorem Evaluator.popFrames_born (n : Nat) (s : Evaluator E H) :
    (Evaluator.popFrame^[n] s).born = s.born := by
  induction n generalizing s with
  | zero => rfl
  | succ n ih => exact (ih _).trans s.popFrame_born

theorem Evaluator.Holds.popToTry (h : s.Holds p) (stopDepth n : Nat) :
    (s.popToTry stopDepth n).Holds p := by
  induction n generalizing s with
  | zero => exact h
  | succ n ih =>
    unfold Evaluator.popToTry
    split
    · exact h
    · split
      · exact h
      · split
        · exact h
        · exact ih h.popFrame

theorem Evaluator.popToTry_born (stopDepth n : Nat) (s : Evaluator E H) :
    (s.popToTry stopDepth n).born = s.born := by
  induction n generalizing s with
  | zero => rfl
  | succ n ih =>
    unfold Evaluator.popToTry
    split
    · rfl
    · split
      · rfl
      · split
        · rfl
        · exact (ih _).trans s.popFrame_born

theorem Evaluator.Holds.onTop (h : s.Holds p) {f : Frame → Frame}
    (hf : ∀ frame, p.frame s.born frame → p.frame s.born (f frame)) : (s.onTop f).Holds p := by
  unfold Evaluator.onTop
  split
  · rename_i top rest hframes
    refine { h with frames := ?_ }
    have hall := h.frames
    rw [hframes, List.forall_mem_cons] at hall
    exact List.forall_mem_cons.mpr ⟨hf top hall.1, hall.2⟩
  · exact h

theorem Evaluator.onTop_born (f : Frame → Frame) (s : Evaluator E H) :
    (s.onTop f).born = s.born := by
  unfold Evaluator.onTop
  split <;> rfl

end Stack

theorem flows_popFrame : Flows p b (Proc.modify Evaluator.popFrame : Ev E H Unit) Any :=
  flows_modify (fun _ hs _ => hs.popFrame) Evaluator.popFrame_born

theorem flows_unwindTo (stopDepth : Nat) :
    Flows p b (Proc.modify (Evaluator.unwindTo stopDepth) : Ev E H Unit) Any :=
  flows_modify (fun _ hs _ => hs.popFrames _) fun s => s.popFrames_born _

/-- The charge of a frame is given back, and its scopes. -/
theorem flows_releaseScopes (bytes : Nat) (f : Env → Env)
    (hcells : ∀ env, (f env).cells = env.cells) (hjournal : ∀ env, (f env).journal = env.journal) :
    Flows p b
      (Proc.modify fun s => { s.releaseHeap bytes with env := f s.env } : Ev E H Unit) Any :=
  flows_modify
    (fun s hs _ => (hs.releaseHeap bytes).withEnv
      ⟨(hcells s.env).symm ▸ hs.env.cells, (hjournal s.env).symm ▸ hs.env.journal⟩)
    fun _ => rfl

theorem flows_onTop {f : Frame → Frame}
    (hf : ∀ b', b ⊆ b' → ∀ frame, p.frame b' frame → p.frame b' (f frame)) :
    Flows p b (Proc.modify fun s => s.onTop f : Ev E H Unit) Any :=
  flows_modify (fun s hs hb => hs.onTop (hf s.born hb)) fun s => s.onTop_born f

/-- The frames, as they are. -/
theorem flows_frames :
    Flows p b (Proc.gets Evaluator.frames : Ev E H (List Frame)) fun b' frames =>
      ∀ f ∈ frames, p.frame b' f :=
  (flows_gets _).imp fun _ _ _ hread => by
    obtain ⟨s, hs, rfl, rfl⟩ := hread
    exact hs.frames

section Carried

variable (hp : p.Carried rt)

include hp

theorem Tracking.Carried.frame_mono {b b' : List FnValue} (hb : b ⊆ b') {frame : Frame}
    (h : p.frame b frame) : p.frame b' frame :=
  h.mono fun _ => hp.mono hb

theorem flows_push {frame : Frame} (hframe : p.frame b frame) :
    Flows p b (push frame : Ev E H Unit) Any :=
  flows_modify
    (fun _ hs hb =>
      { hs with frames := List.forall_mem_cons.mpr ⟨hp.frame_mono hb hframe, hs.frames⟩ })
    fun _ => rfl

end Carried

/-! ## Frames that are entered -/

theorem flows_openScope (localCount line : Nat) :
    Flows p b (openScope localCount line : Ev E H Nat) Any := by
  refine (flows_read _).seq fun scopeBase _ => ?_
  refine (flows_scopes (·.pushScope) (fun _ => rfl) fun _ => rfl).seq fun _ _ => ?_
  refine (flows_refusable _).seq fun r _ => ?_
  cases r with
  | ok _ => exact flows_any _
  | error stop => exact (flows_truncateScopes scopeBase).seq fun _ _ => flows_raiseStop stop line

section Carried

variable (hp : p.Carried rt)

include hp

theorem flows_plainFrame {stmts : Block} {kind : FrameKind}
    (hstmts : Admits p.literal (stmtsFloats stmts)) (hkind : kind.Holds p.literal (p.value b)) :
    Flows p b (plainFrame stmts kind : Ev E H Frame) p.frame :=
  (flows_gets _).imp fun _ _ hb hread => by
    obtain ⟨s, -, rfl, rfl⟩ := hread
    exact ⟨hstmts, hkind.mono fun _ => hp.mono hb⟩

omit hp in
theorem flows_enterScopedBlock {stmts : Block} (hstmts : Admits p.literal (stmtsFloats stmts))
    (line : Nat) : Flows p b (enterScopedBlock stmts line : Ev E H Frame) p.frame :=
  (flows_openScope 0 line).seq fun _ _ => flows_pure fun _ _ => ⟨hstmts, trivial⟩

omit hp in
theorem flows_enterTry {tryBody catchBody : Block} (var : String)
    (htry : Admits p.literal (stmtsFloats tryBody))
    (hcatch : Admits p.literal (stmtsFloats catchBody)) (line : Nat) :
    Flows p b (enterTry tryBody var catchBody line : Ev E H Frame) p.frame :=
  (flows_openScope 0 line).seq fun _ _ => flows_pure fun _ _ => ⟨htry, hcatch⟩

theorem flows_enterWhile {owner : Block} (howner : Admits p.literal (stmtsFloats owner))
    (stmtIndex line : Nat) :
    Flows p b (enterWhile owner stmtIndex line : Ev E H Frame) p.frame := by
  unfold enterWhile
  split
  · rename_i hstmt
    exact flows_plainFrame hp admits_nil
      ⟨howner, (admits_append.mp (admits_getElem howner hstmt)).2⟩
  · exact flows_unreachable

theorem flows_enterFor {owner : Block} (howner : Admits p.literal (stmtsFloats owner))
    (stmtIndex : Nat) {items : List Value} (hitems : p.values b items) {collection : Value}
    (hcollection : p.value b collection) (line : Nat) :
    Flows p b (enterFor owner stmtIndex items collection line : Ev E H Frame) p.frame := by
  unfold enterFor
  split
  · rename_i hstmt
    exact flows_plainFrame hp admits_nil
      ⟨howner, (admits_append.mp (admits_getElem howner hstmt)).2, hitems, hcollection⟩
  · exact flows_unreachable

theorem flows_newExprFrame {owner : Block} (howner : Admits p.literal (stmtsFloats owner))
    (stmtIndex slot : Nat) (path : List Nat) (line : Nat) {dest : CallDest}
    (hdest : p.dest b dest) :
    Flows p b (newExprFrame owner stmtIndex slot path line dest : Ev E H Frame) p.frame :=
  flows_plainFrame hp admits_nil
    ⟨howner, List.forall_mem_nil _, List.forall_mem_nil _, hdest⟩

theorem flows_beginLoopIteration {body : Block} (hbody : Admits p.literal (stmtsFloats body))
    (line : Nat) : Flows p b (beginLoopIteration body line : Ev E H Unit) Any :=
  (flows_openScope 0 line).seq fun _ _ => flows_push hp ⟨hbody, trivial⟩

theorem flows_beginForIteration (var : String) {item : Value} (hitem : p.value b item)
    {body : Block} (hbody : Admits p.literal (stmtsFloats body)) (line : Nat) :
    Flows p b (beginForIteration rt var item body line : Ev E H Unit) Any := by
  refine (flows_openScope 1 line).seq fun scopeBase _ => ?_
  refine (flows_set hp var hitem).seq fun r _ => ?_
  cases r with
  | ok _ => exact flows_push hp ⟨hbody, trivial⟩
  | error stop =>
    refine Flows.andThen ?_ fun _ => flows_raiseStop stop line
    exact flows_releaseScopes _ (·.truncateScopes scopeBase) (fun _ => rfl) fun _ => rfl

/-! ## Errors -/

theorem flows_enterCatch (var : String) {catchBody : Block}
    (hcatch : Admits p.literal (stmtsFloats catchBody)) (scopeBase heapCharge : Nat)
    (error : TsumugiError) :
    Flows p b (enterCatch rt var catchBody scopeBase heapCharge error : Ev E H Unit) Any := by
  refine Flows.andThen ?_ fun _ => ?_
  · exact flows_onTop fun _ _ _ h => ⟨h.stmts, h.kind⟩
  refine Flows.andThen ?_ fun _ => ?_
  · exact flows_releaseScopes heapCharge (fun env => (env.truncateScopes scopeBase).pushScope)
      (fun _ => rfl) fun _ => rfl
  refine (flows_refusable _).seq fun r _ => ?_
  cases r with
  | error stop =>
    exact (flows_truncateScopes scopeBase).seq fun _ _ => flows_raiseStop stop error.line
  | ok _ =>
    refine (flows_set hp var (hp.error b _ _ _)).seq fun r _ => ?_
    cases r with
    | error stop =>
      refine Flows.andThen ?_ fun _ => flows_raiseStop stop error.line
      exact flows_releaseScopes _ (·.truncateScopes scopeBase) (fun _ => rfl) fun _ => rfl
    | ok _ => exact flows_onTop fun _ _ _ _ => ⟨hcatch, trivial⟩

theorem flows_handleError (error : TsumugiError) (stopDepth : Nat) :
    Flows p b (handleError rt error stopDepth : Ev E H Unit) Any := by
  unfold handleError
  split
  · exact flows_raise _
  refine Flows.andThen ?_ fun _ => ?_
  · exact flows_modify (fun _ hs _ => hs.popToTry stopDepth _) fun s => s.popToTry_born stopDepth _
  refine flows_frames.bind fun b' frames _ hframes => ?_
  split
  · exact flows_raise _
  · split
    · rw [List.forall_mem_cons] at hframes
      exact flows_enterCatch hp _ hframes.1.kind _ _ error
    · exact flows_unreachable

theorem flows_recoverError (error : TsumugiError) (stopDepth : Nat) :
    Flows p b (recoverError rt error stopDepth : Ev E H Unit) Any := by
  refine (flows_read _).seq fun e _ => ?_
  refine (flows_handleError hp e stopDepth).caught.any.seq fun r _ => ?_
  cases r with
  | ok _ => exact flows_any _
  | error e => exact (flows_unwindTo stopDepth).seq fun _ _ => flows_raise e

/-! ## Calls -/

omit hp in
theorem flows_bindStep (saved : CallFrame) {m : Ev E H (Except ControlStop Unit)}
    (h : Flows p b m Any) (line : Nat) : Flows p b (bindStep saved m line) Any := by
  refine h.seq fun r _ => ?_
  cases r with
  | ok _ => exact flows_any _
  | error stop => exact (flows_popCallFrame saved).seq fun _ _ => flows_raiseStop stop line

omit hp in
theorem flows_bindCaptured (saved : CallFrame) (line : Nat) (captured : List (String × Addr)) :
    Flows p b (bindCaptured rt saved line captured : Ev E H Unit) Any := by
  induction captured with
  | nil => exact flows_any _
  | cons c rest ih =>
    exact (flows_bindStep saved (flows_setShared c.1 c.2) line).seq fun _ _ => ih

theorem flows_bindParams (saved : CallFrame) (line : Nat) {params : List (String × Value)}
    (h : ∀ q ∈ params, p.value b q.2) :
    Flows p b (bindParams rt saved line params : Ev E H Unit) Any := by
  induction params with
  | nil => exact flows_any _
  | cons q rest ih =>
    rw [List.forall_mem_cons] at h
    exact (flows_bindStep saved (flows_set hp q.1 h.1) line).seq fun _ _ => ih h.2

/-- The body that a call runs is the body of the callee. -/
theorem flows_bindUserCall {func : Value} (hfunc : p.value b func) {args : List Value}
    (hargs : p.values b args) (line : Nat) :
    Flows p b (bindUserCall rt func args line : Ev E H (FnDef × CallFrame)) fun _ r =>
      Admits p.literal (stmtsFloats r.1.body) := by
  unfold bindUserCall
  split
  · rename_i defn captured _ _
    refine Flows.andThen ?_ fun saved => ?_
    · exact flows_update
        (fun _ hs _ => ⟨{ hs with env := ⟨hs.env.cells, hs.env.journal⟩ }, trivial⟩) fun _ => rfl
    refine (flows_bindCaptured saved line captured).seq fun _ _ => ?_
    refine flows_when (fun _ => ?_) ?_
    · exact flows_bindStep saved (flows_set hp defn.name hfunc) line
    refine (flows_bindParams hp saved line fun q hq => ?_).seq fun _ _ => ?_
    · exact hargs q.2 (List.of_mem_zip hq).2
    refine Flows.andThen ?_ fun _ => flows_pure fun _ _ => hp.body hfunc
    exact flows_modify (fun _ hs _ => { hs with }) fun _ => rfl
  · exact flows_raise _

omit hp in
theorem flows_beginUserCall (line : Nat) : Flows p b (beginUserCall line : Ev E H Unit) Any := by
  refine (flows_countStep line).seq fun _ _ => (flows_read _).seq fun depth _ => ?_
  split
  · exact flows_raise _
  · exact flows_any _

/-! ## Function values -/

omit hp in
/-- A charge changes neither the counter nor what was evaluated. -/
theorem charge_issued {m : Tracked E α} {line : Nat} {s t : Evaluator E H}
    {r : Except Stop α} (h : (charge m line : Ev E H α).run s = (r, t)) :
    t.nextFunctionId = s.nextFunctionId ∧ t.born = s.born := by
  rcases hm : m.run (s.budget, s.adapters) with ⟨stop | a, budget, adapters⟩
  · have hrun : (tracked m : Ev E H (Except ControlStop α)).run s =
        (.ok (.error stop), { s with budget, adapters }) := by simp only [tracked, hm]
    rw [charge, orStop, Proc.bind_run_ok hrun] at h
    cases stop <;> cases h <;> exact ⟨rfl, rfl⟩
  · have hrun : (tracked m : Ev E H (Except ControlStop α)).run s =
        (.ok (.ok a), { s with budget, adapters }) := by simp only [tracked, hm]
    rw [charge, orStop, Proc.bind_run_ok hrun] at h
    cases h
    exact ⟨rfl, rfl⟩

theorem Evaluator.Holds.evaluate {s : Evaluator E H} (h : s.Holds p) {f : FnValue}
    (hf : Counter.Issued FnValue.id s.nextFunctionId (s.born ++ [f])) :
    Evaluator.Holds p { s with born := s.born ++ [f] } := by
  have hsub : s.born ⊆ s.born ++ [f] := List.subset_append_left _ _
  refine ⟨?_, ?_, ?_, ?_, ?_⟩
  · exact h.env.mono fun _ => hp.mono hsub
  · exact fun frame hframe => hp.frame_mono hsub (h.frames frame hframe)
  · exact fun r hr v hv => hp.mono hsub (h.resumed r hr v hv)
  · exact hp.host_mono hsub h.host
  · exact hf

/-- The function value that is made has the identity that the counter gave, and is the last that
was evaluated. -/
theorem flows_makeFunction (name : String) (params : List String) {body : Block}
    (hbody : Admits p.literal (stmtsFloats body)) (line : Nat) :
    Flows p b (makeFunction rt name params body line : Ev E H Value) p.value := by
  intro s hs hb
  by_cases hid : s.nextFunctionId + 1 < 2 ^ 64
  · -- the counter moves on before the header is charged
    let s' : Evaluator E H := { s with nextFunctionId := s.nextFunctionId + 1 }
    have hs' : s'.Holds p := { hs with issued := hs.issued.skip (Nat.le_succ _) }
    have halloc : (allocateFunctionId line : Ev E H Nat).run s = (.ok s.nextFunctionId, s') := by
      simp only [allocateFunctionId, Proc.bind_run, Proc.gets_run, if_pos hid, Proc.modify_run,
        Proc.pure_run, s']
    unfold makeFunction
    rw [Proc.bind_run_ok halloc, Proc.bind_run_ok (Proc.gets_run _ _)]
    obtain ⟨ht, hsub, -⟩ := flows_charge (p := p) (b := b) (H := H)
      (yields_any (rt.newFnHeader
        (s'.env.captureReferenced (referencedNames body)).length)) line s' hs' hb
    rcases hrun : (charge (rt.newFnHeader
        (s'.env.captureReferenced (referencedNames body)).length) line : Ev E H Nat).run s' with
      ⟨e | header, t⟩
    · rw [Proc.bind_run_error hrun]
      rw [hrun] at ht hsub
      exact ⟨ht, hsub, nofun⟩
    · rw [Proc.bind_run_ok hrun, Proc.bind_run_ok (Proc.gets_run _ _)]
      rw [hrun] at ht hsub
      obtain ⟨hnext, hborn⟩ := charge_issued hrun
      refine ⟨ht.evaluate hp ?_, fun f hf => List.mem_append_left _ (hsub hf), fun v hv => ?_⟩
      · rw [hnext, hborn]
        exact hs.issued.issue rfl (Nat.lt_succ_self _)
      · cases hv
        exact hp.fn List.mem_concat_self hbody
  · have halloc : ∃ e, (allocateFunctionId line : Ev E H Nat).run s = (.error e, s) := by
      simp only [allocateFunctionId, Proc.bind_run, Proc.gets_run, if_neg hid]
      exact ⟨_, rfl⟩
    obtain ⟨e, halloc⟩ := halloc
    unfold makeFunction
    rw [Proc.bind_run_error halloc]
    exact ⟨hs, List.Subset.refl _, nofun⟩

end Carried

end Tsumugi.Eval
