import Tsumugi.Eval.Calls
import Tsumugi.Eval.FrameFlow

/-!
# The flow of values through calls and expressions

What the evaluation of an expression keeps, if its recursive calls keep it (`Recur.Carries`).
A host function may give back what it was handed, now or before, and nothing else.

Results:
1. `flows_applyHostCall`, `flows_startCooperativeCall`, `flows_evalCooperativeCall`.
2. `flows_evalBuiltin`: the builtins.
3. `flows_prepareCall`, `flows_evalCall`: calls.
4. `flows_evalExpr`: expressions.
-/

namespace Tsumugi.Eval

open Budget (Charge ControlStop)

variable {E H α : Type} {rt : Runtime E H} {self : Recur E H} {p : Tracking H}
  {b : List FnValue}

/-- The recursive calls keep the property. -/
structure Recur.Carries (p : Tracking H) (calls : Recur E H) : Prop where
  evalExpr : ∀ {b e} line, Admits p.literal (Expr.floats e) →
    Flows p b (calls.evalExpr e line) p.value
  driverLoop : ∀ {b} stopDepth canYield, Flows p b (calls.driverLoop stopDepth canYield) p.outcome
  unwindFlow : ∀ {b signal} stopDepth, p.signal b signal →
    Flows p b (calls.unwindFlow signal stopDepth) fun b' r => ∀ r', r = some r' → p.result b' r'
  finishExprFrame : ∀ {b v}, p.value b v → Flows p b (calls.finishExprFrame v) p.flow

section Carried

variable (hp : p.Carried rt)

include hp

theorem Tracking.Carried.values_mono {b b' : List FnValue} (hb : b ⊆ b') {vs : List Value}
    (h : p.values b vs) : p.values b' vs :=
  fun v hv => hp.mono hb (h v hv)

theorem Tracking.Carried.entries_mono {b b' : List FnValue} (hb : b ⊆ b') {entries : Dict}
    (h : p.entries b entries) : p.entries b' entries :=
  fun e he => hp.mono hb (h e he)

theorem Tracking.Carried.result_mono {b b' : List FnValue} (hb : b ⊆ b') {result : EvalResult}
    (h : p.result b result) : p.result b' result := by
  cases result with
  | «return» v => exact hp.mono hb h
  | _ => trivial

/-! ## Bodies -/

theorem flows_callResult {result : EvalResult} (h : p.result b result) :
    Flows p b (callResult result : Ev E H Value) p.value := by
  cases result with
  | val => exact flows_pure fun b' _ => hp.null b'
  | «return» v => exact flows_pure fun b' hb => hp.mono hb h
  | «break» line => exact flows_raise _
  | «continue» line => exact flows_raise _

end Carried

/-- The recursion is closed. -/
theorem flows_runDriver (hself : self.Carries p) (stopDepth : Nat) (canYield : Bool) :
    Flows p b (runDriver self stopDepth canYield) p.outcome := by
  intro s hs hb
  obtain ⟨ht, hsub, hres⟩ :=
    hself.driverLoop stopDepth canYield { s with canYieldCtx := canYield } { hs with } hb
  exact ⟨{ ht with }, hsub, hres⟩

/-- The values of arguments. -/
theorem flows_evalArgs (hp : p.Carried rt) (hself : self.Carries p) (line : Nat)
    {args : List Expr} (hargs : ∀ e ∈ args, Admits p.literal e.floats) :
    Flows p b (evalArgs self line args) p.values := by
  induction args generalizing b with
  | nil => exact flows_pure fun _ _ => List.forall_mem_nil _
  | cons e rest ih =>
    rw [List.forall_mem_cons] at hargs
    refine (hself.evalExpr line hargs.1).bind fun b₁ v _ hv => ?_
    refine (ih hargs.2).bind fun b₂ vs hb hvs => flows_pure fun b' hb' => ?_
    exact List.forall_mem_cons.mpr
      ⟨hp.mono (List.Subset.trans hb hb') hv, hp.values_mono hb' hvs⟩

section Carried

variable (hp : p.Carried rt) (hself : self.Carries p)

include hp hself

theorem flows_driveCallBody {defn : FnDef} (hbody : Admits p.literal (stmtsFloats defn.body))
    (saved : CallFrame) : Flows p b (driveCallBody self defn saved) p.result := by
  refine (flows_read _).seq fun base _ => ?_
  have hkind : FrameKind.Holds p.literal (p.value b) (.call saved none) := fun _ => nofun
  refine (flows_plainFrame hp hbody hkind).bind fun b₁ frame _ hframe => ?_
  refine (flows_push hp hframe).seq fun _ _ => ?_
  refine (flows_runDriver hself base false).bind fun b₂ outcome _ houtcome => ?_
  cases outcome with
  | done result => exact flows_pure fun b' hb => hp.result_mono hb houtcome
  | yielded => exact flows_unreachable

end Carried

/-! ## Host functions -/

section Host

variable (hp : p.Carried rt)

include hp

theorem flows_resolveHostCall (name : String) {args : List Value} (hargs : p.values b args)
    (line : Nat) : Flows p b (resolveHostCall rt name args line : Ev E H Value) p.value := by
  refine (flows_read _).seq fun granted _ => ?_
  split
  · exact flows_raise _
  split
  · exact flows_raise _
  refine Flows.bind (Q := fun b' r => ∀ v, r = .ok v → p.value b' v) ?_ fun b' r _ hr => ?_
  · refine flows_update (fun s hs hb => ?_) fun _ => rfl
    obtain ⟨hvalue, hhost⟩ := hp.call s.born name args s.host (hp.values_mono hb hargs) hs.host
    exact ⟨{ hs with host := hhost }, hvalue⟩
  · cases r with
    | ok v => exact flows_pure fun _ hb => hp.mono hb (hr v rfl)
    | error category => exact flows_raise _

theorem flows_applyHostCall (name : String) {args : List Value} (hargs : p.values b args)
    (line : Nat) : Flows p b (applyHostCall rt name args line : Ev E H Value) p.value :=
  (flows_resolveHostCall hp name hargs line).bind fun _ _ _ hv => flows_trackResult hp hv line

theorem flows_finishCooperativeResult (name : String) {result : Except AdapterError Value}
    (h : ∀ v, result = .ok v → p.value b v) (line : Nat) :
    Flows p b (finishCooperativeResult rt name result line : Ev E H Value) p.value := by
  unfold finishCooperativeResult
  split
  · exact flows_trackResult hp (h _ rfl) line
  · exact flows_raiseStop _ line
  · exact flows_raise _

theorem flows_startCooperativeCall (name : String) {args : List Value} (hargs : p.values b args)
    (line : Nat) : Flows p b (startCooperativeCall rt name args line : Ev E H Value) p.value := by
  refine (flows_read _).seq fun granted _ => ?_
  split
  · exact flows_raise _
  split
  · exact flows_raise _
  refine Flows.andThen ?_ fun callId => ?_
  · exact flows_update (fun _ hs _ => ⟨{ hs with }, trivial⟩) fun _ => rfl
  refine (flows_read _).seq fun mayYield _ => ?_
  refine Flows.bind (Q := fun b' r => ∀ v, r = .ready (.ok v) → p.value b' v) ?_
    fun b' r _ hr => ?_
  · refine flows_update (fun s hs hb => ?_) fun _ => rfl
    obtain ⟨hvalue, hhost⟩ := hp.start s.born name args s.budget mayYield callId s.host
      (hp.values_mono hb hargs) hs.host
    exact ⟨{ hs with host := hhost }, hvalue⟩
  · cases r with
    | ready result => exact flows_finishCooperativeResult hp name (fun v hv => hr v (hv ▸ rfl)) line
    | pending =>
      dsimp only
      split
      · refine Flows.andThen ?_ fun _ => flows_raiseStop _ line
        exact flows_modify
          (fun s hs _ => { hs with host := hp.cancelTicket s.born callId s.host hs.host })
          fun _ => rfl
      · refine Flows.andThen ?_ fun _ => flows_raise _
        exact flows_modify (fun _ hs _ => { hs with }) fun _ => rfl

omit hp in
theorem flows_takeResumed :
    Flows p b (takeResumed : Ev E H (Option (Except AdapterError Value))) fun b' o =>
      ∀ r, o = some r → ∀ v, r = .ok v → p.value b' v := by
  refine flows_update (fun s hs _ => ⟨{ hs with resumed := nofun }, fun r hr v hv => ?_⟩)
    fun _ => rfl
  obtain ⟨call, hcall, rfl⟩ := Option.map_eq_some_iff.mp hr
  exact hs.resumed call hcall v hv

end Host

section Carried

variable (hp : p.Carried rt) (hself : self.Carries p)

include hp hself

theorem flows_evalCooperativeCall (name : String) {args : List Expr}
    (hargs : ∀ e ∈ args, Admits p.literal e.floats) (line : Nat) :
    Flows p b (evalCooperativeCall rt self name args line) p.value := by
  refine flows_takeResumed.bind fun b₁ o _ ho => ?_
  cases o with
  | some result => exact flows_finishCooperativeResult hp name (ho result rfl) line
  | none =>
    refine (flows_countStep line).seq fun _ _ => ?_
    refine (flows_evalArgs hp hself line hargs).bind fun b₂ values _ hvalues => ?_
    exact flows_startCooperativeCall hp name hvalues line

theorem flows_evalHostCall (name : String) {args : List Expr}
    (hargs : ∀ e ∈ args, Admits p.literal e.floats) (line : Nat) :
    Flows p b (evalHostCall rt self name args line) p.value := by
  refine (flows_countStep line).seq fun _ _ => ?_
  refine (flows_evalArgs hp hself line hargs).bind fun b₂ values _ hvalues => ?_
  exact flows_applyHostCall hp name hvalues line

/-! ## Builtins -/

theorem flows_callFnValue (builtin : String) {func arg : Value} (hfunc : p.value b func)
    (harg : p.value b arg) (line : Nat) :
    Flows p b (callFnValue rt self builtin func arg line) p.value := by
  refine (flows_beginUserCall line).seq fun _ _ => ?_
  split
  · split
    · exact flows_raise _
    · refine (flows_bindUserCall hp hfunc (List.forall_mem_singleton.mpr harg) line).seq ?_
      rintro ⟨defn, saved⟩ hbody
      exact (flows_driveCallBody hp hself hbody saved).bind fun _ _ _ h => flows_callResult hp h
  · exact flows_raise _

theorem flows_mapItems {func : Value} (hfunc : p.value b func) (line done : Nat)
    {items : List Value} (hitems : p.values b items) :
    Flows p b (mapItems rt self func line done items) p.values := by
  induction items generalizing b done with
  | nil => exact flows_pure fun _ _ => List.forall_mem_nil _
  | cons item rest ih =>
    rw [Tracking.values_cons] at hitems
    refine (flows_callFnValue hp hself "map" hfunc hitems.1 line).bind fun b₁ v hb hv => ?_
    refine (flows_checkCollection _ line).seq fun _ _ => ?_
    refine (ih (hp.mono hb hfunc) (done + 1) (hp.values_mono hb hitems.2)).bind
      fun b₂ vs hb₂ hvs => flows_pure fun b' hb' => ?_
    exact List.forall_mem_cons.mpr
      ⟨hp.mono (List.Subset.trans hb₂ hb') hv, hp.values_mono hb' hvs⟩

theorem flows_filterItems {func : Value} (hfunc : p.value b func) (line kept : Nat)
    {items : List Value} (hitems : p.values b items) :
    Flows p b (filterItems rt self func line kept items) p.values := by
  induction items generalizing b kept with
  | nil => exact flows_pure fun _ _ => List.forall_mem_nil _
  | cons item rest ih =>
    rw [Tracking.values_cons] at hitems
    refine (flows_callFnValue hp hself "filter" hfunc hitems.1 line).bind fun b₁ v hb _ => ?_
    have hrest (kept : Nat) := ih (hp.mono hb hfunc) kept (hp.values_mono hb hitems.2)
    split
    · refine (flows_checkCollection _ line).seq fun _ _ => ?_
      refine (hrest (kept + 1)).bind fun b₂ vs hb₂ hvs => flows_pure fun b' hb' => ?_
      have hitem := hp.mono (List.Subset.trans hb (List.Subset.trans hb₂ hb')) hitems.1
      exact List.forall_mem_cons.mpr ⟨hitem, hp.values_mono hb' hvs⟩
    · exact hrest kept

theorem flows_eachItem {func : Value} (hfunc : p.value b func) (line : Nat) {items : List Value}
    (hitems : p.values b items) : Flows p b (eachItem rt self func line items) Any := by
  induction items generalizing b with
  | nil => exact flows_any _
  | cons item rest ih =>
    rw [Tracking.values_cons] at hitems
    refine (flows_callFnValue hp hself "each" hfunc hitems.1 line).bind fun b₁ v hb _ => ?_
    exact ih (hp.mono hb hfunc) (hp.values_mono hb hitems.2)

end Carried

theorem flows_pushTargetCell (target : Option Expr) (line : Nat) :
    Flows p b (pushTargetCell target line : Ev E H Addr) Any := by
  unfold pushTargetCell
  split
  · exact flows_cellOf _ line
  · exact flows_unreachable

section Apply

variable (hp : p.Carried rt)

include hp

theorem flows_listArg (builtin : String) (line : Nat) {v : Value} (hv : p.value b v) :
    Flows p b (listArg builtin line v : Ev E H (List Value)) p.values := by
  unfold listArg
  split
  · exact flows_pure fun b' hb => hp.values_mono hb (hp.list.mp hv)
  · exact flows_raise _

theorem flows_applyPush (cell : Addr) {v : Value} (hv : p.value b v) (line : Nat) :
    Flows p b (applyPush rt cell v line : Ev E H Value) p.value := by
  refine (flows_readCell hp cell).any.seq fun old _ => ?_
  split
  · refine (flows_checkCollection _ line).seq fun _ _ => ?_
    refine (flows_journaled hp cell line).seq fun _ _ => ?_
    exact (flows_budgetListPush hp cell hv line).seq fun _ _ => flows_pure fun b' _ => hp.null b'
  · exact flows_raise _

theorem flows_applyPop (target : Option Expr) (line : Nat) :
    Flows p b (applyPop rt target line : Ev E H Value) p.value := by
  refine (flows_pushTargetCell target line).seq fun cell _ => ?_
  refine (flows_readCell hp cell).bind fun b₁ v _ hv => ?_
  split
  · split
    · exact flows_raise _
    · rename_i last hlast
      refine (flows_journaled hp cell line).seq fun _ _ => ?_
      refine (flows_listPopTracked hp cell line).seq fun _ _ => flows_pure fun b' hb => ?_
      exact hp.mono hb (hp.list.mp hv last (List.mem_of_getLast? hlast))
  · exact flows_raise _

theorem flows_applyPrint (parts : List String) (line : Nat) :
    Flows p b (applyPrint rt parts line : Ev E H Value) p.value := by
  refine (flows_charge (yields_any _) line).seq fun _ _ => ?_
  refine Flows.andThen ?_ fun _ => flows_pure fun b' _ => hp.null b'
  exact flows_adapter _ fun _ _ _ _ => trivial

theorem flows_applyEnv (key : Value) (line : Nat) :
    Flows p b (applyEnv rt key line : Ev E H Value) p.value := by
  unfold applyEnv
  split
  · refine (flows_read _).seq fun _ _ => (flows_check _).seq fun found _ => ?_
    refine flows_trackResult hp ?_ line
    cases found with
    | none => exact hp.null b
    | some s => exact hp.strConstant s
  · exact flows_raise _

omit hp in
theorem flows_applyExit (code : Option Value) (line : Nat) :
    Flows p b (applyExit rt code line : Ev E H Value) p.value := by
  unfold applyExit
  have hrest (code : Option Int) : Flows p b (do
      let has ← Proc.gets fun s : Evaluator E H => rt.hasProcessExit s.adapters
      let code ← liftExcept (resolveExit code has line)
      Proc.modify fun s => { s with pendingExit := some code }
      raise (.processExitSignal line)) p.value := by
    refine (flows_read _).seq fun has _ => (flows_check _).seq fun code _ => ?_
    refine Flows.andThen ?_ fun _ => flows_raise _
    exact flows_modify (fun _ hs _ => { hs with }) fun _ => rfl
  split
  · exact (flows_any _).seq fun code _ => hrest code
  · exact (flows_any _).seq fun code _ => hrest code
  · exact (flows_raise _).andThen fun code => hrest code

theorem flows_applyInput (line : Nat) :
    Flows p b (applyInput rt line : Ev E H Value) p.value := by
  refine Flows.andThen (flows_adapter _ fun _ _ _ _ => trivial) fun read => ?_
  refine (flows_charge (yields_any _) line).seq fun _ _ => flows_pure fun b' _ => ?_
  cases read with
  | none => exact hp.null b'
  | some s => exact hp.strConstant s

theorem flows_applyArgs (line : Nat) : Flows p b (applyArgs rt line : Ev E H Value) p.value := by
  refine Flows.seq (P := p.values b) ?_ fun argv hargv => ?_
  · refine (flows_gets _).imp fun b' argv _ hread => ?_
    obtain ⟨s, -, rfl, rfl⟩ := hread
    exact List.forall_mem_map.mpr fun s _ => hp.strConstant s
  · exact (flows_checkCollection _ line).seq fun _ _ => flows_newList hp hargv line

theorem flows_applyPureCoreBuiltin (name : String) {args : List Value} (hargs : p.values b args)
    (line : Nat) :
    Flows p b (applyPureCoreBuiltin rt name args line : Ev E H (Option Value)) p.option := by
  refine (flows_charge (yields_any _) line).seq fun _ _ => ?_
  refine Flows.seq (P := p.option b) ?_ fun o ho => ?_
  · refine flows_builtin (fun s o t hrun => ?_) line
    rintro v rfl
    exact hp.dispatch b name args line s v t hargs hrun
  · cases o with
    | none => exact flows_pure fun _ _ => nofun
    | some v =>
      refine (flows_charge (yields_any _) line).seq fun _ _ => ?_
      refine (flows_trackResult hp (ho v rfl) line).map fun b' w _ hw => ?_
      rintro _ ⟨⟩
      exact hw

theorem builtinLen_value {v w : Value} {line : Nat} (h : builtinLen v line = .ok w) :
    p.value b w := by
  unfold builtinLen at h
  split at h <;> cases h <;> exact hp.int b _

end Apply

section Carried

variable (hp : p.Carried rt) (hself : self.Carries p)

include hp hself

omit hp in
theorem flows_evalArg {args : List Expr} (hargs : ∀ e ∈ args, Admits p.literal e.floats)
    (i line : Nat) : Flows p b (evalArg self args i line) p.value := by
  refine Flows.seq (P := fun e : Expr => Admits p.literal e.floats) ?_ fun e he => ?_
  · exact flows_expect fun e he _ _ => hargs e (List.mem_of_getElem? he)
  · exact hself.evalExpr line he

theorem flows_callbackArgs (builtin : String) {args : List Expr}
    (hargs : ∀ e ∈ args, Admits p.literal e.floats) (line : Nat) :
    Flows p b (callbackArgs self builtin args line) fun b' r =>
      p.values b' r.1 ∧ p.value b' r.2 := by
  refine (flows_evalArg hself hargs 0 line).bind fun b₁ listValue _ hlist => ?_
  refine (flows_evalArg hself hargs 1 line).bind fun b₂ func hb₂ hfunc => ?_
  refine (flows_listArg hp builtin line (hp.mono hb₂ hlist)).bind fun b₃ items hb₃ hitems => ?_
  exact flows_pure fun b' hb' =>
    ⟨hp.values_mono hb' hitems, hp.mono (List.Subset.trans hb₃ hb') hfunc⟩

omit hp hself in
/-- A builtin that gives a value. -/
theorem Flows.some {m : Ev E H Value} (h : Flows p b m p.value) :
    Flows p b (some <$> m) p.option :=
  h.map fun b' v _ hv => by
    rintro _ ⟨⟩
    exact hv

theorem flows_builtinCollection (name : String) {args : List Expr}
    (hargs : ∀ e ∈ args, Admits p.literal e.floats) (line : Nat) :
    Flows p b (builtinCollection rt self name args line) p.option := by
  unfold builtinCollection
  split
  · refine (flows_pushTargetCell _ line).seq fun cell _ => ?_
    exact (flows_evalArg hself hargs 1 line).bind fun b₁ v _ hv =>
      (flows_applyPush hp cell hv line).some
  · exact (flows_applyPop hp _ line).some
  · refine (flows_callbackArgs hp hself "map" hargs line).bind ?_
    rintro b₁ ⟨items, func⟩ - ⟨hitems, hfunc⟩
    refine (flows_mapItems hp hself hfunc line 0 hitems).bind fun b₂ result _ hresult => ?_
    exact (flows_check _).seq fun _ _ => (flows_newList hp hresult line).some
  · refine (flows_callbackArgs hp hself "filter" hargs line).bind ?_
    rintro b₁ ⟨items, func⟩ - ⟨hitems, hfunc⟩
    refine (flows_filterItems hp hself hfunc line 0 hitems).bind fun b₂ result _ hresult => ?_
    exact (flows_newList hp hresult line).some
  · refine (flows_callbackArgs hp hself "each" hargs line).bind ?_
    rintro b₁ ⟨items, func⟩ - ⟨hitems, hfunc⟩
    refine (flows_eachItem hp hself hfunc line hitems).seq fun _ _ => flows_pure fun b' _ => ?_
    rintro _ ⟨⟩
    exact hp.null b'
  · exact flows_pure fun _ _ => nofun

omit hp in
theorem flows_printParts (line : Nat) {args : List Expr}
    (hargs : ∀ e ∈ args, Admits p.literal e.floats) :
    Flows p b (printParts rt self line args) Any := by
  induction args generalizing b with
  | nil => exact flows_any _
  | cons e rest ih =>
    rw [List.forall_mem_cons] at hargs
    refine (hself.evalExpr line hargs.1).any.seq fun v _ => ?_
    refine (flows_charge (yields_any _) line).any.seq fun part _ => ?_
    exact (ih hargs.2).seq fun parts _ => flows_any _

theorem flows_builtinIo (name : String) {args : List Expr}
    (hargs : ∀ e ∈ args, Admits p.literal e.floats) (line : Nat) :
    Flows p b (builtinIo rt self name args line) p.option := by
  unfold builtinIo
  split
  · exact (flows_printParts hself line hargs).seq fun parts _ =>
      (flows_applyPrint hp parts line).some
  · exact (flows_check _).seq fun _ _ => (flows_applyInput hp line).some
  · exact (flows_check _).seq fun _ _ => (flows_applyArgs hp line).some
  · refine (flows_check _).seq fun _ _ => ?_
    exact (flows_evalArg hself hargs 0 line).any.seq fun key _ => (flows_applyEnv hp key line).some
  · refine (flows_check _).seq fun _ _ => ?_
    refine Flows.andThen (flows_adapter _ fun _ _ _ _ => trivial) fun seconds => ?_
    exact flows_pure fun b' _ => by
      rintro _ ⟨⟩
      exact hp.int b' seconds
  · split
    · exact flows_raise _
    · split
      · exact (flows_applyExit none line).some
      · rename_i e _ _
        refine (hself.evalExpr line (hargs e List.mem_cons_self)).any.seq fun code _ => ?_
        exact (flows_applyExit (some code) line).some
  · exact flows_pure fun _ _ _ hv => by cases hv

theorem flows_evalBuiltin (name : String) {args : List Expr}
    (hargs : ∀ e ∈ args, Admits p.literal e.floats) (line : Nat) :
    Flows p b (evalBuiltin rt self name args line) p.option := by
  refine (flows_check _).seq fun _ _ => ?_
  split
  iterate 6
    · exact flows_builtinIo hp hself _ hargs line
  iterate 5
    · exact flows_builtinCollection hp hself _ hargs line
  · refine (flows_read _).seq fun cell _ => ?_
    cases cell with
    | some cell =>
      refine (flows_readCell hp cell).any.seq fun v _ => Flows.some ?_
      exact flows_liftExcept fun w hw b' _ => builtinLen_value hp hw
    | none =>
      dsimp only
      split
      · exact (flows_evalArgs hp hself line hargs).bind fun b₁ values _ hvalues =>
          flows_applyPureCoreBuiltin hp _ hvalues line
      · exact flows_pure fun _ _ => nofun

/-! ## Calls -/

/-- What is ready to be run, or a value. -/
def CallPrep.Holds (p : Tracking H) (b : List FnValue) : CallPrep → Prop
  | .done v => p.value b v
  | .user defn _ callee => Admits p.literal (stmtsFloats defn.body) ∧ p.value b callee

theorem flows_evalCallee {callee : Expr} (hcallee : Admits p.literal callee.floats) (line : Nat) :
    Flows p b (evalCallee self callee line) p.value := by
  unfold evalCallee
  split
  · exact flows_name hp _ _
  · exact hself.evalExpr line hcallee

theorem flows_prepareUserCall {callee : Expr} (hcallee : Admits p.literal callee.floats)
    {args : List Expr} (hargs : ∀ e ∈ args, Admits p.literal e.floats) (line : Nat) :
    Flows p b (prepareUserCall rt self callee args line) (CallPrep.Holds p) := by
  refine (flows_beginUserCall line).seq fun _ _ => ?_
  refine (flows_evalCallee hp hself hcallee line).bind fun b₁ func _ hfunc => ?_
  refine (flows_check _).seq fun _ _ => ?_
  refine (flows_evalArgs hp hself line hargs).bind fun b₂ values hb₂ hvalues => ?_
  have hfunc' := hp.mono hb₂ hfunc
  refine (flows_bindUserCall hp hfunc' hvalues line).seq ?_
  rintro ⟨defn, saved⟩ hbody
  exact flows_pure fun b' hb' => ⟨hbody, hp.mono hb' hfunc'⟩

theorem flows_prepareCall {callee : Expr} (hcallee : Admits p.literal callee.floats)
    {args : List Expr} (hargs : ∀ e ∈ args, Admits p.literal e.floats) (line : Nat) :
    Flows p b (prepareCall rt self callee args line) (CallPrep.Holds p) := by
  have huser (b' : List FnValue) := flows_prepareUserCall (b := b') hp hself hcallee hargs line
  unfold prepareCall
  split
  · rename_i name
    refine (flows_read _).seq fun env _ => ?_
    split
    · exact huser b
    refine (flows_evalBuiltin hp hself name hargs line).bind fun b₁ o _ ho => ?_
    cases o with
    | some v => exact flows_pure fun b' hb' => hp.mono hb' (ho v rfl)
    | none =>
      dsimp only
      split
      · exact (flows_evalCooperativeCall hp hself name hargs line).map fun _ _ _ hv => hv
      · split
        · exact (flows_evalHostCall hp hself name hargs line).map fun _ _ _ hv => hv
        · exact huser b₁
  · exact huser b

theorem flows_evalCall {callee : Expr} (hcallee : Admits p.literal callee.floats)
    {args : List Expr} (hargs : ∀ e ∈ args, Admits p.literal e.floats) (line : Nat) :
    Flows p b (evalCall rt self callee args line) p.value := by
  refine (flows_prepareCall hp hself hcallee hargs line).bind fun b₁ prep _ hprep => ?_
  cases prep with
  | done v => exact flows_pure fun b' hb' => hp.mono hb' hprep
  | user defn saved func =>
    exact (flows_driveCallBody hp hself hprep.1 saved).bind fun _ _ _ h => flows_callResult hp h

/-! ## Expressions -/

theorem flows_evalItems (line done : Nat) {items : List Expr}
    (hitems : ∀ e ∈ items, Admits p.literal e.floats) :
    Flows p b (evalItems self line done items) p.values := by
  induction items generalizing b done with
  | nil => exact flows_pure fun _ _ => List.forall_mem_nil _
  | cons e rest ih =>
    rw [List.forall_mem_cons] at hitems
    refine (hself.evalExpr line hitems.1).bind fun b₁ v _ hv => ?_
    refine (flows_checkCollection _ line).seq fun _ _ => (flows_check _).seq fun _ _ => ?_
    refine (ih (done + 1) hitems.2).bind fun b₂ vs hb₂ hvs => flows_pure fun b' hb' => ?_
    exact Tracking.values_cons.mpr
      ⟨hp.mono (List.Subset.trans hb₂ hb') hv, hp.values_mono hb' hvs⟩

omit hself in
theorem flows_insertEntry {map : Dict} (hmap : p.entries b map) (key : String) {v : Value}
    (hv : p.value b v) (line : Nat) :
    Flows p b (insertEntry map key v line : Ev E H Dict) p.entries := by
  refine flows_when (fun _ => flows_checkCollection _ line) ?_
  refine (flows_check _).seq fun _ _ => flows_pure fun b' hb' => ?_
  exact hp.entries_mono hb' (Dict.all_insert hmap hv)

theorem flows_evalEntries (line : Nat) {map : Dict} (hmap : p.entries b map)
    {pairs : List (Expr × Expr)}
    (hpairs : ∀ q ∈ pairs, Admits p.literal q.1.floats ∧ Admits p.literal q.2.floats) :
    Flows p b (evalEntries self line map pairs) p.entries := by
  induction pairs generalizing b map with
  | nil => exact flows_pure fun b' hb' => hp.entries_mono hb' hmap
  | cons q rest ih =>
    rw [List.forall_mem_cons] at hpairs
    refine (hself.evalExpr line hpairs.1.1).bind fun b₁ k hb₁ _ => ?_
    refine (flows_check _).seq fun key _ => ?_
    refine (hself.evalExpr line hpairs.1.2).bind fun b₂ v hb₂ hv => ?_
    have hmap' := hp.entries_mono (List.Subset.trans hb₁ hb₂) hmap
    exact (flows_insertEntry hp hmap' key hv line).bind fun b₃ map _ hmap => ih hmap hpairs.2

omit hp in
theorem flows_evalParts (line : Nat) (text : String) {parts : List FStrExprPart}
    (hparts : Admits p.literal (partsFloats parts)) :
    Flows p b (evalParts rt self line text parts) Any := by
  induction parts generalizing b text with
  | nil => exact flows_any _
  | cons part rest ih =>
    cases part with
    | literal s => exact ih (text ++ s) hparts
    | expr e =>
      rw [partsFloats, admits_append] at hparts
      refine (hself.evalExpr line hparts.1).any.seq fun v _ => ?_
      refine (flows_charge (yields_any _) line).any.seq fun rendered _ => ?_
      exact ih (text ++ rendered) hparts.2

/-- An expression whose literals have the property evaluates to a value that has it. -/
theorem flows_evalExpr {e : Expr} (he : Admits p.literal e.floats) (line : Nat) :
    Flows p b (evalExpr rt self e line) p.value := by
  unfold evalExpr
  split
  · exact flows_pure fun b' _ => hp.int b' _
  · exact flows_pure fun b' _ => hp.float b' (he _ List.mem_cons_self)
  · exact flows_trackResult hp (hp.strConstant _) line
  · exact flows_pure fun b' _ => hp.bool b' _
  · exact flows_pure fun b' _ => hp.null b'
  · exact (flows_evalItems hp hself line 0 (admits_exprs.mp he)).bind fun b₁ values _ hvalues =>
      flows_newList hp hvalues line
  · refine (flows_evalEntries hp hself line (List.forall_mem_nil _) (admits_pairs.mp he)).bind
      fun b₁ map _ hmap => ?_
    exact flows_newDict hp hmap line
  · exact flows_name hp _ _
  · refine (hself.evalExpr line (admits_append.mp he).1).bind fun b₁ l _ hl => ?_
    split
    · exact hself.evalExpr line (admits_append.mp he).2
    · exact flows_pure fun b' hb' => hp.mono hb' hl
  · refine (hself.evalExpr line (admits_append.mp he).1).bind fun b₁ l _ hl => ?_
    split
    · exact flows_pure fun b' hb' => hp.mono hb' hl
    · exact hself.evalExpr line (admits_append.mp he).2
  · refine (hself.evalExpr line (admits_append.mp he).1).any.seq fun l _ => ?_
    refine (hself.evalExpr line (admits_append.mp he).2).any.seq fun r _ => ?_
    exact (flows_evalBinop hp l _ r line).bind fun b₁ v _ hv => flows_trackResult hp hv line
  · rename_i op e
    refine (hself.evalExpr (e := e) line he).any.seq fun v _ => ?_
    exact flows_liftExcept fun w hw b' _ => hp.evalUnary hw
  · exact flows_evalCall hp hself (admits_append.mp he).1
      (admits_exprs.mp (admits_append.mp he).2) line
  · exact flows_makeFunction hp _ _ he line
  · refine (flows_read _).seq fun cell _ => ?_
    cases cell with
    | some cell =>
      refine (hself.evalExpr line (admits_append.mp he).2).any.seq fun idx _ => ?_
      refine (flows_readCell hp cell).bind fun b₁ collection _ hcollection => ?_
      exact flows_liftExcept fun w hw b' hb' => hp.evalIndex (hp.mono hb' hcollection) hw
    | none =>
      refine (hself.evalExpr line (admits_append.mp he).1).bind fun b₁ obj _ hobj => ?_
      refine (hself.evalExpr line (admits_append.mp he).2).bind fun b₂ idx hb₂ _ => ?_
      exact flows_liftExcept fun w hw b' hb' =>
        hp.evalIndex (hp.mono (List.Subset.trans hb₂ hb') hobj) hw
  · refine (flows_evalParts hself line "" he).seq fun text _ => ?_
    exact flows_trackResult hp (hp.strConstant text) line

end Carried

end Tsumugi.Eval
