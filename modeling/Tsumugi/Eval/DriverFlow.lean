import Tsumugi.Eval.CallFlow
import Tsumugi.Eval.Driver

/-!
# The flow of values through the driver

An expression frame names its expression by the block that has it, so the literals of a
block bound those of every expression that a frame evaluates. The driver keeps the property,
whatever it runs, and so do the functions that are closed over a number of steps
(`recur_carries`).
-/

namespace Tsumugi.Eval

open Budget (Charge ControlStop)

variable {E H α : Type} {rt : Runtime E H} {self : Recur E H} {p : Tracking H}
  {b : List FnValue}

/-! ## The expression frame on top -/

theorem flows_onExpr {f : ExprFrame → ExprFrame}
    (hf : ∀ b', b ⊆ b' → ∀ frame, p.exprFrame b' frame → p.exprFrame b' (f frame)) :
    Flows p b (onExpr f : Ev E H Unit) Any := by
  refine flows_onTop fun b' hb top htop => ?_
  obtain ⟨stmts, cursor, kind, scopeBase, heapCharge⟩ := top
  cases kind with
  | expr frame => exact ⟨htop.stmts, hf b' hb frame htop.kind⟩
  | _ => exact htop

/-- A change of what holds no value. -/
theorem flows_onExprText {f : ExprFrame → ExprFrame}
    (hf : ∀ frame, (f frame).owner = frame.owner ∧ (f frame).operands = frame.operands ∧
      (f frame).map = frame.map ∧ (f frame).dest = frame.dest) :
    Flows p b (onExpr f : Ev E H Unit) Any := by
  refine flows_onExpr fun _ _ frame h => ?_
  obtain ⟨howner, hoperands, hmap, hdest⟩ := hf frame
  exact ⟨howner.symm ▸ h.owner, hoperands.symm ▸ h.operands, hmap.symm ▸ h.map, hdest.symm ▸ h.dest⟩

section Carried

variable (hp : p.Carried rt)

include hp

theorem Tracking.Carried.exprFrame_mono {b b' : List FnValue} (hb : b ⊆ b') {frame : ExprFrame}
    (h : p.exprFrame b frame) : p.exprFrame b' frame :=
  h.mono fun _ => hp.mono hb

/-- The expression frame on top, as it is. -/
theorem flows_topExpr : Flows p b (topExpr : Ev E H ExprFrame) p.exprFrame := by
  refine flows_frames.bind fun b₁ frames _ hframes => ?_
  split
  · rw [List.forall_mem_cons] at hframes
    exact flows_pure fun b' hb => hp.exprFrame_mono hb hframes.1.kind
  · exact flows_unreachable

theorem flows_pushOperand {v : Value} (hv : p.value b v) :
    Flows p b (pushOperand v : Ev E H Unit) Any :=
  flows_onExpr fun _ hb _ h =>
    { h with
      operands := List.forall_mem_append.mpr
        ⟨h.operands, List.forall_mem_singleton.mpr (hp.mono hb hv)⟩ }

theorem flows_takeOperands : Flows p b (takeOperands : Ev E H (List Value)) p.values := by
  refine (flows_topExpr hp).bind fun b₁ frame _ hframe => ?_
  refine Flows.andThen ?_ fun _ => flows_pure fun b' hb => hp.values_mono hb hframe.operands
  exact flows_onExpr fun _ _ _ h => { h with operands := List.forall_mem_nil _ }

theorem flows_popOperand : Flows p b (popOperand : Ev E H (Option Value)) p.option := by
  refine (flows_topExpr hp).bind fun b₁ frame _ hframe => ?_
  refine Flows.andThen ?_ fun _ => flows_pure fun b' hb v hv => ?_
  · exact flows_onExpr fun _ _ _ h =>
      { h with operands := fun v hv => h.operands v (List.mem_of_mem_dropLast hv) }
  · exact hp.mono hb (hframe.operands v (List.mem_of_getLast? hv))

end Carried

theorem flows_noSignal : Flows p b (pure none : Ev E H (Option FlowSignal)) p.flow :=
  flows_pure fun _ _ => nofun

section Carried

variable (hp : p.Carried rt) (hself : self.Carries p)

include hp hself

theorem flows_beginExprChild {frame : ExprFrame} (hframe : p.exprFrame b frame) (index : Nat) :
    Flows p b (beginExprChild rt self frame index) p.flow := by
  refine Flows.seq (P := fun e : Expr => Admits p.literal e.floats) ?_ fun node hnode => ?_
  · exact flows_expect fun e he _ _ => admits_exprAt hframe.owner he
  refine Flows.seq (P := fun e : Expr => Admits p.literal e.floats) ?_ fun child hchild => ?_
  · exact flows_expect fun e he _ _ => admits_child hnode he
  refine (flows_read _).seq fun env _ => ?_
  split
  · have hdest : p.dest b .operand := trivial
    refine (flows_newExprFrame hp hframe.owner _ _ _ _ hdest).bind fun b₁ new _ hnew => ?_
    exact (flows_push hp hnew).seq fun _ _ => flows_noSignal
  · refine (hself.evalExpr _ hchild).bind fun b₁ v _ hv => ?_
    exact (flows_pushOperand hp hv).seq fun _ _ => flows_noSignal

/-! ## Delivery -/

theorem flows_deliverCallResult (dest : CallDest) {v : Value} (hv : p.value b v) :
    Flows p b (deliverCallResult rt self dest v) p.flow := by
  unfold deliverCallResult
  split
  · exact flows_noSignal
  · exact (flows_envSet hp _ hv _).seq fun _ _ => flows_noSignal
  · exact (flows_assignExisting hp _ hv _).seq fun _ _ => flows_noSignal
  · refine flows_pure fun b' hb => ?_
    rintro _ ⟨⟩
    exact hp.mono hb hv
  · exact (flows_pushOperand hp hv).seq fun _ _ => flows_noSignal
  · exact hself.finishExprFrame hv
  · exact flows_unreachable

omit hp hself in
theorem flows_setPending : Flows p b (setPending : Ev E H Unit) Any := by
  refine flows_onTop fun b' _ top htop => ?_
  obtain ⟨stmts, cursor, kind, scopeBase, heapCharge⟩ := top
  cases kind <;> exact ⟨htop.stmts, htop.kind⟩

theorem flows_indexAssignAfterIndex (cell : Addr) {idx : Value} (hidx : p.value b idx)
    {owner : Block} (howner : Admits p.literal (stmtsFloats owner)) (stmtIndex line : Nat) :
    Flows p b (indexAssignAfterIndex rt self cell idx owner stmtIndex line) Any := by
  unfold indexAssignAfterIndex
  split
  · rename_i hstmt
    refine (flows_read _).seq fun env _ => ?_
    split
    · have hdest : p.dest b (.indexAssignValue cell idx) := hidx
      exact (flows_newExprFrame hp howner _ _ _ _ hdest).bind fun b₁ frame _ hframe =>
        flows_push hp hframe
    · exact (hself.evalExpr line (admits_append.mp (admits_getElem howner hstmt)).2).bind
        fun b₁ v _ hv => flows_finishIndexAssign hp cell idx hv line
  · exact flows_unreachable

omit hself in
theorem flows_whileIteration {body : Block} (hbody : Admits p.literal (stmtsFloats body))
    (line : Nat) (condition : Value) :
    Flows p b (whileIteration body line condition : Ev E H Unit) Any := by
  unfold whileIteration
  split
  · exact flows_setPending.seq fun _ _ => flows_beginLoopIteration hp hbody line
  · exact flows_popFrame

omit hself in
theorem flows_forCollection {owner : Block} (howner : Admits p.literal (stmtsFloats owner))
    (stmtIndex line : Nat) {collection : Value} (hcollection : p.value b collection) :
    Flows p b (forCollection owner stmtIndex line collection : Ev E H (Option Frame)) fun b' o =>
      ∀ frame, o = some frame → p.frame b' frame := by
  refine (flows_materializeForItems hp hcollection line).bind fun b₁ items hb hitems => ?_
  split
  · exact flows_pure fun _ _ => nofun
  · refine (flows_enterFor hp howner stmtIndex hitems (hp.mono hb hcollection) line).map
      fun b' frame _ hframe => ?_
    rintro _ ⟨⟩
    exact hframe

omit hp hself in
theorem flows_ifBranch {stmt : Option Stmt} (hstmt : ∀ s, stmt = some s → Admits p.literal s.floats)
    (condition : Value) (line : Nat) :
    Flows p b (ifBranch stmt condition line : Ev E H Frame) p.frame := by
  unfold ifBranch
  split
  · have hparts := admits_append.mp (admits_append.mp (hstmt _ rfl)).2
    split
    · exact flows_enterScopedBlock hparts.1 line
    · exact flows_enterScopedBlock hparts.2 line
  · exact flows_unreachable

theorem flows_deliverSlotResult {dest : CallDest} (hdest : p.dest b dest) {owner : Block}
    (howner : Admits p.literal (stmtsFloats owner)) (stmtIndex line : Nat) {v : Value}
    (hv : p.value b v) :
    Flows p b (deliverSlotResult rt self dest owner stmtIndex line v) Any := by
  unfold deliverSlotResult
  split
  · exact (flows_ifBranch (fun s hs => admits_getElem howner hs) v line).bind
      fun b₁ frame _ hframe => flows_push hp hframe
  · split
    · exact (flows_enterWhile hp howner stmtIndex line).bind fun b₁ frame _ hframe =>
        flows_push hp hframe
    · exact flows_any _
  · split
    · rename_i hstmt
      exact flows_whileIteration hp (admits_append.mp (admits_getElem howner hstmt)).2 line v
    · exact flows_unreachable
  · refine (flows_forCollection hp howner stmtIndex line hv).bind fun b₁ o _ ho => ?_
    cases o with
    | some frame => exact flows_push hp (ho frame rfl)
    | none => exact flows_any _
  · exact flows_indexAssignAfterIndex hp hself _ hv howner stmtIndex line
  · exact flows_finishIndexAssign hp _ _ hv line
  · exact flows_unreachable

theorem flows_finishExprFrame {v : Value} (hv : p.value b v) :
    Flows p b (finishExprFrame rt self v) p.flow := by
  refine (flows_topExpr hp).bind fun b₁ frame hb hframe => flows_popFrame.seq fun _ _ => ?_
  have hv' := hp.mono hb hv
  split
  · exact (flows_deliverSlotResult hp hself hframe.dest hframe.owner _ _ hv').seq fun _ _ =>
      flows_noSignal
  · exact flows_deliverCallResult hp hself _ hv'

/-! ## Steps of an expression -/

theorem flows_stepUserArgs (args : List Expr) : Flows p b (stepUserArgs rt self args) p.flow := by
  refine (flows_topExpr hp).bind fun b₁ frame _ hframe => ?_
  extract_lets rest
  have hrest : Flows p b₁ (rest ()) p.flow := by
    dsimp only [rest]
    split
    · exact flows_beginExprChild hp hself hframe _
    · refine (flows_takeOperands hp).bind fun b₂ operands _ hoperands => ?_
      split
      · exact flows_unreachable
      · rw [Tracking.values_cons] at hoperands
        refine (flows_bindUserCall hp hoperands.1 hoperands.2 _).bind ?_
        rintro b₃ ⟨defn, saved⟩ hb₃ hbody
        have hkind (callee : Value) (hcallee : p.value b₂ callee) :
            FrameKind.Holds p.literal (p.value b₃) (.call saved (some ⟨.exprResult, callee⟩)) := by
          rintro _ ⟨⟩
          exact ⟨trivial, hp.mono hb₃ hcallee⟩
        refine (flows_plainFrame hp hbody (hkind _ hoperands.1)).bind fun b₄ frame _ hframe => ?_
        exact (flows_push hp hframe).seq fun _ _ => flows_noSignal
  split
  · refine Flows.andThen (flows_expect fun _ _ _ _ => trivial) fun callee => ?_
    refine (flows_check _).seq fun _ _ => Flows.andThen ?_ fun _ => hrest
    exact flows_onExprText fun _ => ⟨rfl, rfl, rfl, rfl⟩
  · exact hrest

theorem flows_stepUserCall (callee : Expr) (args : List Expr) {frame : ExprFrame}
    (hframe : p.exprFrame b frame) : Flows p b (stepUserCall rt self callee args frame) p.flow := by
  unfold stepUserCall
  split
  · exact flows_stepUserArgs hp hself args
  refine (flows_beginUserCall _).seq fun _ _ => Flows.andThen ?_ fun _ => ?_
  · exact flows_onExprText fun _ => ⟨rfl, rfl, rfl, rfl⟩
  split
  · refine (flows_name hp _ _).bind fun b₁ v _ hv => ?_
    exact (flows_pushOperand hp hv).seq fun _ _ => flows_stepUserArgs hp hself args
  · exact flows_beginExprChild hp hself hframe 0

omit hself in
theorem flows_applyTarget (target : CallTarget) (name : String) {operands : List Value}
    (hoperands : p.values b operands) (line : Nat) :
    Flows p b (applyTarget rt target name operands line : Ev E H Value) p.value := by
  unfold applyTarget
  split
  · exact flows_applyHostCall hp name hoperands line
  · exact flows_startCooperativeCall hp name hoperands line
  split
  · refine (flows_topExpr hp).any.seq fun frame _ => Flows.andThen ?_ fun _ => ?_
    · exact flows_onExprText fun _ => ⟨rfl, rfl, rfl, rfl⟩
    · exact flows_applyPrint hp _ line
  · refine Flows.andThen (flows_expect fun _ _ _ _ => trivial) fun key => ?_
    exact flows_applyEnv hp key line
  · exact flows_applyExit _ line
  · refine (flows_topExpr hp).any.seq fun frame _ => Flows.andThen ?_ fun _ => ?_
    · exact flows_onExprText fun _ => ⟨rfl, rfl, rfl, rfl⟩
    refine Flows.andThen (flows_expect fun _ _ _ _ => trivial) fun cell => ?_
    refine Flows.seq (P := p.value b) (flows_expect fun v hv _ _ => ?_) fun v hv => ?_
    · exact hoperands v (List.mem_of_getLast? hv)
    · exact flows_applyPush hp cell hv line
  · refine (flows_applyPureCoreBuiltin hp name hoperands line).bind fun b₁ o _ ho => ?_
    cases o with
    | some v => exact flows_pure fun b' hb => hp.mono hb (ho v rfl)
    | none => exact flows_raise _

theorem flows_stepTargetArgs (target : CallTarget) (name : String) (args : List Expr)
    (line : Nat) : Flows p b (stepTargetArgs rt self target name args line) p.flow := by
  unfold stepTargetArgs
  extract_lets skip rest
  have hrest : Flows p b (rest ()) p.flow := by
    refine (flows_topExpr hp).bind fun b₁ frame _ hframe => ?_
    dsimp only
    split
    · exact flows_beginExprChild hp hself hframe _
    · refine (flows_takeOperands hp).bind fun b₂ operands _ hoperands => ?_
      exact (flows_applyTarget hp target name hoperands line).bind fun b₃ v _ hv =>
        flows_finishExprFrame hp hself hv
  split
  · refine (flows_popOperand hp).any.seq fun o _ => ?_
    cases o with
    | none => exact (flows_any ()).andThen fun _ => hrest
    | some v =>
      refine (flows_charge (yields_any _) line).any.seq fun rendered _ => ?_
      refine Flows.andThen ?_ fun _ => hrest
      exact flows_onExprText fun _ => ⟨rfl, rfl, rfl, rfl⟩
  · exact hrest

theorem flows_stepTargetCall (target : CallTarget) (name : String) (args : List Expr)
    (frame : ExprFrame) : Flows p b (stepTargetCall rt self target name args frame) p.flow := by
  have hargs (target : CallTarget) := flows_stepTargetArgs (b := b) hp hself target name args
    frame.line
  unfold stepTargetCall
  split
  · exact hargs target
  refine Flows.andThen (flows_onExprText fun _ => ⟨rfl, rfl, rfl, rfl⟩) fun _ => ?_
  split
  · refine (flows_check _).seq fun _ _ => ?_
    extract_lets rest
    split
    · exact (flows_check _).seq fun _ _ => hargs .builtin
    · split
      · refine (flows_pushTargetCell _ _).seq fun cell _ => ?_
        exact Flows.andThen (flows_onExprText fun _ => ⟨rfl, rfl, rfl, rfl⟩) fun _ =>
          hargs .builtin
      · exact hargs .builtin
  · exact (flows_countStep _).seq fun _ _ => hargs .host
  · refine flows_takeResumed.bind fun b₁ o hb ho => ?_
    cases o with
    | some result =>
      exact (flows_finishCooperativeResult hp name (ho result rfl) _).bind fun b₂ v _ hv =>
        flows_finishExprFrame hp hself hv
    | none => exact (flows_countStep _).seq fun _ _ => (hargs .cooperative).weaken hb

theorem flows_stepCall (callee : Expr) (args : List Expr) {frame : ExprFrame}
    (hframe : p.exprFrame b frame) : Flows p b (stepCall rt self callee args frame) p.flow := by
  unfold stepCall
  split
  · refine (flows_read _).seq fun env _ => ?_
    dsimp only
    refine Flows.andThen (flows_onExprText fun _ => ⟨rfl, rfl, rfl, rfl⟩) fun _ => ?_
    split
    · exact flows_stepTargetCall hp hself _ _ args frame
    · exact flows_stepUserCall hp hself _ args hframe
  · exact flows_stepUserCall hp hself _ args hframe

theorem flows_stepBinop (op : BinOpKind) {frame : ExprFrame} (hframe : p.exprFrame b frame) :
    Flows p b (stepBinop rt self op frame) p.flow := by
  have hchild (i : Nat) := flows_beginExprChild hp hself hframe i
  have hfinish {v : Value} (hv : v ∈ frame.operands) :=
    flows_finishExprFrame hp hself (hframe.operands v hv)
  unfold stepBinop
  split
  · exact hchild 0
  · rename_i l hoperands
    split
    · exact hchild 1
    · exact hfinish (hoperands ▸ List.mem_cons_self)
  · rename_i l hoperands
    split
    · exact hfinish (hoperands ▸ List.mem_cons_self)
    · exact hchild 1
  · rename_i hoperands
    exact hfinish (hoperands ▸ List.mem_cons_of_mem _ List.mem_cons_self)
  · rename_i hoperands
    exact hfinish (hoperands ▸ List.mem_cons_of_mem _ List.mem_cons_self)
  · exact hchild 1
  · refine (flows_takeOperands hp).any.seq fun _ _ => ?_
    refine (flows_evalBinop hp _ _ _ _).bind fun b₁ result _ hresult => ?_
    exact (flows_trackResult hp hresult _).bind fun b₂ v _ hv => flows_finishExprFrame hp hself hv

theorem flows_stepList (items : List Expr) {frame : ExprFrame} (hframe : p.exprFrame b frame) :
    Flows p b (stepList rt self items frame) p.flow := by
  unfold stepList
  extract_lets rest
  have hrest : Flows p b (rest ()) p.flow := by
    dsimp only [rest]
    split
    · exact flows_beginExprChild hp hself hframe _
    · refine (flows_takeOperands hp).bind fun b₁ values _ hvalues => ?_
      exact (flows_newList hp hvalues _).bind fun b₂ v _ hv => flows_finishExprFrame hp hself hv
  split
  · exact (flows_checkCollection _ _).seq fun _ _ => (flows_check _).seq fun _ _ => hrest
  · exact (flows_any ()).andThen fun _ => hrest

theorem flows_stepDict (pairs : List (Expr × Expr)) {frame : ExprFrame}
    (hframe : p.exprFrame b frame) : Flows p b (stepDict rt self pairs frame) p.flow := by
  unfold stepDict
  refine (flows_popOperand hp).bind fun b₁ o hb ho => ?_
  have hframe' := hp.exprFrame_mono hb hframe
  split
  · exact flows_beginExprChild hp hself hframe' _
  · refine (flows_check _).seq fun key _ => ?_
    exact Flows.andThen (flows_onExprText fun _ => ⟨rfl, rfl, rfl, rfl⟩) fun _ => flows_noSignal
  · exact flows_beginExprChild hp hself hframe' _
  · refine Flows.andThen (flows_onExprText fun _ => ⟨rfl, rfl, rfl, rfl⟩) fun _ => ?_
    refine (flows_insertEntry hp hframe'.map _ (ho _ rfl) _).bind fun b₂ map _ hmap => ?_
    refine Flows.andThen ?_ fun _ => ?_
    · exact flows_onExpr fun b' hb' _ h => { h with map := hp.entries_mono hb' hmap }
    split
    · exact flows_noSignal
    · refine Flows.andThen ?_ fun _ => ?_
      · exact flows_onExpr fun _ _ _ h => { h with map := List.forall_mem_nil _ }
      · exact (flows_newDict hp hmap _).bind fun b₃ v _ hv => flows_finishExprFrame hp hself hv

theorem flows_stepFStr (parts : List FStrExprPart) (line : Nat) :
    Flows p b (stepFStr rt self parts line) p.flow := by
  unfold stepFStr
  refine (flows_popOperand hp).any.seq fun o _ => ?_
  extract_lets rest
  have hrest : Flows p b (rest ()) p.flow := by
    refine (flows_topExpr hp).bind fun b₁ frame _ hframe => ?_
    dsimp only
    refine Flows.andThen (flows_onExprText fun _ => ⟨rfl, rfl, rfl, rfl⟩) fun _ => ?_
    split
    · refine Flows.andThen (flows_onExprText fun _ => ⟨rfl, rfl, rfl, rfl⟩) fun _ => ?_
      exact (flows_trackResult hp (hp.strConstant _) line).bind fun b₂ v _ hv =>
        flows_finishExprFrame hp hself hv
    · refine Flows.andThen (flows_onExprText fun _ => ⟨rfl, rfl, rfl, rfl⟩) fun _ => ?_
      exact flows_beginExprChild hp hself hframe _
  split
  · refine (flows_charge (yields_any _) line).any.seq fun rendered _ => ?_
    exact Flows.andThen (flows_onExprText fun _ => ⟨rfl, rfl, rfl, rfl⟩) fun _ => hrest
  · exact (flows_any ()).andThen fun _ => hrest

theorem flows_stepExpr : Flows p b (stepExpr rt self) p.flow := by
  refine (flows_topExpr hp).bind fun b₁ frame _ hframe => ?_
  have hchild (i : Nat) := flows_beginExprChild hp hself hframe i
  refine Flows.andThen (flows_expect fun _ _ _ _ => trivial) fun e => ?_
  split
  · exact flows_stepCall hp hself _ _ hframe
  · exact flows_stepBinop hp hself _ hframe
  · split
    · exact hchild 0
    · refine (flows_takeOperands hp).any.seq fun _ _ => ?_
      refine Flows.bind (Q := p.value) ?_ fun b₂ v _ hv => flows_finishExprFrame hp hself hv
      exact flows_liftExcept fun w hw b' _ => hp.evalUnary hw
  · split
    · exact hchild 0
    · exact hchild 1
    · rename_i object index _ hoperands
      have hobject : p.value b₁ object := hframe.operands object (hoperands ▸ List.mem_cons_self)
      refine (flows_takeOperands hp).any.seq fun _ _ => ?_
      refine Flows.bind (Q := p.value) ?_ fun b₂ v _ hv => flows_finishExprFrame hp hself hv
      exact flows_liftExcept fun w hw b' hb' => hp.evalIndex (hp.mono hb' hobject) hw
  · exact flows_stepList hp hself _ hframe
  · exact flows_stepDict hp hself _ hframe
  · exact flows_stepFStr hp hself _ _
  · exact flows_unreachable

/-! ## Statements -/

omit hself in
theorem Tracking.Carried.step_pure {step : StmtStep} (h : p.step b step) :
    Flows p b (pure step : Ev E H StmtStep) p.step :=
  flows_pure fun b' hb => by
    cases step with
    | val => trivial
    | enter frame => exact hp.frame_mono hb h
    | flow signal =>
      cases signal with
      | «return» v => exact hp.mono hb h
      | _ => trivial

/-- The step that a statement makes, if it makes one. -/
abbrev Tracking.steps (p : Tracking H) (b : List FnValue) (o : Option StmtStep) : Prop :=
  ∀ step, o = some step → p.step b step

omit hp hself in
theorem flows_noStep : Flows p b (pure none : Ev E H (Option StmtStep)) p.steps :=
  flows_pure fun _ _ => nofun

omit hp hself in
theorem Flows.step {m : Ev E H StmtStep} (h : Flows p b m p.step) :
    Flows p b (Option.some <$> m) p.steps :=
  h.map fun b' v _ hv => by
    rintro _ ⟨⟩
    exact hv

omit hself in
/-- A statement that enters an expression frame. -/
theorem flows_enterExpr {owner : Block} (howner : Admits p.literal (stmtsFloats owner))
    (stmtIndex line : Nat) {dest : CallDest} (hdest : p.dest b dest) :
    Flows p b (do pure (some (.enter (← newExprFrame owner stmtIndex 0 [] line dest))) :
      Ev E H (Option StmtStep)) p.steps := by
  refine (flows_newExprFrame hp howner _ _ _ _ hdest).bind fun b₁ frame _ hframe => ?_
  refine flows_pure fun b' hb => ?_
  rintro _ ⟨⟩
  exact hp.frame_mono hb hframe

theorem flows_execDriverSlotStmt {stmt : Stmt} (hstmt : Admits p.literal stmt.floats)
    {owner : Block} (howner : Admits p.literal (stmtsFloats owner)) (stmtIndex : Nat) :
    Flows p b (execDriverSlotStmt rt self stmt owner stmtIndex) p.steps := by
  unfold execDriverSlotStmt
  refine (flows_read _).seq fun env _ => ?_
  dsimp only
  have henter (expr : Expr) (line : Nat) {dest : CallDest} (hdest : p.dest b dest) :
      Flows p b (if needsExprFrame rt env expr then do
          pure (some (.enter (← newExprFrame owner stmtIndex 0 [] line dest)))
        else pure none : Ev E H (Option StmtStep)) p.steps := by
    split
    · exact flows_enterExpr hp howner stmtIndex line hdest
    · exact flows_noStep
  split
  · exact henter _ _ trivial
  · exact henter _ _ trivial
  · exact henter _ _ trivial
  · split
    · exact flows_noStep
    refine (flows_cellOf _ _).seq fun cell _ => ?_
    split
    · have hdest : p.dest b (.indexAssignIndex cell) := trivial
      exact flows_enterExpr hp howner stmtIndex _ hdest
    · refine (hself.evalExpr _ (admits_append.mp hstmt).1).bind fun b₁ idx _ hidx => ?_
      refine (flows_indexAssignAfterIndex hp hself cell hidx howner _ _).seq fun _ _ => ?_
      refine flows_pure fun _ _ => ?_
      rintro _ ⟨⟩
      trivial
  · exact flows_noStep

theorem flows_execDriverCall (dest : CallDest) (hdest : ∀ b, p.dest b dest) {callee : Expr}
    (hcallee : Admits p.literal callee.floats) {args : List Expr}
    (hargs : ∀ e ∈ args, Admits p.literal e.floats) (line : Nat) :
    Flows p b (execDriverCall rt self dest callee args line) p.step := by
  refine (flows_prepareCall hp hself hcallee hargs line).bind fun b₁ prep _ hprep => ?_
  cases prep with
  | done v =>
    refine (flows_deliverCallResult hp hself dest hprep).bind fun b₂ o _ ho => ?_
    cases o with
    | some signal => exact hp.step_pure (ho signal rfl)
    | none => exact hp.step_pure trivial
  | user defn saved func =>
    have hkind : FrameKind.Holds p.literal (p.value b₁) (.call saved (some ⟨dest, func⟩)) := by
      rintro _ ⟨⟩
      exact ⟨hdest b₁, hprep.2⟩
    exact (flows_plainFrame hp hprep.1 hkind).map fun _ _ _ hframe => hframe

omit hp hself in
theorem stmtDest_holds (stmt : Stmt) : p.dest b (stmtDest stmt) := by
  unfold stmtDest
  split <;> trivial

theorem flows_execDriverCallStmt {stmt : Stmt} (hstmt : Admits p.literal stmt.floats)
    {owner : Block} (howner : Admits p.literal (stmtsFloats owner)) (stmtIndex : Nat) :
    Flows p b (execDriverCallStmt rt self stmt owner stmtIndex) p.steps := by
  refine (flows_execDriverSlotStmt hp hself hstmt howner stmtIndex).bind fun b₁ o _ ho => ?_
  cases o with
  | some step => exact (hp.step_pure (ho step rfl)).step
  | none =>
    dsimp only
    split
    · exact flows_noStep
    rename_i expr hexpr
    have hfloats := admits_valueExpr hstmt hexpr
    have hframe : Flows p b₁ (do
        if needsExprFrame rt (← Proc.gets Evaluator.env) expr then
          pure (some (.enter (← newExprFrame owner stmtIndex 0 [] stmt.line (stmtDest stmt))))
        else pure none : Ev E H (Option StmtStep)) p.steps := by
      refine (flows_read _).seq fun env _ => ?_
      split
      · exact flows_enterExpr hp howner stmtIndex _ (stmtDest_holds stmt)
      · exact flows_noStep
    split
    · split
      · exact (flows_execDriverCall hp hself _ (fun _ => stmtDest_holds stmt)
          (admits_append.mp hfloats).1 (admits_exprs.mp (admits_append.mp hfloats).2) _).step
      · exact hframe
    · exact hframe

theorem flows_execLeafStmt {stmt : Stmt} (hstmt : Admits p.literal stmt.floats) {owner : Block}
    (howner : Admits p.literal (stmtsFloats owner)) (stmtIndex : Nat) :
    Flows p b (execLeafStmt rt self stmt owner stmtIndex) p.step := by
  have hval (b' : List FnValue) : Flows p b' (pure .val : Ev E H StmtStep) p.step :=
    hp.step_pure trivial
  unfold execLeafStmt
  cases stmt with
  | «let» name value line =>
    refine (hself.evalExpr (e := value) line hstmt).bind fun b₁ v _ hv => ?_
    exact (flows_envSet hp name hv line).seq fun _ _ => hval b₁
  | assign name value line =>
    refine (hself.evalExpr (e := value) line hstmt).bind fun b₁ v _ hv => ?_
    exact (flows_assignExisting hp name hv line).seq fun _ _ => hval b₁
  | indexAssign name index value line =>
    refine (flows_cellOf name line).seq fun cell _ => ?_
    refine (hself.evalExpr line (admits_append.mp hstmt).1).any.seq fun idx _ => ?_
    refine (hself.evalExpr line (admits_append.mp hstmt).2).bind fun b₁ v _ hv => ?_
    exact (flows_finishIndexAssign hp cell idx hv line).seq fun _ _ => hval b₁
  | «return» value line =>
    exact (hself.evalExpr (e := value) line hstmt).bind fun b₁ v _ hv => hp.step_pure hv
  | «if» condition thenBody elseBody line =>
    have hparts := admits_append.mp hstmt
    refine (hself.evalExpr line hparts.1).any.seq fun v _ => ?_
    refine Flows.map (Q := p.frame) ?_ fun _ _ _ hframe => hframe
    split
    · exact flows_enterScopedBlock (admits_append.mp hparts.2).1 line
    · exact flows_enterScopedBlock (admits_append.mp hparts.2).2 line
  | «while» condition body line =>
    refine (hself.evalExpr line (admits_append.mp hstmt).1).any.seq fun v _ => ?_
    split
    · exact (flows_enterWhile hp howner stmtIndex line).map fun _ _ _ hframe => hframe
    · exact hval b
  | «for» var iter body line =>
    refine (hself.evalExpr line (admits_append.mp hstmt).1).bind fun b₁ v _ hv => ?_
    refine (flows_forCollection hp howner stmtIndex line hv).bind fun b₂ o _ ho => ?_
    cases o with
    | some frame => exact hp.step_pure (ho frame rfl)
    | none => exact hval b₂
  | fnDef name params body line =>
    have hbody : Admits p.literal (stmtsFloats body) := hstmt
    refine (flows_makeFunction hp name params hbody line).bind fun b₁ f _ hf => ?_
    exact (flows_envSet hp name hf line).seq fun _ _ => hval b₁
  | «break» line => exact hp.step_pure trivial
  | «continue» line => exact hp.step_pure trivial
  | «import» path line => exact flows_raise _
  | tryCatch tryBody var catchBody line =>
    have hparts := admits_append.mp hstmt
    exact (flows_enterTry var hparts.1 hparts.2 line).map fun _ _ _ hframe => hframe
  | exprStmt e line =>
    exact (hself.evalExpr (e := e) line hstmt).any.seq fun _ _ => hval b

theorem flows_execStmt {stmt : Stmt} (hstmt : Admits p.literal stmt.floats) {owner : Block}
    (howner : Admits p.literal (stmtsFloats owner)) (stmtIndex : Nat) :
    Flows p b (execStmt rt self stmt owner stmtIndex) p.step := by
  refine (flows_read _).seq fun canYield _ => ?_
  split
  · refine (flows_execDriverCallStmt hp hself hstmt howner stmtIndex).bind fun b₁ o _ ho => ?_
    cases o with
    | some step => exact hp.step_pure (ho step rfl)
    | none => exact flows_execLeafStmt hp hself hstmt howner stmtIndex
  · exact flows_execLeafStmt hp hself hstmt howner stmtIndex

/-! ## The driver -/

theorem flows_advanceWhile {site : LoopSite} (howner : Admits p.literal (stmtsFloats site.owner))
    {body : Block} (hbody : Admits p.literal (stmtsFloats body)) (line : Nat) (chargeStep : Bool) :
    Flows p b (advanceWhile rt self site body line chargeStep) Any := by
  refine flows_when (fun _ => flows_countStep line) ?_
  split
  · rename_i hstmt
    refine (flows_read _).seq fun s _ => ?_
    split
    · have hdest : p.dest b .whileIter := trivial
      exact (flows_newExprFrame hp howner _ _ _ _ hdest).bind fun b₁ frame _ hframe =>
        flows_push hp hframe
    · refine (hself.evalExpr line (admits_append.mp (admits_getElem howner hstmt)).1).any.seq ?_
      exact fun v _ => flows_whileIteration hp hbody line v
  · exact flows_unreachable

omit hself in
theorem flows_advanceFor {site : LoopSite} {body : Block}
    (hbody : Admits p.literal (stmtsFloats body)) (line : Nat) (chargeStep : Bool)
    {nextItem : Option Value} (hitem : p.option b nextItem) :
    Flows p b (advanceFor rt site body line chargeStep nextItem : Ev E H Unit) Any := by
  refine flows_when (fun _ => flows_countStep line) ?_
  split
  · exact flows_popFrame
  · exact flows_setPending.seq fun _ _ => flows_beginForIteration hp _ (hitem _ rfl) hbody line
  · exact flows_unreachable

theorem flows_advanceFrame : Flows p b (advanceFrame rt self) Any := by
  refine flows_frames.bind fun b₁ frames _ hframes => ?_
  split
  · exact flows_unreachable
  rw [List.forall_mem_cons] at hframes
  have hkind := hframes.1.kind
  split
  · rename_i htop
    rw [htop] at hkind
    refine Flows.andThen ?_ fun _ => flows_advanceWhile hp hself hkind.1 hkind.2 _ _
    exact flows_onTop fun _ _ _ h => ⟨h.stmts, hkind⟩
  · rename_i site body line items index pending collection htop
    rw [htop] at hkind
    refine Flows.andThen ?_ fun _ => flows_advanceFor hp hkind.2.1 _ _ fun v hv => ?_
    · exact flows_onTop fun b' hb _ h => ⟨h.stmts, FrameKind.Holds.mono
        (show FrameKind.Holds _ (p.value b₁) _ from hkind) fun _ => hp.mono hb⟩
    · exact hkind.2.2.1 v (List.mem_of_getElem? hv)
  · exact flows_popFrame

omit hp hself in
theorem flows_popDriverCall : Flows p b (popDriverCall : Ev E H DriverCall) Any := by
  refine (flows_read _).seq fun frames _ => ?_
  split
  · exact flows_popFrame.seq fun _ _ => flows_any _
  · exact flows_unreachable

theorem flows_finishDriverCall {v : Value} (hv : p.value b v) :
    Flows p b (finishDriverCall rt self v) p.flow :=
  flows_popDriverCall.seq fun driver _ => flows_deliverCallResult hp hself driver.dest hv

/-- What a body returns, if it is known yet. -/
abbrev Tracking.results (p : Tracking H) (b : List FnValue) (o : Option EvalResult) : Prop :=
  ∀ result, o = some result → p.result b result

omit hp hself in
theorem flows_noResult : Flows p b (pure none : Ev E H (Option EvalResult)) p.results :=
  flows_pure fun _ _ => nofun

omit hself in
theorem flows_surface {signal : FlowSignal} (h : p.signal b signal) :
    Flows p b (pure (some signal.surface) : Ev E H (Option EvalResult)) p.results := by
  refine flows_pure fun b' hb => ?_
  rintro _ ⟨⟩
  cases signal with
  | «return» v => exact hp.mono hb h
  | _ => trivial

theorem flows_unwindFlow {signal : FlowSignal} (h : p.signal b signal) (stopDepth : Nat) :
    Flows p b (unwindFlow rt self signal stopDepth) p.results := by
  unfold unwindFlow
  refine (flows_read _).seq fun frames _ => ?_
  split
  · exact flows_surface hp h
  split
  · exact flows_surface hp h
  split
  · -- a return goes up to the call that it ends
    split
    · refine (flows_finishDriverCall hp hself h).bind fun b₁ o _ ho => ?_
      cases o with
      | none => exact flows_noResult
      | some next => exact hself.unwindFlow stopDepth (ho next rfl)
    · refine flows_popFrame.seq fun _ _ => ?_
      split
      · exact flows_surface hp (show p.signal b (.«return» _) from h)
      · exact hself.unwindFlow stopDepth h
  · split
    · exact flows_popFrame.seq fun _ _ => flows_noResult
    · split
      · exact flows_popDriverCall.seq fun _ _ => flows_raise _
      · exact flows_popFrame.seq fun _ _ => hself.unwindFlow stopDepth trivial
  · split
    · exact flows_noResult
    · split
      · exact flows_popDriverCall.seq fun _ _ => flows_raise _
      · exact flows_popFrame.seq fun _ _ => hself.unwindFlow stopDepth trivial

theorem flows_driveFlow {signal : FlowSignal} (h : p.signal b signal) (stopDepth : Nat) :
    Flows p b (driveFlow rt self signal stopDepth) p.results := by
  refine (hself.unwindFlow stopDepth h).caught.bind fun b₁ r _ hr => ?_
  cases r with
  | ok result =>
    refine flows_pure fun b' hb result' hresult' => ?_
    exact hp.result_mono hb (hr result rfl result' hresult')
  | error e => exact (flows_recoverError hp e stopDepth).seq fun _ _ => flows_noResult

theorem flows_completeDriverCall (stopDepth : Nat) :
    Flows p b (completeDriverCall rt self stopDepth) p.results := by
  refine (flows_finishDriverCall hp hself (hp.null b)).caught.bind fun b₁ r _ hr => ?_
  split
  · exact flows_noResult
  · exact flows_driveFlow hp hself (hr _ rfl _ rfl) stopDepth
  · exact (flows_recoverError hp _ stopDepth).seq fun _ _ => flows_noResult

omit hp hself in
theorem Evaluator.Holds.popExprFrames {s : Evaluator E H} (h : s.Holds p) (n : Nat) :
    (s.popExprFrames n).Holds p := by
  induction n generalizing s with
  | zero => exact h
  | succ n ih =>
    unfold Evaluator.popExprFrames
    split
    · exact ih h.popFrame
    · exact h

omit hp hself in
theorem Evaluator.popExprFrames_born (n : Nat) (s : Evaluator E H) :
    (s.popExprFrames n).born = s.born := by
  induction n generalizing s with
  | zero => rfl
  | succ n ih =>
    unfold Evaluator.popExprFrames
    split
    · exact (ih _).trans s.popFrame_born
    · rfl

omit hp hself in
theorem flows_stepBack : Flows p b (Proc.modify Evaluator.stepBack : Ev E H Unit) Any :=
  flows_onTop fun _ _ _ h => ⟨h.stmts, h.kind⟩

omit hp hself in
theorem flows_takeYield : Flows p b (takeYield : Ev E H Bool) Any :=
  flows_update (fun _ hs _ => ⟨{ hs with }, trivial⟩) fun _ => rfl

/-- How a pass of the loop ends the driver, if it does. -/
abbrev Tracking.outcomes (p : Tracking H) (b : List FnValue) (o : Option DriveOutcome) : Prop :=
  ∀ outcome, o = some outcome → p.outcome b outcome

omit hp hself in
theorem flows_goesOn : Flows p b (pure none : Ev E H (Option DriveOutcome)) p.outcomes :=
  flows_pure fun _ _ => nofun

omit hp hself in
theorem flows_yielded :
    Flows p b (pure (some .yielded) : Ev E H (Option DriveOutcome)) p.outcomes :=
  flows_pure fun _ _ => by
    rintro _ ⟨⟩
    trivial

omit hself in
theorem flows_done {o : Option EvalResult} (h : p.results b o) :
    Flows p b (pure (o.map .done) : Ev E H (Option DriveOutcome)) p.outcomes := by
  refine flows_pure fun b' hb outcome houtcome => ?_
  obtain ⟨result, hresult, rfl⟩ := Option.map_eq_some_iff.mp houtcome
  exact hp.result_mono hb (h result hresult)

theorem flows_driveExprStep (stopDepth : Nat) :
    Flows p b (driveExprStep rt self stopDepth) p.outcomes := by
  refine Flows.andThen (flows_modify (fun _ hs _ => { hs with }) fun _ => rfl) fun _ => ?_
  refine (flows_stepExpr hp hself).caught.bind fun b₁ r _ hr => ?_
  split
  · exact flows_goesOn
  · exact (flows_driveFlow hp hself (hr _ rfl _ rfl) stopDepth).bind fun b₂ o _ ho =>
      flows_done hp ho
  · refine flows_takeYield.seq fun yield _ => ?_
    split
    · refine Flows.andThen ?_ fun _ => flows_yielded
      exact flows_modify
        (fun s hs _ => (hs.popExprFrames _).onTop fun _ h => ⟨h.stmts, h.kind⟩)
        fun s => (Evaluator.onTop_born _ _).trans (s.popExprFrames_born _)
    · exact (flows_recoverError hp _ stopDepth).seq fun _ _ => flows_goesOn

theorem flows_driveEnd (top : Frame) (stopDepth : Nat) :
    Flows p b (driveEnd rt self top stopDepth) p.outcomes := by
  refine Flows.andThen (flows_modify (fun _ hs _ => { hs with }) fun _ => rfl) fun _ => ?_
  split
  · exact (flows_completeDriverCall hp hself stopDepth).bind fun b₁ o _ ho => flows_done hp ho
  refine (flows_advanceFrame hp hself).caught.any.seq fun r _ => ?_
  cases r with
  | ok _ => exact flows_goesOn
  | error e =>
    refine flows_takeYield.seq fun yield _ => ?_
    split
    · exact flows_yielded
    · exact (flows_recoverError hp e stopDepth).seq fun _ _ => flows_goesOn

theorem flows_driveStmt {top : Frame} (htop : Admits p.literal (stmtsFloats top.stmts))
    {stmt : Stmt} (hstmt : Admits p.literal stmt.floats) (stopDepth : Nat) :
    Flows p b (driveStmt rt self top stmt stopDepth) p.outcomes := by
  refine Flows.andThen (flows_onTop fun _ _ _ h => ⟨h.stmts, h.kind⟩) fun _ => ?_
  refine Flows.andThen (flows_modify (fun _ hs _ => { hs with }) fun _ => rfl) fun _ => ?_
  refine (flows_execStmt hp hself hstmt htop top.cursor).caught.bind fun b₁ r _ hr => ?_
  split
  · exact flows_goesOn
  · exact (flows_push hp (hr _ rfl)).seq fun _ _ => flows_goesOn
  · exact (flows_driveFlow hp hself (hr _ rfl) stopDepth).bind fun b₂ o _ ho => flows_done hp ho
  · refine flows_takeYield.seq fun yield _ => ?_
    split
    · exact flows_stepBack.seq fun _ _ => flows_yielded
    · exact (flows_recoverError hp _ stopDepth).seq fun _ _ => flows_goesOn

theorem flows_driveBoundary {top : Frame} (htop : Admits p.literal (stmtsFloats top.stmts))
    (stopDepth : Nat) (canYield : Bool) :
    Flows p b (driveBoundary rt self top stopDepth canYield) p.outcomes := by
  refine (flows_read _).seq fun s _ => ?_
  split
  · refine Flows.andThen (flows_modify (fun _ hs _ => { hs with }) fun _ => rfl) fun _ => ?_
    exact flows_yielded
  refine (flows_charge (yields_any _) 0).caught.any.seq fun r _ => ?_
  cases r with
  | error e => exact (flows_unwindTo stopDepth).seq fun _ _ => flows_raise e
  | ok _ =>
    dsimp only
    split
    · exact flows_driveEnd hp hself top stopDepth
    · rename_i hstmt
      exact flows_driveStmt hp hself htop (admits_getElem htop hstmt) stopDepth

theorem flows_driverStep (stopDepth : Nat) (canYield : Bool) :
    Flows p b (driverStep rt self stopDepth canYield) p.outcomes := by
  have hend (b' : List FnValue) :
      Flows p b' (pure (some (.done .val)) : Ev E H (Option DriveOutcome)) p.outcomes :=
    flows_done (o := some .val) hp fun _ hresult => Option.some.inj hresult ▸ trivial
  refine Flows.bind (Q := fun b' s => ∀ f ∈ s.frames, p.frame b' f) ?_ fun b₁ s _ hframes => ?_
  · refine (flows_gets _).imp fun b' s _ hread => ?_
    obtain ⟨s, hs, rfl, rfl⟩ := hread
    exact hs.frames
  split
  · exact hend b₁
  rename_i top rest hs
  split
  · exact hend b₁
  split
  · exact flows_yielded
  split
  · exact flows_driveExprStep hp hself stopDepth
  · have htop := hframes top (hs ▸ List.mem_cons_self)
    exact flows_driveBoundary hp hself htop.stmts stopDepth canYield

theorem flows_driverLoop (stopDepth : Nat) (canYield : Bool) :
    Flows p b (driverLoop rt self stopDepth canYield) p.outcome := by
  refine (flows_driverStep hp hself stopDepth canYield).bind fun b₁ o _ ho => ?_
  cases o with
  | none => exact hself.driverLoop stopDepth canYield
  | some outcome =>
    refine flows_pure fun b' hb => ?_
    cases outcome with
    | done result => exact hp.result_mono hb (ho _ rfl)
    | yielded => trivial

end Carried

/-- The closed functions keep the property: by induction on the calls that nest or repeat. -/
theorem recur_carries (hp : p.Carried rt) (n : Nat) : (recur rt n).Carries p := by
  induction n with
  | zero =>
    exact ⟨fun _ _ => flows_stop _, fun _ _ => flows_stop _, fun _ _ => flows_stop _,
      fun _ => flows_stop _⟩
  | succ n ih =>
    exact
      ⟨fun line he => flows_evalExpr hp ih he line,
        fun stopDepth canYield => flows_driverLoop hp ih stopDepth canYield,
        fun stopDepth h => flows_unwindFlow hp ih h stopDepth,
        fun hv => flows_finishExprFrame hp ih hv⟩

end Tsumugi.Eval
