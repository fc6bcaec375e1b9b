import Tsumugi.Lang.Literals
import Tsumugi.Vm.ValueFlow
import Tsumugi.Vm.Compiler

/-!
# The constants of a compiled program

The compiler writes the literals of the program into the tables of constants, a few numbers
of its own, and empty collections. No constant is a function value.

Result: `compileProgram_literals`, for the chunk of a program and for its prototypes.
-/

namespace Tsumugi.Bytecode

open Proc (Keeps)

/-- What the compiler writes into a table of constants: no function value, no element, and only
floats with the property. -/
def Value.IsLiteral (F : UInt64 → Prop) : Value → Prop
  | .float bits => F bits
  | .list items => items = []
  | .dict entries => entries = []
  | .fn _ | .vmFn _ => False
  | _ => True

theorem Value.IsLiteral.all {F : UInt64 → Prop} {v : Value} (h : v.IsLiteral F)
    (P : FnValue → Prop) :
    v.All P := by
  cases v with
  | list items => exact Value.all_list.mpr (h ▸ nofun)
  | dict entries => exact Value.all_dict.mpr (h ▸ nofun)
  | vmFn f => exact h.elim
  | _ => trivial

/-- The compiler has only written such constants. -/
def Gathers (F : UInt64 → Prop) {α : Type} (m : Compile α) : Prop :=
  Keeps (fun c : Compiler => c.chunk.Literals (Value.IsLiteral F)) m

variable {F : UInt64 → Prop} {α β : Type}

theorem literals_new : Chunk.new.Literals (Value.IsLiteral F) := ⟨nofun, nofun⟩

/-- A chunk with the same tables. -/
theorem Chunk.Literals.congr {Lit : Value → Prop} {c d : Chunk} (h : c.Literals Lit)
    (hconstants : d.constants = c.constants) (hprototypes : d.prototypes = c.prototypes) :
    d.Literals Lit :=
  ⟨hconstants ▸ h.constants, hprototypes ▸ h.prototypes⟩

theorem Chunk.Literals.addConstant {Lit : Value → Prop} {c : Chunk} (h : c.Literals Lit)
    {v : Value} (hv : Lit v) : (c.addConstant v).Literals Lit :=
  ⟨fun w hw => (List.mem_append.mp hw).elim (h.constants w) fun hw =>
    List.mem_singleton.mp hw ▸ hv, h.prototypes⟩

theorem Chunk.Literals.addPrototype {Lit : Value → Prop} {c : Chunk} (h : c.Literals Lit)
    {p : FunctionPrototype} (hp : p.chunk.Literals Lit) : (c.addPrototype p).Literals Lit :=
  ⟨h.constants, fun q hq => (List.mem_append.mp hq).elim (h.prototypes q) fun hq =>
    List.mem_singleton.mp hq ▸ hp⟩

theorem Chunk.Literals.patchJump {Lit : Value → Prop} {c d : Chunk} {offset : Nat}
    (h : c.Literals Lit) (hd : c.patchJump offset = .ok d) : d.Literals Lit := by
  unfold Chunk.patchJump at hd
  split at hd
  · cases hd
  · split at hd <;> cases hd
    exact h.congr rfl rfl

open Compile

theorem gathers_pure (a : α) : Gathers F (pure a : Compile α) := Proc.keeps_pure a

theorem gathers_stop (stop : CompileStop) : Gathers F (Proc.stop stop : Compile α) :=
  Proc.keeps_stop stop

theorem gathers_gets (f : Compiler → α) : Gathers F (Proc.gets f) := Proc.keeps_gets f

theorem Gathers.seq {m : Compile α} {f : α → Compile β} (hm : Gathers F m)
    (hf : ∀ a, Gathers F (f a)) : Gathers F (m >>= f) := Proc.keeps_bind hm hf

/-- An update that leaves the chunk alone. -/
theorem gathers_modify {f : Compiler → Compiler} (h : ∀ c, (f c).chunk = c.chunk) :
    Gathers F (Proc.modify f) := fun c hc =>
  show (f c).chunk.Literals _ from (h c).symm ▸ hc

theorem gathers_update {f : Compiler → α × Compiler} (h : ∀ c, (f c).2.chunk = c.chunk) :
    Gathers F (Proc.update f) := fun c hc =>
  show (f c).2.chunk.Literals _ from (h c).symm ▸ hc

theorem gathers_emit (op : OpCode) (line : Nat) : Gathers F (emit op line) :=
  fun _ hc => hc.congr rfl rfl

/-- Some code, then one more instruction. -/
theorem Gathers.emit {m : Compile Unit} (hm : Gathers F m) (op : OpCode) (line : Nat) :
    Gathers F (m >>= fun _ => Compile.emit op line) := Gathers.seq hm fun _ => gathers_emit op line

theorem gathers_emitConstant {v : Value} (hv : v.IsLiteral F) (line : Nat) :
    Gathers F (emitConstant v line) :=
  Gathers.seq (fun _ hc => hc.addConstant hv) fun _ =>
    Gathers.seq (gathers_gets _) fun _ => gathers_emit _ _

theorem gathers_emitInt (i : Int) (line : Nat) : Gathers F (emitConstant (.int i) line) :=
  gathers_emitConstant (v := .int i) trivial line

theorem gathers_emitNull (line : Nat) : Gathers F (emitConstant .null line) :=
  gathers_emitConstant (v := .null) trivial line

theorem gathers_emitJump (op : OpCode) (line : Nat) : Gathers F (emitJump op line) :=
  Gathers.seq (gathers_gets _) fun _ => Gathers.seq (gathers_emit _ _) fun _ => gathers_pure _

theorem gathers_patchJump (offset : Nat) : Gathers F (patchJump offset) := by
  intro c hc
  rcases h : c.chunk.patchJump offset with (_ | _) | chunk <;> simp only [patchJump, h]
  · exact hc
  · exact hc
  · exact hc.patchJump h

theorem gathers_patchAll (offsets : List Nat) : Gathers F (patchAll offsets) := by
  induction offsets with
  | nil => exact gathers_pure ()
  | cons offset rest ih => exact Gathers.seq (gathers_patchJump offset) fun _ => ih

theorem gathers_mark : Gathers F mark := fun _ hc => hc.congr rfl rfl

theorem Gathers.marked {m : Compile Unit} (hm : Gathers F m) : Gathers F (Compile.marked m) :=
  Gathers.seq gathers_mark fun _ => Gathers.seq hm fun _ => gathers_mark

theorem gathers_when {p : Prop} [Decidable p] {m : Compile Unit} (hm : Gathers F m) :
    Gathers F (Proc.when p m) := Proc.keeps_when hm

/-! ### Scopes and names -/

theorem gathers_beginScope : Gathers F beginScope := gathers_modify fun _ => rfl

theorem gathers_endScope (line : Nat) : Gathers F (endScope line) :=
  Gathers.seq (gathers_modify fun _ => rfl) fun _ => Gathers.seq (gathers_gets _) fun _ =>
    Gathers.seq (gathers_when (gathers_emit _ _)) fun _ => gathers_modify fun _ => rfl

theorem Gathers.inScope {m : Compile Unit} (hm : Gathers F m) (line : Nat) :
    Gathers F (Compile.inScope m line) :=
  Gathers.seq gathers_beginScope fun _ => Gathers.seq hm fun _ => gathers_endScope line

theorem gathers_addLocal (name : String) : Gathers F (addLocal name) := gathers_modify fun _ => rfl

theorem gathers_declareLocal (name : String) (line : Nat) : Gathers F (declareLocal name line) :=
  Gathers.seq (gathers_gets _) fun _ => Gathers.seq (gathers_addLocal name) fun _ =>
    gathers_when (gathers_emit _ _)

theorem chunk_addUpvalue (slot : Nat) (isLocal : Bool) (name : String) (c : Compiler) :
    (c.addUpvalue slot isLocal name).2.chunk = c.chunk := by
  unfold Compiler.addUpvalue
  split <;> rfl

theorem gathers_resolveUpvalue (name : String) : Gathers F (resolveUpvalue name) :=
  gathers_update fun c => by
    unfold Compiler.resolveUpvalue
    split
    · exact chunk_addUpvalue _ _ _ _
    · rfl

theorem gathers_resolveMutationTarget (name : String) :
    Gathers F (resolveMutationTarget name) := by
  refine Gathers.seq (gathers_gets _) fun c => ?_
  split
  · exact gathers_pure _
  · refine Gathers.seq (gathers_resolveUpvalue name) fun index => ?_
    cases index <;> exact gathers_pure _

theorem gathers_getTarget (target : MutationTarget) (line : Nat) :
    Gathers F (emitGetMutationTarget target line) := by
  cases target <;> exact gathers_emit _ _

theorem gathers_setTarget (target : MutationTarget) (line : Nat) :
    Gathers F (emitSetMutationTarget target line) := by
  cases target <;> exact gathers_emit _ _

theorem gathers_requireTarget (target : MutationTarget) (line : Nat) :
    Gathers F (requireTarget target line) := by
  cases target with
  | globalName name => exact gathers_emit _ _
  | _ => exact gathers_pure ()

theorem gathers_compileNameRead (name : String) (line : Nat) (forCall : Bool) :
    Gathers F (compileNameRead name line forCall) := by
  refine Gathers.seq (gathers_gets _) fun c => ?_
  split
  · exact gathers_emit _ _
  · refine Gathers.seq (gathers_resolveUpvalue name) fun index => ?_
    cases index with
    | some index => exact gathers_emit _ _
    | none => exact Proc.keeps_ite (gathers_emit _ _) (gathers_emit _ _)

theorem gathers_compileAssign (name : String) (line : Nat) : Gathers F (compileAssign name line) :=
  Gathers.seq (gathers_resolveMutationTarget name) fun _ =>
    Gathers.seq (gathers_setTarget _ _) fun _ => gathers_emit _ _

theorem gathers_compileIndexAssign {index value : Compile Unit} (hindex : Gathers F index)
    (hvalue : Gathers F value) (name : String) (line : Nat) :
    Gathers F (compileIndexAssign name index value line) :=
  Gathers.seq (gathers_resolveMutationTarget name) fun _ =>
    Gathers.seq (gathers_requireTarget _ _) fun _ => Gathers.seq hindex fun _ =>
      Gathers.seq hvalue fun _ => gathers_emit _ _

/-! ### Control flow -/

theorem gathers_onLoop (f : LoopState → LoopState) : Gathers F (onLoop f) :=
  gathers_modify fun c => by split <;> rfl

theorem gathers_popLoop : Gathers F popLoop := by
  intro c hc
  cases h : c.loops <;> simp only [popLoop, h] <;> exact hc

theorem gathers_pushLoop (l : LoopState) : Gathers F (pushLoop l) := gathers_modify fun _ => rfl

theorem gathers_compileIf {condition thenBody elseBody : Compile Unit}
    (hcondition : Gathers F condition) (hthen : Gathers F thenBody) (helse : Gathers F elseBody)
    (elseEmpty : Bool) (line : Nat) :
    Gathers F (compileIf condition thenBody elseBody elseEmpty line) := by
  refine Gathers.seq hcondition fun _ => Gathers.seq (gathers_emitJump _ _) fun _ =>
    Gathers.seq (hthen.inScope line) fun _ => Proc.keeps_ite (gathers_patchJump _) ?_
  exact Gathers.seq (gathers_emitJump _ _) fun _ => Gathers.seq (gathers_patchJump _) fun _ =>
    Gathers.seq (helse.inScope line) fun _ => gathers_patchJump _

theorem gathers_compileWhile {condition body : Compile Unit} (hcondition : Gathers F condition)
    (hbody : Gathers F body) (line : Nat) : Gathers F (compileWhile condition body line) :=
  Gathers.seq (gathers_gets _) fun _ => Gathers.seq (gathers_gets _) fun _ =>
    Gathers.seq (gathers_pushLoop _) fun _ => Gathers.seq hcondition fun _ =>
      Gathers.seq (gathers_emitJump _ _) fun _ => Gathers.seq (hbody.inScope line) fun _ =>
        Gathers.seq (gathers_emit _ _) fun _ => Gathers.seq (gathers_patchJump _) fun _ =>
          Gathers.seq gathers_popLoop fun _ => gathers_patchAll _

theorem gathers_forHeader (var : String) {iter : Compile Unit} (hiter : Gathers F iter)
    (line : Nat) : Gathers F (forHeader var iter line) :=
  Gathers.seq hiter fun _ => Gathers.seq (gathers_emit _ _) fun _ =>
    Gathers.seq (gathers_gets _) fun _ => Gathers.seq (gathers_addLocal _) fun _ =>
      Gathers.seq (gathers_emitInt 0 line) fun _ => Gathers.seq (gathers_gets _) fun _ =>
        Gathers.seq (gathers_addLocal _) fun _ =>
          Gathers.seq (gathers_emitNull line) fun _ =>
            Gathers.seq (gathers_addLocal _) fun _ => gathers_pure _

theorem gathers_forAdvance (collectionSlot indexSlot line : Nat) :
    Gathers F (forAdvance collectionSlot indexSlot line) :=
  Gathers.seq (gathers_emit _ _) fun _ => Gathers.seq (gathers_emit _ _) fun _ =>
    Gathers.seq (gathers_emit _ _) fun _ => Gathers.seq (gathers_emitJump _ _) fun _ =>
      Gathers.seq (gathers_emit _ _) fun _ => Gathers.seq (gathers_emit _ _) fun _ =>
        Gathers.seq (gathers_emit _ _) fun _ => gathers_pure _

theorem gathers_forIncrement (indexSlot line : Nat) : Gathers F (forIncrement indexSlot line) :=
  Gathers.seq (gathers_emit _ _) fun _ =>
    Gathers.seq (gathers_emitInt 1 line) fun _ => Gathers.seq (gathers_emit _ _) fun _ =>
      Gathers.seq (gathers_emit _ _) fun _ => gathers_emit _ _

theorem gathers_patchContinues : Gathers F patchContinues := by
  refine Gathers.seq (gathers_gets _) fun _ => Gathers.seq (gathers_onLoop _) fun _ =>
    Gathers.seq (gathers_gets _) fun c => ?_
  split
  · exact gathers_stop _
  · exact Gathers.seq (gathers_onLoop _) fun _ => gathers_patchAll _

theorem gathers_compileFor {iter body : Compile Unit} (hiter : Gathers F iter)
    (hbody : Gathers F body) (var : String) (line : Nat) :
    Gathers F (compileFor var iter body line) :=
  Gathers.seq gathers_beginScope fun _ => Gathers.seq (gathers_forHeader var hiter line) fun _ =>
    Gathers.seq (gathers_gets _) fun _ => Gathers.seq (gathers_gets _) fun _ =>
      Gathers.seq (gathers_pushLoop _) fun _ => Gathers.seq (gathers_forAdvance _ _ _) fun _ =>
        Gathers.seq (hbody.inScope line) fun _ => Gathers.seq gathers_patchContinues fun _ =>
          Gathers.seq (gathers_forIncrement _ _) fun _ => Gathers.seq (gathers_emit _ _) fun _ =>
            Gathers.seq (gathers_patchJump _) fun _ => Gathers.seq gathers_popLoop fun _ =>
              Gathers.seq (gathers_patchAll _) fun _ => gathers_endScope line

theorem gathers_patchSetup (offset : Nat) : Gathers F (patchSetup offset) := by
  intro c hc
  show (((patchSetup offset).run c).2).chunk.Literals _
  simp only [patchSetup]
  split
  · exact hc
  · exact hc.congr rfl rfl
  · exact hc

theorem gathers_compileTryCatch {tryBody catchBody : Compile Unit} (htry : Gathers F tryBody)
    (hcatch : Gathers F catchBody) (var : String) (line : Nat) :
    Gathers F (compileTryCatch tryBody var catchBody line) :=
  Gathers.seq (gathers_gets _) fun _ => Gathers.seq (gathers_emit _ _) fun _ =>
    Gathers.seq (gathers_onLoop _) fun _ => Gathers.seq (htry.inScope line) fun _ =>
      Gathers.seq (gathers_emit _ _) fun _ => Gathers.seq (gathers_onLoop _) fun _ =>
        Gathers.seq (gathers_emitJump _ _) fun _ => Gathers.seq (gathers_patchSetup _) fun _ =>
          Gathers.seq gathers_beginScope fun _ => Gathers.seq (gathers_addLocal _) fun _ =>
            Gathers.seq hcatch fun _ => Gathers.seq (gathers_endScope line) fun _ =>
              gathers_patchJump _

theorem gathers_emitTimes (op : OpCode) (line count : Nat) :
    Gathers F (emitTimes op line count) := by
  induction count with
  | zero => exact gathers_pure ()
  | succ count ih => exact Gathers.seq (gathers_emit _ _) fun _ => ih

theorem gathers_leaveBody (l : LoopState) (line : Nat) : Gathers F (leaveBody l line) :=
  Gathers.seq (gathers_emitTimes _ _ _) fun _ => Gathers.seq (gathers_gets _) fun _ =>
    gathers_when (gathers_emit _ _)

theorem gathers_compileBreak (line : Nat) : Gathers F (compileBreak line) := by
  refine Gathers.seq (gathers_gets _) fun c => ?_
  split
  · exact gathers_stop _
  · exact Gathers.seq (gathers_leaveBody _ _) fun _ => Gathers.seq (gathers_emitJump _ _) fun _ =>
      gathers_onLoop _

theorem gathers_compileContinue (line : Nat) : Gathers F (compileContinue line) := by
  refine Gathers.seq (gathers_gets _) fun c => ?_
  split
  · exact gathers_stop _
  · exact Gathers.seq (gathers_leaveBody _ _) fun _ => Proc.keeps_ite (gathers_emit _ _)
      (Gathers.seq (gathers_emitJump _ _) fun _ => gathers_onLoop _)

/-! ### Functions and calls -/

theorem chunk_ensureUpvalueForAncestor (name : String) (c : Compiler) :
    (c.ensureUpvalueForAncestor name).2.chunk = c.chunk := by
  unfold Compiler.ensureUpvalueForAncestor
  split
  · rfl
  · split <;> exact chunk_addUpvalue _ _ _ _

theorem chunk_resolveChildUpvalues (upvalues : List Upvalue) (c : Compiler) :
    (Compiler.resolveChildUpvalues upvalues c).2.chunk = c.chunk := by
  induction upvalues generalizing c with
  | nil => rfl
  | cons uv rest ih =>
    unfold Compiler.resolveChildUpvalues
    split
    · exact ih c
    · exact (ih _).trans (chunk_ensureUpvalueForAncestor _ _)

/-- The chunk of the nested compiler is known, and that of the outer one is left alone. -/
theorem gathers_nested {child : Compiler} (hchild : child.chunk.Literals (Value.IsLiteral F))
    {m : Compile Unit} (hm : Gathers F m) {f : Compiler → Compile β}
    (hf : ∀ done, done.chunk.Literals (Value.IsLiteral F) → Gathers F (f done)) :
    Gathers F (nested child m >>= f) := by
  intro c hc
  have hdone := hm child hchild
  rcases hrun : m.run child with ⟨e | ⟨⟩, done⟩ <;> rw [hrun] at hdone
  · have hnested : (nested child m).run c = (.error e, c) := by simp only [nested, hrun]
    rw [Proc.bind_run_error hnested]
    exact hc
  · have hnested : (nested child m).run c = (.ok done, c) := by simp only [nested, hrun]
    rw [Proc.bind_run_ok hnested]
    exact hf done hdone c hc

theorem chunk_addLocals (params : List String) (c : Compiler) :
    (params.foldl (fun c p => c.addLocal p) c).chunk = c.chunk := by
  induction params generalizing c with
  | nil => rfl
  | cons p rest ih => exact (ih _).trans rfl

theorem gathers_compileClosure {body : Compile Unit} (hbody : Gathers F body) (name : String)
    (params : List String) (line : Nat) : Gathers F (compileClosure name params body line) := by
  refine Gathers.seq (gathers_gets _) fun c => gathers_nested ?_
    (Gathers.seq hbody fun _ => (gathers_emitNull line).emit _ _) fun done hdone => ?_
  · rw [chunk_addLocals]
    exact ⟨nofun, nofun⟩
  · refine Gathers.seq (gathers_update (chunk_resolveChildUpvalues _)) fun upvalues =>
      Gathers.seq (fun d hd => ?_) fun _ => Gathers.seq (gathers_gets _) fun _ => gathers_emit _ _
    exact hd.addPrototype (hdone.congr rfl rfl)

theorem gathers_compileFnDef {body : Compile Unit} (hbody : Gathers F body) (name : String)
    (params : List String) (line : Nat) : Gathers F (compileFnDef name params body line) :=
  Gathers.seq (gathers_compileClosure hbody name params line) fun _ => gathers_declareLocal _ _

theorem gathers_compileUserCall {callee args : Compile Unit} (hcallee : Gathers F callee)
    (hargs : Gathers F args) (argCount line : Nat) :
    Gathers F (compileUserCall callee args argCount line) :=
  Gathers.seq (gathers_emit _ _) fun _ => Gathers.seq hcallee fun _ =>
    Gathers.seq (gathers_emit _ _) fun _ => Gathers.seq hargs fun _ => gathers_emit _ _

theorem gathers_resolveBuiltinId (name : String) (line : Nat) :
    Gathers F (resolveBuiltinId name line) := by
  unfold resolveBuiltinId
  split
  · exact gathers_pure _
  · exact gathers_stop _

theorem gathers_compileBuiltinCall {all second : Compile Unit} (hall : Gathers F all)
    (hsecond : Gathers F second) (name : String) (args : List Expr) (line : Nat) :
    Gathers F (compileBuiltinCall name args all second line) := by
  refine Gathers.seq (gathers_when (gathers_emit _ _)) fun _ =>
    Gathers.seq (gathers_gets _) fun c => ?_
  split
  · exact gathers_emit _ _
  · refine Gathers.seq (gathers_resolveBuiltinId name line) fun id => ?_
    split
    · exact Gathers.seq (gathers_resolveMutationTarget _) fun _ =>
        Gathers.seq (gathers_requireTarget _ _) fun _ => Gathers.seq hsecond fun _ =>
          Gathers.seq (gathers_emit _ _) fun _ => gathers_emitNull line
    · exact Gathers.seq (gathers_resolveMutationTarget _) fun _ =>
        Gathers.seq hall fun _ => Gathers.seq (gathers_emit _ _) fun _ =>
          Gathers.seq (gathers_getTarget _ _) fun _ => Gathers.seq (gathers_emit _ _) fun _ =>
            Gathers.seq (gathers_setTarget _ _) fun _ => gathers_emit _ _
    · exact hall.emit _ _

theorem gathers_hasStaticBinding (name : String) : Gathers F (hasStaticBinding name) := by
  refine Gathers.seq (gathers_gets _) fun c => ?_
  split
  · exact gathers_pure _
  · exact Gathers.seq (gathers_resolveUpvalue name) fun _ => gathers_pure _

theorem gathers_compileCall {args userCall : Compile Unit} {builtinCall : String → Compile Unit}
    (hargs : Gathers F args) (hbuiltin : ∀ name, Gathers F (builtinCall name))
    (huser : Gathers F userCall) (callee : Option String) (argCount line : Nat) :
    Gathers F (compileCall callee args argCount builtinCall userCall line) := by
  unfold compileCall
  split
  · exact huser
  · refine Proc.keeps_ite (Gathers.seq hargs fun _ => Gathers.seq (gathers_emit _ _) fun _ =>
      gathers_emitNull line) (Proc.keeps_ite ?_ huser)
    refine Gathers.seq (gathers_hasStaticBinding _) fun bound => Proc.keeps_ite huser ?_
    exact Gathers.seq (gathers_emitJump _ _) fun _ => Gathers.seq (hbuiltin _) fun _ =>
      Gathers.seq (gathers_emitJump _ _) fun _ => Gathers.seq (gathers_patchJump _) fun _ =>
        Gathers.seq huser fun _ => gathers_patchJump _

theorem gathers_compileShortCircuit {left right : Compile Unit} (hleft : Gathers F left)
    (hright : Gathers F right) (jump : OpCode) (line : Nat) :
    Gathers F (compileShortCircuit left right jump line) :=
  Gathers.seq hleft fun _ => Gathers.seq (gathers_emitJump _ _) fun _ =>
    Gathers.seq (gathers_emit _ _) fun _ => Gathers.seq hright fun _ => gathers_patchJump _

theorem gathers_compileIndex {compiledObject compiledIndex : Compile Unit}
    (hobject : Gathers F compiledObject) (hindex : Gathers F compiledIndex) (object index : Expr)
    (line : Nat) : Gathers F (compileIndex object index compiledObject compiledIndex line) := by
  refine Gathers.seq (gathers_gets _) fun c => ?_
  split
  · exact hindex.emit _ _
  · exact Gathers.seq hobject fun _ => hindex.emit _ _

theorem gathers_compileLiteralPart (s : String) (line : Nat) :
    Gathers F (compileLiteralPart s line) :=
  Gathers.seq (fun _ hc => hc.addConstant trivial) fun _ =>
    Gathers.seq (gathers_gets _) fun _ => gathers_emit _ _

theorem gathers_compileBinOp {left right : Compile Unit} (hleft : Gathers F left)
    (hright : Gathers F right) (op : BinOpKind) (line : Nat) :
    Gathers F (compileBinOp left op right line) := by
  unfold compileBinOp
  split
  · exact Gathers.seq hleft fun _ => hright.emit _ _
  · exact gathers_compileShortCircuit hleft hright _ line

/-! ## Programs -/

mutual

theorem compileStmt_gathers (s : Stmt) (h : ∀ bits ∈ s.floats, F bits) :
    Gathers F (compileStmt s) := by
  cases s with
  | «let» name value line =>
    exact (Gathers.seq (compileExpr_gathers value line h) fun _ => gathers_declareLocal _ _).marked
  | assign name value line =>
    exact (Gathers.seq (compileExpr_gathers value line h) fun _ => gathers_compileAssign _ _).marked
  | indexAssign name index value line =>
    obtain ⟨hindex, hvalue⟩ := List.forall_mem_append.mp h
    exact (gathers_compileIndexAssign (compileExpr_gathers index line hindex)
      (compileExpr_gathers value line hvalue) name line).marked
  | exprStmt e line => exact ((compileExpr_gathers e line h).emit _ _).marked
  | «if» condition thenBody elseBody line =>
    obtain ⟨hcondition, hbodies⟩ := List.forall_mem_append.mp h
    obtain ⟨hthen, helse⟩ := List.forall_mem_append.mp hbodies
    exact (gathers_compileIf (compileExpr_gathers condition line hcondition)
      (compileStmts_gathers thenBody hthen) (compileStmts_gathers elseBody helse) _ line).marked
  | «while» condition body line =>
    obtain ⟨hcondition, hbody⟩ := List.forall_mem_append.mp h
    exact (gathers_compileWhile (compileExpr_gathers condition line hcondition)
      (compileStmts_gathers body hbody) line).marked
  | «for» var iter body line =>
    obtain ⟨hiter, hbody⟩ := List.forall_mem_append.mp h
    exact (gathers_compileFor (compileExpr_gathers iter line hiter)
      (compileStmts_gathers body hbody) var line).marked
  | «break» line => exact (gathers_compileBreak line).marked
  | «continue» line => exact (gathers_compileContinue line).marked
  | fnDef name params body line =>
    exact (gathers_compileFnDef (compileStmts_gathers body h) name params line).marked
  | «return» value line => exact ((compileExpr_gathers value line h).emit _ _).marked
  | «import» path line => exact (gathers_stop _).marked
  | tryCatch tryBody var catchBody line =>
    obtain ⟨htry, hcatch⟩ := List.forall_mem_append.mp h
    exact (gathers_compileTryCatch (compileStmts_gathers tryBody htry)
      (compileStmts_gathers catchBody hcatch) var line).marked

theorem compileStmts_gathers (ss : List Stmt) (h : ∀ bits ∈ stmtsFloats ss, F bits) :
    Gathers F (compileStmts ss) := by
  cases ss with
  | nil => exact gathers_pure ()
  | cons s rest =>
    obtain ⟨hs, hrest⟩ := List.forall_mem_append.mp h
    exact Gathers.seq (compileStmt_gathers s hs) fun _ => compileStmts_gathers rest hrest

theorem compileExpr_gathers (e : Expr) (line : Nat) (h : ∀ bits ∈ e.floats, F bits) :
    Gathers F (compileExpr e line) := by
  cases e with
  | int n => exact gathers_emitInt n line
  | float bits => exact gathers_emitConstant (v := .float bits) (h bits List.mem_cons_self) line
  | str s => exact gathers_emitConstant (v := .str s) trivial line
  | bool b => exact gathers_emitConstant (v := .bool b) trivial line
  | null => exact gathers_emitNull line
  | ident name => exact gathers_compileNameRead name line false
  | binOp left op right =>
    obtain ⟨hleft, hright⟩ := List.forall_mem_append.mp h
    exact gathers_compileBinOp (compileExpr_gathers left line hleft)
      (compileExpr_gathers right line hright) op line
  | unaryOp op e => exact (compileExpr_gathers e line h).emit _ _
  | call callee args =>
    obtain ⟨hcallee, hargs⟩ := List.forall_mem_append.mp h
    refine gathers_compileCall (compileExprs_gathers args line hargs) (fun name => ?_) ?_ _ _ _
    · exact gathers_compileBuiltinCall (compileExprs_gathers args line hargs)
        (compileNth_gathers args 1 line hargs) name args line
    · refine gathers_compileUserCall ?_ (compileExprs_gathers args line hargs) _ line
      split
      · exact gathers_compileNameRead _ line true
      · exact compileExpr_gathers callee line hcallee
  | list items =>
    exact Gathers.seq (gathers_emitConstant (v := .list []) rfl line) fun _ =>
      compileElements_gathers items line h
  | dict pairs =>
    exact Gathers.seq (gathers_emitConstant (v := .dict []) rfl line) fun _ =>
      compilePairs_gathers pairs line h
  | index object index =>
    obtain ⟨hobject, hindex⟩ := List.forall_mem_append.mp h
    exact gathers_compileIndex (compileExpr_gathers object line hobject)
      (compileExpr_gathers index line hindex) object index line
  | lambda params body => exact gathers_compileClosure (compileStmts_gathers body h) _ params line
  | fStr parts => exact (compileParts_gathers parts line h).emit _ _

theorem compileExprs_gathers (es : List Expr) (line : Nat) (h : ∀ bits ∈ exprsFloats es, F bits) :
    Gathers F (compileExprs es line) := by
  cases es with
  | nil => exact gathers_pure ()
  | cons e rest =>
    obtain ⟨he, hrest⟩ := List.forall_mem_append.mp h
    exact Gathers.seq (compileExpr_gathers e line he) fun _ => compileExprs_gathers rest line hrest

theorem compileNth_gathers (es : List Expr) (n line : Nat) (h : ∀ bits ∈ exprsFloats es, F bits) :
    Gathers F (compileNth es n line) := by
  cases es with
  | nil => exact gathers_stop _
  | cons e rest =>
    obtain ⟨he, hrest⟩ := List.forall_mem_append.mp h
    cases n with
    | zero => exact compileExpr_gathers e line he
    | succ n => exact compileNth_gathers rest n line hrest

theorem compileElements_gathers (es : List Expr) (line : Nat)
    (h : ∀ bits ∈ exprsFloats es, F bits) : Gathers F (compileElements es line) := by
  cases es with
  | nil => exact gathers_pure ()
  | cons e rest =>
    obtain ⟨he, hrest⟩ := List.forall_mem_append.mp h
    exact Gathers.seq (compileExpr_gathers e line he) fun _ =>
      Gathers.seq (gathers_emit _ _) fun _ => compileElements_gathers rest line hrest

theorem compilePairs_gathers (pairs : List (Expr × Expr)) (line : Nat)
    (h : ∀ bits ∈ pairsFloats pairs, F bits) : Gathers F (compilePairs pairs line) := by
  cases pairs with
  | nil => exact gathers_pure ()
  | cons e rest =>
    obtain ⟨key, value⟩ := e
    obtain ⟨hpair, hrest⟩ := List.forall_mem_append.mp h
    obtain ⟨hkey, hvalue⟩ := List.forall_mem_append.mp hpair
    exact Gathers.seq (compileExpr_gathers key line hkey) fun _ =>
      Gathers.seq (compileExpr_gathers value line hvalue) fun _ =>
        Gathers.seq (gathers_emit _ _) fun _ => compilePairs_gathers rest line hrest

theorem compileParts_gathers (parts : List FStrExprPart) (line : Nat)
    (h : ∀ bits ∈ partsFloats parts, F bits) : Gathers F (compileParts parts line) := by
  cases parts with
  | nil => exact gathers_pure ()
  | cons part rest =>
    cases part with
    | literal s =>
      exact Gathers.seq (gathers_compileLiteralPart s line) fun _ =>
        compileParts_gathers rest line h
    | expr e =>
      obtain ⟨he, hrest⟩ := List.forall_mem_append.mp h
      exact Gathers.seq (compileExpr_gathers e line he) fun _ =>
        compileParts_gathers rest line hrest

end

/-- The chunk of a program, from a compiler with an empty chunk. -/
theorem compileProgram_literals {program : Program} (h : ∀ bits ∈ stmtsFloats program, F bits)
    {c d : Compiler} {chunk : Chunk} (hc : c.chunk.Literals (Value.IsLiteral F))
    (hrun : (compileProgram program).run c = (.ok chunk, d)) :
    chunk.Literals (Value.IsLiteral F) := by
  obtain ⟨⟨⟩, c', hstmts, hrun⟩ := Proc.bind_run_eq_ok.mp hrun
  have hc' := compileStmts_gathers program h c hc
  rw [hstmts] at hc'
  cases hrun
  exact hc'.congr rfl rfl

end Tsumugi.Bytecode
