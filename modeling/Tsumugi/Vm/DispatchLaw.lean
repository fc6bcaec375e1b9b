import Tsumugi.Vm.OpLaw

/-!
# What an instruction does, whatever the chunk

Every instruction keeps the contract `conduct` of the operations. A builtin that calls
back into the machine has added a frame, so it has ticked when it waits (`Waits`).

Results:
1. `Op.waits_dispatch`, `Op.waits_execute`: the instructions.
2. `Op.waits_resume`: a waiting builtin goes on with the value of its callback.
3. `Op.meets_recover`: an error is caught or returned.
-/

namespace Tsumugi.Bytecode

open Word
open Proc (Meets MeetsFrom Triple)

variable {W : Type}

namespace Op

variable {α β : Type} (natives : Natives W)

/-! ## Calls -/

/-- A value of the machine that an operation leads to is reached with a tick. -/
def Waits {α : Type} (waiting : α → Prop) (r : Except VmStop α) (s t : Vm W) : Prop :=
  Does (Proc.stopOf r) s t ∧ ∀ a, r = .ok a → waiting a → Paced s → Ticked none s t

theorem waits_of_meets {waiting : α → Prop} {m : Op W α} (h : Meets conduct m)
    (hno : ∀ s a t, m.run s = (.ok a, t) → ¬ waiting a) : Proc.Ends (Waits waiting) m := by
  intro s
  refine ⟨h s, fun a hr hw => absurd hw ?_⟩
  exact hno s a (m.run s).2 (Prod.ext hr rfl)

theorem waits_pure {waiting : α → Prop} {a : α} (hno : ¬ waiting a) :
    Proc.Ends (Waits waiting) (pure a : Op W α) :=
  waits_of_meets (Proc.meets_pure a) fun _ _ _ hr => by
    cases hr
    exact hno

theorem waits_stop {waiting : α → Prop} {m : Op W α} (h : Meets conduct m)
    (hno : ∀ s a t, m.run s ≠ (.ok a, t)) : Proc.Ends (Waits waiting) m :=
  waits_of_meets h fun s a t hr => absurd hr (hno s a t)

theorem waits_bind {waiting : β → Prop} {m : Op W α} {f : α → Op W β} (hm : Meets conduct m)
    (hf : ∀ a, Proc.Ends (Waits waiting) (f a)) : Proc.Ends (Waits waiting) (m >>= f) :=
  Proc.ends_bind hm hf
    (fun h h' => ⟨h.trans h'.1, fun a hr hw hs =>
      h.ticked hs (h'.2 a hr hw (h.advance hs).1)⟩) fun h => ⟨h, nofun⟩

/-- A first part that has ticked when it returns a value that waits. -/
theorem waits_bind_ticked {m : Op W α} {f : α → Op W β} {first : α → Prop} {waiting : β → Prop}
    (hm : Proc.Ends (Waits first) m) (hf : ∀ a, Meets conduct (f a))
    (hno : ∀ a, ¬ first a → Proc.Ends (Waits waiting) (f a)) :
    Proc.Ends (Waits waiting) (m >>= f) := by
  intro s
  obtain ⟨hdoes, hticked⟩ := hm s
  rcases h : m.run s with ⟨e | a, t⟩ <;> rw [h] at hdoes hticked
  · rw [Proc.bind_run_error h]
    exact ⟨hdoes, nofun⟩
  · rw [Proc.bind_run_ok h]
    have hrest := hf a t
    refine ⟨hdoes.trans hrest, fun b hr hw hs => ?_⟩
    by_cases hfirst : first a
    · rw [hr] at hrest
      obtain ⟨hlt, hle⟩ := hticked a rfl hfirst hs
      rcases (hrest.advance (hdoes.advance hs).1).2 with ⟨hticks, -⟩ | ⟨hlt', hle'⟩
      · exact ⟨hticks ▸ hlt, .inl (hticks ▸ hle.resolve_right nofun)⟩
      · exact ⟨Nat.lt_trans hlt hlt', watchdogLimit_congr hdoes.config ▸ hle'⟩
    · exact hdoes.ticked hs ((hno a hfirst t).2 b hr hw (hdoes.advance hs).1)

theorem waits_pushCallFrame (f : CallFrame) (line : Nat) :
    Proc.Ends (Waits fun _ => True) (pushCallFrame f line : Op W Unit) := fun s =>
  ⟨(ends_pushCallFrame f line s).1, fun _ hr _ hs => (ends_pushCallFrame f line s).2 hr hs⟩

/-- `call_fn_value` ticks when it starts a callback. -/
theorem waits_callFnValue (builtin : String) (func arg : Value) (line : Nat) :
    Proc.Ends (Waits fun _ => True) (callFnValue builtin func arg line : Op W Nat) := by
  refine waits_bind (meets_countStep line) fun _ => ?_
  refine waits_bind (meets_checkCallDepth line) fun _ => ?_
  cases func with
  | vmFn f =>
    show Proc.Ends _ (if 1 ≠ f.arity then raise _ else _ : Op W Nat)
    by_cases harity : 1 ≠ f.arity
    · rw [if_pos harity]
      exact waits_stop (meets_raise _) fun _ _ _ => nofun
    · rw [if_neg harity]
      refine waits_bind (Proc.meets_gets _) fun s => ?_
      refine waits_bind (meets_push _) fun _ => waits_bind (meets_push _) fun _ => ?_
      exact waits_bind_ticked (waits_pushCallFrame _ line) (fun _ => Proc.meets_pure _)
        fun _ hno => absurd trivial hno
  | _ => exact waits_stop (meets_raise _) fun _ _ _ => nofun

/-- A builtin that waits for its callback. -/
def Progress.IsWaiting : Progress → Prop
  | .done _ => False
  | .waiting .. => True

theorem meets_finishCallback (callback : Callback) (result : List Value) (line : Nat) :
    Meets conduct (finishCallback natives callback result line) := by
  cases callback with
  | map =>
    refine Proc.meets_bind (meets_check _) fun _ => ?_
    exact Proc.meets_bind (meets_frugal (natives.frugal_newList _) line) fun _ => Proc.meets_pure _
  | filter =>
    exact Proc.meets_bind (meets_frugal (natives.frugal_newList _) line) fun _ => Proc.meets_pure _
  | each => exact Proc.meets_pure _

theorem waits_advance (callback : Callback) (func : Value) (rest result : List Value)
    (line : Nat) : Proc.Ends (Waits Progress.IsWaiting)
      (advance natives callback func rest result line) := by
  cases rest with
  | nil =>
    exact waits_bind (meets_finishCallback natives callback result line) fun _ => waits_pure nofun
  | cons item rest =>
    exact waits_bind_ticked (waits_callFnValue _ func item line) (fun _ => Proc.meets_pure _)
      fun _ hno => absurd trivial hno

theorem meets_collect (call : HostCall) (v : Value) :
    Meets conduct (collect call v : Op W (List Value)) := by
  unfold collect
  cases call.callback with
  | map => exact Proc.meets_bind (meets_checkCollection _ _) fun _ => Proc.meets_pure _
  | filter =>
    exact Proc.meets_ite (Proc.meets_bind (meets_checkCollection _ _) fun _ => Proc.meets_pure _)
      (Proc.meets_pure _)
  | each => exact Proc.meets_pure _

theorem waits_resume (call : HostCall) (v : Value) :
    Proc.Ends (Waits Progress.IsWaiting) (resume natives call v) :=
  waits_bind (meets_collect call v) fun _ => waits_advance natives _ _ _ _ _

/-- The arity of a callback builtin has been checked when its arguments are read. -/
theorem checkArityCount_ok {name : String} {actual expected line : Nat}
    (h : checkArityCount name actual expected line = .ok ()) : actual = expected := by
  unfold checkArityCount at h
  split at h
  · cases h
  · exact Decidable.not_not.mp ‹_›

theorem waits_execBuiltin (name : String) (args : List Value) (line : Nat) :
    Proc.Ends (Waits Progress.IsWaiting) (execBuiltin natives name args line) := by
  unfold execBuiltin
  cases Callback.ofName name with
  | none =>
    exact waits_bind (meets_native fun o => (natives.frugal_execBuiltin _ _ _ o).1)
      fun _ => waits_pure nofun
  | some callback =>
    rcases harity : checkArityCount name args.length 2 line with e | ⟨⟩
    · exact waits_stop (meets_raise e) fun _ _ _ => nofun
    · refine waits_bind (Proc.meets_pure ()) fun _ => ?_
      match args, checkArityCount_ok harity with
      | [.list items, func], _ => exact waits_advance natives callback func items [] line
      | [.int _, _], _ | [.float _, _], _ | [.str _, _], _ | [.bool _, _], _ | [.null, _], _
      | [.dict _, _], _ | [.error .., _], _ | [.fn _, _], _ | [.vmFn _, _], _ =>
        exact waits_stop (meets_raise _) fun _ _ _ => nofun

/-! ## Instructions -/

theorem meets_trackResult (v : Value) (line : Nat) :
    Meets conduct (trackResult natives v line) :=
  Proc.meets_bind (meets_frugal (natives.frugal_trackResult v) line) fun _ => Proc.meets_pure v

theorem meets_loadConst (index line : Nat) : Meets conduct (loadConst natives index line) := by
  refine Proc.meets_bind (meets_constant index line) fun v => ?_
  have htracked : Meets conduct (do
      let v ← trackResult natives v line
      push v : Op W Unit) :=
    Proc.meets_bind (meets_trackResult natives v line) fun v => meets_push v
  cases v with
  | str _ | list _ | dict _ => exact htracked
  | _ => exact meets_push _

theorem meets_trackSum (op : BinOpKind) (v : Value) (line : Nat) :
    Meets conduct (trackSum natives op v line) :=
  Proc.meets_ite (meets_trackResult natives v line) (Proc.meets_pure v)

theorem meets_binary (op : BinOpKind) (line : Nat) : Meets conduct (binary natives op line) := by
  refine Proc.meets_bind (meets_pop natives line) fun right => ?_
  refine Proc.meets_bind (meets_pop natives line) fun left => ?_
  refine Proc.meets_bind (meets_check _) fun v => ?_
  exact Proc.meets_bind (meets_trackSum natives op v line) fun v => meets_push v

theorem meets_equality (negated : Bool) (line : Nat) :
    Meets conduct (equality natives negated line) := by
  refine Proc.meets_bind (meets_pop natives line) fun right => ?_
  refine Proc.meets_bind (meets_pop natives line) fun left => ?_
  exact Proc.meets_bind (meets_frugal (natives.frugal_valuesEqual _ _) line) fun _ => meets_push _

theorem meets_jumpKeep (whenTrue : Bool) (target line : Nat) :
    Meets conduct (jumpKeep whenTrue target line : Op W Unit) :=
  Proc.meets_bind (meets_peek _ _) fun _ => Proc.meets_ite (meets_setIp _ _) (Proc.meets_pure _)

theorem meets_captureCell (c : CaptureDesc) (line : Nat) :
    Meets conduct (captureCell natives c line) := by
  cases c with
  | localSlot slot =>
    refine Proc.meets_bind (meets_ensureLocalCell natives slot line) fun _ => ?_
    exact Proc.meets_bind (meets_frame line) fun _ =>
      Proc.meets_bind (Proc.meets_gets _) fun _ => Proc.meets_pure _
  | upvalue index =>
    exact Proc.meets_bind (meets_upvalueCell index line) fun _ =>
      Proc.meets_bind (meets_frame line) fun _ => Proc.meets_pure _

theorem meets_captureAll (line : Nat) (captures : List CaptureDesc) :
    Meets conduct (captureAll natives line captures) := by
  induction captures with
  | nil => exact Proc.meets_pure _
  | cons c rest ih =>
    exact Proc.meets_bind (meets_captureCell natives c line) fun _ =>
      Proc.meets_bind ih fun _ => Proc.meets_pure _

theorem meets_allocateFunctionId (line : Nat) :
    Meets conduct (allocateFunctionId line : Op W Nat) := by
  refine Proc.meets_bind (Proc.meets_gets _) fun s => ?_
  cases checkedAdd s.nextFunctionId 1 with
  | none => exact meets_raise _
  | some next =>
    refine Proc.meets_bind (Proc.meets_modify fun s => ?_) fun _ => Proc.meets_pure _
    exact .still no_panic rfl rfl (List.suffix_refl _) rfl rfl rfl

theorem meets_makeClosure (index line : Nat) : Meets conduct (makeClosure natives index line) := by
  refine Proc.meets_bind (meets_frame line) fun f => ?_
  refine Proc.meets_bind (meets_expect _ _ _) fun p => ?_
  refine Proc.meets_bind (meets_captureAll natives line _) fun cells => ?_
  refine Proc.meets_bind (meets_allocateFunctionId line) fun fnId => ?_
  exact Proc.meets_bind (meets_frugal (natives.frugal_newVmFnHeader _) line) fun _ => meets_push _

theorem meets_validateCall (argCount line : Nat) :
    Meets conduct (validateCall argCount line : Op W Unit) := by
  refine Proc.meets_bind (meets_peek _ _) fun v => ?_
  cases v with
  | vmFn f => exact Proc.meets_ite (meets_raise _) (Proc.meets_pure _)
  | _ => exact meets_raise _

theorem meets_call (argCount line : Nat) : Meets conduct (call argCount line : Op W Unit) := by
  refine Proc.meets_bind (meets_checkCallDepth line) fun _ => ?_
  refine Proc.meets_bind (Proc.meets_gets _) fun s => ?_
  show Meets conduct (if s.stack.length < argCount + 1 then _ else _ : Op W Unit)
  by_cases hlen : s.stack.length < argCount + 1
  · rw [if_pos hlen]
    exact meets_internalError _ _
  · rw [if_neg hlen]
    -- the callee is below its arguments, so it is there
    have hpos : s.stack.length - (argCount + 1) < s.stack.length := by omega
    simp only [List.getElem?_eq_getElem hpos]
    cases s.stack[s.stack.length - (argCount + 1)].value with
    | vmFn f => exact Proc.meets_ite (meets_raise _) (meets_pushCallFrame _ _)
    | _ => exact meets_raise _

theorem meets_renderAll (line : Nat) (values : List Value) :
    Meets conduct (renderAll natives line values) := by
  induction values with
  | nil => exact Proc.meets_pure _
  | cons v rest ih =>
    exact Proc.meets_bind (meets_frugal (natives.frugal_renderDisplay v) line) fun _ =>
      Proc.meets_bind ih fun _ => Proc.meets_pure _

theorem meets_print (argCount line : Nat) : Meets conduct (print natives argCount line) := by
  refine Proc.meets_bind (meets_requireStackLen _ _) fun _ => ?_
  refine Proc.meets_bind (meets_popMany natives line argCount) fun values => ?_
  refine Proc.meets_bind (meets_renderAll natives line _) fun output => ?_
  exact meets_native fun o => (natives.frugal_print _ _ o).1

theorem meets_dropCells (count line : Nat) : Meets conduct (dropCells count line : Op W Unit) :=
  Proc.meets_bind (Proc.meets_gets _) fun _ => Proc.meets_bind (meets_frame line) fun _ =>
    meets_onFrame fun _ => rfl

theorem meets_popValue (line : Nat) : Meets conduct (popValue natives line) :=
  Proc.meets_bind (meets_dropCells 1 line) fun _ =>
    Proc.meets_bind (meets_pop natives line) fun _ => Proc.meets_pure _

theorem meets_popN (count line : Nat) : Meets conduct (popN natives count line) := by
  refine Proc.meets_bind (meets_requireStackLen _ _) fun _ => ?_
  refine Proc.meets_bind (meets_dropCells count line) fun _ => ?_
  exact Proc.meets_bind (meets_popMany natives line count) fun _ => Proc.meets_pure _

/-- The top of the stack is saved, then worked on in place. -/
theorem meetsFrom_top {S : List Slot} {m : InPlace W Unit} (hm : m.Meets placeLimits)
    (hS : 0 < S.length) :
    MeetsFrom (Held S (· = S.length - 1)) conduct (atStack (S.length - 1) m) :=
  meetsFrom_atStack hm (Nat.sub_lt hS Nat.one_pos) rfl

theorem length_pos_of_getLast? {S : List Slot} {entry : Slot} (h : S.getLast? = some entry) :
    0 < S.length := by
  cases S with
  | nil => cases h
  | cons _ _ => exact Nat.succ_pos _

/-- What is done with the entry on top of the stack after its checkpoint. -/
theorem meetsFrom_onTop {S : List Slot} {line : Nat} {message : String} {f : Slot → Op W Unit}
    (hf : ∀ entry, 0 < S.length → MeetsFrom (Held S (· = S.length - 1)) conduct (f entry)) :
    MeetsFrom (fun s => s.stack = S) conduct (do
      checkpointStackSlot natives (S.length - 1)
      match S.getLast? with
      | none => internalError line message
      | some entry => f entry : Op W Unit) := by
  rcases hlast : S.getLast? with _ | entry
  · exact (Proc.meets_bind (meets_checkpointStackSlot natives _) fun _ =>
      meets_internalError _ _).meetsFrom
  · have hpos := length_pos_of_getLast? hlast
    exact Proc.meetsFrom_bind (meets_checkpointStackSlot natives _).meetsFrom
      (triple_checkpointStackSlot natives (Nat.sub_lt hpos Nat.one_pos)) fun _ => hf entry hpos

theorem meetsFrom_held_host {S : List Slot} {X : Nat → Prop} {m : Host W Unit} {next : Op W Unit}
    {line : Nat} (hm : Meets conduct (host m line)) (hnext : MeetsFrom (Held S X) conduct next) :
    MeetsFrom (Held S X) conduct (do host m line; next) :=
  Proc.meetsFrom_bind hm.meetsFrom (Proc.triple_of_keeps (keeps_held_host m line)) fun _ => hnext

theorem meets_listPush (line : Nat) : Meets conduct (listPush natives line) := by
  refine Proc.meets_bind (meets_pop natives line) fun value => Proc.meets_read fun _ => ?_
  rintro s rfl
  refine meetsFrom_onTop natives (S := s.stack) (fun entry hpos => ?_) s rfl
  cases entry.value with
  | list items =>
    refine meetsFrom_held_host (meets_checkCollection _ line) (meetsFrom_held_check _ ?_)
    exact meetsFrom_top (limits_listPushTracked natives value line) hpos
  | _ => exact (meets_internalError _ _).meetsFrom

theorem meets_dictInsert (line : Nat) : Meets conduct (dictInsert natives line) := by
  refine Proc.meets_bind (meets_pop natives line) fun value => ?_
  refine Proc.meets_bind (meets_pop natives line) fun key => Proc.meets_read fun _ => ?_
  rintro s rfl
  cases key with
  | str key =>
    refine meetsFrom_onTop natives (S := s.stack) (fun entry hpos => ?_) s rfl
    cases entry.value with
    | dict entries =>
      have hwrite : MeetsFrom (Held s.stack (· = s.stack.length - 1)) conduct (do
          check (value.checkElementDepth line)
          atStack (s.stack.length - 1) (indexSetTracked natives (.dictKey key) value line)) :=
        meetsFrom_held_check _ (meetsFrom_top (limits_indexSetTracked natives _ value line) hpos)
      show MeetsFrom _ conduct (do
        Proc.when (containsKey entries key = false) (checkCollection (entries.length + 1) line)
        _ : Op W Unit)
      unfold Proc.when
      split
      · exact meetsFrom_held_host (meets_checkCollection _ line) hwrite
      · exact hwrite
    | _ => exact (meets_internalError _ _).meetsFrom
  | _ =>
    exact Proc.meets_bind (meets_checkpointStackSlot natives _) (fun _ => meets_raise _) s

theorem meets_toIterList (line : Nat) : Meets conduct (toIterList natives line) := by
  refine Proc.meets_bind (meets_pop natives line) fun v => ?_
  split
  · exact Proc.meets_bind (meets_checkCollection _ line) fun _ => meets_push _
  · cases iterItems v with
    | none => exact meets_raise _
    | some items =>
      exact Proc.meets_bind (meets_checkCollection _ line) fun _ =>
        Proc.meets_bind (meets_frugal (natives.frugal_newList _) line) fun _ => meets_push _

/-- A stack that has been found long enough is. -/
theorem triple_requireStackLen {S : List Slot} (count line : Nat) :
    Triple (fun s => s.stack = S) (requireStackLen count line : Op W Unit)
      fun _ s => s.stack = S ∧ count ≤ S.length := by
  rintro s rfl a t hr
  unfold requireStackLen at hr
  simp only [Proc.bind_run, Proc.gets_run, id] at hr
  split at hr
  · cases hr
  · cases hr
    exact ⟨rfl, Nat.not_lt.mp ‹_›⟩

theorem meets_popUpdate (line : Nat) : Meets conduct (popUpdate natives line) := by
  intro s
  refine Proc.meetsFrom_bind (P := (·.stack = s.stack)) (meets_requireStackLen 1 line).meetsFrom
    (triple_requireStackLen 1 line) (fun _ => Proc.meetsFrom_read fun t ht => ?_) s rfl
  rintro u rfl
  refine Proc.meetsFrom_bind (P := (·.stack = u.stack))
    (meets_checkpointStackSlot natives _).meetsFrom
    (triple_checkpointStackSlot natives (Nat.sub_lt (ht.1 ▸ ht.2) Nat.one_pos)) (fun _ => ?_) u rfl
  exact meetsFrom_top (limits_listPopTracked natives line) (ht.1 ▸ ht.2)

theorem meets_fStrConcat (count line : Nat) : Meets conduct (fStrConcat natives count line) := by
  refine Proc.meets_bind (meets_requireStackLen _ _) fun _ => Proc.meets_read fun s => ?_
  refine Proc.meetsFrom_bind
    (Q := fun _ => Held s.stack fun i => s.stack.length - count ≤ i ∧ i < s.stack.length)
    (meets_checkpointStackRange natives _ _).meetsFrom
    ((triple_checkpointStackRange natives).conseq (fun t ht => by rw [ht]) fun _ _ h => h)
    fun _ => ?_
  refine Proc.meetsFrom_bind (meetsFrom_take fun i hi hlt => ⟨hi, hlt⟩)
    (fun _ _ _ _ _ => trivial) fun _ => Proc.Meets.meetsFrom ?_
  refine Proc.meets_bind (meets_renderAll natives line _) fun parts => ?_
  exact Proc.meets_bind (meets_trackResult natives _ line) fun v => meets_push v

theorem waits_callBuiltin (id : BuiltinId) (argCount line : Nat) :
    Proc.Ends (Waits Progress.IsWaiting) (callBuiltin natives id argCount line) := by
  refine waits_bind (meets_requireStackLen _ _) fun _ => ?_
  exact waits_bind (meets_popMany natives line argCount) fun args => waits_execBuiltin natives _ _ _

/-- An instruction that waits for a callback. -/
def Outcome.IsSuspended : Outcome → Prop
  | .suspended .. => True
  | _ => False

theorem waits_plain {m : Op W Unit} (h : Meets conduct m) :
    Proc.Ends (Waits Outcome.IsSuspended) (plain m) :=
  waits_bind h fun _ => waits_pure nofun

theorem waits_dispatch (op : OpCode) (line : Nat) :
    Proc.Ends (Waits Outcome.IsSuspended) (dispatch natives op line) := by
  have hvalue : ∀ {m : Op W Value}, Meets conduct m → Meets conduct (do let v ← m; push v) :=
    fun h => Proc.meets_bind h fun v => meets_push v
  cases op with
  | loadConst index => exact waits_plain (meets_loadConst natives index line)
  | loadConstRaw index => exact waits_plain (hvalue (meets_constant index line))
  | add | sub | mul | div | mod | lt | gt | ltEq | gtEq =>
    exact waits_plain (meets_binary natives _ line)
  | eq | notEq => exact waits_plain (meets_equality natives _ line)
  | not => exact waits_plain (Proc.meets_bind (meets_pop natives line) fun _ => meets_push _)
  | negate =>
    exact waits_plain (Proc.meets_bind (meets_pop natives line) fun _ => hvalue (meets_check _))
  | getLocal slot => exact waits_plain (hvalue (meets_getLocal slot line))
  | setLocal slot =>
    exact waits_plain (Proc.meets_bind (meets_peek _ _) fun _ => meets_setLocal natives _ _ _)
  | getGlobal name | getGlobalForCall name =>
    exact waits_plain (hvalue (meets_getGlobal name line))
  | setGlobal name =>
    exact waits_plain (Proc.meets_bind (meets_peek _ _) fun _ => meets_setGlobal natives _ _ _)
  | registerGlobal name slot => exact waits_plain (meets_registerGlobal name slot line)
  | jumpIfGlobalDefined name target =>
    exact waits_plain (Proc.meets_bind (Proc.meets_gets _) fun _ =>
      Proc.meets_ite (meets_setIp _ _) (Proc.meets_pure _))
  | requireGlobal name => exact waits_plain (meets_requireGlobal name line)
  | jump target => exact waits_plain (meets_setIp target line)
  | jumpIfFalse target =>
    exact waits_plain (Proc.meets_bind (meets_pop natives line) fun _ =>
      Proc.meets_ite (Proc.meets_pure _) (meets_setIp _ _))
  | jumpIfFalseKeep target | jumpIfTrueKeep target =>
    exact waits_plain (meets_jumpKeep _ target line)
  | loop target =>
    exact waits_plain (Proc.meets_bind (meets_countStep line) fun _ => meets_setIp target line)
  | getUpvalue index =>
    exact waits_plain (Proc.meets_bind (meets_upvalueCell index line) fun _ =>
      Proc.meets_bind (Proc.meets_gets _) fun _ => meets_push _)
  | setUpvalue index =>
    exact waits_plain (Proc.meets_bind (meets_peek _ _) fun _ =>
      Proc.meets_bind (meets_upvalueCell index line) fun _ => meets_assignCell natives _ _)
  | makeClosure index => exact waits_plain (meets_makeClosure natives index line)
  | prepareCall =>
    exact waits_plain (Proc.meets_bind (meets_countStep line) fun _ => meets_checkCallDepth line)
  | validateCall argCount => exact waits_plain (meets_validateCall argCount line)
  | call argCount => exact waits_plain (meets_call argCount line)
  | print argCount => exact waits_plain (meets_print natives argCount line)
  | pop => exact waits_plain (meets_popValue natives line)
  | popN count => exact waits_plain (meets_popN natives count line)
  | lenLocal slot =>
    exact waits_plain (Proc.meets_bind (meets_withLocalRef slot line) fun _ =>
      hvalue (meets_check _))
  | index =>
    exact waits_plain (Proc.meets_bind (meets_pop natives line) fun _ =>
      Proc.meets_bind (meets_pop natives line) fun _ => hvalue (meets_check _))
  | indexLocal slot =>
    exact waits_plain (Proc.meets_bind (meets_pop natives line) fun _ =>
      Proc.meets_bind (meets_withLocalRef slot line) fun _ => hvalue (meets_check _))
  | listPush => exact waits_plain (meets_listPush natives line)
  | dictInsert => exact waits_plain (meets_dictInsert natives line)
  | setIndex target =>
    exact waits_plain (Proc.meets_bind (meets_pop natives line) fun _ =>
      Proc.meets_bind (meets_pop natives line) fun _ => meets_assignIndexBinding natives _ _ _ _)
  | listPushBinding target =>
    exact waits_plain (Proc.meets_bind (meets_pop natives line) fun _ =>
      meets_listPushBinding natives _ _ _)
  | toIterList => exact waits_plain (meets_toIterList natives line)
  | validateBuiltinCall name argCount firstArgIsIdentifier =>
    exact waits_plain (meets_check _)
  | callBuiltin id argCount =>
    refine waits_bind_ticked (waits_callBuiltin natives id argCount line) (fun r => ?_)
      fun r hno => ?_
    · cases r with
      | done v => exact fun s => (waits_plain (meets_push v) s).1
      | waiting call depth => exact Proc.meets_pure _
    · cases r with
      | done v => exact waits_plain (meets_push v)
      | waiting call depth => exact absurd trivial hno
  | popUpdate => exact waits_plain (meets_popUpdate natives line)
  | fStrConcat count => exact waits_plain (meets_fStrConcat natives count line)
  | returnValue | «return» | setupTry _ | teardownTry =>
    exact waits_stop (meets_internalError _ _) fun _ _ _ => nofun

/-! ## One iteration -/

/-- The frames below the running one are those that are left. -/
theorem meets_leaveFrame (line : Nat) : Meets conduct (leaveFrame natives line) := by
  refine Proc.meets_read fun s => ?_
  rcases hframes : s.frames with _ | ⟨f, callers⟩
  · exact (meets_internalError _ _).meetsFrom
  · refine Proc.meetsFrom_bind (Q := fun _ _ => True) (fun t ht => ?_) (fun _ _ _ _ _ => trivial)
      fun _ => Proc.Meets.meetsFrom ?_
    · subst ht
      refine .still no_panic rfl rfl ?_ rfl rfl rfl
      show callers.map (·.chunk) <:+ t.frames.map (·.chunk)
      rw [hframes]
      exact List.suffix_cons _ _
    · refine Proc.meets_bind (meets_truncateStack natives f.base) fun _ => ?_
      exact Proc.meets_modify fun _ => .still no_panic rfl rfl (List.suffix_refl _) rfl rfl rfl

theorem waits_execute (op : OpCode) (stopDepth line : Nat) :
    Proc.Ends (Waits Outcome.IsSuspended) (execute natives op stopDepth line) := by
  have hhandlers : ∀ f : Vm W → List TryHandler, Proc.Ends (Waits Outcome.IsSuspended) (do
      Proc.modify fun s => { s with tryHandlers := f s }
      pure Outcome.next : Op W Outcome) := fun f =>
    waits_bind (Proc.meets_modify fun _ =>
      .still no_panic rfl rfl (List.suffix_refl _) rfl rfl rfl) fun _ => waits_pure id
  have hdispatch := waits_dispatch natives op line
  cases op with
  | returnValue =>
    refine waits_bind (meets_pop natives line) fun v => ?_
    refine waits_bind (meets_leaveFrame natives line) fun _ => ?_
    refine waits_bind (Proc.meets_gets _) fun s => ?_
    split
    · exact waits_pure id
    · exact waits_bind (meets_push v) fun _ => waits_pure id
  | «return» =>
    refine waits_bind (Proc.meets_gets _) fun s => ?_
    split
    · exact waits_pure id
    · exact waits_bind (meets_leaveFrame natives line) fun _ =>
        waits_bind (meets_push _) fun _ => waits_pure id
  | setupTry catchIp => exact hhandlers _
  | teardownTry => exact hhandlers _
  | _ => exact hdispatch

/-! ## Errors -/

/-- A stop that a handler may catch. -/
def Caught (stop : VmStop) : Prop :=
  ∃ e, stop.error? = some e ∧ ErrorKind.isUncatchable e.kind = false

theorem error?_traced (frames : List CallFrame) (stop : VmStop) :
    (stop.traced frames).error? = stop.error?.map (·.withTrace (traceOf frames)) := by
  cases stop <;> rfl

theorem caught_traced {frames : List CallFrame} {stop : VmStop} :
    Caught (stop.traced frames) ↔ Caught stop := by
  unfold Caught
  rw [error?_traced]
  cases stop.error? with
  | none => simp
  | some e => simp

theorem traced_ne_panic {frames : List CallFrame} {stop : VmStop} (h : stop ≠ .panic) :
    stop.traced frames ≠ .panic := by
  cases stop with
  | error e | guard e | watchdog e => exact nofun
  | panic => exact absurd rfl h

theorem meets_abandon {stop : VmStop} (h : stop ≠ .panic) :
    Meets conduct (abandon stop : Op W α) :=
  Proc.meets_bind (Proc.meets_gets _) fun _ =>
    Proc.meets_stop fun _ => .refl fun heq => traced_ne_panic h (Option.some.inj heq)

/-- Where an iteration ends that leaves the machine running: it has ticked, or the running
frame is another one or has moved forward. -/
def Moves (it : Iteration) (r : Except VmStop Unit) (s t : Vm W) : Prop :=
  Does (Proc.stopOf r) s t ∧ (r = .ok () → Paced s → Ticked none s t ∨ stalled it t = false)

theorem moves_bind {it : Iteration} {m : Op W α} {f : α → Op W Unit} (hm : Meets conduct m)
    (hf : ∀ a, Proc.Ends (Moves it) (f a)) : Proc.Ends (Moves it) (m >>= f) :=
  Proc.ends_bind hm hf
    (fun h h' => ⟨h.trans h'.1, fun hr hs =>
      (h'.2 hr (h.advance hs).1).imp_left fun ht => h.ticked hs ht⟩) fun h => ⟨h, nofun⟩

/-- A machine that goes on after an iteration has ticked, or it has moved forward. -/
theorem moves_watchdogCheck (it : Iteration) :
    Proc.Ends (Moves it) (watchdogCheck it : Op W Unit) := by
  intro s
  unfold watchdogCheck
  rw [Proc.bind_run_ok (Proc.gets_run _ _)]
  by_cases hstalled : stalled it s = true
  · rw [id, if_pos hstalled]
    obtain ⟨hdoes, hticked⟩ := ends_watchdogTick it.line s
    rcases h : (watchdogTick it.line).run s with ⟨stop | ⟨⟩, t⟩ <;> rw [h] at hdoes hticked
    · rw [Proc.bind_run_ok (Proc.attempt_run_some h rfl)]
      refine ⟨⟨hdoes.config, fun hs => ?_, hdoes.journal, ?_⟩, nofun⟩
      · refine (hdoes.advance hs).imp_right fun ha => ha.imp_right fun ⟨hlt, hle⟩ =>
          ⟨hlt, hle.imp_right ?_⟩
        rintro ⟨e, hstop, hkind⟩
        cases hstop
        exact ⟨_, rfl, by simpa using hkind⟩
      · have hsafe : stop ≠ .panic := fun heq => hdoes.safe (congrArg some heq)
        exact fun heq => traced_ne_panic hsafe (Option.some.inj heq)
    · rw [Proc.bind_run_ok (Proc.attempt_run_ok h)]
      exact ⟨hdoes, fun _ hs => .inl (hticked rfl hs)⟩
  · rw [id, if_neg hstalled]
    exact ⟨.refl nofun, fun _ _ => .inr (Bool.eq_false_of_not_eq_true hstalled)⟩

theorem meets_enterCatch (h : TryHandler) (handlers : List TryHandler) (e : TsumugiError)
    (line : Nat) : Meets conduct (enterCatch natives h handlers e line) := by
  refine Proc.meets_bind (Proc.meets_modify fun s => ?_) fun _ => ?_
  · refine .still no_panic rfl rfl ?_ rfl rfl rfl
    show (s.frames.drop _).map (·.chunk) <:+ s.frames.map (·.chunk)
    rw [List.map_drop]
    exact List.drop_suffix _ _
  · refine Proc.meets_bind (meets_onFrame fun _ => rfl) fun _ => ?_
    refine Proc.meets_bind (meets_truncateStack natives _) fun _ => ?_
    exact Proc.meets_bind (meets_push _) fun _ => meets_setIp _ _

/-- A stop that is not caught is returned from where it happened. -/
theorem recover_uncaught (it : Iteration) {stop : VmStop} (h : ¬ Caught stop) (s : Vm W) :
    ∃ frames, (recover natives it stop).run s = (.error (stop.traced frames), s) := by
  unfold recover
  rw [Proc.bind_run_ok (Proc.gets_run _ _)]
  rcases he : stop.error? with _ | e
  · cases stop <;> first | exact ⟨[], rfl⟩ | cases he
  · have hkind : ErrorKind.isUncatchable e.kind = true := by
      by_contra hk
      exact h ⟨e, he, Bool.eq_false_of_not_eq_true hk⟩
    refine ⟨s.frames, ?_⟩
    show (if ErrorKind.isUncatchable e.kind = true then abandon stop else _ : Op W Unit).run s = _
    rw [if_pos hkind]
    rfl

/-- A machine that goes on after an error has ticked, or it has moved forward. -/
theorem moves_recover (it : Iteration) {stop : VmStop} (hstop : stop ≠ .panic) :
    Proc.Ends (Moves it) (recover natives it stop) := by
  have habandon : Proc.Ends (Moves it) (abandon stop : Op W Unit) := fun s =>
    ⟨meets_abandon hstop s, nofun⟩
  refine moves_bind (Proc.meets_gets _) fun s => ?_
  rcases he : stop.error? with _ | e
  · cases stop <;> first | exact absurd rfl hstop | cases he
  · show Proc.Ends _ (if ErrorKind.isUncatchable e.kind = true then abandon stop else _ : Op W Unit)
    split
    · exact habandon
    · rcases s.tryHandlers with _ | ⟨h, handlers⟩
      · exact habandon
      · show Proc.Ends _ (if it.stopDepth < h.frameDepth then _ else _ : Op W Unit)
        split
        · exact moves_bind (meets_enterCatch natives h handlers e it.line)
            fun _ => moves_watchdogCheck it
        · exact habandon

end Op

end Tsumugi.Bytecode
