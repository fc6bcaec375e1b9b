import Tsumugi.Vm.CompilerLaw

/-!
# When the compiler panics

A compilation ends with a chunk, with an error of the language or with a panic. Which of
the three it is can be read off the program, with two things known of the place: whether
the name `push` is bound by a declaration there, and whether a loop is open. Operands have
no width, the jumps that wait are always still jumps when they get their target, and a loop
that is opened is closed by the statement that opened it.

Results:
1. `compileStmts_goes`: the compiler ends as `stmtsFate` says.
2. `compile_panics_iff`: the panics are the calls `push(x)` with a name for their only
   argument.
-/

namespace Tsumugi.Bytecode

/-! ## The fate of a program -/

/-- How a compilation ends. -/
inductive Fate
  | fine
  | fails
  | panics
deriving DecidableEq, Repr

namespace Fate

/-- The second part is only reached when the first is fine. -/
def andThen : Fate → Fate → Fate
  | fine, f => f
  | fails, _ => fails
  | panics, _ => panics

@[simp] theorem fine_andThen (f : Fate) : fine.andThen f = f := rfl

@[simp] theorem andThen_fine (f : Fate) : f.andThen fine = f := by cases f <;> rfl

theorem andThen_assoc (f g h : Fate) : (f.andThen g).andThen h = f.andThen (g.andThen h) := by
  cases f <;> rfl

@[simp] theorem andThen_self (f : Fate) : f.andThen f = f := by cases f <;> rfl

end Fate

/-- `push(x)`. -/
def isBarePush (callee : Expr) (args : List Expr) : Bool :=
  match callee, args with
  | .ident "push", [.ident _] => true
  | _, _ => false

/-- The statement declares `push`. -/
def declaresPush : Stmt → Bool
  | .«let» name _ _ | .fnDef name _ _ _ => name == "push"
  | _ => false

mutual

/-- What becomes of a statement, where `push` is `bound` and a loop is open. -/
def stmtFate (bound inLoop : Bool) : Stmt → Fate
  | .«let» _ value _ | .assign _ value _ | .«return» value _ | .exprStmt value _ =>
    exprFate bound value
  | .indexAssign _ index value _ => (exprFate bound index).andThen (exprFate bound value)
  | .«if» condition thenBody elseBody _ =>
    (exprFate bound condition).andThen
      ((stmtsFate bound inLoop thenBody).andThen (stmtsFate bound inLoop elseBody))
  | .«while» condition body _ => (exprFate bound condition).andThen (stmtsFate bound true body)
  | .«for» var iter body _ =>
    (exprFate bound iter).andThen (stmtsFate (bound || var == "push") true body)
  | .fnDef name params body _ =>
    stmtsFate (bound || (name == "push" || params.any (· == "push"))) false body
  | .«break» _ | .«continue» _ => if inLoop then .fine else .fails
  | .«import» _ _ => .fails
  | .tryCatch tryBody var catchBody _ =>
    (stmtsFate bound inLoop tryBody).andThen (stmtsFate (bound || var == "push") inLoop catchBody)

def stmtsFate (bound inLoop : Bool) : List Stmt → Fate
  | [] => .fine
  | s :: rest =>
    (stmtFate bound inLoop s).andThen (stmtsFate (bound || declaresPush s) inLoop rest)

/-- What becomes of an expression. -/
def exprFate (bound : Bool) : Expr → Fate
  | .int _ | .float _ | .str _ | .bool _ | .null | .ident _ => .fine
  | .binOp left _ right => (exprFate bound left).andThen (exprFate bound right)
  | .unaryOp _ e => exprFate bound e
  | .call callee args =>
    if isBarePush callee args && !bound then .panics
    else (exprFate bound callee).andThen (exprsFate bound args)
  | .list items => exprsFate bound items
  | .dict pairs => pairsFate bound pairs
  | .index object index => (exprFate bound object).andThen (exprFate bound index)
  | .lambda params body => stmtsFate (bound || params.any (· == "push")) false body
  | .fStr parts => partsFate bound parts

def exprsFate (bound : Bool) : List Expr → Fate
  | [] => .fine
  | e :: rest => (exprFate bound e).andThen (exprsFate bound rest)

def pairsFate (bound : Bool) : List (Expr × Expr) → Fate
  | [] => .fine
  | (k, v) :: rest =>
    (exprFate bound k).andThen ((exprFate bound v).andThen (pairsFate bound rest))

def partsFate (bound : Bool) : List FStrExprPart → Fate
  | [] => .fine
  | .literal _ :: rest => partsFate bound rest
  | .expr e :: rest => (exprFate bound e).andThen (partsFate bound rest)

end

/-! ## Total correctness -/

/-- From `c`, the compilation ends as `fate` says; a return is in `Q`. -/
def Ends {α : Type} (m : Compile α) (c : Compiler) (fate : Fate) (Q : α → Compiler → Prop) :
    Prop :=
  match fate with
  | .fine => ∃ a d, m.run c = (.ok a, d) ∧ Q a d
  | .fails => ∃ e d, m.run c = (.error (.error e), d)
  | .panics => ∃ d, m.run c = (.error .panic, d)

section Rules

variable {α β : Type} {m : Compile α} {k : α → Compile β} {c : Compiler} {fate fate' : Fate}
  {Q : α → Compiler → Prop} {R : β → Compiler → Prop}

theorem Ends.mono {Q' : α → Compiler → Prop} (h : Ends m c fate Q)
    (hQ : ∀ a d, Q a d → Q' a d) : Ends m c fate Q' := by
  cases fate with
  | fine =>
    obtain ⟨a, d, hm, hq⟩ := h
    exact ⟨a, d, hm, hQ a d hq⟩
  | fails => exact h
  | panics => exact h

theorem Ends.bind (hm : Ends m c fate Q) (hk : ∀ a d, Q a d → Ends (k a) d fate' R) :
    Ends (m >>= k) c (fate.andThen fate') R := by
  cases fate with
  | fine =>
    obtain ⟨a, d, hrun, hq⟩ := hm
    have hrest := hk a d hq
    unfold Ends at hrest ⊢
    rwa [Fate.fine_andThen, Proc.bind_run_ok hrun]
  | fails =>
    obtain ⟨e, d, hrun⟩ := hm
    exact ⟨e, d, Proc.bind_run_error hrun⟩
  | panics =>
    obtain ⟨d, hrun⟩ := hm
    exact ⟨d, Proc.bind_run_error hrun⟩

/-- A first part that is fine. -/
theorem Ends.next (hm : Ends m c .fine Q) (hk : ∀ a d, Q a d → Ends (k a) d fate R) :
    Ends (m >>= k) c fate R :=
  hm.bind hk

/-- A second part that is fine. -/
theorem Ends.last (hm : Ends m c fate Q) (hk : ∀ a d, Q a d → Ends (k a) d .fine R) :
    Ends (m >>= k) c fate R := by
  have h := hm.bind hk
  rwa [Fate.andThen_fine] at h

theorem ends_pure {a : α} (h : Q a c) : Ends (pure a) c .fine Q := ⟨a, c, rfl, h⟩

theorem ends_gets {f : Compiler → α} (h : Q (f c) c) : Ends (Proc.gets f) c .fine Q :=
  ⟨f c, c, rfl, h⟩

theorem ends_modify {f : Compiler → Compiler} {Q : Unit → Compiler → Prop} (h : Q () (f c)) :
    Ends (Proc.modify f) c .fine Q := ⟨(), f c, rfl, h⟩

theorem ends_update {f : Compiler → α × Compiler} (h : Q (f c).1 (f c).2) :
    Ends (Proc.update f) c .fine Q := ⟨(f c).1, (f c).2, rfl, h⟩

/-- The rest may use the compiler it reads. -/
theorem ends_read {k : Compiler → Compile β} (h : Ends (k c) c fate R) :
    Ends (Proc.gets id >>= k) c fate R :=
  (ends_gets (Q := fun a d => a = c ∧ d = c) ⟨rfl, rfl⟩).next fun a d => by
    rintro ⟨rfl, rfl⟩
    exact h

end Rules

/-! ## What a construct leaves alone -/

/-- `patch_jump` can give the instruction at this offset a target. -/
def Patchable (c : Compiler) (offset : Nat) : Prop :=
  ∃ op, c.chunk.code[offset]? = some op ∧ ∀ target, (op.retarget target).isSome

/-- A declaration, or the name of an enclosing function's, binds the name. -/
def boundTo (name : String) (c : Compiler) : Bool :=
  c.locals.any (·.name == name) || (c.enclosingLocals.getD []).any (·.name == name) ||
    (c.enclosingUpvalues.getD []).any (·.name == name)

/-- A loop is open. -/
def Compiler.inLoop (c : Compiler) : Bool := !c.loops.isEmpty

/-- The jumps of the open loops can be patched, the loops began with at most the declared
locals, and no local is deeper than the open scope. -/
structure Sound (c : Compiler) : Prop where
  waiting : ∀ l ∈ c.loops, ∀ offset ∈ l.breaks ++ l.continues, Patchable c offset
  counts : ∀ n ∈ c.loops.map (·.localsCount), n ≤ c.locals.length
  depths : ∀ l ∈ c.locals, l.depth ≤ c.scopeDepth

/-- From `c` to `d` code was added, and locals of the open scope, with `push` among them or not. -/
structure After (declares : Bool) (c d : Compiler) : Prop where
  sound : Sound d
  patchable : ∀ offset, Patchable c offset → Patchable d offset
  size : c.chunk.code.length ≤ d.chunk.code.length
  scopeDepth : d.scopeDepth = c.scopeDepth
  enclosingLocals : d.enclosingLocals = c.enclosingLocals
  enclosingUpvalues : d.enclosingUpvalues = c.enclosingUpvalues
  loops : d.loops.map (·.localsCount) = c.loops.map (·.localsCount)
  locals : ∃ M, d.locals = c.locals ++ M ∧ (∀ l ∈ M, l.depth = c.scopeDepth) ∧
    M.any (·.name == "push") = declares

namespace After

variable {b b' : Bool} {c d e : Compiler}

theorem refl (h : Sound c) : After false c c where
  sound := h
  patchable _ h := h
  size := Nat.le_refl _
  scopeDepth := rfl
  enclosingLocals := rfl
  enclosingUpvalues := rfl
  loops := rfl
  locals := ⟨[], (List.append_nil _).symm, nofun, rfl⟩

theorem trans (h : After b c d) (h' : After b' d e) : After (b || b') c e where
  sound := h'.sound
  patchable offset ho := h'.patchable offset (h.patchable offset ho)
  size := Nat.le_trans h.size h'.size
  scopeDepth := h'.scopeDepth.trans h.scopeDepth
  enclosingLocals := h'.enclosingLocals.trans h.enclosingLocals
  enclosingUpvalues := h'.enclosingUpvalues.trans h.enclosingUpvalues
  loops := h'.loops.trans h.loops
  locals := by
    obtain ⟨M, hM, hdepth, hb⟩ := h.locals
    obtain ⟨N, hN, hdepth', hb'⟩ := h'.locals
    refine ⟨M ++ N, by rw [hN, hM, List.append_assoc], fun l hl => ?_, by rw [List.any_append, hb, hb']⟩
    rcases List.mem_append.mp hl with hl | hl
    · exact hdepth l hl
    · exact (hdepth' l hl).trans h.scopeDepth

/-- Whether `push` is bound after it. -/
theorem bound (h : After b c d) : boundTo "push" d = (boundTo "push" c || b) := by
  obtain ⟨M, hM, -, hb⟩ := h.locals
  rw [boundTo, boundTo, h.enclosingLocals, h.enclosingUpvalues, hM, List.any_append, hb]
  cases c.locals.any (·.name == "push") <;> cases b <;> simp

theorem inLoop (h : After b c d) : d.inLoop = c.inLoop := by
  have hlength := congrArg List.length h.loops
  rw [List.length_map, List.length_map] at hlength
  unfold Compiler.inLoop
  cases hc : c.loops <;> cases hd : d.loops <;> simp_all

/-- The offsets of a loop that stays open. -/
theorem of_sound (h : After b c d) (hs : Sound c) {offset : Nat} {l : LoopState} (hl : l ∈ c.loops)
    (ho : offset ∈ l.breaks ++ l.continues) : Patchable d offset :=
  h.patchable offset (hs.waiting l hl offset ho)

end After

/-- More code, with the same locals and loops. -/
theorem Sound.grow {c d : Compiler} (h : Sound c)
    (hpatchable : ∀ offset, Patchable c offset → Patchable d offset)
    (hsize : c.chunk.code.length ≤ d.chunk.code.length) (hlocals : d.locals = c.locals)
    (hloops : d.loops = c.loops) (hscope : d.scopeDepth = c.scopeDepth)
    (henclosing : d.enclosingLocals = c.enclosingLocals ∧
      d.enclosingUpvalues = c.enclosingUpvalues) : After false c d where
  sound :=
    { waiting := fun l hl offset ho => hpatchable offset (h.waiting l (hloops ▸ hl) offset ho)
      counts := by rw [hloops, hlocals]; exact h.counts
      depths := by rw [hlocals, hscope]; exact h.depths }
  patchable := hpatchable
  size := hsize
  scopeDepth := hscope
  enclosingLocals := henclosing.1
  enclosingUpvalues := henclosing.2
  loops := by rw [hloops]
  locals := ⟨[], by rw [hlocals, List.append_nil], nofun, rfl⟩

theorem Patchable.lt {c : Compiler} {offset : Nat} (h : Patchable c offset) :
    offset < c.chunk.code.length := by
  obtain ⟨op, hop, -⟩ := h
  exact (List.getElem?_eq_some_iff.mp hop).1

theorem patchable_append {c d : Compiler} {ops : List OpCode} {offset : Nat}
    (hcode : d.chunk.code = c.chunk.code ++ ops) (h : Patchable c offset) : Patchable d offset := by
  obtain ⟨op, hop, hjump⟩ := h
  refine ⟨op, ?_, hjump⟩
  rw [hcode, List.getElem?_append_left (List.getElem?_eq_some_iff.mp hop).1, hop]

/-! ## Instructions -/

section Instructions

open Compile

variable {c : Compiler}

theorem ends_emit (h : Sound c) (op : OpCode) (line : Nat) :
    Ends (emit op line) c .fine fun _ d => After false c d :=
  ends_modify <| h.grow (fun _ ho => patchable_append rfl ho)
    (by simp [Chunk.emit]) rfl rfl rfl ⟨rfl, rfl⟩

theorem ends_emitConstant (h : Sound c) (v : Value) (line : Nat) :
    Ends (emitConstant v line) c .fine fun _ d => After false c d := by
  refine (ends_modify (Q := fun _ d => After false c d) ?_).next fun _ d hd => ?_
  · exact h.grow (fun _ ho => ho) (Nat.le_refl _) rfl rfl rfl ⟨rfl, rfl⟩
  · exact ends_read ((ends_emit hd.sound _ line).mono fun _ _ he => hd.trans he)

/-- A jump that waits for its target. -/
theorem ends_emitJump (h : Sound c) {op : OpCode} (hop : ∀ target, (op.retarget target).isSome)
    (line : Nat) :
    Ends (emitJump op line) c .fine fun offset d => After false c d ∧ Patchable d offset := by
  refine (ends_gets (Q := fun offset d => offset = c.chunk.code.length ∧ d = c) ⟨rfl, rfl⟩).next
    fun offset d => ?_
  rintro ⟨rfl, rfl⟩
  have hafter : After false d { d with chunk := d.chunk.emit op line d.locals.length } :=
    h.grow (fun _ ho => patchable_append rfl ho) (by simp [Chunk.emit]) rfl rfl rfl ⟨rfl, rfl⟩
  refine (ends_modify (Q := fun _ e => e = { d with chunk := d.chunk.emit op line d.locals.length })
    rfl).next fun _ e he => ends_pure ?_
  subst he
  exact ⟨hafter, op, by simp [Chunk.emit], hop⟩

theorem ends_patchJump (h : Sound c) {offset : Nat} (ho : Patchable c offset) :
    Ends (patchJump offset) c .fine fun _ d => After false c d := by
  obtain ⟨op, hop, hjump⟩ := ho
  obtain ⟨op', hop'⟩ := Option.isSome_iff_exists.mp (hjump c.chunk.code.length)
  have hrun : (patchJump offset).run c =
      (.ok (), { c with chunk := { c.chunk with code := c.chunk.code.set offset op' } }) := by
    simp only [patchJump, Chunk.patchJump, hop, hop']
  refine ⟨(), _, hrun, h.grow (fun i hi => ?_) (by simp) rfl rfl rfl ⟨rfl, rfl⟩⟩
  obtain ⟨op₁, hop₁, hjump₁⟩ := hi
  by_cases hi : offset = i
  · subst hi
    refine ⟨op', ?_, fun target => ?_⟩
    · exact List.getElem?_set_self (List.getElem?_eq_some_iff.mp hop).1
    · cases op <;> cases hop' <;> rfl
  · exact ⟨op₁, by rw [← hop₁]; exact List.getElem?_set_ne hi, hjump₁⟩

theorem ends_patchAll (h : Sound c) (offsets : List Nat)
    (ho : ∀ offset ∈ offsets, Patchable c offset) :
    Ends (patchAll offsets) c .fine fun _ d => After false c d := by
  induction offsets generalizing c with
  | nil => exact ends_pure (.refl h)
  | cons offset rest ih =>
    refine (ends_patchJump h (ho offset List.mem_cons_self)).next fun _ d hd => ?_
    exact (ih hd.sound fun o hmem => hd.patchable o (ho o (List.mem_cons_of_mem _ hmem))).mono
      fun _ _ he => hd.trans he

theorem ends_mark (h : Sound c) : Ends mark c .fine fun _ d => After false c d :=
  ends_modify <| h.grow (fun _ ho => ho) (Nat.le_refl _) rfl rfl rfl ⟨rfl, rfl⟩

/-- The names a function asks its parent for are not looked at. -/
theorem Sound.ask (h : Sound c) (upvalues : List Upvalue) :
    After false c { c with upvalues } :=
  h.grow (fun _ ho => ho) (Nat.le_refl _) rfl rfl rfl ⟨rfl, rfl⟩

theorem addUpvalue_eq (c : Compiler) (slot : Nat) (isLocal : Bool) (name : String) :
    (c.addUpvalue slot isLocal name).2 =
      { c with upvalues := (c.addUpvalue slot isLocal name).2.upvalues } := by
  unfold Compiler.addUpvalue
  split <;> rfl

theorem resolveUpvalue_eq (c : Compiler) (name : String) :
    (c.resolveUpvalue name).2 = { c with upvalues := (c.resolveUpvalue name).2.upvalues } := by
  unfold Compiler.resolveUpvalue
  split
  · exact addUpvalue_eq ..
  · rfl

theorem ensureUpvalueForAncestor_eq (c : Compiler) (name : String) :
    (c.ensureUpvalueForAncestor name).2 =
      { c with upvalues := (c.ensureUpvalueForAncestor name).2.upvalues } := by
  unfold Compiler.ensureUpvalueForAncestor
  split
  · rfl
  · split <;> exact addUpvalue_eq ..

theorem resolveChildUpvalues_eq (ups : List Upvalue) (c : Compiler) :
    (Compiler.resolveChildUpvalues ups c).2 =
      { c with upvalues := (Compiler.resolveChildUpvalues ups c).2.upvalues } := by
  induction ups generalizing c with
  | nil => rfl
  | cons uv rest ih =>
    unfold Compiler.resolveChildUpvalues
    split
    · exact ih c
    · rw [ih, ensureUpvalueForAncestor_eq]

theorem ends_resolveUpvalue (h : Sound c) (name : String) :
    Ends (resolveUpvalue name) c .fine fun index d => After false c d ∧
      index.isSome = (c.outerBinding name).isSome := by
  refine ends_update ⟨?_, ?_⟩
  · rw [resolveUpvalue_eq]
    exact h.ask _
  · unfold Compiler.resolveUpvalue
    split <;> simp_all

theorem ends_resolveMutationTarget (h : Sound c) (name : String) :
    Ends (resolveMutationTarget name) c .fine fun _ d => After false c d := by
  refine ends_read ?_
  cases c.resolveLocal name with
  | some slot => exact ends_pure (.refl h)
  | none =>
    refine (ends_resolveUpvalue h name).next fun index d hd => ?_
    cases index <;> exact ends_pure hd.1

theorem ends_compileNameRead (h : Sound c) (name : String) (line : Nat) (forCall : Bool) :
    Ends (compileNameRead name line forCall) c .fine fun _ d => After false c d := by
  refine ends_read ?_
  cases c.resolveLocal name with
  | some slot => exact ends_emit h _ line
  | none =>
    refine (ends_resolveUpvalue h name).next fun index d hd => ?_
    cases index with
    | some index => exact (ends_emit hd.1.sound _ line).mono fun _ _ he => hd.1.trans he
    | none =>
      dsimp only
      split <;> exact (ends_emit hd.1.sound _ line).mono fun _ _ he => hd.1.trans he

theorem isSome_outerBinding (c : Compiler) (name : String) :
    (c.outerBinding name).isSome = ((c.enclosingLocals.getD []).any (·.name == name) ||
      (c.enclosingUpvalues.getD []).any (·.name == name)) := by
  have hlocals : (c.enclosingLocals.bind (lastIndex fun l => l.name == name)).isSome =
      (c.enclosingLocals.getD []).any (·.name == name) := by
    cases c.enclosingLocals with
    | none => rfl
    | some locals => exact lastIndex_isSome
  have hupvalues : (c.enclosingUpvalues.bind (firstIndex fun uv => uv.name == name)).isSome =
      (c.enclosingUpvalues.getD []).any (·.name == name) := by
    cases c.enclosingUpvalues with
    | none => rfl
    | some upvalues => simp [firstIndex]
  unfold Compiler.outerBinding
  rw [← hlocals, ← hupvalues]
  split
  next heq => rw [heq]; rfl
  next heq => rw [heq, Option.isSome_map]; rfl

theorem ends_hasStaticBinding (h : Sound c) (name : String) :
    Ends (hasStaticBinding name) c .fine fun found d => After false c d ∧
      found = boundTo name c := by
  refine ends_read ?_
  have hlocal : (c.resolveLocal name).isSome = c.locals.any (·.name == name) := lastIndex_isSome
  cases hslot : c.resolveLocal name with
  | some slot =>
    rw [hslot] at hlocal
    exact ends_pure ⟨.refl h, by rw [boundTo, ← hlocal]; rfl⟩
  | none =>
    rw [hslot] at hlocal
    refine (ends_resolveUpvalue h name).next fun index d hd => ends_pure ⟨hd.1, ?_⟩
    rw [hd.2, isSome_outerBinding, boundTo, ← hlocal, Option.isSome_none, Bool.false_or]

end Instructions

/-! ## Scopes and loops -/

section Scopes

open Compile

variable {c d : Compiler} {b b' : Bool}

/-- A step after what was done already. -/
theorem Ends.since {α : Type} {m : Compile α} {fate : Fate} {Q : α → Compiler → Prop}
    (hd : After b c d) (h : Ends m d fate fun a e => After b' d e ∧ Q a e) :
    Ends m d fate fun a e => After (b || b') c e ∧ Q a e :=
  h.mono fun _ _ he => ⟨hd.trans he.1, he.2⟩

/-- The scope that a block opens. -/
def Compiler.opened (c : Compiler) : Compiler := { c with scopeDepth := c.scopeDepth + 1 }

theorem Sound.opened (h : Sound c) : Sound c.opened where
  waiting := h.waiting
  counts := h.counts
  depths l hl := Nat.le_succ_of_le (h.depths l hl)

theorem ends_addLocal (h : Sound c) (name : String) :
    Ends (addLocal name) c .fine fun _ d => After (name == "push") c d := by
  refine ends_modify
    { sound := ⟨h.waiting, fun n hn => ?_, fun l hl => ?_⟩
      patchable := fun _ ho => ho
      size := Nat.le_refl _
      scopeDepth := rfl
      enclosingLocals := rfl
      enclosingUpvalues := rfl
      loops := rfl
      locals := ⟨[⟨name, c.scopeDepth⟩], rfl, by simp, by simp⟩ }
  · exact Nat.le_trans (h.counts n hn) (by simp [Compiler.addLocal])
  · rcases List.mem_append.mp hl with hl | hl
    · exact h.depths l hl
    · rw [List.mem_singleton.mp hl]
      exact Nat.le_refl _

theorem ends_declareLocal (h : Sound c) (name : String) (line : Nat) :
    Ends (declareLocal name line) c .fine fun _ d => After (name == "push") c d := by
  refine ends_read ((ends_addLocal h name).next fun _ d hd => ?_)
  unfold Proc.when
  split
  · exact (ends_emit hd.sound _ line).mono fun _ _ he => by simpa using hd.trans he
  · exact ends_pure hd

/-- The end of a scope drops the locals that were declared in it. -/
theorem ends_endScope (h : Sound c) (hd : After b c.opened d) (line : Nat) :
    Ends (endScope line) d .fine fun _ e => After false c e := by
  obtain ⟨M, hM, hdepth, -⟩ := hd.locals
  have hscope : d.scopeDepth - 1 = c.scopeDepth := by
    rw [hd.scopeDepth]
    exact Nat.add_sub_cancel ..
  have hkept : keepLocals (d.scopeDepth - 1) d.locals = c.locals := by
    rw [hscope, hM]
    exact keepLocals_append h.depths fun l hl => by rw [hdepth l hl]; exact Nat.lt_succ_self _
  obtain ⟨e, ops, hrun, hcode, hlocals, hloops, hdepth', hencl, hencl'⟩ : ∃ e ops,
      (endScope line).run d = (.ok (), e) ∧ e.chunk.code = d.chunk.code ++ ops ∧
      e.locals = keepLocals (d.scopeDepth - 1) d.locals ∧ e.loops = d.loops ∧
      e.scopeDepth = d.scopeDepth - 1 ∧ e.enclosingLocals = d.enclosingLocals ∧
      e.enclosingUpvalues = d.enclosingUpvalues := by
    by_cases hpop : (keepLocals (d.scopeDepth - 1) d.locals).length < d.locals.length
    · refine ⟨?_, [.popN (d.locals.length - (keepLocals (d.scopeDepth - 1) d.locals).length)], ?run, ?_⟩
      case run =>
        simp only [endScope, Proc.when, Proc.bind_run, Proc.modify_run, Proc.gets_run, id_eq, emit]
        rw [if_pos hpop]
        rfl
      exact ⟨rfl, rfl, rfl, rfl, rfl, rfl⟩
    · refine ⟨?_, [], ?run, ?_⟩
      case run =>
        simp only [endScope, Proc.when, Proc.bind_run, Proc.modify_run, Proc.gets_run, id_eq]
        rw [if_neg hpop]
        rfl
      exact ⟨(List.append_nil _).symm, rfl, rfl, rfl, rfl, rfl⟩
  have hpatch : ∀ offset, Patchable d offset → Patchable e offset :=
    fun _ ho => patchable_append hcode ho
  refine ⟨(), e, hrun, ?_⟩
  exact
    { sound :=
        { waiting := fun l hl o ho => hpatch o (hd.sound.waiting l (hloops ▸ hl) o ho)
          counts := fun n hn => by
            rw [hlocals, hkept]
            rw [hloops, hd.loops] at hn
            exact h.counts n hn
          depths := fun l hl => by
            rw [hlocals, hkept] at hl
            rw [hdepth', hscope]
            exact h.depths l hl }
      patchable := fun o ho => hpatch o (hd.patchable o ho)
      size := Nat.le_trans hd.size (by rw [hcode, List.length_append]; exact Nat.le_add_right ..)
      scopeDepth := by rw [hdepth', hscope]
      enclosingLocals := hencl.trans hd.enclosingLocals
      enclosingUpvalues := hencl'.trans hd.enclosingUpvalues
      loops := by rw [hloops]; exact hd.loops
      locals := ⟨[], by rw [hlocals, hkept, List.append_nil], nofun, rfl⟩ }

/-- A construct that ends as `fate` says of where it stands. -/
def Goes (declares : Bool) (fate : Bool → Bool → Fate) (m : Compile Unit) : Prop :=
  ∀ c, Sound c → Ends m c (fate (boundTo "push" c) c.inLoop) fun _ d => After declares c d

/-- An expression: it does not look at the loops and declares nothing. -/
abbrev Reads (fate : Bool → Fate) (m : Compile Unit) : Prop := Goes false (fun bound _ => fate bound) m

theorem Goes.seq {F F' : Bool → Bool → Fate} {m m' : Compile Unit} (h : Goes b F m)
    (h' : Goes b' F' m') :
    Goes (b || b') (fun p i => (F p i).andThen (F' (p || b) i)) (do m; m') := by
  intro c hc
  refine (h c hc).bind fun _ d hd => ?_
  rw [← hd.bound, ← hd.inLoop]
  exact (h' d hd.sound).mono fun _ _ he => hd.trans he

theorem Reads.seq {F F' : Bool → Fate} {m m' : Compile Unit} (h : Reads F m) (h' : Reads F' m') :
    Reads (fun p => (F p).andThen (F' p)) (do m; m') := by
  have := Goes.seq h h'
  simpa using this

theorem reads_emit (op : OpCode) (line : Nat) : Reads (fun _ => .fine) (emit op line) :=
  fun _ hc => ends_emit hc op line

/-- An instruction after a construct. -/
theorem Goes.emit {F : Bool → Bool → Fate} {m : Compile Unit} (h : Goes b F m) (op : OpCode)
    (line : Nat) : Goes b F (do m; Compile.emit op line) := by
  have := Goes.seq h (reads_emit op line)
  simpa using this

theorem goes_inScope {F : Bool → Bool → Fate} {body : Compile Unit} (h : Goes b F body)
    (line : Nat) : Goes false F (inScope body line) := by
  intro c hc
  refine (ends_modify (Q := fun _ d => d = c.opened) rfl).next fun _ d hd => ?_
  subst hd
  exact (h c.opened hc.opened).last fun _ d hd => ends_endScope hc hd line

/-- A loop that is opened with the locals that are declared. -/
theorem sound_pushLoop (h : Sound c) {l : LoopState} (hb : l.breaks = []) (hk : l.continues = [])
    (hl : l.localsCount = c.locals.length) : Sound { c with loops := l :: c.loops } where
  waiting l' hl' o ho := by
    rcases List.mem_cons.mp hl' with rfl | hl'
    · simp [hb, hk] at ho
    · exact h.waiting l' hl' o ho
  counts n hn := by
    rcases List.mem_cons.mp hn with rfl | hn
    · exact Nat.le_of_eq hl
    · exact h.counts n hn
  depths := h.depths

/-- The loop is closed by the statement that opened it. -/
theorem ends_popLoop {l : LoopState}
    (hd : After b { c with loops := l :: c.loops } d) :
    Ends popLoop d .fine fun l' e => After b c e ∧ ∀ o ∈ l'.breaks, Patchable e o := by
  have hloops := hd.loops
  obtain ⟨l', rest, hd'⟩ : ∃ l' rest, d.loops = l' :: rest := by
    cases hcase : d.loops with
    | nil => simp [hcase] at hloops
    | cons l' rest => exact ⟨l', rest, rfl⟩
  rw [hd', List.map_cons, List.map_cons] at hloops
  have hrest := (List.cons.inj hloops).2
  refine ⟨l', { d with loops := rest }, by simp only [popLoop, hd'], ?_, fun o ho =>
    hd.sound.waiting l' (hd' ▸ List.mem_cons_self) o (List.mem_append_left _ ho)⟩
  obtain ⟨M, hM, hdepth, hb⟩ := hd.locals
  exact
    { sound :=
        { waiting := fun l hl => hd.sound.waiting l (hd' ▸ List.mem_cons_of_mem _ hl)
          counts := fun n hn => hd.sound.counts n (by rw [hd']; exact List.mem_cons_of_mem _ hn)
          depths := hd.sound.depths }
      patchable := hd.patchable
      size := hd.size
      scopeDepth := hd.scopeDepth
      enclosingLocals := hd.enclosingLocals
      enclosingUpvalues := hd.enclosingUpvalues
      loops := hrest
      locals := ⟨M, hM, hdepth, hb⟩ }

/-- A construct, after what was done already. -/
theorem Goes.after {F : Bool → Bool → Fate} {m : Compile Unit} (h : Goes b' F m) (hd : After b c d) :
    Ends m d (F (boundTo "push" c || b) c.inLoop) fun _ e => After b' d e := by
  rw [← hd.bound, ← hd.inLoop]
  exact h d hd.sound

/-- A construct, after a part that declares nothing. -/
theorem Goes.later {F : Bool → Bool → Fate} {m : Compile Unit} (h : Goes b F m)
    (hd : After false c d) :
    Ends m d (F (boundTo "push" c) c.inLoop) fun _ e => After b d e := by
  simpa using h.after hd

theorem goes_marked {F : Bool → Bool → Fate} {m : Compile Unit} (h : Goes b F m) :
    Goes b F (marked m) := by
  have hmark : Goes false (fun _ _ => .fine) mark := fun _ hc => ends_mark hc
  have := Goes.seq hmark (Goes.seq h hmark)
  simpa [marked] using this

/-- The innermost loop is changed, but still began with as many locals. -/
theorem ends_onLoop (h : Sound c) {f : LoopState → LoopState}
    (hcount : ∀ l, (f l).localsCount = l.localsCount)
    (hwait : ∀ l ∈ c.loops, ∀ o ∈ (f l).breaks ++ (f l).continues, Patchable c o) :
    Ends (onLoop f) c .fine fun _ d => After false c d := by
  refine ends_modify ?_
  cases hloops : c.loops with
  | nil => exact .refl h
  | cons l rest =>
    have hmap : (f l :: rest).map (·.localsCount) = c.loops.map (·.localsCount) := by
      rw [hloops, List.map_cons, List.map_cons, hcount]
    exact
      { sound :=
          { waiting := fun l' hl' o ho => by
              rcases List.mem_cons.mp hl' with rfl | hl'
              · exact hwait l (hloops ▸ List.mem_cons_self) o ho
              · exact h.waiting l' (hloops ▸ List.mem_cons_of_mem _ hl') o ho
            counts := fun n hn => h.counts n (hmap ▸ hn)
            depths := h.depths }
        patchable := fun _ ho => ho
        size := Nat.le_refl _
        scopeDepth := rfl
        enclosingLocals := rfl
        enclosingUpvalues := rfl
        loops := hmap
        locals := ⟨[], (List.append_nil _).symm, nofun, rfl⟩ }

end Scopes

/-! ## Statements -/

section Statements

open Compile

variable {b b' : Bool} {F F' : Bool → Bool → Fate} {G : Bool → Fate}

theorem goes_if {condition thenBody elseBody : Compile Unit} (hcond : Reads G condition)
    (hthen : Goes b F thenBody) (helse : Goes b' F' elseBody) {elseEmpty : Bool}
    (hempty : elseEmpty = true → ∀ p i, F' p i = .fine) (line : Nat) :
    Goes false (fun p i => (G p).andThen ((F p i).andThen (F' p i)))
      (compileIf condition thenBody elseBody elseEmpty line) := by
  intro c hc
  refine (hcond c hc).bind fun _ d hd => ?_
  refine (ends_emitJump hd.sound (fun _ => rfl) line).next fun jumpToElse e ⟨he, hjump⟩ => ?_
  have he : After false c e := hd.trans he
  refine ((goes_inScope hthen line).later he).bind fun _ f hf => ?_
  have hjump := hf.patchable _ hjump
  have hf : After false c f := he.trans hf
  cases elseEmpty with
  | true =>
    rw [hempty rfl]
    exact (ends_patchJump hf.sound hjump).mono fun _ _ hg => hf.trans hg
  | false =>
    refine (ends_emitJump hf.sound (fun _ => rfl) line).next fun jumpOverElse g ⟨hg, hover⟩ => ?_
    refine (ends_patchJump hg.sound (hg.patchable _ hjump)).next fun _ k hk => ?_
    have hover := hk.patchable _ hover
    have hk : After false c k := hf.trans (hg.trans hk)
    refine ((goes_inScope helse line).later hk).last fun _ l hl => ?_
    exact (ends_patchJump hl.sound (hl.patchable _ hover)).mono fun _ _ hm => hk.trans (hl.trans hm)

theorem goes_while {condition body : Compile Unit} (hcond : Reads G condition)
    (hbody : Goes b F body) (line : Nat) :
    Goes false (fun p _ => (G p).andThen (F p true)) (compileWhile condition body line) := by
  intro c hc
  refine (ends_gets (Q := fun n d => d = c ∧ n = c.chunk.code.length) ⟨rfl, rfl⟩).next ?_
  rintro loopStart d ⟨rfl, -⟩
  refine (ends_gets (Q := fun n e => e = d ∧ n = d.locals.length) ⟨rfl, rfl⟩).next ?_
  rintro localsCount e ⟨rfl, rfl⟩
  let l : LoopState := ⟨loopStart, [], [], e.locals.length, true, 0, line⟩
  refine (ends_modify (Q := fun _ d => d = { e with loops := l :: e.loops }) rfl).next ?_
  rintro _ _ rfl
  have hopen : Sound { e with loops := l :: e.loops } := sound_pushLoop hc rfl rfl rfl
  refine (hcond _ hopen).bind fun _ f hf => ?_
  refine (ends_emitJump hf.sound (fun _ => rfl) line).next fun exitJump g ⟨hg, hexit⟩ => ?_
  have hg := hf.trans hg
  refine ((goes_inScope hbody line).later hg).last fun _ k hk => ?_
  refine (ends_emit hk.sound _ line).next fun _ m hm => ?_
  have hexit := hm.patchable _ (hk.patchable _ hexit)
  refine (ends_patchJump hm.sound hexit).next fun _ n hn => ?_
  refine (ends_popLoop (hg.trans (hk.trans (hm.trans hn)))).next fun l' o ⟨ho, hbreaks⟩ => ?_
  exact (ends_patchAll ho.sound _ hbreaks).mono fun _ _ hp => ho.trans hp

/-- The hidden locals are not named `push`. -/
theorem ends_forHeader {c : Compiler} (hc : Sound c) {iter : Compile Unit} (hiter : Reads G iter)
    (var : String) (line : Nat) :
    Ends (forHeader var iter line) c (G (boundTo "push" c)) fun _ d =>
      After (var == "push") c d := by
  refine (hiter c hc).last fun _ d hd => ?_
  refine (ends_emit hd.sound _ line).next fun _ e he => ?_
  refine (ends_gets (Q := fun _ f => f = e) rfl).next ?_
  rintro _ _ rfl
  refine (ends_addLocal he.sound "__collection__").next fun _ f hf => ?_
  refine (ends_emitConstant hf.sound _ line).next fun _ g hg => ?_
  refine (ends_gets (Q := fun _ f => f = g) rfl).next ?_
  rintro _ _ rfl
  refine (ends_addLocal hg.sound "__index__").next fun _ k hk => ?_
  refine (ends_emitConstant hk.sound _ line).next fun _ m hm => ?_
  refine (ends_addLocal hm.sound var).next fun _ n hn => ends_pure ?_
  have hfinal := hd.trans (he.trans (hf.trans (hg.trans (hk.trans (hm.trans hn)))))
  simpa using hfinal

theorem ends_forAdvance {c : Compiler} (hc : Sound c) (collectionSlot indexSlot line : Nat) :
    Ends (forAdvance collectionSlot indexSlot line) c .fine fun exitJump d =>
      After false c d ∧ Patchable d exitJump := by
  refine (ends_emit hc _ line).next fun _ d hd => ?_
  refine (ends_emit hd.sound _ line).next fun _ e he => ?_
  refine (ends_emit he.sound _ line).next fun _ f hf => ?_
  refine (ends_emitJump hf.sound (fun _ => rfl) line).next fun exitJump g ⟨hg, hexit⟩ => ?_
  refine (ends_emit hg.sound _ line).next fun _ k hk => ?_
  refine (ends_emit hk.sound _ line).next fun _ l hl => ?_
  refine (ends_emit hl.sound _ line).next fun _ m hm => ends_pure ⟨?_, ?_⟩
  · exact hd.trans (he.trans (hf.trans (hg.trans (hk.trans (hl.trans hm)))))
  · exact hm.patchable _ (hl.patchable _ (hk.patchable _ hexit))

theorem ends_forIncrement {c : Compiler} (hc : Sound c) (indexSlot line : Nat) :
    Ends (forIncrement indexSlot line) c .fine fun _ d => After false c d := by
  refine (ends_emit hc _ line).next fun _ d hd => ?_
  refine (ends_emitConstant hd.sound _ line).next fun _ e he => ?_
  refine (ends_emit he.sound _ line).next fun _ f hf => ?_
  refine (ends_emit hf.sound _ line).next fun _ g hg => ?_
  exact (ends_emit hg.sound _ line).mono fun _ _ hk =>
    hd.trans (he.trans (hf.trans (hg.trans hk)))

theorem ends_patchContinues {c : Compiler} (hc : Sound c) (hopen : c.inLoop = true) :
    Ends patchContinues c .fine fun _ d => After false c d := by
  refine (ends_gets (Q := fun _ d => d = c) rfl).next ?_
  rintro incrementStart _ rfl
  refine (ends_onLoop hc (f := fun l => { l with continueTarget := incrementStart })
    (fun _ => rfl) hc.waiting).next fun _ d hd => ends_read ?_
  cases hloops : d.loops with
  | nil =>
    have := hd.inLoop
    rw [hopen, Compiler.inLoop, hloops] at this
    cases this
  | cons l rest =>
    have hl : l ∈ d.loops := hloops ▸ List.mem_cons_self
    refine (ends_onLoop hd.sound (f := fun l => { l with continues := [] }) (fun _ => rfl)
      fun l' hl' o ho => ?_).next fun _ e he => ?_
    · exact hd.sound.waiting l' hl' o (List.mem_append_left _ (by simpa using ho))
    · have hwait : ∀ o ∈ l.continues, Patchable e o := fun o ho =>
        he.patchable o (hd.sound.waiting l hl o (List.mem_append_right _ ho))
      exact (ends_patchAll he.sound _ hwait).mono fun _ _ hf => hd.trans (he.trans hf)

theorem goes_for {iter body : Compile Unit} (hiter : Reads G iter) (hbody : Goes b F body)
    (var : String) (line : Nat) :
    Goes false (fun p _ => (G p).andThen (F (p || var == "push") true))
      (compileFor var iter body line) := by
  intro c hc
  refine (ends_modify (Q := fun _ d => d = c.opened) rfl).next ?_
  rintro _ _ rfl
  refine (ends_forHeader hc.opened hiter var line).bind ?_
  rintro ⟨collectionSlot, indexSlot⟩ d hd
  refine (ends_gets (Q := fun _ e => e = d) rfl).next ?_
  rintro loopStart e rfl
  refine (ends_gets (Q := fun n f => f = e ∧ n = e.locals.length) ⟨rfl, rfl⟩).next ?_
  rintro localsCount e ⟨rfl, rfl⟩
  let l : LoopState := ⟨0, [], [], e.locals.length, false, 0, line⟩
  refine (ends_modify (Q := fun _ d => d = { e with loops := l :: e.loops }) rfl).next ?_
  rintro _ _ rfl
  have hopen : Sound { e with loops := l :: e.loops } := sound_pushLoop hd.sound rfl rfl rfl
  have hbound : boundTo "push" { e with loops := l :: e.loops } =
      (boundTo "push" c || var == "push") := hd.bound
  refine (ends_forAdvance hopen collectionSlot indexSlot line).next fun exitJump f ⟨hf, hexit⟩ => ?_
  have hblock := (goes_inScope hbody line).later hf
  rw [hbound] at hblock
  refine hblock.last fun _ g hg => ?_
  have hloop : g.inLoop = true := (hf.trans hg).inLoop
  refine (ends_patchContinues hg.sound hloop).next fun _ k hk => ?_
  refine (ends_forIncrement hk.sound indexSlot line).next fun _ m hm => ?_
  refine (ends_emit hm.sound _ line).next fun _ n hn => ?_
  have hexit := hn.patchable _ (hm.patchable _ (hk.patchable _ (hg.patchable _ hexit)))
  refine (ends_patchJump hn.sound hexit).next fun _ o ho => ?_
  have ho := hf.trans (hg.trans (hk.trans (hm.trans (hn.trans ho))))
  refine (ends_popLoop ho).next fun l' q ⟨hq, hbreaks⟩ => ?_
  refine (ends_patchAll hq.sound _ hbreaks).next fun _ r hr => ?_
  exact ends_endScope hc (hd.trans (hq.trans hr)) line

/-- Only the instruction that sets up the handler is changed, and that is no jump. -/
theorem ends_patchSetup {c : Compiler} (hc : Sound c) {offset : Nat}
    (ho : offset < c.chunk.code.length) :
    Ends (patchSetup offset) c .fine fun _ d => After false c d := by
  have hop := List.getElem?_eq_getElem ho
  by_cases hsetup : ∃ t, c.chunk.code[offset] = .setupTry t
  · obtain ⟨t, ht⟩ := hsetup
    rw [ht] at hop
    have hrun : (patchSetup offset).run c = (.ok (), { c with chunk := { c.chunk with
        code := c.chunk.code.set offset (.setupTry c.chunk.code.length) } }) := by
      simp only [patchSetup, hop]
    refine ⟨(), _, hrun, ?_⟩
    refine hc.grow (fun i hi => ?_) (by simp) rfl rfl rfl ⟨rfl, rfl⟩
    obtain ⟨op, hi, hjump⟩ := hi
    have hne : offset ≠ i := by
      rintro rfl
      rw [hop] at hi
      cases hi
      cases hjump 0
    exact ⟨op, by rw [← hi]; exact List.getElem?_set_ne hne, hjump⟩
  · refine ⟨(), c, ?_, .refl hc⟩
    simp only [patchSetup, hop]
    split
    next heq => cases heq
    next t heq => exact absurd ⟨t, Option.some.inj heq⟩ hsetup
    next => rfl

theorem goes_tryCatch {tryBody catchBody : Compile Unit} (htry : Goes b F tryBody)
    (hcatch : Goes b' F' catchBody) (var : String) (line : Nat) :
    Goes false (fun p i => (F p i).andThen (F' (p || var == "push") i))
      (compileTryCatch tryBody var catchBody line) := by
  intro c hc
  refine (ends_gets (Q := fun n d => d = c ∧ n = c.chunk.code.length) ⟨rfl, rfl⟩).next ?_
  rintro setup d ⟨rfl, rfl⟩
  refine (ends_modify (Q := fun _ e => After false d e ∧ d.chunk.code.length < e.chunk.code.length)
    ⟨hc.grow (fun _ ho => patchable_append rfl ho) (by simp [Chunk.emit]) rfl rfl rfl ⟨rfl, rfl⟩,
      by simp [Chunk.emit]⟩).next fun _ e he => ?_
  obtain ⟨he, hsetup⟩ := he
  refine (ends_onLoop he.sound (f := fun l => { l with tryDepth := l.tryDepth + 1 })
    (fun _ => rfl) he.sound.waiting).next fun _ f hf => ?_
  have hfirst := he.trans hf
  refine ((goes_inScope htry line).later hfirst).bind fun _ g hg => ?_
  refine (ends_emit hg.sound _ line).next fun _ k hk => ?_
  refine (ends_onLoop hk.sound (f := fun l => { l with tryDepth := l.tryDepth - 1 })
    (fun _ => rfl) hk.sound.waiting).next fun _ m hm => ?_
  refine (ends_emitJump hm.sound (fun _ => rfl) line).next fun jumpOverCatch n hn => ?_
  obtain ⟨hn, hover⟩ := hn
  have hn := hf.trans (hg.trans (hk.trans (hm.trans hn)))
  refine (ends_patchSetup hn.sound (Nat.lt_of_lt_of_le hsetup hn.size)).next fun _ o ho => ?_
  have hover := ho.patchable _ hover
  have ho : After false d o := he.trans (hn.trans ho)
  refine (ends_modify (Q := fun _ q => q = o.opened) rfl).next ?_
  rintro _ _ rfl
  refine (ends_addLocal ho.sound.opened var).next fun _ q hq => ?_
  have hbody := hcatch.after hq
  rw [show boundTo "push" o.opened = boundTo "push" d from ho.bound.trans (Bool.or_false _),
    show o.opened.inLoop = d.inLoop from ho.inLoop] at hbody
  refine hbody.last fun _ r hr => ?_
  refine (ends_endScope ho.sound (hq.trans hr) line).next fun _ s hs => ?_
  have hover := hs.patchable _ hover
  exact (ends_patchJump hs.sound hover).mono fun _ _ ht => ho.trans (hs.trans ht)

theorem ends_emitTimes {c : Compiler} (hc : Sound c) (op : OpCode) (line n : Nat) :
    Ends (emitTimes op line n) c .fine fun _ d => After false c d := by
  induction n generalizing c with
  | zero => exact ends_pure (.refl hc)
  | succ n ih =>
    exact (ends_emit hc op line).next fun _ d hd => (ih hd.sound).mono fun _ _ he => hd.trans he

theorem ends_leaveBody {c : Compiler} (hc : Sound c) (l : LoopState) (line : Nat) :
    Ends (leaveBody l line) c .fine fun _ d => After false c d := by
  refine (ends_emitTimes hc _ line l.tryDepth).next fun _ d hd => ends_read ?_
  unfold Proc.when
  split
  · exact (ends_emit hd.sound _ line).mono fun _ _ he => hd.trans he
  · exact ends_pure hd

/-- A jump that the innermost loop has to give a target. -/
theorem ends_loopJump {c : Compiler} (hc : Sound c) (line : Nat)
    {f : Nat → LoopState → LoopState} (hcount : ∀ offset l, (f offset l).localsCount = l.localsCount)
    (hadds : ∀ offset l, ∀ o ∈ (f offset l).breaks ++ (f offset l).continues,
      o = offset ∨ o ∈ l.breaks ++ l.continues) :
    Ends (do let offset ← emitJump (.jump 0) line; onLoop (f offset)) c .fine
      fun _ d => After false c d := by
  refine (ends_emitJump hc (fun _ => rfl) line).next fun offset d ⟨hd, hjump⟩ => ?_
  refine (ends_onLoop hd.sound (hcount offset) fun l hl o ho => ?_).mono fun _ _ he => hd.trans he
  rcases hadds offset l o ho with rfl | ho
  · exact hjump
  · exact hd.sound.waiting l hl o ho

theorem goes_break (line : Nat) :
    Goes false (fun _ i => if i then .fine else .fails) (compileBreak line) := by
  intro c hc
  refine ends_read ?_
  unfold Compiler.inLoop
  cases hloops : c.loops with
  | nil => exact ⟨_, _, rfl⟩
  | cons l rest =>
    refine (ends_leaveBody hc l line).next fun _ d hd => ?_
    refine (ends_loopJump hd.sound line (f := fun offset l => { l with breaks := l.breaks ++ [offset] })
      (fun _ _ => rfl) fun offset l o ho => ?_).mono fun _ _ he => hd.trans he
    simp only [List.mem_append, List.mem_singleton] at ho ⊢
    tauto

theorem goes_continue (line : Nat) :
    Goes false (fun _ i => if i then .fine else .fails) (compileContinue line) := by
  intro c hc
  refine ends_read ?_
  unfold Compiler.inLoop
  cases hloops : c.loops with
  | nil => exact ⟨_, _, rfl⟩
  | cons l rest =>
    refine (ends_leaveBody hc l line).next fun _ d hd => ?_
    split
    · exact (ends_emit hd.sound _ _).mono fun _ _ he => hd.trans he
    · refine (ends_loopJump hd.sound line
        (f := fun offset l => { l with continues := l.continues ++ [offset] })
        (fun _ _ => rfl) fun offset l o ho => ?_).mono fun _ _ he => hd.trans he
      simp only [List.mem_append, List.mem_singleton] at ho ⊢
      tauto

theorem goes_let {value : Compile Unit} (h : Reads G value) (name : String) (line : Nat) :
    Goes (name == "push") (fun p _ => G p) (do value; declareLocal name line) := by
  have hdeclare : Goes (name == "push") (fun _ _ => .fine) (declareLocal name line) :=
    fun _ hc => ends_declareLocal hc name line
  have := Goes.seq h hdeclare
  simpa using this

theorem goes_setTarget (target : MutationTarget) (line : Nat) :
    Goes false (fun _ _ => .fine) (emitSetMutationTarget target line) := by
  cases target <;> exact reads_emit _ line

theorem goes_getTarget (target : MutationTarget) (line : Nat) :
    Goes false (fun _ _ => .fine) (emitGetMutationTarget target line) := by
  cases target <;> exact reads_emit _ line

theorem goes_requireTarget (target : MutationTarget) (line : Nat) :
    Goes false (fun _ _ => .fine) (requireTarget target line) := by
  cases target with
  | globalName name => exact reads_emit _ line
  | localSlot slot => exact fun _ hc => ends_pure (.refl hc)
  | upvalue index => exact fun _ hc => ends_pure (.refl hc)

/-- Something is done with the place of a variable. -/
theorem goes_target {name : String} {k : MutationTarget → Compile Unit}
    (hk : ∀ target, Goes b F (k target)) :
    Goes b F (resolveMutationTarget name >>= k) := by
  intro c hc
  refine (ends_resolveMutationTarget hc name).next fun target d hd => ?_
  exact ((hk target).later hd).mono fun _ _ he => by simpa using hd.trans he

theorem goes_assign {value : Compile Unit} (h : Reads G value) (name : String) (line : Nat) :
    Goes false (fun p _ => G p) (do value; compileAssign name line) := by
  have hset : Goes false (fun _ _ => .fine) (compileAssign name line) :=
    goes_target fun target => (goes_setTarget target line).emit .pop line
  have := Goes.seq h hset
  simpa using this

theorem goes_indexAssign {index value : Compile Unit} {G' : Bool → Fate} (hindex : Reads G index)
    (hvalue : Reads G' value) (name : String) (line : Nat) :
    Goes false (fun p _ => (G p).andThen (G' p)) (compileIndexAssign name index value line) := by
  refine goes_target fun target => ?_
  have := Goes.seq (goes_requireTarget target line)
    (Goes.seq hindex (Goes.emit hvalue (.setIndex target) line))
  simpa using this

end Statements

/-! ## Functions and calls -/

section Calls

open Compile

variable {b : Bool} {F : Bool → Bool → Fate} {G G' : Bool → Fate}

theorem Reads.seq_fine {m m' : Compile Unit} (h : Reads G m) (h' : Reads (fun _ => .fine) m') :
    Reads G (do m; m') := by
  have := Reads.seq h h'
  simpa using this

theorem Reads.fine_seq {m m' : Compile Unit} (h : Reads (fun _ => .fine) m) (h' : Reads G m') :
    Reads G (do m; m') :=
  Reads.seq h h'

theorem reads_emitConstant (v : Value) (line : Nat) :
    Reads (fun _ => .fine) (emitConstant v line) :=
  fun _ hc => ends_emitConstant hc v line

theorem reads_compileNameRead (name : String) (line : Nat) (forCall : Bool) :
    Reads (fun _ => .fine) (compileNameRead name line forCall) :=
  fun _ hc => ends_compileNameRead hc name line forCall

theorem any_addAncestors (name : String) (vars ups : List Upvalue) :
    (Compiler.addAncestors vars ups).any (·.name == name) =
      (vars.any (·.name == name) || ups.any (·.name == name)) := by
  induction ups generalizing vars with
  | nil => simp [Compiler.addAncestors]
  | cons uv rest ih =>
    rw [Compiler.addAncestors, ih, List.any_cons]
    split
    next hmem =>
      cases hname : uv.name == name with
      | false => rw [Bool.false_or]
      | true =>
        rw [eq_of_beq hname] at hmem
        simp [hmem]
    next => simp [Bool.or_assoc]

/-- What a function sees of its parent is what the parent sees. -/
theorem boundTo_newEnclosed (name : String) (c : Compiler) (params : List String)
    (fnName : String) {child : Compiler}
    (hlocals : child.locals = ⟨fnName, 0⟩ :: params.map (⟨·, 0⟩))
    (houter : child.enclosingLocals = some c.locals)
    (hnames : child.enclosingUpvalues = some c.buildAncestorVars) :
    boundTo name child = (boundTo name c || (fnName == name || params.any (· == name))) := by
  have hparams : (params.map (fun p => (⟨p, 0⟩ : Local))).any (·.name == name) =
      params.any (· == name) := by
    rw [List.any_map]
    rfl
  rw [boundTo, boundTo, hlocals, houter, hnames, List.any_cons, hparams, Option.getD_some,
    Option.getD_some, Compiler.buildAncestorVars, any_addAncestors, List.any_map]
  simp only [Function.comp_def]
  cases fnName == name <;> cases params.any (· == name) <;> simp [Bool.or_assoc]

theorem ends_nested {child c : Compiler} {m : Compile Unit} {fate : Fate}
    {Q : Unit → Compiler → Prop} (h : Ends m child fate Q) :
    Ends (nested child m) c fate fun done d => d = c ∧ Q () done := by
  cases fate with
  | fine =>
    obtain ⟨a, done, hrun, hq⟩ := h
    exact ⟨done, c, by simp only [nested, hrun], rfl, hq⟩
  | fails =>
    obtain ⟨e, d, hrun⟩ := h
    exact ⟨e, c, by simp only [nested, hrun]⟩
  | panics =>
    obtain ⟨d, hrun⟩ := h
    exact ⟨c, by simp only [nested, hrun]⟩

/-- No loop is open at the beginning of a body. -/
theorem goes_closure {body : Compile Unit} (hbody : Goes b F body) (name : String)
    (params : List String) (line : Nat) :
    Goes false (fun p _ => F (p || (name == "push" || params.any (· == "push"))) false)
      (compileClosure name params body line) := by
  intro c hc
  refine ends_read ?_
  obtain ⟨m, hm, hchild⟩ := foldl_addLocal params
    ({ Compiler.newEnclosed c.locals c.buildAncestorVars with
      chunk := { (Compiler.newEnclosed c.locals c.buildAncestorVars).chunk with name } }.addLocal name)
    (addLocal_slots ..)
  dsimp only
  rw [hchild]
  have hsound : Sound { (({ Compiler.newEnclosed c.locals c.buildAncestorVars with
      chunk := { (Compiler.newEnclosed c.locals c.buildAncestorVars).chunk with name }
        } : Compiler).addLocal name) with
      locals := [⟨name, 0⟩] ++ params.map (⟨·, 0⟩), maxLocals := m } :=
    { waiting := nofun
      counts := nofun
      depths := fun l hl => by
        rcases List.mem_cons.mp hl with rfl | hl
        · exact Nat.le_refl _
        · obtain ⟨p, -, rfl⟩ := List.mem_map.mp hl
          exact Nat.le_refl _ }
  have hrun := hbody _ hsound
  rw [boundTo_newEnclosed "push" c params name rfl rfl rfl] at hrun
  have hfull := hrun.last (k := fun _ => do emitConstant .null line; emit .returnValue line)
    (R := fun _ _ => True) fun _ d hd => (ends_emitConstant hd.sound .null line).next fun _ e he =>
      (ends_emit he.sound .returnValue line).mono fun _ _ _ => trivial
  refine (ends_nested (c := c) hfull).last ?_
  rintro done d ⟨rfl, -⟩
  refine (ends_update (f := Compiler.resolveChildUpvalues done.upvalues)
    (Q := fun _ e => After false d e) ?_).next fun upvalues e he => ?_
  · rw [resolveChildUpvalues_eq]
    exact hc.ask _
  refine (ends_modify (Q := fun _ f => After false d f) ?_).next fun _ f hf => ends_read ?_
  · exact he.trans (he.sound.grow (fun _ ho => ho) (Nat.le_refl _) rfl rfl rfl ⟨rfl, rfl⟩)
  · exact (ends_emit hf.sound _ line).mono fun _ _ hg => hf.trans hg

theorem goes_fnDef {body : Compile Unit} (hbody : Goes b F body) (name : String)
    (params : List String) (line : Nat) :
    Goes (name == "push") (fun p _ => F (p || (name == "push" || params.any (· == "push"))) false)
      (compileFnDef name params body line) := by
  have hdeclare : Goes (name == "push") (fun _ _ => .fine) (declareLocal name line) :=
    fun _ hc => ends_declareLocal hc name line
  have := Goes.seq (goes_closure hbody name params line) hdeclare
  simpa [compileFnDef] using this

theorem reads_userCall {callee args : Compile Unit} (hcallee : Reads G callee)
    (hargs : Reads G' args) (argCount line : Nat) :
    Reads (fun p => (G p).andThen (G' p)) (compileUserCall callee args argCount line) :=
  Reads.fine_seq (reads_emit _ line) (Reads.seq hcallee
    (Reads.fine_seq (reads_emit _ line) (Reads.seq_fine hargs (reads_emit _ line))))

/-- What becomes of the arguments of a builtin. -/
def builtinFate (bound : Bool) (name : String) (args : List Expr) : Fate :=
  match name, args with
  | "push", [.ident _] => .panics
  | "push", .ident _ :: second :: _ => exprFate bound second
  | _, _ => exprsFate bound args

/-- What becomes of `args[n]`. -/
def nthFate (bound : Bool) (args : List Expr) (n : Nat) : Fate :=
  match args[n]? with
  | some e => exprFate bound e
  | none => .panics

theorem lenSlot_eq_some {c : Compiler} {name : String} {args : List Expr} {slot : Nat}
    (h : lenSlot c name args = some slot) : name = "len" ∧ ∃ var, args = [.ident var] := by
  unfold lenSlot at h
  split at h
  next var => exact ⟨rfl, var, rfl⟩
  next => cases h

theorem head_identName {args : List Expr} {var : String}
    (h : args.head?.bind identName = some var) : ∃ rest, args = .ident var :: rest := by
  cases args with
  | nil => cases h
  | cons e rest =>
    cases e
    case ident name =>
      cases h
      exact ⟨rest, rfl⟩
    all_goals cases h

theorem builtinFate_push (bound : Bool) (var : String) (rest : List Expr) :
    builtinFate bound "push" (.ident var :: rest) = nthFate bound (.ident var :: rest) 1 := by
  cases rest <;> rfl

theorem builtinFate_other {name : String} {args : List Expr}
    (h : ∀ var, name = "push" → args.head?.bind identName ≠ some var) (bound : Bool) :
    builtinFate bound name args = exprsFate bound args := by
  unfold builtinFate
  split
  next var => exact absurd rfl (h var rfl)
  next var second rest => exact absurd rfl (h var rfl)
  next => rfl

theorem reads_builtinCall {name : String} {args : List Expr} {all second : Compile Unit}
    (hpublic : isPublicBuiltin name = true) (hall : Reads (exprsFate · args) all)
    (hsecond : Reads (nthFate · args 1) second) (line : Nat) :
    Reads (builtinFate · name args) (compileBuiltinCall name args all second line) := by
  have hvalidate : Reads (fun _ => .fine) (Proc.when (isContextBuiltin name = true)
      (emit (.validateBuiltinCall name args.length (args.head?.any Expr.isIdent)) line)) := by
    unfold Proc.when
    split
    · exact reads_emit _ line
    · exact fun _ hc => ends_pure (.refl hc)
  refine hvalidate.fine_seq fun c hc => ends_read ?_
  cases hslot : lenSlot c name args with
  | some slot =>
    obtain ⟨rfl, var, rfl⟩ := lenSlot_eq_some hslot
    exact ends_emit hc _ line
  | none =>
    obtain ⟨id, hid⟩ : ∃ id, idOf name = some id := by
      obtain ⟨spec, hspec⟩ := Option.isSome_iff_exists.mp hpublic
      exact ⟨spec.id, by rw [idOf, hspec]; rfl⟩
    refine Ends.next (Q := fun builtinId d => builtinId = id ∧ d = c) ?_ ?_
    · rw [resolveBuiltinId, hid]
      exact ends_pure ⟨rfl, rfl⟩
    rintro _ _ ⟨rfl, rfl⟩
    split
    next var hvar =>
      obtain ⟨rest, rfl⟩ := head_identName hvar
      simp only [builtinFate_push]
      refine goes_target (F := fun p _ => nthFate p _ 1) (fun target => ?_) _ hc
      exact Reads.fine_seq (goes_requireTarget target line) (hsecond.seq_fine
        ((reads_emit _ line).seq_fine (reads_emitConstant _ line)))
    next var hvar =>
      have hother : ∀ p, builtinFate p "pop" args = exprsFate p args :=
        builtinFate_other fun _ h => by simp at h
      simp only [hother]
      refine goes_target (F := fun p _ => exprsFate p args) (fun target => ?_) _ hc
      exact Reads.seq_fine hall ((reads_emit _ line).seq_fine (Reads.seq_fine (goes_getTarget target line)
        ((reads_emit _ line).seq_fine (Reads.seq_fine (goes_setTarget target line) (reads_emit _ line)))))
    next hpush hpop =>
      simp only [builtinFate_other fun var hname hvar => hpush var hname hvar]
      exact hall.seq_fine (reads_emit _ line) _ hc

theorem isBarePush_eq_true {callee : Expr} {args : List Expr} (h : isBarePush callee args = true) :
    callee = .ident "push" ∧ ∃ var, args = [.ident var] := by
  unfold isBarePush at h
  split at h
  next var => exact ⟨rfl, var, rfl⟩
  next => cases h

/-- A call of a builtin compiles the arguments once more, for a function of that name. -/
theorem builtinFate_andThen (bound : Bool) (name : String) (args : List Expr) :
    (builtinFate bound name args).andThen (exprsFate bound args) =
      if isBarePush (.ident name) args then .panics else exprsFate bound args := by
  unfold builtinFate
  split
  next => rfl
  next var second rest =>
    show (exprFate bound second).andThen ((exprFate bound second).andThen (exprsFate bound rest)) =
      (exprFate bound second).andThen (exprsFate bound rest)
    rw [← Fate.andThen_assoc, Fate.andThen_self]
  next hbare _ =>
    rw [Fate.andThen_self, if_neg]
    intro h
    obtain ⟨hname, var, rfl⟩ := isBarePush_eq_true h
    exact hbare var (Expr.ident.inj hname) rfl

theorem reads_call {callee : Expr} {args : List Expr} {all second : Compile Unit}
    {userCall : Compile Unit} (hall : Reads (exprsFate · args) all)
    (hsecond : Reads (nthFate · args 1) second)
    (huser : Reads (fun p => (exprFate p callee).andThen (exprsFate p args)) userCall)
    (line : Nat) :
    Reads (exprFate · (.call callee args))
      (compileCall (identName callee) all args.length
        (fun name => compileBuiltinCall name args all second line) userCall line) := by
  cases hname : identName callee with
  | none =>
    have hbare : isBarePush callee args = false :=
      Bool.eq_false_iff.mpr fun h => by simp [(isBarePush_eq_true h).1, identName] at hname
    simpa [exprFate, hbare, compileCall] using huser
  | some name =>
    obtain rfl : callee = .ident name := by
      cases callee
      case ident name' => cases hname; rfl
      all_goals cases hname
    have hplain (h : name ≠ "push") : isBarePush (.ident name) args = false :=
      Bool.eq_false_iff.mpr fun hb => h (Expr.ident.inj (isBarePush_eq_true hb).1)
    simp only [compileCall]
    split
    next hprint =>
      subst hprint
      have hfate : ∀ p, exprFate p (.call (.ident "print") args) = exprsFate p args := fun p => by
        simp [exprFate, hplain (by decide)]
      simp only [hfate]
      exact Reads.seq_fine hall ((reads_emit _ line).seq_fine (reads_emitConstant _ line))
    next hprint =>
      split
      next hpublic =>
        intro c hc
        refine (ends_hasStaticBinding hc name).next ?_
        rintro found d ⟨hd, hfound⟩
        cases found with
        | true =>
          have hfate : exprFate (boundTo "push" c) (.call (.ident name) args) =
              exprsFate (boundTo "push" c) args := by
            rw [exprFate, if_neg, exprFate, Fate.fine_andThen]
            intro h
            obtain ⟨hbare, hfree⟩ := Bool.and_eq_true_iff.mp h
            cases Expr.ident.inj (isBarePush_eq_true hbare).1
            rw [← hfound] at hfree
            cases hfree
          simp only [hfate, if_true]
          exact (Goes.later huser hd).mono fun _ _ he => hd.trans he
        | false =>
          have hfate : exprFate (boundTo "push" c) (.call (.ident name) args) =
              (builtinFate (boundTo "push" c) name args).andThen
                (exprsFate (boundTo "push" c) args) := by
            rw [builtinFate_andThen, exprFate, exprFate, Fate.fine_andThen]
            cases hbare : isBarePush (.ident name) args with
            | false => rfl
            | true =>
              cases Expr.ident.inj (isBarePush_eq_true hbare).1
              rw [← hfound]
              rfl
          simp only [hfate, Bool.false_eq_true, if_false]
          refine (ends_emitJump hd.sound (fun _ => rfl) line).next fun userJump e he => ?_
          obtain ⟨he, hjump⟩ := he
          have he : After false c e := hd.trans he
          refine (Goes.later (reads_builtinCall hpublic hall hsecond line) he).bind fun _ f hf => ?_
          refine (ends_emitJump hf.sound (fun _ => rfl) line).next fun endJump g hg => ?_
          obtain ⟨hg, hend⟩ := hg
          have hjump := hg.patchable _ (hf.patchable _ hjump)
          refine (ends_patchJump hg.sound hjump).next fun _ k hk => ?_
          have hend := hk.patchable _ hend
          have hk : After false c k := he.trans (hf.trans (hg.trans hk))
          refine (Goes.later huser hk).last fun _ l hl => ?_
          exact (ends_patchJump hl.sound (hl.patchable _ hend)).mono fun _ _ hm =>
            hk.trans (hl.trans hm)
      next hpublic =>
        have hbare := hplain fun h => hpublic (h ▸ rfl)
        simpa [exprFate, hbare] using huser

theorem reads_shortCircuit {left right : Compile Unit} {jump : OpCode} (hleft : Reads G left)
    (hright : Reads G' right) (hjump : ∀ target, (jump.retarget target).isSome) (line : Nat) :
    Reads (fun p => (G p).andThen (G' p)) (compileShortCircuit left right jump line) := by
  intro c hc
  refine (hleft c hc).bind fun _ d hd => ?_
  refine (ends_emitJump hd.sound hjump line).next fun offset e ⟨he, hoffset⟩ => ?_
  refine (ends_emit he.sound _ line).next fun _ f hf => ?_
  have hoffset := hf.patchable _ hoffset
  have hf : After false c f := hd.trans (he.trans hf)
  refine (Goes.later hright hf).last fun _ g hg => ?_
  exact (ends_patchJump hg.sound (hg.patchable _ hoffset)).mono fun _ _ hk => hf.trans (hg.trans hk)

theorem reads_binOp {left right : Compile Unit} (hleft : Reads G left) (hright : Reads G' right)
    (op : BinOpKind) (line : Nat) :
    Reads (fun p => (G p).andThen (G' p)) (compileBinOp left op right line) := by
  have hplain (opcode : OpCode) :
      Reads (fun p => (G p).andThen (G' p)) (do left; right; emit opcode line) :=
    Reads.seq hleft (hright.seq_fine (reads_emit opcode line))
  cases op
  case and => exact reads_shortCircuit hleft hright (fun _ => rfl) line
  case or => exact reads_shortCircuit hleft hright (fun _ => rfl) line
  all_goals exact hplain _

/-- The object that is not compiled is a name. -/
theorem reads_index {object index : Expr} {compiledObject compiledIndex : Compile Unit}
    (hobject : Reads (exprFate · object) compiledObject)
    (hindex : Reads (exprFate · index) compiledIndex) (line : Nat) :
    Reads (exprFate · (.index object index))
      (compileIndex object index compiledObject compiledIndex line) := by
  intro c hc
  refine ends_read ?_
  cases hslot : indexSlot c object index with
  | some slot =>
    have hfine : ∀ p, exprFate p object = .fine := by
      cases object
      case ident name => exact fun p => rfl
      all_goals cases hslot
    simp only [exprFate, hfine, Fate.fine_andThen]
    exact hindex.seq_fine (reads_emit _ line) c hc
  | none => exact Reads.seq hobject (hindex.seq_fine (reads_emit _ line)) c hc

theorem reads_literalPart (s : String) (line : Nat) :
    Reads (fun _ => .fine) (compileLiteralPart s line) := by
  intro c hc
  refine (ends_modify (Q := fun _ d => After false c d) ?_).next fun _ d hd => ends_read ?_
  · exact hc.grow (fun _ ho => ho) (Nat.le_refl _) rfl rfl rfl ⟨rfl, rfl⟩
  · exact (ends_emit hd.sound _ line).mono fun _ _ he => hd.trans he

end Calls

/-! ## The recursion over the tree -/

mutual

theorem compileStmt_goes (s : Stmt) :
    Goes (declaresPush s) (fun p i => stmtFate p i s) (compileStmt s) := by
  cases s with
  | «let» name value line =>
    exact goes_marked (goes_let (compileExpr_reads value line) name line)
  | assign name value line =>
    exact goes_marked (goes_assign (compileExpr_reads value line) name line)
  | indexAssign name index value line =>
    exact goes_marked (goes_indexAssign (compileExpr_reads index line)
      (compileExpr_reads value line) name line)
  | exprStmt e line =>
    exact goes_marked ((compileExpr_reads e line).seq_fine (reads_emit _ line))
  | «if» condition thenBody elseBody line =>
    refine goes_marked (goes_if (compileExpr_reads condition line) (compileStmts_goes thenBody)
      (compileStmts_goes elseBody) (fun hempty p i => ?_) line)
    rw [List.isEmpty_iff.mp hempty]
    rfl
  | «while» condition body line =>
    exact goes_marked (goes_while (compileExpr_reads condition line) (compileStmts_goes body) line)
  | «for» var iter body line =>
    exact goes_marked (goes_for (compileExpr_reads iter line) (compileStmts_goes body) var line)
  | «break» line => exact goes_marked (goes_break line)
  | «continue» line => exact goes_marked (goes_continue line)
  | fnDef name params body line =>
    exact goes_marked (goes_fnDef (compileStmts_goes body) name params line)
  | «return» value line =>
    exact goes_marked ((compileExpr_reads value line).seq_fine (reads_emit _ line))
  | «import» path line =>
    exact goes_marked fun _ _ => ⟨_, _, rfl⟩
  | tryCatch tryBody var catchBody line =>
    exact goes_marked (goes_tryCatch (compileStmts_goes tryBody) (compileStmts_goes catchBody)
      var line)

theorem compileStmts_goes (ss : List Stmt) :
    Goes (ss.any declaresPush) (fun p i => stmtsFate p i ss) (compileStmts ss) := by
  cases ss with
  | nil => exact fun _ hc => ends_pure (.refl hc)
  | cons s rest => exact Goes.seq (compileStmt_goes s) (compileStmts_goes rest)

theorem compileExpr_reads (e : Expr) (line : Nat) : Reads (exprFate · e) (compileExpr e line) := by
  cases e with
  | int n => exact reads_emitConstant _ line
  | float bits => exact reads_emitConstant _ line
  | str s => exact reads_emitConstant _ line
  | bool b => exact reads_emitConstant _ line
  | null => exact reads_emitConstant _ line
  | ident name => exact reads_compileNameRead name line false
  | binOp left op right =>
    exact reads_binOp (compileExpr_reads left line) (compileExpr_reads right line) op line
  | unaryOp op e => exact (compileExpr_reads e line).seq_fine (reads_emit _ line)
  | call callee args =>
    refine reads_call (compileExprs_reads args line) (compileNth_reads args 1 line) ?_ line
    refine reads_userCall ?_ (compileExprs_reads args line) args.length line
    cases callee
    case ident name => exact reads_compileNameRead name line true
    all_goals exact compileExpr_reads _ line
  | list items =>
    exact (reads_emitConstant _ line).fine_seq (compileElements_reads items line)
  | dict pairs =>
    exact (reads_emitConstant _ line).fine_seq (compilePairs_reads pairs line)
  | index object index =>
    exact reads_index (compileExpr_reads object line) (compileExpr_reads index line) line
  | lambda params body =>
    exact goes_closure (compileStmts_goes body) "<lambda>" params line
  | fStr parts => exact (compileParts_reads parts line).seq_fine (reads_emit _ line)

theorem compileExprs_reads (es : List Expr) (line : Nat) :
    Reads (exprsFate · es) (compileExprs es line) := by
  cases es with
  | nil => exact fun _ hc => ends_pure (.refl hc)
  | cons e rest => exact Reads.seq (compileExpr_reads e line) (compileExprs_reads rest line)

theorem compileNth_reads (es : List Expr) (n line : Nat) :
    Reads (nthFate · es n) (compileNth es n line) := by
  cases es with
  | nil => exact fun c _ => ⟨c, rfl⟩
  | cons e rest =>
    cases n with
    | zero => exact compileExpr_reads e line
    | succ n => exact compileNth_reads rest n line

theorem compileElements_reads (es : List Expr) (line : Nat) :
    Reads (exprsFate · es) (compileElements es line) := by
  cases es with
  | nil => exact fun _ hc => ends_pure (.refl hc)
  | cons e rest =>
    exact Reads.seq (compileExpr_reads e line)
      ((reads_emit _ line).fine_seq (compileElements_reads rest line))

theorem compilePairs_reads (pairs : List (Expr × Expr)) (line : Nat) :
    Reads (pairsFate · pairs) (compilePairs pairs line) := by
  cases pairs with
  | nil => exact fun _ hc => ends_pure (.refl hc)
  | cons e rest =>
    obtain ⟨k, v⟩ := e
    exact Reads.seq (compileExpr_reads k line) (Reads.seq (compileExpr_reads v line)
      ((reads_emit _ line).fine_seq (compilePairs_reads rest line)))

theorem compileParts_reads (parts : List FStrExprPart) (line : Nat) :
    Reads (partsFate · parts) (compileParts parts line) := by
  cases parts with
  | nil => exact fun _ hc => ends_pure (.refl hc)
  | cons part rest =>
    cases part with
    | literal s => exact (reads_literalPart s line).fine_seq (compileParts_reads rest line)
    | expr e => exact Reads.seq (compileExpr_reads e line) (compileParts_reads rest line)

end

/-! ## Programs -/

/-- The compiler ends as the fate of the program says. -/
theorem ends_compileProgram (program : Program) :
    Ends (compileProgram program) Compiler.new (stmtsFate false false program) fun _ _ => True := by
  have hnew : Sound Compiler.new := ⟨nofun, nofun, nofun⟩
  refine (compileStmts_goes program _ hnew).last fun _ d hd => ?_
  exact (ends_emit hd.sound _ 0).next fun _ e _ => ends_gets trivial

/-- The compiler returns a chunk or an error, unless it panics: on the calls `push(x)`, with a
name for the only argument and no declaration of `push`, and on nothing else. -/
theorem compile_panics_iff (program : Program) :
    compile program ≠ .error .panic ↔
      ¬ (validateProgramDepth program = .ok () ∧ stmtsFate false false program = .panics) := by
  unfold compile
  split
  next e heq => simp [heq]
  next heq =>
    have h := ends_compileProgram program
    cases hfate : stmtsFate false false program with
    | fine =>
      rw [hfate] at h
      obtain ⟨chunk, d, hrun, -⟩ := h
      simp [hrun]
    | fails =>
      rw [hfate] at h
      obtain ⟨e, d, hrun⟩ := h
      simp [hrun]
    | panics =>
      rw [hfate] at h
      obtain ⟨d, hrun⟩ := h
      simp [hrun, heq]

/-- `let xs = []; push(xs)`. -/
theorem bare_push_panics :
    compile [.«let» "xs" (.list []) 1, .exprStmt (.call (.ident "push") [.ident "xs"]) 2] =
      .error .panic := by rfl

end Tsumugi.Bytecode
