import Tsumugi.Vm.Built

/-!
# Expressions push one value

An expression pushes one value and leaves its surroundings alone (`Pushes`). A statement
starts and ends with the operand stack at the height of the declared locals; it may declare
more of them (`Runs`). Every construct of the expressions keeps the first specification,
given that its parts do; a closure rests on the second one for its body.

Results:
1. `compileNameRead_pushes`, `compileBinOp_pushes`, `literal_pushes`, `compileIndex_pushes`,
   `compileCall_pushes`: the constructs without a body.
2. `At.typed`: what a compiler has built is typed, when the end of the code is not reached.
3. `compileClosure_pushes`: a function body is typed, and its captures are in range.
-/

namespace Tsumugi.Bytecode

open Backpatch (Exit Emitted)
open Proc (Triple triple_bind triple_pure triple_read triple_exists triple_and
  triple_when)

/-! ## Shapes in the course of an expression -/

namespace Shape

/-- Slots and literals lie below the height. -/
structure Settled (S : Shape) : Prop where
  locals : S.locals ≤ S.height
  literals : ∀ l ∈ S.literals, l.1 < S.height

theorem Valid.settled {m : Nat} {S : Shape} (h : S.Valid m) : S.Settled :=
  ⟨h.locals, fun l hl => (h.literals l hl).2⟩

@[simp] theorem change_zero (S : Shape) : S.change 0 0 = S := rfl

theorem change_change {S : Shape} {a n b : Nat} (h : n ≤ a) :
    (S.change 0 a).change n b = S.change 0 (a - n + b) := by
  unfold change
  congr 1
  simp only
  omega

/-- What has been pushed since is free. -/
theorem Settled.free {S : Shape} (h : S.Settled) {a n : Nat} (hn : n ≤ a) :
    (S.change 0 a).Free n := by
  refine ⟨?_, fun l hl => ?_⟩
  · have := h.locals
    show S.locals + n ≤ S.height - 0 + a
    omega
  · have := h.literals l hl
    show l.1 + n < S.height - 0 + a
    omega

theorem Settled.valid {S : Shape} (h : S.Settled) {a b m : Nat} (hv : (S.change 0 a).Valid m) :
    (S.change 0 b).Valid m where
  globals := hv.globals
  locals := Nat.le_trans h.locals (by show S.height ≤ S.height - 0 + b; omega)
  bound := hv.bound
  handlers := hv.handlers
  literals l hl := by
    refine ⟨(hv.literals l hl).1, Nat.lt_of_lt_of_le (h.literals l hl) ?_⟩
    show S.height ≤ S.height - 0 + b
    omega

theorem Settled.change {S : Shape} (h : S.Settled) (a : Nat) : (S.change 0 a).Settled where
  locals := Nat.le_trans h.locals (by show S.height ≤ S.height - 0 + a; omega)
  literals l hl := Nat.lt_of_lt_of_le (h.literals l hl) (by show S.height ≤ S.height - 0 + a; omega)

/-- A constant that begins no literal. -/
theorem load_plain {S : Shape} {v : Value} (h : v.literal? = none) :
    S.load (some v) = S.change 0 1 := by
  simp [load, h]
  rfl

theorem Valid.of_le {S : Shape} {m n : Nat} (h : S.Valid m) (hn : S.locals ≤ n) : S.Valid n :=
  { h with bound := hn }

/-- The shape in the course of an expression at `K`: all declared locals are there, and the
handlers are those of the statement. -/
def Suits (S : Shape) (K : Site) (L : List Local) : Prop :=
  S.locals = L.length ∧ S.handlers = K.handlers

end Shape

/-! ## Expressions -/

/-- A piece of code that pushes `n` values. -/
def PushesN (n : Nat) (m : Compile Unit) : Prop :=
  ∀ K L P A S, S.Suits K L →
    Triple (At K L P A (some S)) m fun _ => At K L P A (some (S.change 0 n))

/-- The compilation of an expression. -/
abbrev Pushes (m : Compile Unit) : Prop := PushesN 1 m

section Rules

variable {K : Site} {L : List Local} {P A : List (Nat × Shape)} {S S' : Shape} {line : Nat}

/-- What is true of the shape because it is valid may be assumed. -/
theorem triple_settled {α : Type} {cur : Shape} {m : Compile α} {Q : α → Compiler → Prop}
    (h : cur.Settled → Triple (At K L P A (some cur)) m Q) : Triple (At K L P A (some cur)) m Q :=
  fun c hc => h hc.valid.settled c hc

theorem triple_valid {α : Type} {cur : Shape} {m : Compile α} {Q : α → Compiler → Prop}
    (h : ∀ n, cur.Valid n → Triple (At K L P A (some cur)) m Q) :
    Triple (At K L P A (some cur)) m Q :=
  fun c hc => h _ hc.valid c hc

/-- Code that is not reached is compiled in the shape it would have. -/
theorem triple_revive {α : Type} {m : Compile α} {Q : α → Compiler → Prop} {n : Nat}
    (hv : S.Valid n) (hS : S.Suits K L) (h : Triple (At K L P A (some S)) m Q) :
    Triple (At K L P A none) m Q :=
  fun c hc => h c (hc.revive (fun _ hm => hv.of_le (hS.1 ▸ hm)) fun _ hp => hS.2 ▸ hp)

/-- One more instruction that asks nothing of the tables. -/
theorem triple_emitPlain {op : OpCode} (hn : ∀ t, need t op S)
    (hx : ∀ t pc, exits t pc op S = [.next S']) (hl : S.locals ≤ L.length)
    (hv : ∀ m, S.Valid m → S'.Valid m) (hw : S'.handlers = S.handlers) :
    Triple (At K L P A (some S)) (Compile.emit op line) fun _ => At K L P A (some S') :=
  (triple_emit hx hl hv fun _ hp => hw ▸ hp).conseq (fun _ hc => ⟨hc, hn _⟩) fun _ _ h => h

/-- An instruction that replaces the top `n` of the values pushed since by `b` others. -/
theorem triple_emitStack {op : OpCode} {a n b : Nat} (hS : S.Settled) (hl : S.Suits K L)
    (hna : n ≤ a) (hn : ∀ t τ, τ.Free n → need t op τ)
    (hx : ∀ t pc τ, exits t pc op τ = [.next (τ.change n b)]) :
    Triple (At K L P A (some (S.change 0 a))) (Compile.emit op line)
      fun _ => At K L P A (some (S.change 0 (a - n + b))) := by
  refine triple_emitPlain (fun t => hn t _ (hS.free hna)) (fun t pc => ?_) (Nat.le_of_eq hl.1)
    (fun m hv => hS.valid hv) rfl
  rw [hx, Shape.change_change hna]

/-- An instruction that leaves the stack as it is. -/
theorem triple_emitKeep {op : OpCode} (hl : S.Suits K L) (hn : ∀ t, need t op S)
    (hx : ∀ t pc τ, exits t pc op τ = [.next τ]) :
    Triple (At K L P A (some S)) (Compile.emit op line) fun _ => At K L P A (some S) :=
  triple_emitPlain hn (fun t pc => hx t pc S) (Nat.le_of_eq hl.1) (fun _ hv => hv) rfl

/-- An unconditional jump, whose target is not known yet. -/
theorem triple_jumpAt (hl : S.locals ≤ L.length) :
    Triple (At K L P A (some S)) (Compile.emitJump (.jump 0) line) fun off c =>
      c.chunk.code[off]? = some (.jump 0) ∧ At K L ((off, S) :: P) A none c := by
  intro c hc off d hr
  refine ⟨?_, ?_⟩
  · cases hr
    exact List.getElem?_concat_length
  · have hneed : ∀ t, need t (.jump 0) S := fun _ => trivial
    refine triple_emitJump hneed (fun t pc x hx => ?_) hl (fun τ hτ => by cases hτ)
      (fun τ hτ => by cases hτ) c hc off d hr
    obtain rfl := List.mem_singleton.mp hx
    exact ⟨S, rfl, Shape.Sub.refl S⟩

theorem triple_jump (hl : S.locals ≤ L.length) :
    Triple (At K L P A (some S)) (Compile.emitJump (.jump 0) line)
      fun off => At K L ((off, S) :: P) A none :=
  (triple_jumpAt hl).conseq (fun _ hc => hc) fun _ _ h => h.2

/-- The constant gets an entry of its own. -/
theorem triple_addConstant {α : Type} {v : Value} {f : Compiler → Compile α}
    {Q : α → Compiler → Prop} (hv : v.All fun _ => False)
    (h : ∀ c, At K L P A (some S) c → c.chunk.constants[c.chunk.constants.length - 1]? = some v →
      0 < c.chunk.constants.length → Triple (· = c) (f c) Q) :
    Triple (At K L P A (some S)) (do
      Proc.modify fun c => { c with chunk := c.chunk.addConstant v }
      let c ← Proc.gets id
      f c) Q := by
  intro c hc a d hr
  obtain ⟨types, anchors, hA, hb⟩ := hc.built
  refine h { c with chunk := c.chunk.addConstant v } ?_ ?_ ?_ _ rfl a d hr
  · exact { hc with built := ⟨types, anchors, hA, hb.addConstant hv⟩ }
  · simp [Chunk.addConstant]
  · simp [Chunk.addConstant]

theorem triple_emitConstant {v : Value} (hl : S.Suits K L)
    (hp : v.All fun _ => False) :
    Triple (At K L P A (some S)) (Compile.emitConstant v line)
      fun _ => At K L P A (some (S.load (some v))) := by
  refine triple_addConstant hp fun c hc hlast hlt => ?_
  intro d hd u e hr
  subst hd
  cases hr
  refine hc.emit (w := none) (Nat.sub_lt hlt Nat.one_pos) (fun x hx => ?_) (Nat.le_of_eq hl.1)
    ?_ ?_
  · obtain rfl := List.mem_singleton.mp hx
    refine ⟨_, rfl, ?_⟩
    show Shape.Sub (S.load d.chunk.constants[d.chunk.constants.length - 1]?) _
    rw [hlast]
    exact Shape.Sub.refl _
  · intro τ hτ m hv
    cases hτ
    refine ⟨hv.globals, Nat.le_succ_of_le hv.locals, hv.bound, hv.handlers, fun l hm => ?_⟩
    rcases List.mem_append.mp hm with hm | hm
    · obtain ⟨k, -, rfl⟩ : ∃ k, v.literal? = some k ∧ l = (S.height, k) := by
        cases hk : v.literal? with
        | none => simp [hk] at hm
        | some k => exact ⟨k, rfl, by simpa [hk] using hm⟩
      exact ⟨hv.locals, Nat.lt_succ_self _⟩
    · exact ⟨(hv.literals l hm).1, Nat.lt_succ_of_lt (hv.literals l hm).2⟩
  · exact fun τ hτ p hp => .inl (by cases hτ; exact hp)

end Rules

theorem emitConstant_pushes {v : Value} {line : Nat} (hl : v.literal? = none)
    (hp : v.All fun _ => False) : Pushes (Compile.emitConstant v line) := by
  intro K L P A S hS
  exact (triple_emitConstant hS hp).conseq (fun _ hc => hc)
    fun _ _ hc => by rwa [Shape.load_plain hl] at hc

/-! ### Names -/

section Names

variable {K : Site} {L : List Local} {P A : List (Nat × Shape)} {S : Shape} {line : Nat}

/-- Fewer upvalues are known of. -/
theorem At.lower {cur : Option Shape} {c : Compiler} {n : Nat}
    (h : At { K with upvalues := n } L P A cur c) (hn : K.upvalues ≤ n) : At K L P A cur c :=
  { locals := h.locals
    enclosingLocals := h.enclosingLocals
    enclosingUpvalues := h.enclosingUpvalues
    scopeDepth := h.scopeDepth
    loops := h.loops
    upvaluesLe := Nat.le_trans hn h.upvaluesLe
    built := h.built
    handlers := h.handlers }

/-- Asking for names leaves the surroundings alone. -/
theorem At.registers {cur : Option Shape} {c c' : Compiler} (h : At K L P A cur c)
    (hr : c.Registers c') : At { K with upvalues := c'.upvalues.length } L P A cur c' := by
  have hmax : c'.maxLocals = c.maxLocals := by rw [hr.eq]
  have hat : At K L P A cur c' := h.extend hr.extends (by rw [hr.eq]; exact h.locals)
    (by rw [hr.eq]) (by rw [hr.eq]) (hmax ▸ h.slots) hr.ok
  exact
    { locals := hat.locals
      enclosingLocals := hat.enclosingLocals
      enclosingUpvalues := hat.enclosingUpvalues
      scopeDepth := hat.scopeDepth
      loops := hat.loops
      upvaluesLe := Nat.le_refl _
      built := hat.built
      handlers := hat.handlers }

theorem triple_resolveUpvalue (name : String) :
    Triple (At K L P A (some S)) (Compile.resolveUpvalue name) fun r c =>
      ∃ n, (K.upvalues ≤ n ∧ ∀ i ∈ r, i < n) ∧ At { K with upvalues := n } L P A (some S) c := by
  refine Proc.triple_update fun c hc => ?_
  obtain ⟨hr, hlt⟩ := Compiler.resolveUpvalue_registers hc.upvalues name
  exact ⟨_, ⟨Nat.le_trans hc.upvaluesLe hr.grows, hlt⟩, hc.registers hr⟩

theorem resolveLocal_lt {c : Compiler} {slot : Nat} {name : String}
    (h : c.resolveLocal name = some slot) (hc : c.locals = L) : slot < L.length :=
  hc ▸ lastIndex_lt h

theorem compileNameRead_pushes (name : String) (line : Nat) (forCall : Bool) :
    Pushes (Compile.compileNameRead name line forCall) := by
  intro K L P A S hS
  have hl := Nat.le_of_eq hS.1
  refine triple_settled fun hset => triple_read fun c hc => ?_
  split
  case h_1 slot hslot =>
    have hlt : slot < S.locals := hS.1 ▸ resolveLocal_lt hslot hc.locals
    have hneed : ∀ t, need t (.getLocal slot) S := fun _ => hlt
    exact (triple_emitPlain hneed (fun _ _ => rfl) hl (fun m hv => hset.valid (a := 0) hv)
      rfl).conseq (fun _ hd => hd ▸ hc) fun _ _ h => h
  case h_2 =>
    refine triple_bind ((triple_resolveUpvalue name).conseq (fun _ hd => hd ▸ hc) fun _ _ h => h)
      fun r => triple_exists fun n => triple_and fun hn => ?_
    have hglobal : ∀ {op : OpCode}, (∀ t, need t op S) →
        (∀ t pc, exits t pc op S = [.next (S.change 0 1)]) →
        Triple (At { K with upvalues := n } L P A (some S)) (Compile.emit op line)
          fun _ => At K L P A (some (S.change 0 1)) := fun hneed hx =>
      (triple_emitPlain hneed hx hl (fun m hv => hset.valid (a := 0) hv) rfl).conseq
        (fun _ hd => hd) fun _ _ hd => hd.lower hn.1
    split
    case h_1 i =>
      refine (triple_emit (fun _ _ => rfl) hl (fun m hv => hset.valid (a := 0) hv)
        fun p hp => hp).conseq (fun d hd => ⟨hd, ?_⟩) fun _ _ hd => hd.lower hn.1
      exact Nat.lt_of_lt_of_le (hn.2 i rfl) hd.upvaluesLe
    case h_2 =>
      split
      · exact hglobal (fun _ => trivial) fun _ _ => rfl
      · exact hglobal (fun _ => trivial) fun _ _ => rfl

theorem triple_resolveMutationTarget (name : String) :
    Triple (At K L P A (some S)) (Compile.resolveMutationTarget name) fun target c =>
      ∃ n, (K.upvalues ≤ n ∧ Tables.TargetOk L.length n target) ∧
        At { K with upvalues := n } L P A (some S) c := by
  refine triple_read fun c hc => ?_
  split
  case h_1 slot hslot =>
    refine triple_pure fun d hd => ⟨K.upvalues, ⟨Nat.le_refl _, ?_⟩, hd ▸ hc⟩
    exact resolveLocal_lt hslot hc.locals
  case h_2 =>
    refine triple_bind ((triple_resolveUpvalue name).conseq (fun _ hd => hd ▸ hc) fun _ _ h => h)
      fun r => triple_exists fun n => triple_and fun hn => ?_
    split
    case h_1 i => exact triple_pure fun d hd => ⟨n, ⟨hn.1, hn.2 i rfl⟩, hd⟩
    case h_2 => exact triple_pure fun d hd => ⟨n, ⟨hn.1, trivial⟩, hd⟩

/-- Reading a binding that will be written. -/
theorem triple_emitGet {target : MutationTarget} (hS : S.Suits K L)
    (ht : Tables.TargetOk L.length K.upvalues target) :
    Triple (At K L P A (some S)) (Compile.emitGetMutationTarget target line)
      fun _ => At K L P A (some (S.change 0 1)) := by
  have hl := Nat.le_of_eq hS.1
  refine triple_settled fun hset => ?_
  have hv : ∀ m, S.Valid m → (S.change 0 1).Valid m := fun m hv => hset.valid (a := 0) hv
  cases target with
  | localSlot slot =>
    exact triple_emitPlain (fun _ => show slot < S.locals from hS.1 ▸ ht) (fun _ _ => rfl) hl hv rfl
  | upvalue index =>
    exact (triple_emit (fun _ _ => rfl) hl hv fun p hp => hp).conseq
      (fun d hd => ⟨hd, Nat.lt_of_lt_of_le ht hd.upvaluesLe⟩) fun _ _ h => h
  | globalName name => exact triple_emitPlain (fun _ => trivial) (fun _ _ => rfl) hl hv rfl

/-- Writing the value on top of the stack to a binding. -/
theorem triple_emitSet {target : MutationTarget} (hS : S.Suits K L) (hh : 0 < S.height)
    (ht : Tables.TargetOk L.length K.upvalues target) :
    Triple (At K L P A (some S)) (Compile.emitSetMutationTarget target line)
      fun _ => At K L P A (some S) := by
  cases target with
  | localSlot slot =>
    exact triple_emitKeep hS (fun _ => show slot < S.locals from hS.1 ▸ ht) fun _ _ _ => rfl
  | upvalue index =>
    exact (triple_emit (fun _ _ => rfl) (Nat.le_of_eq hS.1) (fun _ hv => hv) fun p hp => hp).conseq
      (fun d hd => ⟨hd, Nat.lt_of_lt_of_le ht hd.upvaluesLe, hh⟩) fun _ _ h => h
  | globalName name => exact triple_emitKeep hS (fun _ => hh) fun _ _ _ => rfl

theorem targetOk_mono {locals m n : Nat} {target : MutationTarget}
    (h : Tables.TargetOk locals m target) (hmn : m ≤ n) : Tables.TargetOk locals n target := by
  cases target with
  | localSlot slot => exact h
  | upvalue index => exact Nat.lt_of_lt_of_le h hmn
  | globalName name => trivial

theorem triple_requireTarget {target : MutationTarget} (hS : S.Suits K L) :
    Triple (At K L P A (some S)) (Compile.requireTarget target line)
      fun _ => At K L P A (some S) := by
  cases target with
  | globalName name => exact triple_emitKeep hS (fun _ => trivial) fun _ _ _ => rfl
  | localSlot slot => exact triple_pure fun _ h => h
  | upvalue index => exact triple_pure fun _ h => h

end Names

/-! ### Operators and literals -/

theorem PushesN.nil : PushesN 0 (pure ()) := fun _ _ _ _ _ _ => triple_pure fun _ h => h

/-- A piece of code whose values lie on `a` others. -/
theorem PushesN.on {a b : Nat} {m : Compile Unit} (h : PushesN b m) {K : Site} {L : List Local}
    {P A : List (Nat × Shape)} {S : Shape} (hS : S.Suits K L) :
    Triple (At K L P A (some (S.change 0 a))) m fun _ => At K L P A (some (S.change 0 (a + b))) := by
  have h := h K L P A (S.change 0 a) hS
  rwa [Shape.change_change (Nat.zero_le _), Nat.sub_zero] at h

/-- Values of one piece of code lie on those of another. -/
theorem PushesN.append {a b : Nat} {m m' : Compile Unit} (h : PushesN a m) (h' : PushesN b m') :
    PushesN (a + b) (do m; m') :=
  fun K L P A S hS => triple_bind (h K L P A S hS) fun _ => h'.on hS

theorem next_eq {σ ρ : Shape} (h : σ = ρ) : [Exit.next σ] = [.next ρ] := by rw [h]

/-- Popping the value that has been pushed last. -/
theorem triple_emitPop {K : Site} {L : List Local} {P A : List (Nat × Shape)} {S : Shape}
    {line : Nat} (hset : S.Settled) (hS : S.Suits K L) :
    Triple (At K L P A (some (S.change 0 1))) (Compile.emit .pop line)
      fun _ => At K L P A (some S) := by
  have hcut : (S.change 0 1).cut 1 = S := by
    have := hset.locals
    unfold Shape.cut Shape.change
    simp only [Nat.sub_zero, Nat.add_sub_cancel, Nat.min_eq_left this]
  refine triple_emitPlain (fun t => ⟨Nat.succ_pos _, fun l hl => ?_⟩)
    (fun t pc => next_eq hcut) (Nat.le_of_eq hS.1)
    (fun m hv => hset.valid (a := 1) (b := 0) hv) rfl
  have := hset.literals l hl
  show l.1 + 1 < S.height - 0 + 1
  omega

theorem opcode_spec {op : BinOpKind} {code : OpCode} (h : BinOpKind.opcode op = some code) :
    (∀ t τ, τ.Free 2 → need t code τ) ∧ ∀ t pc τ, exits t pc code τ = [.next (τ.change 2 1)] := by
  cases op <;> cases h <;> exact ⟨fun _ _ hf => hf, fun _ _ _ => rfl⟩

theorem compileShortCircuit_pushes {left right : Compile Unit} {jump : OpCode} {line : Nat}
    (hl : Pushes left) (hr : Pushes right)
    (hjump : ∃ t, jump = .jumpIfFalseKeep t ∨ jump = .jumpIfTrueKeep t) :
    Pushes (Compile.compileShortCircuit left right jump line) := by
  intro K L P A S hS
  refine triple_settled fun hset => triple_bind (hl K L P A S hS) fun _ => ?_
  have hemit : Triple (At K L P A (some (S.change 0 1))) (Compile.emitJump jump line)
      fun off => At K L ((off, S.change 0 1) :: P) A (some (S.change 0 1)) := by
    refine triple_emitJump (fun t => ?_) (fun t pc x hx => ?_) (Nat.le_of_eq hS.1)
      (fun τ hτ m hv => Option.some.inj hτ ▸ hv) fun τ hτ p hp => Option.some.inj hτ ▸ hp
    · obtain ⟨k, rfl | rfl⟩ := hjump
      · exact Nat.succ_pos _
      · exact Nat.succ_pos _
    · obtain ⟨k, hx⟩ : ∃ k, x ∈ [Exit.jump k (S.change 0 1), .next (S.change 0 1)] := by
        obtain ⟨k, rfl | rfl⟩ := hjump
        · exact ⟨k, hx⟩
        · exact ⟨k, hx⟩
      rcases List.mem_cons.mp hx with rfl | hx
      · exact ⟨_, rfl, Shape.Sub.refl _⟩
      · obtain rfl := List.mem_singleton.mp hx
        exact ⟨_, rfl, Shape.Sub.refl _⟩
  refine triple_bind hemit fun off => triple_bind (triple_emitPop hset hS) fun _ => ?_
  exact triple_bind (hr K L _ A S hS) fun _ => triple_patchJump (Shape.Sub.refl _)

theorem compileBinOp_pushes {left right : Compile Unit} {op : BinOpKind} {line : Nat}
    (hl : Pushes left) (hr : Pushes right) : Pushes (compileBinOp left op right line) := by
  unfold compileBinOp
  split
  case h_1 code hcode =>
    obtain ⟨hn, hx⟩ := opcode_spec hcode
    intro K L P A S hS
    refine triple_settled fun hset => triple_bind (hl K L P A S hS) fun _ => ?_
    exact triple_bind (hr.on hS) fun _ => triple_emitStack hset hS (Nat.le_refl 2) hn hx
  case h_2 =>
    refine compileShortCircuit_pushes hl hr ⟨0, ?_⟩
    split
    · exact .inl rfl
    · exact .inr rfl

theorem unaryOp_pushes {m : Compile Unit} {op : UnaryOpKind} {line : Nat} (h : Pushes m) :
    Pushes (do
      m
      Compile.emit (match op with | .neg => .negate | .not => .not) line) := by
  intro K L P A S hS
  refine triple_settled fun hset => triple_bind (h K L P A S hS) fun _ => ?_
  refine triple_emitStack (b := 1) hset hS (Nat.le_refl 1) (fun t τ hf => ?_) fun t pc τ => ?_
  · cases op <;> exact hf
  · cases op <;> rfl

theorem fStr_pushes {m : Compile Unit} {n line : Nat} (h : PushesN n m) :
    Pushes (do m; Compile.emit (.fStrConcat n) line) := by
  intro K L P A S hS
  refine triple_settled fun hset => triple_bind (h K L P A S hS) fun _ => ?_
  have hn : ∀ t τ, τ.Free n → need t (.fStrConcat n) τ := fun _ _ hf => hf
  refine (triple_emitStack (b := 1) hset hS (Nat.le_refl n) hn fun _ _ _ => rfl).conseq
    (fun _ hd => hd) fun _ _ hd => ?_
  rwa [Nat.sub_self, Nat.zero_add] at hd

/-- The pieces that add the entries of a literal, which is on top of the stack. -/
def Fills (kind : Literal) (m : Compile Unit) : Prop :=
  ∀ K L P A S, S.Suits K L → 0 < S.height → (S.height - 1, kind) ∈ S.literals →
    Triple (At K L P A (some S)) m fun _ => At K L P A (some S)

theorem Fills.nil {kind : Literal} : Fills kind (pure ()) :=
  fun _ _ _ _ _ _ _ _ => triple_pure fun _ h => h

theorem fills_listPush {m rest : Compile Unit} {line : Nat} (h : Pushes m)
    (hrest : Fills .list rest) : Fills .list (do m; Compile.emit .listPush line; rest) := by
  intro K L P A S hS hh hm
  refine triple_settled fun hset => triple_bind (h K L P A S hS) fun _ => ?_
  refine triple_bind ?_ fun _ => hrest K L P A S hS hh hm
  refine triple_emitPlain (fun t => ⟨hset.free (Nat.le_refl 1), ?_⟩)
    (fun t pc => next_eq (Shape.change_change (Nat.le_refl 1)))
    (Nat.le_of_eq hS.1) (fun m hv => hset.valid (a := 1) (b := 0) hv) rfl
  exact hm

theorem fills_dictInsert {m m' rest : Compile Unit} {line : Nat} (h : Pushes m) (h' : Pushes m')
    (hrest : Fills .dict rest) :
    Fills .dict (do m; m'; Compile.emit .dictInsert line; rest) := by
  intro K L P A S hS hh hm
  refine triple_settled fun hset => triple_bind (h K L P A S hS) fun _ => ?_
  refine triple_bind (h'.on hS) fun _ => triple_bind ?_ fun _ => hrest K L P A S hS hh hm
  refine triple_emitPlain (fun t => ⟨hset.free (Nat.le_refl 2), ?_⟩)
    (fun t pc => next_eq (Shape.change_change (Nat.le_refl 2)))
    (Nat.le_of_eq hS.1) (fun m hv => hset.valid (a := 2) (b := 0) hv) rfl
  exact hm

/-- A literal of a list or a dict: an empty one, and its entries. -/
theorem literal_pushes {kind : Literal} {v : Value} {m : Compile Unit} {line : Nat}
    (hk : v.literal? = some kind) (hp : v.All fun _ => False) (h : Fills kind m) :
    Pushes (do Compile.emitConstant v line; m) := by
  intro K L P A S hS
  refine triple_settled fun hset => triple_bind (triple_emitConstant hS hp) fun _ => ?_
  let T : Shape := { S.change 0 1 with literals := (S.height, kind) :: S.literals }
  have hload : S.load (some v) = T := by
    simp [Shape.load, hk, T]
  rw [hload]
  refine (h K L P A T hS (Nat.succ_pos _) List.mem_cons_self).conseq (fun _ hd => hd) fun _ c hc => ?_
  refine hc.weaken ⟨rfl, Nat.le_refl _, rfl, rfl, fun l hl => List.mem_cons_of_mem _ hl, rfl⟩ ?_
  exact fun m _ hv => ⟨hv.globals, hv.locals, hv.bound, hv.handlers,
    fun l hl => hv.literals l (List.mem_cons_of_mem _ hl)⟩

theorem compileLiteralPart_pushes (s : String) (line : Nat) :
    Pushes (Compile.compileLiteralPart s line) := by
  intro K L P A S hS
  refine triple_settled fun hset => triple_addConstant trivial fun c hc hlast hlt => ?_
  have hneed : need (c.tables K.role) (.loadConstRaw (c.chunk.constants.length - 1)) S :=
    Nat.sub_lt hlt Nat.one_pos
  exact (triple_emit (fun _ _ => rfl) (Nat.le_of_eq hS.1) (fun m hv => hset.valid (a := 0) hv)
    fun p hp => hp).conseq (fun d hd => by subst hd; exact ⟨hc, hneed⟩) fun _ _ h => h

theorem compileIndex_pushes {object index : Expr} {compiledObject compiledIndex : Compile Unit}
    {line : Nat} (ho : Pushes compiledObject) (hi : Pushes compiledIndex) :
    Pushes (Compile.compileIndex object index compiledObject compiledIndex line) := by
  intro K L P A S hS
  refine triple_settled fun hset => triple_read fun c hc => ?_
  split
  case h_1 slot hslot =>
    refine triple_bind ((hi K L P A S hS).conseq (fun _ hd => hd ▸ hc) fun _ _ h => h) fun _ => ?_
    have hlt : slot < S.locals := by
      unfold Compile.indexSlot at hslot
      split at hslot
      · split at hslot
        · exact hS.1 ▸ resolveLocal_lt hslot hc.locals
        · cases hslot
      · cases hslot
    exact triple_emitPlain (fun t => ⟨hlt, hset.free (Nat.le_refl 1)⟩)
      (fun t pc => next_eq (Shape.change_change (Nat.le_refl 1)))
      (Nat.le_of_eq hS.1) (fun m hv => hset.valid (a := 1) hv) rfl
  case h_2 =>
    refine triple_bind ((ho K L P A S hS).conseq (fun _ hd => hd ▸ hc) fun _ _ h => h) fun _ => ?_
    have hn : ∀ t τ, τ.Free 2 → need t .index τ := fun _ _ hf => hf
    exact triple_bind (hi.on hS) fun _ =>
      triple_emitStack hset hS (Nat.le_refl 2) hn fun _ _ _ => rfl

/-! ### Calls -/

theorem compileUserCall_pushes {callee args : Compile Unit} {argCount line : Nat}
    (hc : Pushes callee) (ha : PushesN argCount args) :
    Pushes (Compile.compileUserCall callee args argCount line) := by
  intro K L P A S hS
  refine triple_settled fun hset => ?_
  let T : Shape := { S with paid := S.paid + 1 }
  have hT : T.Settled := ⟨hset.locals, hset.literals⟩
  have hprepare : Triple (At K L P A (some S)) (Compile.emit .prepareCall line)
      fun _ => At K L P A (some T) :=
    triple_emitPlain (fun _ => trivial) (fun _ _ => rfl) (Nat.le_of_eq hS.1)
      (fun _ hv => ⟨hv.globals, hv.locals, hv.bound, hv.handlers, hv.literals⟩) rfl
  refine triple_bind hprepare fun _ => triple_bind (hc K L P A T hS) fun _ => ?_
  have hvalidate : ∀ t, need t (.validateCall argCount) (T.change 0 1) := fun _ => Nat.succ_pos _
  refine triple_bind (triple_emitKeep hS hvalidate fun _ _ _ => rfl) fun _ => ?_
  refine triple_bind (ha.on hS) fun _ => ?_
  refine triple_emitPlain (fun t => ⟨hT.free (Nat.le_of_eq (Nat.add_comm ..)), Nat.succ_pos _⟩)
    (fun t pc => next_eq ?_) (Nat.le_of_eq hS.1)
    (fun m hv => ?_) rfl
  · rw [Shape.change_change (Nat.le_of_eq (Nat.add_comm ..)), Nat.add_comm 1, Nat.sub_self,
      Nat.zero_add]
    rfl
  · have hv := hT.valid (b := 1) hv
    exact ⟨hv.globals, hv.locals, hv.bound, hv.handlers, hv.literals⟩

/-- A `push` in place, whose value is null. -/
theorem listPush_pushes {K : Site} {L : List Local} {P A : List (Nat × Shape)} {S : Shape}
    {second : Compile Unit} {line : Nat} (hs : Pushes second) (hS : S.Suits K L)
    (var : String) :
    Triple (At K L P A (some S)) (do
      let target ← Compile.resolveMutationTarget var
      Compile.requireTarget target line
      second
      Compile.emit (.listPushBinding target) line
      Compile.emitConstant .null line) fun _ => At K L P A (some (S.change 0 1)) := by
  refine triple_settled fun hset => triple_bind (triple_resolveMutationTarget var) fun target => ?_
  refine triple_exists fun n => triple_and fun hn => ?_
  refine triple_bind (triple_requireTarget hS) fun _ => triple_bind (hs _ L P A S hS) fun _ => ?_
  have hemit : Triple (At { K with upvalues := n } L P A (some (S.change 0 1)))
      (Compile.emit (.listPushBinding target) line) fun _ => At K L P A (some S) := by
    have hx : ∀ t pc, exits t pc (.listPushBinding target) (S.change 0 1) = [.next S] :=
      fun _ _ => next_eq (Shape.change_change (Nat.le_refl 1))
    refine (triple_emit hx (Nat.le_of_eq hS.1) (fun m hv => hset.valid (a := 1) (b := 0) hv)
      fun p hp => hp).conseq (fun d hd => ⟨hd, hset.free (Nat.le_refl 1), ?_⟩)
      fun _ _ hd => hd.lower hn.1
    exact targetOk_mono (hS.1 ▸ hn.2) hd.upvaluesLe
  have hnull : Pushes (Compile.emitConstant .null line) := emitConstant_pushes rfl trivial
  exact triple_bind hemit fun _ => hnull K L P A S hS

/-- A `pop` in place, whose value is what the builtin returns. -/
theorem listPop_pushes {K : Site} {L : List Local} {P A : List (Nat × Shape)} {S : Shape}
    {all : Compile Unit} {id : BuiltinId} {argCount line : Nat} (ha : PushesN argCount all)
    (hid : isRegistered id = true) (hS : S.Suits K L) (var : String) :
    Triple (At K L P A (some S)) (do
      let target ← Compile.resolveMutationTarget var
      all
      Compile.emit (.callBuiltin id argCount) line
      Compile.emitGetMutationTarget target line
      Compile.emit .popUpdate line
      Compile.emitSetMutationTarget target line
      Compile.emit .pop line) fun _ => At K L P A (some (S.change 0 1)) := by
  refine triple_settled fun hset => triple_bind (triple_resolveMutationTarget var) fun target => ?_
  refine triple_exists fun n => triple_and fun hn => ?_
  refine triple_bind (ha _ L P A S hS) fun _ => ?_
  have hcall : ∀ t τ, τ.Free argCount → need t (.callBuiltin id argCount) τ :=
    fun _ _ hf => ⟨hid, hf⟩
  refine triple_bind (triple_emitStack hset hS (Nat.le_refl _) hcall fun _ _ _ => rfl) fun _ => ?_
  rw [Nat.sub_self, Nat.zero_add]
  have hset' := hset.change 1
  refine triple_bind (triple_emitGet hS hn.2) fun _ => ?_
  have hupdate : ∀ t, need t .popUpdate ((S.change 0 1).change 0 1) :=
    fun _ => hset'.free (Nat.le_refl 1)
  refine triple_bind (triple_emitKeep hS hupdate fun _ _ _ => rfl) fun _ => ?_
  refine triple_bind (triple_emitSet hS (Nat.succ_pos _) hn.2) fun _ => ?_
  exact (triple_emitPop (K := { K with upvalues := n }) hset' hS).conseq (fun _ hd => hd)
    fun _ _ hd => hd.lower hn.1

theorem compileBuiltinCall_pushes {name : String} {args : List Expr} {all second : Compile Unit}
    {line : Nat} (ha : PushesN args.length all) (hs : Pushes second) :
    Pushes (Compile.compileBuiltinCall name args all second line) := by
  intro K L P A S hS
  refine triple_settled fun hset => ?_
  unfold Compile.compileBuiltinCall
  refine triple_bind (Q := fun _ => At K L P A (some S)) ?_ fun _ => triple_read fun c hc => ?_
  · refine triple_when (fun _ => ?_) fun _ _ h => h
    exact triple_emitKeep hS (fun _ => trivial) fun _ _ _ => rfl
  split
  case h_1 slot hslot =>
    have hlt : slot < S.locals := by
      unfold Compile.lenSlot at hslot
      split at hslot
      · exact hS.1 ▸ resolveLocal_lt hslot hc.locals
      · cases hslot
    have hneed : ∀ t, need t (.lenLocal slot) S := fun _ => hlt
    exact (triple_emitPlain hneed (fun _ _ => rfl) (Nat.le_of_eq hS.1)
      (fun m hv => hset.valid (a := 0) hv) rfl).conseq (fun _ hd => hd ▸ hc) fun _ _ h => h
  case h_2 =>
    have hid : Triple (At K L P A (some S)) (Compile.resolveBuiltinId name line)
        fun id c => isRegistered id = true ∧ At K L P A (some S) c := by
      unfold Compile.resolveBuiltinId
      split
      case h_1 id hid => exact triple_pure fun _ hd => ⟨isRegistered_of_idOf hid, hd⟩
      case h_2 => exact Proc.triple_stop _
    refine triple_bind (hid.conseq (fun _ hd => hd ▸ hc) fun _ _ h => h) fun id => ?_
    refine triple_and fun hreg => ?_
    split
    case h_1 var _ _ => exact listPush_pushes hs hS var
    case h_2 var _ _ => exact listPop_pushes ha hreg hS var
    case h_3 =>
      refine triple_bind (ha K L P A S hS) fun _ => ?_
      have hcall : ∀ t τ, τ.Free args.length → need t (.callBuiltin id args.length) τ :=
        fun _ _ hf => ⟨hreg, hf⟩
      refine (triple_emitStack (b := 1) hset hS (Nat.le_refl _) hcall fun _ _ _ => rfl).conseq
        (fun _ hd => hd) fun _ _ hd => ?_
      rwa [Nat.sub_self, Nat.zero_add] at hd

theorem triple_hasStaticBinding {K : Site} {L : List Local} {P A : List (Nat × Shape)} {S : Shape}
    (name : String) : Triple (At K L P A (some S)) (Compile.hasStaticBinding name)
      fun _ => At K L P A (some S) := by
  refine triple_read fun c hc => ?_
  split
  case h_1 => exact triple_pure fun d hd => hd ▸ hc
  case h_2 =>
    refine triple_bind ((triple_resolveUpvalue name).conseq (fun _ hd => hd ▸ hc) fun _ _ h => h)
      fun r => triple_exists fun n => triple_and fun hn => ?_
    exact triple_pure fun d hd => hd.lower hn.1

/-- A call of a builtin whose name may have been bound to a global at run time. -/
theorem builtinOrUser_pushes {name : String} {builtin user : Compile Unit} {line : Nat}
    (hb : Pushes builtin) (hu : Pushes user) : Pushes (do
      let userJump ← Compile.emitJump (.jumpIfGlobalDefined name 0) line
      builtin
      let endJump ← Compile.emitJump (.jump 0) line
      Compile.patchJump userJump
      user
      Compile.patchJump endJump) := by
  intro K L P A S hS
  refine triple_valid fun m hv => ?_
  have hl := Nat.le_of_eq hS.1
  have huser : Triple (At K L P A (some S))
      (Compile.emitJump (.jumpIfGlobalDefined name 0) line)
      fun off => At K L ((off, S) :: P) A (some S) := by
    refine triple_emitJump (fun _ => trivial) (fun t pc x hx => ?_) hl
      (fun τ hτ m hv => Option.some.inj hτ ▸ hv) fun τ hτ p hp => Option.some.inj hτ ▸ hp
    rcases List.mem_cons.mp hx with rfl | hx
    · exact ⟨_, rfl, Shape.Sub.refl _⟩
    · obtain rfl := List.mem_singleton.mp hx
      exact ⟨_, rfl, Shape.Sub.refl _⟩
  refine triple_bind huser fun userJump => triple_bind (hb K L _ A S hS) fun _ => ?_
  refine triple_bind (triple_jump hl) fun endJump => ?_
  refine triple_bind (Q := fun _ => At K L ((endJump, S.change 0 1) :: P) A (some S)) ?_ fun _ => ?_
  · refine triple_revive hv hS ((triple_patchJump (Shape.Sub.refl S)).conseq
      (fun c hc => hc.congr fun e => ?_) fun _ _ h => h)
    simp only [List.mem_cons]
    tauto
  · exact triple_bind (hu K L _ A S hS) fun _ => triple_patchJump (Shape.Sub.refl _)

theorem compileCall_pushes {callee : Option String} {args : Compile Unit} {argCount line : Nat}
    {builtinCall : String → Compile Unit} {userCall : Compile Unit} (ha : PushesN argCount args)
    (hb : ∀ name, Pushes (builtinCall name)) (hu : Pushes userCall) :
    Pushes (Compile.compileCall callee args argCount builtinCall userCall line) := by
  unfold Compile.compileCall
  split
  case h_1 => exact hu
  case h_2 name =>
    split
    · intro K L P A S hS
      refine triple_settled fun hset => triple_bind (ha K L P A S hS) fun _ => ?_
      have hn : ∀ t τ, τ.Free argCount → need t (.print argCount) τ := fun _ _ hf => hf
      refine triple_bind (triple_emitStack hset hS (Nat.le_refl _) hn fun _ _ _ => rfl) fun _ => ?_
      rw [Nat.sub_self]
      have hnull : Pushes (Compile.emitConstant .null line) := emitConstant_pushes rfl trivial
      exact hnull K L P A S hS
    · split
      · intro K L P A S hS
        refine triple_bind (triple_hasStaticBinding name) fun bound => ?_
        split
        · exact hu K L P A S hS
        · exact builtinOrUser_pushes (hb name) hu K L P A S hS
      · exact hu

/-! ## The specification of a statement -/

/-- The open loops: their handlers and locals are among those that are up and declared, and the
target of a resolved `continue` accepts its jump. -/
def LoopsFit (A : List (Nat × Shape)) (globals : Nat) :
    List (Nat × Nat) → Nat → List LoopState → Prop
  | _, _, [] => True
  | handlers, locals, l :: rest =>
    l.tryDepth ≤ handlers.length ∧ l.localsCount ≤ locals ∧ globals ≤ l.localsCount ∧
      (∀ h ∈ handlers.drop l.tryDepth, h.2 ≤ l.localsCount) ∧
      (l.continueResolved = true → (l.continueTarget, l.shape handlers globals) ∈ A) ∧
      LoopsFit A globals (handlers.drop l.tryDepth) l.localsCount rest

/-- Where a statement may stand. The globals are the locals of the outermost scope. -/
structure Site.Fits (K : Site) (L : List Local) (A : List (Nat × Shape)) : Prop where
  depths : ∀ l ∈ L, l.depth ≤ K.scopeDepth
  globals : K.globals ≤ L.length
  handlers : ∀ h ∈ K.handlers, h.2 ≤ L.length
  isRoot : K.enclosingLocals = none → K.role.isRoot = true
  top : K.enclosingLocals = none → K.scopeDepth = 0 →
    K.globals = L.length ∧ K.loops = [] ∧ K.handlers = []
  loops : LoopsFit A K.globals K.handlers L.length K.loops

/-- What does not change in a loop while its body is compiled. The target of `continue` is not
used before it is known. -/
def LoopState.core (l : LoopState) : LoopState :=
  { l with
    breaks := [], continues := []
    continueTarget := if l.continueResolved then l.continueTarget else 0 }

/-- The same loops, with more jumps that wait. -/
def SameLoops (loops loops' : List LoopState) : Prop :=
  loops'.map LoopState.core = loops.map LoopState.core

/-- The surroundings after a statement that has declared `n` locals. -/
def Site.after (K : Site) (n : Nat) (loops : List LoopState) : Site :=
  { K with
    globals := K.globals + if K.enclosingLocals = none ∧ K.scopeDepth = 0 then n else 0
    loops }

/-- The compilation of a statement. It may declare locals in the innermost scope, and its
`break` and `continue` may have to wait. -/
def Runs (returns : Bool) (m : Compile Unit) : Prop :=
  ∀ K L P A, K.Fits L A → (returns = true → K.role.returns = true) →
    Triple (At K L P A (some (K.shape L))) m fun _ c =>
      ∃ M loops, ((∀ l ∈ M, l.depth = K.scopeDepth) ∧ SameLoops K.loops loops) ∧
        At (K.after M.length loops) (L ++ M) P A
          (some ((K.after M.length loops).shape (L ++ M))) c

theorem shape_suits {K : Site} {L : List Local} : (K.shape L).Suits K L := ⟨rfl, rfl⟩

/-! ### Function bodies -/

theorem addLocal_slots (name : String) (c : Compiler) :
    (c.addLocal name).locals.length ≤ (c.addLocal name).maxLocals := by
  show (c.locals ++ [_]).length ≤ max c.maxLocals (c.locals.length + 1)
  rw [List.length_append, List.length_singleton]
  exact Nat.le_max_right ..

theorem foldl_addLocal (params : List String) (c : Compiler) (h : c.locals.length ≤ c.maxLocals) :
    ∃ m, c.locals.length + params.length ≤ m ∧ params.foldl (fun c p => c.addLocal p) c =
      { c with locals := c.locals ++ params.map (⟨·, c.scopeDepth⟩), maxLocals := m } := by
  induction params generalizing c with
  | nil => exact ⟨c.maxLocals, h, by simp⟩
  | cons p rest ih =>
    obtain ⟨m, hm, heq⟩ := ih (c.addLocal p) (addLocal_slots p c)
    refine ⟨m, ?_, ?_⟩
    · simpa [Compiler.addLocal, Nat.add_assoc, Nat.add_comm 1] using hm
    · rw [List.foldl_cons, heq]
      simp [Compiler.addLocal]

/-- The site of a function body. -/
def Site.body (L : List Local) (names : List Upvalue) : Site where
  enclosingLocals := some L
  enclosingUpvalues := some names
  scopeDepth := 0
  loops := []
  handlers := []
  globals := 0
  role := .function
  upvalues := 0

/-- The compiler of a function body before its first statement. -/
theorem child_at (L : List Local) (names : List Upvalue) (name : String) (params : List String) :
    ∃ L', L'.length = params.length + 1 ∧ (∀ l ∈ L', l.depth = 0) ∧
      At (.body L names) L' [] [(0, .stmt L'.length [] 0)] (some (.stmt L'.length [] 0))
        (params.foldl (fun c p => c.addLocal p)
          ({ Compiler.newEnclosed L names with
            chunk := { (Compiler.newEnclosed L names).chunk with name } }.addLocal name)) := by
  obtain ⟨m, hm, heq⟩ := foldl_addLocal params
    ({ Compiler.newEnclosed L names with
      chunk := { (Compiler.newEnclosed L names).chunk with name } }.addLocal name)
    (addLocal_slots ..)
  refine ⟨⟨name, 0⟩ :: params.map (⟨·, 0⟩), by simp, ?_, ?_⟩
  · intro l hl
    rcases List.mem_cons.mp hl with rfl | hl
    · rfl
    · obtain ⟨p, -, rfl⟩ := List.mem_map.mp hl
      rfl
  have hlen : (⟨name, 0⟩ :: params.map (⟨·, 0⟩) : List Local).length ≤ m := by
    simpa [Compiler.addLocal, Compiler.newEnclosed, Compiler.new, Nat.add_comm] using hm
  rw [heq]
  exact
    { locals := rfl
      enclosingLocals := rfl
      enclosingUpvalues := rfl
      scopeDepth := rfl
      loops := rfl
      upvaluesLe := Nat.zero_le _
      built := ⟨[], _, fun e he => he,
        { flow := Backpatch.Flow.nil.anchor
          valid := fun τ hτ => by
            cases hτ
            exact ⟨Nat.zero_le _, Nat.le_refl _, hlen, (fun h hm => by cases hm),
              fun l hl => by cases hl⟩
          waits := fun τ hτ p hp => by cases hτ; cases hp
          lines := rfl
          live := .nil
          boundaries := fun b hb => by cases hb
          catches := fun pc τ hτ => by simp at hτ
          constants := fun v hv => by cases hv
          prototypes := fun p hp => by cases hp
          upvalues := fun uv hm => by cases hm
          slots := hlen }⟩
      handlers := fun p hp => by cases hp }

/-- What a compiler has built is typed, when the end of the code is not reached. -/
theorem At.typed {K : Site} {L : List Local} {A : List (Nat × Shape)} {entry : Shape}
    {c : Compiler} (h : At K L [] A none c) (hloops : K.loops = []) (hA : (0, entry) ∈ A) :
    Typed K.role c.upvalues.length entry { c.chunk with maxLocals := c.maxLocals } := by
  obtain ⟨types, anchors, hs, hb⟩ := h.built
  rw [hloops] at hb
  have harr : ∀ e ∈ anchors, ∃ ρ, types[e.1]? = some ρ ∧ e.2.Sub ρ := fun e he =>
    Backpatch.arrives_none.mp (hb.flow.anchored e he)
  refine .mk types ?_ fun p hp => (hb.prototypes p hp).2
  exact
    { closed := hb.flow.close
      entry := harr _ (hs _ hA)
      lines := hb.lines
      live := hb.live
      boundaries := fun b hm => by
        obtain ⟨ρ, hρ, hh⟩ := hb.boundaries b hm
        obtain ⟨τ, hτ, hsub⟩ := harr _ hρ
        exact ⟨τ, hτ, hsub.height ▸ hh⟩
      catches := fun pc τ hτ p hp => by
        obtain ⟨t, ht, hor⟩ := hb.catches pc τ hτ p hp
        exact ⟨t, ht, hor.resolve_left fun ⟨ρ, hρ⟩ => by cases hρ⟩
      constants := hb.constants
      captures := fun p hp k hk => (hb.prototypes p hp).1 k hk }

/-- A function body in a compiler of its own. -/
theorem triple_body {body : Compile Unit} {line : Nat} (hbody : Runs true body) {L : List Local}
    {names : List Upvalue} {child : Compiler} {L' : List Local}
    (hdepth : ∀ l ∈ L', l.depth = 0)
    (hchild : At (.body L names) L' [] [(0, .stmt L'.length [] 0)]
      (some (.stmt L'.length [] 0)) child) :
    Triple (· = child) (do
      body
      Compile.emitConstant .null line
      Compile.emit .returnValue line) fun _ done =>
      Typed .function done.upvalues.length (.stmt L'.length [] 0)
          { done.chunk with maxLocals := done.maxLocals } ∧
        ∀ uv ∈ done.upvalues, if uv.isLocal then uv.slot < L.length
          else ∃ v ∈ names, v.name = uv.name := by
  have hfits : (Site.body L names).Fits L' [(0, .stmt L'.length [] 0)] :=
    ⟨fun l hl => Nat.le_of_eq (hdepth l hl), Nat.zero_le _, (fun h hm => by cases hm),
      (by intro h; cases h), (by intro h; cases h), trivial⟩
  refine triple_bind ((hbody _ L' [] _ hfits fun _ => rfl).conseq (fun _ hd => hd ▸ hchild)
    fun _ _ h => h) fun _ => triple_exists fun M => triple_exists fun loops => ?_
  refine triple_and fun ⟨_, hsame⟩ => ?_
  obtain rfl : loops = [] := List.map_eq_nil_iff.mp hsame
  have hnull : Pushes (Compile.emitConstant .null line) := emitConstant_pushes rfl trivial
  refine triple_bind (hnull _ _ _ _ _ shape_suits) fun _ => ?_
  have hx : ∀ t pc, ∀ x ∈ exits t pc .returnValue
      ((((Site.body L names).after M.length []).shape (L' ++ M)).change 0 1),
      Emitted shapes [(0, .stmt L'.length [] 0)] none none x := fun _ _ x hx => by cases hx
  refine (triple_emitLast hx (Nat.le_refl _)).conseq (fun c hc => ⟨hc, rfl, Nat.succ_pos _⟩)
    fun _ done hdone => ⟨hdone.typed rfl List.mem_cons_self, fun uv hm => ?_⟩
  have hok := hdone.upvalues uv hm
  unfold Compiler.UpvalueOk at hok
  rw [hdone.enclosingLocals, hdone.enclosingUpvalues] at hok
  split at hok
  · rw [if_pos ‹_›]
    obtain ⟨locals, heq, hlt⟩ := hok
    cases heq
    exact hlt
  · rw [if_neg ‹_›]
    obtain ⟨names', heq, hv⟩ := hok
    cases heq
    exact hv

theorem captureOk_mono {locals locals' upvalues : Nat} {k : CaptureDesc}
    (h : Tables.CaptureOk locals upvalues k) (hl : locals ≤ locals') :
    Tables.CaptureOk locals' upvalues k := by
  cases k with
  | localSlot slot => exact Nat.lt_of_lt_of_le h hl
  | upvalue index => exact h

theorem triple_nested {P : Compiler → Prop} {R : Compiler → Prop} {child : Compiler}
    {m : Compile Unit} (h : Triple (· = child) m fun _ => R) :
    Triple P (Compile.nested child m) fun done c => R done ∧ P c := by
  intro c hc done d hr
  unfold Compile.nested at hr
  simp only at hr
  split at hr
  case h_1 u done' heq =>
    cases hr
    exact ⟨h child rfl u _ heq, hc⟩
  case h_2 => cases hr

theorem compileClosure_pushes {name : String} {params : List String} {body : Compile Unit}
    {line : Nat} (hbody : Runs true body) :
    Pushes (Compile.compileClosure name params body line) := by
  intro K L P A S hS
  refine triple_settled fun hset => triple_read fun c hc => ?_
  obtain ⟨L', hlen, hdepth, hchild⟩ :=
    child_at c.locals c.buildAncestorVars name params
  refine triple_bind (triple_nested (triple_body hbody hdepth hchild)) fun done => ?_
  refine triple_and fun ⟨htyped, hups⟩ => ?_
  have hok : ∀ uv ∈ done.upvalues,
      if uv.isLocal then uv.slot < L.length else (c.outerBinding uv.name).isSome := by
    intro uv hm
    have h := hups uv hm
    split at h
    · rw [if_pos ‹_›]
      exact hc.locals ▸ h
    · rw [if_neg ‹_›]
      obtain ⟨v, hv, heq⟩ := h
      exact heq ▸ Compiler.outerBinding_of_ancestor hv
  obtain ⟨hreg, hcount, hcaptures⟩ :=
    Compiler.resolveChildUpvalues_registers done.upvalues L.length hc.upvalues hok
  intro d hd u e hr
  subst hd
  cases hr
  let r := Compiler.resolveChildUpvalues done.upvalues d
  have hr : At { K with upvalues := r.2.upvalues.length } L P A (some S) r.2 := hc.registers hreg
  let p : FunctionPrototype :=
    { name, arity := params.length, params, chunk := { done.chunk with maxLocals := done.maxLocals },
      captures := r.1.map (·.capture) }
  have hproto : At { K with upvalues := r.2.upvalues.length } L P A (some S)
      { r.2 with chunk := r.2.chunk.addPrototype p } := by
    obtain ⟨types, anchors, hA, hb⟩ := hr.built
    refine { hr with built := ⟨types, anchors, hA, hb.addPrototype (fun k hk => ?_) ?_⟩ }
    · obtain ⟨uv, hm, rfl⟩ := List.mem_map.mp hk
      exact captureOk_mono (hcaptures uv hm) hr.slots
    · show Typed .function (r.1.map (·.capture)).length (.stmt (params.length + 1) [] 0) p.chunk
      rw [List.length_map, hcount, ← hlen]
      exact htyped
  refine At.lower (n := r.2.upvalues.length) ?_ (Nat.le_trans hc.upvaluesLe hreg.grows)
  refine hproto.emit (w := none) ⟨p, ?_, fun k hk => ?_⟩ (fun x hx => ?_) (Nat.le_of_eq hS.1)
    (fun τ hτ m hv => ?_) fun τ hτ q hq => .inl ?_
  · show (r.2.chunk.prototypes ++ [p])[(r.2.chunk.prototypes ++ [p]).length - 1]? = some p
    simp
  · obtain ⟨uv, hm, rfl⟩ := List.mem_map.mp hk
    exact hS.1.symm ▸ hcaptures uv hm
  · obtain rfl := List.mem_singleton.mp hx
    exact ⟨S.change 0 1, rfl, Shape.Sub.refl _⟩
  · exact Option.some.inj hτ ▸ hset.valid (a := 0) hv
  · cases hτ
    exact hq

end Tsumugi.Bytecode
