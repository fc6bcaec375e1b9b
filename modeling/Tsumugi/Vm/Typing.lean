import Tsumugi.Vm.Verifier
import Tsumugi.Lib.Backpatch

/-!
# Shapes: a stack discipline for bytecode

A `Shape` describes the running frame at a position of its code: the height of the operand
stack above the base of the frame, how many of the lowest entries are slots of declared
locals, how many calls have been prepared and not made, which `SetupTry` instructions have
a handler up and at which height they were executed, which entries hold a list or dict
literal under construction, and how many of the slots may be registered as globals.

`need` is what an instruction demands of the shape and of the tables of its chunk, and
`exits` is where it goes, with the shape it leaves. `Typed` chunks have a shape for every
position. That the compiler emits typed chunks is shown in `CompilerLaw`.

Result: `Typed.verifyChunk_ok`: the verifier accepts a typed chunk with all its prototypes.
-/

namespace Tsumugi.Bytecode

open Backpatch (Exit Discipline Closed Leads)

/-- What a literal under construction is. -/
inductive Literal
  | list
  | dict
deriving DecidableEq, Repr

/-- The literal a constant is the beginning of. -/
def Value.literal? : Value → Option Literal
  | .list _ => some .list
  | .dict _ => some .dict
  | _ => none

/-- What is known of the running frame at a position of its code. -/
structure Shape where
  height : Nat
  locals : Nat
  paid : Nat
  handlers : List (Nat × Nat)
  literals : List (Nat × Literal)
  globals : Nat
deriving DecidableEq, Repr

namespace Shape

/-- A position with shape `ρ` may be reached with `σ`: fewer slots may be in use, and less may
be known about literals. -/
structure Sub (σ ρ : Shape) : Prop where
  height : σ.height = ρ.height
  locals : σ.locals ≤ ρ.locals
  paid : σ.paid = ρ.paid
  handlers : σ.handlers = ρ.handlers
  literals : ∀ l ∈ ρ.literals, l ∈ σ.literals
  globals : σ.globals = ρ.globals

theorem Sub.refl (σ : Shape) : Sub σ σ := ⟨rfl, Nat.le_refl _, rfl, rfl, fun _ h => h, rfl⟩

theorem Sub.trans {σ ρ τ : Shape} (h : Sub σ ρ) (h' : Sub ρ τ) : Sub σ τ where
  height := h.height.trans h'.height
  locals := Nat.le_trans h.locals h'.locals
  paid := h.paid.trans h'.paid
  handlers := h.handlers.trans h'.handlers
  literals l hl := h.literals l (h'.literals l hl)
  globals := h.globals.trans h'.globals

/-- The parts of a shape fit together, in a frame with `maxLocals` slots. -/
structure Valid (maxLocals : Nat) (τ : Shape) : Prop where
  globals : τ.globals ≤ τ.locals
  locals : τ.locals ≤ τ.height
  bound : τ.locals ≤ maxLocals
  handlers : ∀ h ∈ τ.handlers, h.2 ≤ τ.locals
  literals : ∀ l ∈ τ.literals, τ.locals ≤ l.1 ∧ l.1 < τ.height

/-- The top `n` entries are neither slots nor literals under construction. -/
def Free (τ : Shape) (n : Nat) : Prop :=
  τ.locals + n ≤ τ.height ∧ ∀ l ∈ τ.literals, l.1 + n < τ.height

/-- The shape after `n` entries have been popped and `m` pushed. -/
def change (τ : Shape) (n m : Nat) : Shape := { τ with height := τ.height - n + m }

/-- The shape after `n` entries have been popped that may be slots. -/
def cut (τ : Shape) (n : Nat) : Shape :=
  { τ with height := τ.height - n, locals := min τ.locals (τ.height - n) }

/-- The shape after a constant has been pushed. -/
def load (τ : Shape) (v : Option Value) : Shape :=
  { τ.change 0 1 with
    literals := ((v.bind Value.literal?).map (τ.height, ·)).toList ++ τ.literals }

/-- The shape between two statements, with the given number of locals. -/
def stmt (locals : Nat) (handlers : List (Nat × Nat)) (globals : Nat) : Shape where
  height := locals
  locals
  paid := 0
  handlers
  literals := []
  globals

end Shape

/-- What a chunk is for: `isRoot` says that its locals may be registered as globals, `returns`
that it may return a value, and `exit` is the shape in which `Return` leaves it. -/
structure Role where
  isRoot : Bool
  returns : Bool
  exit : Option Shape

/-- The role of a function body. -/
def Role.function : Role := ⟨false, true, none⟩

/-- The tables of a chunk that its instructions refer to. -/
structure Tables where
  constants : List Value
  prototypes : List FunctionPrototype
  upvalues : Nat
  maxLocals : Nat
  role : Role

/-- The tables of a finished chunk. -/
def Chunk.tables (c : Chunk) (upvalues : Nat) (role : Role) : Tables :=
  ⟨c.constants, c.prototypes, upvalues, c.maxLocals, role⟩

namespace Tables

/-- The tables have got more entries. -/
structure Grow (t u : Tables) : Prop where
  constants : t.constants <+: u.constants
  prototypes : t.prototypes <+: u.prototypes
  upvalues : t.upvalues ≤ u.upvalues
  maxLocals : t.maxLocals ≤ u.maxLocals
  isRoot : t.role.isRoot = u.role.isRoot
  returns : t.role.returns = u.role.returns
  exit : ∀ σ, t.role.exit = some σ → u.role.exit = some σ

/-- A capture refers to a declared local or an upvalue. -/
def CaptureOk (locals upvalues : Nat) : CaptureDesc → Prop
  | .localSlot slot => slot < locals
  | .upvalue index => index < upvalues

/-- A binding that is written in place exists. -/
def TargetOk (locals upvalues : Nat) : MutationTarget → Prop
  | .localSlot slot => slot < locals
  | .upvalue index => index < upvalues
  | .globalName _ => True

end Tables

/-- What an instruction demands. -/
def need (t : Tables) (op : OpCode) (τ : Shape) : Prop :=
  match op with
  | .loadConst i | .loadConstRaw i => i < t.constants.length
  | .add | .sub | .mul | .div | .mod | .eq | .notEq | .lt | .gt | .ltEq | .gtEq | .index =>
    τ.Free 2
  | .not | .negate | .jumpIfFalse _ | .toIterList | .popUpdate => τ.Free 1
  | .getLocal s | .setLocal s | .lenLocal s => s < τ.locals
  | .getGlobal _ | .getGlobalForCall _ | .requireGlobal _ | .jumpIfGlobalDefined .. | .jump _
  | .loop _ | .prepareCall | .validateBuiltinCall .. => True
  | .setGlobal _ | .jumpIfFalseKeep _ | .jumpIfTrueKeep _ | .validateCall _ => 0 < τ.height
  | .registerGlobal _ slot => t.role.isRoot = true ∧ τ.handlers = [] ∧ slot < τ.locals
  | .call n => τ.Free (n + 1) ∧ 0 < τ.paid
  | .returnValue => t.role.returns = true ∧ 0 < τ.height
  | .getUpvalue i => i < t.upvalues
  | .setUpvalue i => i < t.upvalues ∧ 0 < τ.height
  | .makeClosure i => ∃ p, t.prototypes[i]? = some p ∧
      ∀ c ∈ p.captures, Tables.CaptureOk τ.locals t.upvalues c
  | .print n | .fStrConcat n => τ.Free n
  | .pop => 0 < τ.height ∧ ∀ l ∈ τ.literals, l.1 + 1 < τ.height
  | .popN n => n ≤ τ.height ∧ ∀ l ∈ τ.literals, l.1 + n < τ.height
  | .indexLocal s => s < τ.locals ∧ τ.Free 1
  | .listPush => τ.Free 1 ∧ (τ.height - 2, .list) ∈ τ.literals
  | .dictInsert => τ.Free 2 ∧ (τ.height - 3, .dict) ∈ τ.literals
  | .setIndex target => τ.Free 2 ∧ Tables.TargetOk τ.locals t.upvalues target
  | .listPushBinding target => τ.Free 1 ∧ Tables.TargetOk τ.locals t.upvalues target
  | .callBuiltin id n => isRegistered id = true ∧ τ.Free n
  | .«return» => t.role.exit = some τ
  | .setupTry _ => τ.paid = 0 ∧ τ.literals = [] ∧ τ.locals = τ.height
  | .teardownTry => τ.handlers ≠ []

/-- Where an instruction at `pc` goes, with the shape it leaves. -/
def exits (t : Tables) (pc : Nat) (op : OpCode) (τ : Shape) : List (Exit Shape) :=
  match op with
  | .loadConst i => [.next (τ.load t.constants[i]?)]
  | .loadConstRaw _ | .getLocal _ | .getGlobal _ | .getGlobalForCall _ | .getUpvalue _
  | .makeClosure _ | .lenLocal _ => [.next (τ.change 0 1)]
  | .add | .sub | .mul | .div | .mod | .eq | .notEq | .lt | .gt | .ltEq | .gtEq | .index =>
    [.next (τ.change 2 1)]
  | .not | .negate | .toIterList | .indexLocal _ => [.next (τ.change 1 1)]
  | .setLocal _ | .setGlobal _ | .requireGlobal _ | .validateCall _ | .setUpvalue _
  | .validateBuiltinCall .. | .popUpdate => [.next τ]
  | .registerGlobal _ slot => [.next { τ with globals := max τ.globals (slot + 1) }]
  | .jumpIfGlobalDefined _ target | .jumpIfFalseKeep target | .jumpIfTrueKeep target =>
    [.jump target τ, .next τ]
  | .jump target => [.jump target τ]
  | .jumpIfFalse target => [.jump target (τ.change 1 0), .next (τ.change 1 0)]
  | .loop target => [.back target τ]
  | .prepareCall => [.next { τ with paid := τ.paid + 1 }]
  | .call n => [.next { τ.change (n + 1) 1 with paid := τ.paid - 1 }]
  | .returnValue | .«return» => []
  | .print n => [.next (τ.change n 0)]
  | .pop => [.next (τ.cut 1)]
  | .popN n => [.next (τ.cut n)]
  | .listPush | .listPushBinding _ => [.next (τ.change 1 0)]
  | .dictInsert | .setIndex _ => [.next (τ.change 2 0)]
  | .callBuiltin _ n | .fStrConcat n => [.next (τ.change n 1)]
  | .setupTry target =>
    [.jump target (τ.change 0 1), .next { τ with handlers := (pc, τ.height) :: τ.handlers }]
  | .teardownTry => [.next { τ with handlers := τ.handlers.tail }]

theorem Tables.Grow.captureOk {t u : Tables} (h : t.Grow u) {locals : Nat} {c : CaptureDesc}
    (hc : CaptureOk locals t.upvalues c) : CaptureOk locals u.upvalues c := by
  cases c with
  | localSlot slot => exact hc
  | upvalue index => exact Nat.lt_of_lt_of_le hc h.upvalues

theorem Tables.Grow.targetOk {t u : Tables} (h : t.Grow u) {locals : Nat} {c : MutationTarget}
    (hc : TargetOk locals t.upvalues c) : TargetOk locals u.upvalues c := by
  cases c with
  | localSlot slot => exact hc
  | upvalue index => exact Nat.lt_of_lt_of_le hc h.upvalues
  | globalName name => trivial

/-- A prefix has the same members at its positions. -/
theorem getElem?_of_prefix {α : Type} {l l' : List α} {i : Nat} {a : α} (h : l <+: l')
    (ha : l[i]? = some a) : l'[i]? = some a := by
  obtain ⟨hlt, rfl⟩ := List.getElem?_eq_some_iff.mp ha
  exact List.prefix_iff_getElem?.mp h i hlt

theorem need_grow {t u : Tables} {op : OpCode} {τ : Shape} (h : t.Grow u) (hn : need t op τ) :
    need u op τ := by
  cases op with
  | loadConst i | loadConstRaw i => exact Nat.lt_of_lt_of_le hn h.constants.length_le
  | getUpvalue i => exact Nat.lt_of_lt_of_le hn h.upvalues
  | setUpvalue i => exact ⟨Nat.lt_of_lt_of_le hn.1 h.upvalues, hn.2⟩
  | registerGlobal name slot => exact ⟨h.isRoot ▸ hn.1, hn.2⟩
  | returnValue => exact ⟨h.returns ▸ hn.1, hn.2⟩
  | «return» => exact h.exit τ hn
  | setIndex target | listPushBinding target => exact ⟨hn.1, h.targetOk hn.2⟩
  | makeClosure i =>
    obtain ⟨p, hp, hc⟩ := hn
    exact ⟨p, getElem?_of_prefix h.prototypes hp, fun c hm => h.captureOk (hc c hm)⟩
  | _ => exact hn

theorem exits_grow {t u : Tables} {pc : Nat} {op : OpCode} {τ : Shape} (h : t.Grow u)
    (hn : need t op τ) : exits u pc op τ = exits t pc op τ := by
  cases op with
  | loadConst i =>
    obtain ⟨v, hv⟩ : ∃ v, t.constants[i]? = some v := ⟨_, List.getElem?_eq_getElem hn⟩
    show [Exit.next (τ.load u.constants[i]?)] = [.next (τ.load t.constants[i]?)]
    rw [hv, getElem?_of_prefix h.constants hv]
  | _ => rfl

/-- The discipline of shapes. -/
def shapes : Discipline Tables OpCode Shape where
  sub := Shape.Sub
  grow := Tables.Grow
  demand t op τ := τ.Valid t.maxLocals ∧ need t op τ
  exits := exits
  sub_refl := Shape.Sub.refl
  sub_trans := Shape.Sub.trans
  demand_grow h hn :=
    ⟨{ hn.1 with bound := Nat.le_trans hn.1.bound h.maxLocals }, need_grow h hn.2⟩
  exits_grow h hn := Bytecode.exits_grow h hn.2

/-! ## Typed chunks -/

/-- Wherever the handler of a `SetupTry` may be up, the catch block lies ahead. -/
def CatchesAhead (code : List OpCode) (types : List Shape) : Prop :=
  ∀ (pc : Nat) τ, types[pc]? = some τ → ∀ h ∈ τ.handlers,
    ∃ target, code[h.1]? = some (.setupTry target) ∧ pc < target

/-- The instructions of a chunk have shapes. -/
structure Labelled (role : Role) (upvalues : Nat) (entry : Shape) (c : Chunk)
    (types : List Shape) : Prop where
  closed : Closed shapes (c.tables upvalues role) c.code types
  entry : ∃ ρ, types[0]? = some ρ ∧ entry.Sub ρ
  lines : c.lines.length = c.code.length
  live : List.Forall₂ (fun τ n => τ.locals ≤ n) types c.live
  boundaries : ∀ b ∈ c.boundaries, ∃ ρ, types[b.1]? = some ρ ∧ ρ.height = b.2
  catches : CatchesAhead c.code types
  constants : ∀ v ∈ c.constants, v.All fun _ => False
  captures : ∀ p ∈ c.prototypes, ∀ k ∈ p.captures, Tables.CaptureOk c.maxLocals upvalues k

/-- The shape a function body starts in: slot 0 is the function, then come the arguments. -/
def FunctionPrototype.entry (p : FunctionPrototype) : Shape := .stmt (p.arity + 1) [] 0

/-- A chunk has shapes, and so have the bodies of its prototypes. -/
inductive Typed : Role → Nat → Shape → Chunk → Prop
  | mk {role upvalues entry c} (types : List Shape) (labelled : Labelled role upvalues entry c types)
      (prototypes : ∀ p ∈ c.prototypes, Typed .function p.captures.length p.entry p.chunk) :
      Typed role upvalues entry c

/-- Every instruction of a labelled chunk has a shape that it accepts. -/
theorem Labelled.shape {role : Role} {upvalues : Nat} {entry : Shape} {c : Chunk}
    {types : List Shape} (h : Labelled role upvalues entry c types) {pc : Nat} {op : OpCode}
    (hop : c.code[pc]? = some op) :
    ∃ τ, types[pc]? = some τ ∧ τ.Valid c.maxLocals ∧ need (c.tables upvalues role) op τ := by
  have hlt : pc < types.length := h.closed.length_eq ▸ (List.getElem?_eq_some_iff.mp hop).1
  have hτ := List.getElem?_eq_getElem hlt
  exact ⟨types[pc], hτ, h.closed.demand pc op _ hop hτ⟩

/-! ## The verifier accepts typed chunks -/

/-- The target of a jump is an instruction. -/
theorem Labelled.target_lt {role : Role} {upvalues : Nat} {entry : Shape} {c : Chunk}
    {types : List Shape} (h : Labelled role upvalues entry c types) {pc t : Nat} {op : OpCode}
    {τ σ : Shape} (hop : c.code[pc]? = some op) (hτ : types[pc]? = some τ)
    (hx : .jump t σ ∈ exits (c.tables upvalues role) pc op τ ∨
      .back t σ ∈ exits (c.tables upvalues role) pc op τ) : t ≤ c.code.length := by
  have hlt : ∃ ρ, types[t]? = some ρ := by
    rcases hx with hx | hx
    · obtain ⟨-, ρ, hρ, -⟩ := h.closed.leads pc op τ hop hτ _ hx
      exact ⟨ρ, hρ⟩
    · obtain ⟨ρ, hρ, -⟩ := h.closed.leads pc op τ hop hτ _ hx
      exact ⟨ρ, hρ⟩
  obtain ⟨ρ, hρ⟩ := hlt
  exact Nat.le_of_lt (h.closed.length_eq ▸ (List.getElem?_eq_some_iff.mp hρ).1)

theorem Labelled.verifyOp_ok {role : Role} {upvalues : Nat} {entry : Shape} {c : Chunk}
    {types : List Shape} (h : Labelled role upvalues entry c types) {pc : Nat} {op : OpCode}
    (hop : c.code[pc]? = some op) : verifyOp c upvalues op = .ok () := by
  obtain ⟨τ, hτ, hv, hn⟩ := h.shape hop
  -- a slot below the locals of the shape is below the bound of the chunk
  have hslot : ∀ {s}, s < τ.locals → s < c.maxLocals := fun hs => Nat.lt_of_lt_of_le hs hv.bound
  have htarget : ∀ {target}, Tables.TargetOk τ.locals upvalues target →
      verifyOp c upvalues (.setIndex target) = .ok () := by
    intro target ht
    cases target with
    | localSlot s => exact demand_eq_ok.mpr (hslot ht)
    | upvalue i => exact demand_eq_ok.mpr ht
    | globalName name => rfl
  cases op with
  | loadConst i | loadConstRaw i | getUpvalue i => exact demand_eq_ok.mpr hn
  | setUpvalue i => exact demand_eq_ok.mpr hn.1
  | getLocal s | setLocal s | lenLocal s => exact demand_eq_ok.mpr (hslot hn)
  | indexLocal s => exact demand_eq_ok.mpr (hslot hn.1)
  | registerGlobal name s => exact demand_eq_ok.mpr (hslot hn.2.2)
  | setIndex target | listPushBinding target => exact htarget hn.2
  | jump t | jumpIfFalse t | jumpIfFalseKeep t | jumpIfTrueKeep t | setupTry t =>
    exact demand_eq_ok.mpr (h.target_lt hop hτ (.inl List.mem_cons_self))
  | jumpIfGlobalDefined name t =>
    exact demand_eq_ok.mpr (h.target_lt hop hτ (.inl List.mem_cons_self))
  | loop t => exact demand_eq_ok.mpr (h.target_lt hop hτ (.inr List.mem_cons_self))
  | callBuiltin id n => exact demand_eq_ok.mpr hn.1
  | makeClosure i =>
    obtain ⟨p, hp, -⟩ := hn
    exact demand_eq_ok.mpr (List.getElem?_eq_some_iff.mp hp).1
  | _ => rfl

/-- The verifier accepts a typed chunk with all its prototypes. -/
theorem Typed.verifyChunk_ok {role : Role} {upvalues : Nat} {entry : Shape} {c : Chunk}
    (h : Typed role upvalues entry c) : verifyChunk upvalues c = .ok () := by
  induction h with
  | mk types labelled prototypes ih =>
    refine verifyChunk_eq_ok.mpr ⟨labelled.lines, fun op hop => ?_, fun p hp => ⟨fun k hk => ?_, ?_⟩⟩
    · obtain ⟨pc, hpc⟩ := List.mem_iff_getElem?.mp hop
      exact labelled.verifyOp_ok hpc
    · have hok := labelled.captures p hp k hk
      cases k with
      | localSlot slot => exact demand_eq_ok.mpr hok
      | upvalue index => exact demand_eq_ok.mpr hok
    · exact ih p hp

end Tsumugi.Bytecode
