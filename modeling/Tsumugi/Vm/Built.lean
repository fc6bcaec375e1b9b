import Tsumugi.Vm.Typing
import Tsumugi.Vm.Compiler

/-!
# What the compiler has built

`Built` is the invariant of a compiler: its unfinished chunk is labelled with shapes, every
table entry is in order, and the names it has asked its ancestors for exist there. `At`
adds what surrounds the construct that is being compiled. A construct is specified by two
`At`s, one before and one after.

Results:
1. `triple_emit`, `triple_emitPending`: one more instruction.
2. `triple_patchJump`, `triple_patchSetup`: a jump or a handler gets its target.
3. `triple_resolveUpvalue`, `childUpvalues_ok`: a name of an enclosing function becomes an
   upvalue whose capture descriptor is in range.
-/

namespace Tsumugi.Bytecode

open Backpatch (Exit Flow Emitted)
open Proc (Triple)

/-! ## The invariant -/

/-- A `SetupTry` whose catch block has not begun. -/
def Waits (code : List OpCode) (pend : List (Nat × Shape)) (p : Nat) : Prop :=
  (∃ ρ, (p, ρ) ∈ pend) ∧ ∃ target, code[p]? = some (.setupTry target)

/-- The upvalue stands for a local of the parent or for a name of the ancestors. -/
def Compiler.UpvalueOk (c : Compiler) (uv : Upvalue) : Prop :=
  if uv.isLocal then ∃ locals, c.enclosingLocals = some locals ∧ uv.slot < locals.length
  else ∃ names, c.enclosingUpvalues = some names ∧ ∃ v ∈ names, v.name = uv.name

/-- The tables of the unfinished chunk. -/
def Compiler.tables (c : Compiler) (role : Role) : Tables where
  constants := c.chunk.constants
  prototypes := c.chunk.prototypes
  upvalues := c.upvalues.length
  maxLocals := c.maxLocals
  role

/-- A handler that may be up waits for its catch block or has it ahead. -/
def CatchesSoFar (code : List OpCode) (types : List Shape) (pend : List (Nat × Shape)) : Prop :=
  ∀ (pc : Nat) τ, types[pc]? = some τ → ∀ h ∈ τ.handlers,
    ∃ target, code[h.1]? = some (.setupTry target) ∧ ((∃ ρ, (h.1, ρ) ∈ pend) ∨ pc < target)

/-- The invariant of a compiler. -/
structure Built (role : Role) (c : Compiler) (types : List Shape) (cur : Option Shape)
    (pend anchors : List (Nat × Shape)) : Prop where
  flow : Flow shapes (c.tables role) c.chunk.code types cur pend anchors
  valid : ∀ τ ∈ cur, τ.Valid c.maxLocals
  waits : ∀ τ ∈ cur, ∀ h ∈ τ.handlers, Waits c.chunk.code pend h.1
  lines : c.chunk.lines.length = c.chunk.code.length
  live : List.Forall₂ (fun τ n => τ.locals ≤ n) types c.chunk.live
  boundaries : ∀ b ∈ c.chunk.boundaries, ∃ ρ, (b.1, ρ) ∈ anchors ∧ ρ.height = b.2
  catches : CatchesSoFar c.chunk.code types pend
  constants : ∀ v ∈ c.chunk.constants, v.All fun _ => False
  prototypes : ∀ p ∈ c.chunk.prototypes,
    (∀ k ∈ p.captures, Tables.CaptureOk c.maxLocals c.upvalues.length k) ∧
    Typed .function p.captures.length p.entry p.chunk
  upvalues : ∀ uv ∈ c.upvalues, c.UpvalueOk uv
  slots : c.locals.length ≤ c.maxLocals

/-- The compiler `c'` has the chunk of `c` and at least its tables. -/
structure Compiler.Extends (c c' : Compiler) : Prop where
  chunk : c'.chunk = c.chunk
  upvalues : c.upvalues.length ≤ c'.upvalues.length
  maxLocals : c.maxLocals ≤ c'.maxLocals
  enclosingLocals : c'.enclosingLocals = c.enclosingLocals
  enclosingUpvalues : c'.enclosingUpvalues = c.enclosingUpvalues

namespace Built

variable {role : Role} {c c' : Compiler} {types : List Shape} {cur cur' : Option Shape}
  {pend pend' anchors : List (Nat × Shape)}

/-- A change that leaves the chunk alone. -/
theorem extend (h : Built role c types cur pend anchors) (he : c.Extends c')
    (hslots : c'.locals.length ≤ c'.maxLocals) (huv : ∀ uv ∈ c'.upvalues, c.UpvalueOk uv) :
    Built role c' types cur pend anchors where
  flow := by
    rw [he.chunk]
    refine h.flow.grow ⟨?_, ?_, he.upvalues, he.maxLocals, rfl, rfl, fun σ hσ => hσ⟩
    · show c.chunk.constants <+: c'.chunk.constants
      exact he.chunk ▸ List.prefix_refl c.chunk.constants
    · show c.chunk.prototypes <+: c'.chunk.prototypes
      exact he.chunk ▸ List.prefix_refl c.chunk.prototypes
  valid τ hτ :=
    have hv := h.valid τ hτ
    { hv with bound := Nat.le_trans hv.bound he.maxLocals }
  waits := he.chunk ▸ h.waits
  lines := he.chunk ▸ h.lines
  live := he.chunk ▸ h.live
  boundaries := he.chunk ▸ h.boundaries
  catches := he.chunk ▸ h.catches
  constants := he.chunk ▸ h.constants
  prototypes p hp := by
    obtain ⟨hk, ht⟩ := h.prototypes p (he.chunk ▸ hp)
    refine ⟨fun k hm => ?_, ht⟩
    have hk := hk k hm
    cases k with
    | localSlot slot => exact Nat.lt_of_lt_of_le hk he.maxLocals
    | upvalue index => exact Nat.lt_of_lt_of_le hk he.upvalues
  upvalues uv hm := by
    have := huv uv hm
    unfold Compiler.UpvalueOk at this ⊢
    rwa [he.enclosingLocals, he.enclosingUpvalues]
  slots := hslots

/-- The shape in which the chunk is left may be fixed late. -/
theorem setExit {σ : Shape} (h : Built role c types cur pend anchors) (he : role.exit = none) :
    Built { role with exit := some σ } c types cur pend anchors :=
  { h with flow := h.flow.grow ⟨List.prefix_refl _, List.prefix_refl _, Nat.le_refl _,
      Nat.le_refl _, rfl, rfl, fun υ hυ => by rw [Compiler.tables, he] at hυ; cases hυ⟩ }

/-- The order in which the jumps wait does not matter. -/
theorem congr (h : Built role c types cur pend anchors) (hp : ∀ e, e ∈ pend' ↔ e ∈ pend) :
    Built role c types cur pend' anchors where
  flow := h.flow.congr hp
  valid := h.valid
  waits τ hτ p hm := by
    obtain ⟨⟨ρ, hρ⟩, hop⟩ := h.waits τ hτ p hm
    exact ⟨⟨ρ, (hp _).mpr hρ⟩, hop⟩
  lines := h.lines
  live := h.live
  boundaries := h.boundaries
  catches pc τ hτ p hm := by
    obtain ⟨t, hop, hw⟩ := h.catches pc τ hτ p hm
    exact ⟨t, hop, hw.imp_left fun ⟨ρ, hρ⟩ => ⟨ρ, (hp _).mpr hρ⟩⟩
  constants := h.constants
  prototypes := h.prototypes
  upvalues := h.upvalues
  slots := h.slots

/-- Another label for the next position. -/
theorem relabel (h : Built role c types cur pend anchors)
    (hc : ∀ τ ∈ cur, ∃ τ' ∈ cur', τ.Sub τ') (hv : ∀ τ ∈ cur', τ.Valid c.maxLocals)
    (hw : ∀ τ ∈ cur', ∀ h ∈ τ.handlers, Waits c.chunk.code pend h.1) :
    Built role c types cur' pend anchors :=
  { h with flow := h.flow.relabel hc, valid := hv, waits := hw }

/-- The position of the next instruction may be jumped back to. -/
theorem anchor {τ : Shape} (h : Built role c types (some τ) pend anchors) :
    Built role c types (some τ) pend ((c.chunk.code.length, τ) :: anchors) :=
  { h with
    flow := h.flow.anchor
    boundaries := fun b hb => by
      obtain ⟨ρ, hρ, hh⟩ := h.boundaries b hb
      exact ⟨ρ, List.mem_cons_of_mem _ hρ, hh⟩ }

/-- One more instruction, which may have to wait for its target. -/
theorem emit {τ : Shape} {op : OpCode} {line : Nat} {w : Option Shape}
    (h : Built role c types (some τ) pend anchors) (hn : need (c.tables role) op τ)
    (hx : ∀ x ∈ exits (c.tables role) c.chunk.code.length op τ,
      Emitted shapes anchors cur' w x)
    (hl : τ.locals ≤ c.locals.length) (hv : ∀ τ' ∈ cur', τ'.Valid c.maxLocals)
    (hw : ∀ τ' ∈ cur', ∀ p ∈ τ'.handlers, p ∈ τ.handlers ∨
      p.1 = c.chunk.code.length ∧ w.isSome ∧ ∃ t, op = .setupTry t) :
    Built role { c with chunk := c.chunk.emit op line c.locals.length } (types ++ [τ]) cur'
      ((w.map (c.chunk.code.length, ·)).toList ++ pend) anchors where
  flow := h.flow.emit ⟨h.valid τ rfl, hn⟩ hx
  valid := hv
  waits τ' hτ' p hp := by
    show Waits (c.chunk.code ++ [op]) _ p.1
    rcases hw τ' hτ' p hp with hp | ⟨hp, hs, t, rfl⟩
    · obtain ⟨⟨ρ, hρ⟩, t, ht⟩ := h.waits τ rfl p hp
      refine ⟨⟨ρ, List.mem_append_right _ hρ⟩, t, ?_⟩
      rw [List.getElem?_append_left (List.getElem?_eq_some_iff.mp ht).1]
      exact ht
    · obtain ⟨ρ, rfl⟩ := Option.isSome_iff_exists.mp hs
      rw [hp]
      exact ⟨⟨ρ, List.mem_append_left _ (by simp)⟩, t, List.getElem?_concat_length⟩
  lines := by simp [Chunk.emit, h.lines]
  live := List.rel_append h.live (.cons hl .nil)
  boundaries := h.boundaries
  catches pc υ hυ p hp := by
    show ∃ target, (c.chunk.code ++ [op])[p.1]? = some (.setupTry target) ∧ _
    have hkeep : ∀ {t}, c.chunk.code[p.1]? = some (.setupTry t) →
        (c.chunk.code ++ [op])[p.1]? = some (.setupTry t) := fun ht => by
      rw [List.getElem?_append_left (List.getElem?_eq_some_iff.mp ht).1]
      exact ht
    rcases Nat.lt_or_ge pc types.length with hlt | hge
    · rw [List.getElem?_append_left hlt] at hυ
      obtain ⟨t, ht, hor⟩ := h.catches pc υ hυ p hp
      exact ⟨t, hkeep ht, hor.imp_left fun ⟨ρ, hρ⟩ => ⟨ρ, List.mem_append_right _ hρ⟩⟩
    · obtain rfl : υ = τ := by
        rw [List.getElem?_append_right hge] at hυ
        have := List.mem_of_getElem? hυ
        simpa using this
      obtain ⟨⟨ρ, hρ⟩, t, ht⟩ := h.waits υ rfl p hp
      exact ⟨t, hkeep ht, .inl ⟨ρ, List.mem_append_right _ hρ⟩⟩
  constants := h.constants
  prototypes := h.prototypes
  upvalues := h.upvalues
  slots := h.slots

/-- One more constant. -/
theorem addConstant {v : Value} (h : Built role c types cur pend anchors)
    (hv : v.All fun _ => False) :
    Built role { c with chunk := c.chunk.addConstant v } types cur pend anchors where
  flow := h.flow.grow ⟨List.prefix_append _ _, List.prefix_refl _, Nat.le_refl _, Nat.le_refl _,
    rfl, rfl, fun σ hσ => hσ⟩
  valid := h.valid
  waits := h.waits
  lines := h.lines
  live := h.live
  boundaries := h.boundaries
  catches := h.catches
  constants w hw := by
    rcases List.mem_append.mp hw with hw | hw
    · exact h.constants w hw
    · rw [List.mem_singleton.mp hw]
      exact hv
  prototypes := h.prototypes
  upvalues := h.upvalues
  slots := h.slots

/-- One more prototype. -/
theorem addPrototype {p : FunctionPrototype} (h : Built role c types cur pend anchors)
    (hk : ∀ k ∈ p.captures, Tables.CaptureOk c.maxLocals c.upvalues.length k)
    (ht : Typed .function p.captures.length p.entry p.chunk) :
    Built role { c with chunk := c.chunk.addPrototype p } types cur pend anchors where
  flow := h.flow.grow ⟨List.prefix_refl _, List.prefix_append _ _, Nat.le_refl _, Nat.le_refl _,
    rfl, rfl, fun σ hσ => hσ⟩
  valid := h.valid
  waits := h.waits
  lines := h.lines
  live := h.live
  boundaries := h.boundaries
  catches := h.catches
  constants := h.constants
  prototypes q hq := by
    rcases List.mem_append.mp hq with hq | hq
    · exact h.prototypes q hq
    · rw [List.mem_singleton.mp hq]
      exact ⟨hk, ht⟩
  upvalues := h.upvalues
  slots := h.slots

/-- A statement begins or ends here. -/
theorem mark {τ : Shape} (h : Built role c types (some τ) pend anchors)
    (hh : τ.height = c.locals.length) :
    Built role { c with chunk := { c.chunk with
      boundaries := c.chunk.boundaries ++ [(c.chunk.code.length, c.locals.length)] } }
      types (some τ) pend ((c.chunk.code.length, τ) :: anchors) where
  flow := h.flow.anchor
  valid := h.valid
  waits := h.waits
  lines := h.lines
  live := h.live
  boundaries b hb := by
    rcases List.mem_append.mp hb with hb | hb
    · exact h.anchor.boundaries b hb
    · rw [List.mem_singleton.mp hb]
      exact ⟨τ, List.mem_cons_self, hh⟩
  catches := h.catches
  constants := h.constants
  prototypes := h.prototypes
  upvalues := h.upvalues
  slots := h.slots

/-- A waiting jump gets the next position as its target. -/
theorem patch {τ ρ : Shape} {op op' : OpCode} {off : Nat}
    (h : Built role c types (some τ) ((off, ρ) :: pend) anchors) (hsub : ρ.Sub τ)
    (hop : c.chunk.code[off]? = some op)
    (hd : ∀ t υ, need t op υ → need t op' υ)
    (hx : ∀ t υ, exits t off op' υ = (exits t off op υ).map (.retarget c.chunk.code.length))
    (hs : ∀ t, op = .setupTry t →
      (∀ h ∈ τ.handlers, h.1 ≠ off) ∧ op' = .setupTry c.chunk.code.length) :
    Built role { c with chunk := { c.chunk with code := c.chunk.code.set off op' } } types
      (some τ) pend anchors := by
  -- The `SetupTry` of a handler is patched only when the handler is not up any more.
  have hset : ∀ (p : Nat) t, c.chunk.code[p]? = some (.setupTry t) →
      (c.chunk.code.set off op')[p]? =
        some (.setupTry (if p = off then c.chunk.code.length else t)) := by
    intro p t hp
    by_cases heq : p = off
    · subst heq
      have hlt : p < c.chunk.code.length := (List.getElem?_eq_some_iff.mp hp).1
      rw [hop, Option.some.injEq] at hp
      rw [List.getElem?_set_self hlt, (hs t hp).2, if_pos rfl]
    · rw [List.getElem?_set_ne (Ne.symm heq), if_neg heq]
      exact hp
  exact
    { flow := h.flow.patch hsub hop (fun υ hn => ⟨hn.1, hd _ υ hn.2⟩) (hx _)
      valid := h.valid
      waits := fun τ' hτ' p hp => by
        cases hτ'
        obtain ⟨⟨υ, hυ⟩, t, ht⟩ := h.waits τ rfl p hp
        refine ⟨⟨υ, (List.mem_cons.mp hυ).resolve_left fun heq => ?_⟩, _, hset p.1 t ht⟩
        have hoff := (Prod.mk.inj heq).1
        rw [hoff, hop, Option.some.injEq] at ht
        exact (hs t ht).1 p hp hoff
      lines := by rw [h.lines]; exact (List.length_set ..).symm
      live := h.live
      boundaries := h.boundaries
      catches := fun pc υ hυ p hp => by
        obtain ⟨t, ht, hor⟩ := h.catches pc υ hυ p hp
        have hpc : pc < c.chunk.code.length :=
          h.flow.length_eq ▸ (List.getElem?_eq_some_iff.mp hυ).1
        refine ⟨_, hset p.1 t ht, ?_⟩
        by_cases heq : p.1 = off
        · rw [if_pos heq]
          exact .inr hpc
        · rw [if_neg heq]
          refine hor.imp_left fun ⟨σ, hσ⟩ => ⟨σ, ?_⟩
          exact (List.mem_cons.mp hσ).resolve_left fun h => heq (Prod.mk.inj h).1
      constants := h.constants
      prototypes := h.prototypes
      upvalues := h.upvalues
      slots := h.slots }

end Built

/-! ## The surroundings of a construct -/

/-- The shape in which `break` and `continue` of a loop jump, when `handlers` are up. -/
def LoopState.shape (l : LoopState) (handlers : List (Nat × Nat)) (globals : Nat) : Shape :=
  .stmt l.localsCount (handlers.drop l.tryDepth) globals

/-- The jumps that wait in a loop. A `continue` whose target is known does not wait. -/
def LoopState.waiting (l : LoopState) : List Nat :=
  l.breaks ++ if l.continueResolved then [] else l.continues

/-- The jumps that wait in the open loops. -/
def loopsPend (globals : Nat) : List (Nat × Nat) → List LoopState → List (Nat × Shape)
  | _, [] => []
  | handlers, l :: rest =>
    l.waiting.map (·, l.shape handlers globals) ++
      loopsPend globals (handlers.drop l.tryDepth) rest

/-- Where a construct stands: the enclosing functions, the scope, the open loops, the handlers
that are up, how many globals have been registered and how many upvalues at least. -/
structure Site where
  enclosingLocals : Option (List Local)
  enclosingUpvalues : Option (List Upvalue)
  scopeDepth : Nat
  loops : List LoopState
  handlers : List (Nat × Nat)
  globals : Nat
  role : Role
  upvalues : Nat

/-- The shape between two statements. -/
def Site.shape (K : Site) (locals : List Local) : Shape :=
  .stmt locals.length K.handlers K.globals

/-- The compiler stands at `K` with the declared locals `L`. The next instruction is labelled
`cur`, the jumps in `P` wait besides those of the loops, and the positions in `A` may be
jumped back to. -/
structure At (K : Site) (L : List Local) (P A : List (Nat × Shape)) (cur : Option Shape)
    (c : Compiler) : Prop where
  locals : c.locals = L
  enclosingLocals : c.enclosingLocals = K.enclosingLocals
  enclosingUpvalues : c.enclosingUpvalues = K.enclosingUpvalues
  scopeDepth : c.scopeDepth = K.scopeDepth
  loops : c.loops = K.loops
  upvaluesLe : K.upvalues ≤ c.upvalues.length
  built : ∃ types anchors, (∀ e ∈ A, e ∈ anchors) ∧
    Built K.role c types cur (P ++ loopsPend K.globals K.handlers K.loops) anchors
  handlers : ∀ h ∈ K.handlers, Waits c.chunk.code P h.1

namespace At

variable {K : Site} {L : List Local} {P P' A A' : List (Nat × Shape)} {cur cur' : Option Shape}
  {S S' : Shape} {c : Compiler}

/-- The order in which the jumps wait does not matter. -/
theorem congr (h : At K L P A cur c) (hp : ∀ e, e ∈ P' ↔ e ∈ P) : At K L P' A cur c := by
  obtain ⟨types, anchors, hA, hb⟩ := h.built
  refine { h with built := ⟨types, anchors, hA, hb.congr fun e => ?_⟩, handlers := fun p hm => ?_ }
  · simp only [List.mem_append, hp]
  · obtain ⟨⟨ρ, hρ⟩, hop⟩ := h.handlers p hm
    exact ⟨⟨ρ, (hp _).mpr hρ⟩, hop⟩

/-- Fewer positions are remembered. -/
theorem forget (h : At K L P A cur c) (hA : ∀ e ∈ A', e ∈ A) : At K L P A' cur c := by
  obtain ⟨types, anchors, hs, hb⟩ := h.built
  exact { h with built := ⟨types, anchors, fun e he => hs e (hA e he), hb⟩ }

/-- The position of the next instruction is remembered. -/
theorem anchor (h : At K L P A (some S) c) :
    At K L P ((c.chunk.code.length, S) :: A) (some S) c := by
  obtain ⟨types, anchors, hA, hb⟩ := h.built
  refine { h with built := ⟨types, _, fun e he => ?_, hb.anchor⟩ }
  rcases List.mem_cons.mp he with rfl | he
  · exact List.mem_cons_self
  · exact List.mem_cons_of_mem _ (hA e he)

/-- The shape of the next position is valid. -/
theorem valid (h : At K L P A (some S) c) : S.Valid c.maxLocals := by
  obtain ⟨types, anchors, -, hb⟩ := h.built
  exact hb.valid S rfl

/-- The frame of the chunk has room for the declared locals. -/
theorem slots (h : At K L P A cur c) : L.length ≤ c.maxLocals := by
  obtain ⟨types, anchors, -, hb⟩ := h.built
  exact h.locals ▸ hb.slots

/-- The label of the next position may accept more, and may have more declared locals. -/
theorem weaken (h : At K L P A (some S) c) (hsub : S.Sub S')
    (hv : ∀ m, L.length ≤ m → S.Valid m → S'.Valid m) : At K L P A (some S') c := by
  obtain ⟨types, anchors, hA, hb⟩ := h.built
  refine { h with built := ⟨types, anchors, hA, hb.relabel ?_ ?_ ?_⟩ }
  · exact fun τ hτ => ⟨S', rfl, Option.some.inj hτ ▸ hsub⟩
  · exact fun τ hτ => Option.some.inj hτ ▸ hv _ h.slots h.valid
  · intro τ hτ p hp
    cases hτ
    exact hb.waits S rfl p (hsub.handlers ▸ hp)

/-- Code that is not reached may be compiled in any shape. -/
theorem revive (h : At K L P A none c) (hv : ∀ m, L.length ≤ m → S.Valid m)
    (hw : ∀ p ∈ S.handlers, p ∈ K.handlers) : At K L P A (some S) c := by
  obtain ⟨types, anchors, hA, hb⟩ := h.built
  refine { h with built := ⟨types, anchors, hA, hb.relabel ?_ ?_ ?_⟩ }
  · exact fun τ hτ => by cases hτ
  · exact fun τ hτ => Option.some.inj hτ ▸ hv _ h.slots
  · intro τ hτ p hp
    cases hτ
    obtain ⟨⟨ρ, hρ⟩, hop⟩ := h.handlers p (hw p hp)
    exact ⟨⟨ρ, List.mem_append_left _ hρ⟩, hop⟩

/-- A change that leaves the chunk and the surroundings alone. -/
theorem extend {c' : Compiler} {L' : List Local} (h : At K L P A cur c) (he : c.Extends c')
    (hlocals : c'.locals = L') (hdepth : c'.scopeDepth = c.scopeDepth)
    (hloops : c'.loops = c.loops) (hslots : L'.length ≤ c'.maxLocals)
    (huv : ∀ uv ∈ c'.upvalues, c.UpvalueOk uv) : At K L' P A cur c' := by
  obtain ⟨types, anchors, hA, hb⟩ := h.built
  exact
    { locals := hlocals
      enclosingLocals := he.enclosingLocals.trans h.enclosingLocals
      enclosingUpvalues := he.enclosingUpvalues.trans h.enclosingUpvalues
      scopeDepth := hdepth.trans h.scopeDepth
      loops := hloops.trans h.loops
      upvaluesLe := Nat.le_trans h.upvaluesLe he.upvalues
      built := ⟨types, anchors, hA, hb.extend he (hlocals ▸ hslots) huv⟩
      handlers := he.chunk ▸ h.handlers }

/-- Another scope is the innermost one. -/
theorem setScope (h : At K L P A cur c) (depth : Nat) :
    At { K with scopeDepth := depth } L P A cur { c with scopeDepth := depth } := by
  obtain ⟨types, anchors, hA, hb⟩ := h.built
  exact
    { locals := h.locals
      enclosingLocals := h.enclosingLocals
      enclosingUpvalues := h.enclosingUpvalues
      scopeDepth := rfl
      loops := h.loops
      upvaluesLe := h.upvaluesLe
      built := ⟨types, anchors, hA,
        hb.extend ⟨rfl, Nat.le_refl _, Nat.le_refl _, rfl, rfl⟩ hb.slots hb.upvalues⟩
      handlers := h.handlers }

/-- Other loops are open, or other handlers are up; the same jumps wait. -/
theorem setLoops (loops : List LoopState) (handlers : List (Nat × Nat)) (h : At K L P A cur c)
    (hp : ∀ e, e ∈ P' ++ loopsPend K.globals handlers loops ↔
      e ∈ P ++ loopsPend K.globals K.handlers K.loops)
    (hw : ∀ h ∈ handlers, Waits c.chunk.code P' h.1) :
    At { K with loops, handlers } L P' A cur { c with loops } := by
  obtain ⟨types, anchors, hA, hb⟩ := h.built
  exact
    { locals := h.locals
      enclosingLocals := h.enclosingLocals
      enclosingUpvalues := h.enclosingUpvalues
      scopeDepth := h.scopeDepth
      loops := rfl
      upvaluesLe := h.upvaluesLe
      built := ⟨types, anchors, hA, (hb.congr hp).extend
        ⟨rfl, Nat.le_refl _, Nat.le_refl _, rfl, rfl⟩ hb.slots hb.upvalues⟩
      handlers := hw }

/-- The upvalues of the compiler are in order. -/
theorem upvalues (h : At K L P A cur c) : ∀ uv ∈ c.upvalues, c.UpvalueOk uv := by
  obtain ⟨types, anchors, -, hb⟩ := h.built
  exact hb.upvalues

/-- One more instruction. -/
theorem emit {op : OpCode} {line : Nat} {w : Option Shape} (h : At K L P A (some S) c)
    (hn : need (c.tables K.role) op S)
    (hx : ∀ x ∈ exits (c.tables K.role) c.chunk.code.length op S,
      Emitted shapes A cur' w x)
    (hl : S.locals ≤ L.length) (hv : ∀ τ ∈ cur', ∀ m, S.Valid m → τ.Valid m)
    (hw : ∀ τ ∈ cur', ∀ p ∈ τ.handlers, p ∈ S.handlers ∨
      p.1 = c.chunk.code.length ∧ w.isSome ∧ ∃ t, op = .setupTry t) :
    At K L ((w.map (c.chunk.code.length, ·)).toList ++ P) A cur'
      { c with chunk := c.chunk.emit op line c.locals.length } := by
  obtain ⟨types, anchors, hA, hb⟩ := h.built
  refine
    { h with
      built := ⟨types ++ [S], anchors, hA, ?_⟩
      handlers := fun p hp => ?_ }
  · rw [List.append_assoc]
    refine hb.emit hn (fun x hm => ?_) (h.locals ▸ hl) (fun τ hτ => hv τ hτ _ h.valid) hw
    have hx := hx x hm
    cases x with
    | next σ => exact hx
    | jump t σ => exact hx
    | back t σ =>
      obtain ⟨ρ, hρ, hsub⟩ := hx
      exact ⟨ρ, hA _ hρ, hsub⟩
  · obtain ⟨⟨ρ, hρ⟩, t, ht⟩ := h.handlers p hp
    refine ⟨⟨ρ, List.mem_append_right _ hρ⟩, t, ?_⟩
    show (c.chunk.code ++ [op])[p.1]? = _
    rw [List.getElem?_append_left (List.getElem?_eq_some_iff.mp ht).1]
    exact ht

/-- A waiting jump gets the next position as its target. -/
theorem patch {ρ : Shape} {op op' : OpCode} {off : Nat}
    (h : At K L ((off, ρ) :: P) A (some S) c) (hsub : ρ.Sub S)
    (hop : c.chunk.code[off]? = some op)
    (hd : ∀ t υ, need t op υ → need t op' υ)
    (hx : ∀ t υ, exits t off op' υ = (exits t off op υ).map (.retarget c.chunk.code.length))
    (hs : ∀ t, op = .setupTry t → (∀ h ∈ S.handlers, h.1 ≠ off) ∧
      (∀ h ∈ K.handlers, h.1 ≠ off) ∧ op' = .setupTry c.chunk.code.length) :
    At K L P A (some S) { c with chunk := { c.chunk with code := c.chunk.code.set off op' } } := by
  obtain ⟨types, anchors, hA, hb⟩ := h.built
  refine
    { h with
      built := ⟨types, anchors, hA, ?_⟩
      handlers := fun p hp => ?_ }
  · exact hb.patch hsub hop hd hx fun t ht => ⟨(hs t ht).1, (hs t ht).2.2⟩
  · obtain ⟨⟨υ, hυ⟩, t, ht⟩ := h.handlers p hp
    have hne : p.1 ≠ off := by
      intro heq
      rw [heq, hop, Option.some.injEq] at ht
      exact (hs t ht).2.1 p hp heq
    refine ⟨⟨υ, (List.mem_cons.mp hυ).resolve_left fun heq => hne (Prod.mk.inj heq).1⟩, t, ?_⟩
    show (c.chunk.code.set off op')[p.1]? = _
    rw [List.getElem?_set_ne (Ne.symm hne)]
    exact ht

end At

/-! ## Primitives -/

section Triples

variable {K : Site} {L : List Local} {P A : List (Nat × Shape)} {S S' : Shape} {line : Nat}

/-- One more instruction that goes on to the next one. -/
theorem triple_emit {op : OpCode} (hx : ∀ t pc, exits t pc op S = [.next S'])
    (hl : S.locals ≤ L.length) (hv : ∀ m, S.Valid m → S'.Valid m)
    (hw : ∀ p ∈ S'.handlers, p ∈ S.handlers) :
    Triple (fun c => At K L P A (some S) c ∧ need (c.tables K.role) op S)
      (Compile.emit op line) fun _ => At K L P A (some S') := by
  refine Proc.triple_modify fun c hc => ?_
  refine hc.1.emit (w := none) hc.2 (fun x hm => ?_) hl ?_ ?_
  · rw [hx, List.mem_singleton] at hm
    subst hm
    exact ⟨S', rfl, Shape.Sub.refl S'⟩
  · exact fun τ hτ => Option.some.inj hτ ▸ hv
  · exact fun τ hτ p hp => .inl (hw p (Option.some.inj hτ ▸ hp))

/-- One more instruction that the program never gets past. -/
theorem triple_emitLast {op : OpCode}
    (hx : ∀ t pc, ∀ x ∈ exits t pc op S, Emitted shapes A none none x)
    (hl : S.locals ≤ L.length) :
    Triple (fun c => At K L P A (some S) c ∧ need (c.tables K.role) op S)
      (Compile.emit op line) fun _ => At K L P A none := by
  refine Proc.triple_modify fun c hc => ?_
  exact hc.1.emit (w := none) hc.2 (hx _ _) hl (fun τ hτ => by cases hτ) fun τ hτ => by cases hτ

/-- One more jump, whose target is not known yet. -/
theorem triple_emitJump {op : OpCode} {cur : Option Shape} {ρ : Shape}
    (hn : ∀ t, need t op S)
    (hx : ∀ t pc, ∀ x ∈ exits t pc op S, Emitted shapes A cur (some ρ) x)
    (hl : S.locals ≤ L.length) (hv : ∀ τ ∈ cur, ∀ m, S.Valid m → τ.Valid m)
    (hw : ∀ τ ∈ cur, ∀ p ∈ τ.handlers, p ∈ S.handlers) :
    Triple (At K L P A (some S)) (Compile.emitJump op line)
      fun off => At K L ((off, ρ) :: P) A cur := by
  intro c hc off d hr
  cases hr
  exact hc.emit (w := some ρ) (hn _) (hx _ _) hl hv fun τ hτ p hp => .inl (hw τ hτ p hp)

/-- An instruction whose jump is patched demands the same and goes the same ways. -/
theorem OpCode.retarget_spec {op op' : OpCode} {target : Nat} (h : op.retarget target = some op') :
    (∀ t υ, need t op υ → need t op' υ) ∧
      (∀ t off υ, exits t off op' υ = (exits t off op υ).map (.retarget target)) ∧
      ∀ t, op ≠ .setupTry t := by
  cases op <;> cases h <;>
    exact ⟨fun _ _ hn => hn, fun _ _ _ => rfl, fun _ => OpCode.noConfusion⟩

theorem triple_patchJump {ρ : Shape} {off : Nat} (hsub : ρ.Sub S) :
    Triple (At K L ((off, ρ) :: P) A (some S)) (Compile.patchJump off)
      fun _ => At K L P A (some S) := by
  intro c hc u d hr
  simp only [Compile.patchJump, Chunk.patchJump] at hr
  split at hr
  case h_1 chunk heq =>
    cases hr
    split at heq
    case h_1 => cases heq
    case h_2 op hop =>
      split at heq
      case h_1 op' hop' =>
        cases heq
        obtain ⟨hd, hx, hne⟩ := OpCode.retarget_spec hop'
        exact hc.patch hsub hop hd (fun t υ => hx t off υ) fun t ht => absurd ht (hne t)
      case h_2 => cases heq
  all_goals cases hr

theorem triple_patchAll {ρ : Shape} (hsub : ρ.Sub S) (offsets : List Nat) :
    Triple (At K L (offsets.map (·, ρ) ++ P) A (some S)) (Compile.patchAll offsets)
      fun _ => At K L P A (some S) := by
  induction offsets with
  | nil => exact Proc.triple_pure fun c hc => hc
  | cons off rest ih => exact Proc.triple_bind (triple_patchJump hsub) fun _ => ih

theorem triple_mark (hh : S.height = L.length) :
    Triple (At K L P A (some S)) Compile.mark fun _ => At K L P A (some S) := by
  refine Proc.triple_modify fun c hc => ?_
  obtain ⟨types, anchors, hA, hb⟩ := hc.built
  exact { hc with
    built := ⟨types, _, fun e he => List.mem_cons_of_mem _ (hA e he),
      hb.mark (hc.locals ▸ hh)⟩ }

theorem triple_addLocal (name : String) :
    Triple (At K L P A (some S)) (Compile.addLocal name)
      fun _ => At K (L ++ [⟨name, K.scopeDepth⟩]) P A (some S) := by
  refine Proc.triple_modify fun c hc => ?_
  refine hc.extend ⟨rfl, Nat.le_refl _, Nat.le_max_left .., rfl, rfl⟩ ?_ rfl rfl ?_ hc.upvalues
  · simp only [Compiler.addLocal, hc.locals, hc.scopeDepth]
  · rw [List.length_append, List.length_singleton, ← hc.locals]
    exact Nat.le_max_right ..

end Triples

/-! ## Names of enclosing functions -/

theorem lastIndex_lt {α : Type} {p : α → Bool} {l : List α} {i : Nat}
    (h : lastIndex p l = some i) : i < l.length := by
  induction l generalizing i with
  | nil => cases h
  | cons a rest ih =>
    rw [List.length_cons]
    unfold lastIndex at h
    split at h
    case h_1 j hj =>
      cases h
      exact Nat.succ_lt_succ (ih hj)
    case h_2 =>
      split at h <;> cases h
      exact Nat.succ_pos _

theorem lastIndex_isSome {α : Type} {p : α → Bool} {l : List α} :
    (lastIndex p l).isSome = l.any p := by
  induction l with
  | nil => rfl
  | cons a rest ih =>
    rw [lastIndex, List.any_cons, ← ih]
    cases lastIndex p rest with
    | some j => simp
    | none => cases h : p a <;> simp

/-- The compiler `c'` is `c` with more names asked for. -/
structure Compiler.Registers (c c' : Compiler) : Prop where
  eq : c' = { c with upvalues := c'.upvalues }
  grows : c.upvalues.length ≤ c'.upvalues.length
  ok : ∀ uv ∈ c'.upvalues, c.UpvalueOk uv

namespace Compiler

variable {c c' c'' : Compiler} {slot : Nat} {isLocal : Bool} {name : String}

theorem Registers.refl (h : ∀ uv ∈ c.upvalues, c.UpvalueOk uv) : c.Registers c :=
  ⟨rfl, Nat.le_refl _, h⟩

theorem Registers.upvalueOk (h : c.Registers c') (uv : Upvalue) :
    c'.UpvalueOk uv ↔ c.UpvalueOk uv := by
  rw [h.eq]
  exact Iff.rfl

theorem Registers.trans (h : c.Registers c') (h' : c'.Registers c'') : c.Registers c'' where
  eq := by
    rw [h'.eq, h.eq]
  grows := Nat.le_trans h.grows h'.grows
  ok uv hm := (h.upvalueOk uv).mp (h'.ok uv hm)

theorem Registers.extends (h : c.Registers c') : c.Extends c' := by
  refine ⟨?_, h.grows, Nat.le_of_eq ?_, ?_, ?_⟩ <;> rw [h.eq]

theorem Registers.outerBinding (h : c.Registers c') (name : String) :
    c'.outerBinding name = c.outerBinding name := by
  rw [h.eq]
  rfl

/-- A name that is bound outside is a local of the parent or a name of the ancestors. -/
theorem upvalueOk_of_outerBinding (h : c.outerBinding name = some (slot, isLocal)) :
    c.UpvalueOk ⟨slot, isLocal, name⟩ := by
  unfold Compiler.outerBinding at h
  split at h
  case h_1 i hi =>
    obtain ⟨locals, hl, hi⟩ := Option.bind_eq_some_iff.mp hi
    cases h
    exact ⟨locals, hl, lastIndex_lt hi⟩
  case h_2 =>
    obtain ⟨i, hi, heq⟩ := Option.map_eq_some_iff.mp h
    obtain ⟨names, hn, hi⟩ := Option.bind_eq_some_iff.mp hi
    cases heq
    obtain ⟨hlt, hp, -⟩ := List.findIdx?_eq_some_iff_getElem.mp hi
    exact ⟨names, hn, names[slot], List.getElem_mem hlt, by simpa using hp⟩

theorem addUpvalue_registers (hall : ∀ uv ∈ c.upvalues, c.UpvalueOk uv)
    (hok : c.UpvalueOk ⟨slot, isLocal, name⟩) :
    c.Registers (c.addUpvalue slot isLocal name).2 ∧
      (c.addUpvalue slot isLocal name).1 < (c.addUpvalue slot isLocal name).2.upvalues.length := by
  unfold Compiler.addUpvalue
  split
  case h_1 i hi =>
    exact ⟨.refl hall, (List.findIdx?_eq_some_iff_getElem.mp hi).1⟩
  case h_2 =>
    refine ⟨⟨rfl, by simp, fun uv hm => ?_⟩, by simp⟩
    rcases List.mem_append.mp hm with hm | hm
    · exact hall uv hm
    · exact List.mem_singleton.mp hm ▸ hok

theorem resolveUpvalue_registers (hall : ∀ uv ∈ c.upvalues, c.UpvalueOk uv) (name : String) :
    c.Registers (c.resolveUpvalue name).2 ∧
      ∀ i ∈ (c.resolveUpvalue name).1, i < (c.resolveUpvalue name).2.upvalues.length := by
  unfold Compiler.resolveUpvalue
  split
  case h_1 slot isLocal ho =>
    obtain ⟨hr, hlt⟩ := addUpvalue_registers hall (upvalueOk_of_outerBinding ho)
    exact ⟨hr, fun i hi => Option.some.inj hi ▸ hlt⟩
  case h_2 => exact ⟨.refl hall, fun i hi => by cases hi⟩

theorem ensureUpvalueForAncestor_registers (hall : ∀ uv ∈ c.upvalues, c.UpvalueOk uv)
    (hb : (c.outerBinding name).isSome) :
    c.Registers (c.ensureUpvalueForAncestor name).2 ∧
      (c.ensureUpvalueForAncestor name).1 < (c.ensureUpvalueForAncestor name).2.upvalues.length := by
  unfold Compiler.ensureUpvalueForAncestor
  split
  case h_1 i hi =>
    exact ⟨.refl hall, (List.findIdx?_eq_some_iff_getElem.mp hi).1⟩
  case h_2 =>
    split
    case h_1 slot isLocal ho => exact addUpvalue_registers hall (upvalueOk_of_outerBinding ho)
    case h_2 hnone => rw [hnone] at hb; cases hb

theorem mem_addAncestors {vars ups : List Upvalue} {v : Upvalue} (h : v ∈ addAncestors vars ups) :
    v ∈ vars ∨ v ∈ ups := by
  induction ups generalizing vars with
  | nil => exact .inl h
  | cons uv rest ih =>
    unfold addAncestors at h
    rcases ih h with hm | hm
    · split at hm
      · exact .inl hm
      · rcases List.mem_append.mp hm with hm | hm
        · exact .inl hm
        · exact .inr (List.mem_singleton.mp hm ▸ List.mem_cons_self)
    · exact .inr (List.mem_cons_of_mem _ hm)

/-- Every name that a child may ask its ancestors for is bound outside of the parent. -/
theorem outerBinding_of_ancestor {v : Upvalue} (h : v ∈ c.buildAncestorVars) :
    (c.outerBinding v.name).isSome := by
  unfold Compiler.outerBinding
  split
  case h_1 => rfl
  case h_2 hnone =>
    rw [Option.isSome_map]
    rcases mem_addAncestors h with hm | hm
    · -- a local of the grandparent would have been found
      obtain ⟨l, hl, rfl⟩ := List.mem_map.mp hm
      cases he : c.enclosingLocals with
      | none => rw [he] at hl; cases hl
      | some locals =>
        rw [he] at hl hnone
        have hany : (lastIndex (fun l' => l'.name == l.name) locals).isSome := by
          rw [lastIndex_isSome, List.any_eq_true]
          exact ⟨l, hl, beq_self_eq_true _⟩
        rw [show lastIndex (fun l' => l'.name == l.name) locals = none from hnone] at hany
        cases hany
    · cases he : c.enclosingUpvalues with
      | none => rw [he] at hm; cases hm
      | some names =>
        rw [he] at hm
        show (firstIndex (fun uv => uv.name == v.name) names).isSome
        rw [firstIndex, List.findIdx?_isSome, List.any_eq_true]
        exact ⟨v, hm, beq_self_eq_true _⟩

/-- The captures of a child are in range, when its upvalues are in order. -/
theorem resolveChildUpvalues_registers (ups : List Upvalue) (n : Nat)
    (hall : ∀ uv ∈ c.upvalues, c.UpvalueOk uv)
    (hups : ∀ uv ∈ ups, if uv.isLocal then uv.slot < n else (c.outerBinding uv.name).isSome) :
    c.Registers (resolveChildUpvalues ups c).2 ∧
      (resolveChildUpvalues ups c).1.length = ups.length ∧
      ∀ uv ∈ (resolveChildUpvalues ups c).1,
        Tables.CaptureOk n (resolveChildUpvalues ups c).2.upvalues.length uv.capture := by
  induction ups generalizing c with
  | nil => exact ⟨.refl hall, rfl, fun uv hm => by cases hm⟩
  | cons uv rest ih =>
    have huv := hups uv List.mem_cons_self
    have hrest := fun u (hm : u ∈ rest) => hups u (List.mem_cons_of_mem _ hm)
    unfold resolveChildUpvalues
    by_cases hl : uv.isLocal
    · rw [if_pos hl] at huv ⊢
      obtain ⟨hr, hlen, hc⟩ := ih hall hrest
      refine ⟨hr, by rw [List.length_cons, List.length_cons, hlen], fun u hm => ?_⟩
      rcases List.mem_cons.mp hm with rfl | hm
      · rw [Upvalue.capture, if_pos hl]
        exact huv
      · exact hc u hm
    · rw [if_neg hl] at huv ⊢
      obtain ⟨hr, hlt⟩ := ensureUpvalueForAncestor_registers hall huv
      obtain ⟨hr', hlen, hc⟩ := ih (c := (c.ensureUpvalueForAncestor uv.name).2)
        (fun u hm => (hr.upvalueOk u).mpr (hr.ok u hm))
        fun u hm => by rw [hr.outerBinding]; exact hrest u hm
      refine ⟨hr.trans hr', by rw [List.length_cons, List.length_cons, hlen], fun u hm => ?_⟩
      rcases List.mem_cons.mp hm with rfl | hm
      · rw [Upvalue.capture, if_neg hl]
        exact Nat.lt_of_lt_of_le hlt hr'.grows
      · exact hc u hm

end Compiler

end Tsumugi.Bytecode
