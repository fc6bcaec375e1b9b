import Tsumugi.Vm.Chunk

/-!
# The bytecode verifier (`verifier.rs`)

`verifyChunk` walks a chunk and its prototypes and reports the first violation. A jump
may target the end of the code, which is the place of an implicit return.

Results:
1. `verifyEach_eq_ok`: a list is accepted when every member is.
2. `verifyChunk_eq_ok`: what an accepted chunk has, in terms of its parts.
-/

namespace Tsumugi.Bytecode

/-- `ChunkVerifyError`. -/
inductive ChunkVerifyError
  | badLineTable
  | badConstant
  | badLocalSlot
  | badUpvalue
  | badCapture
  | badJumpTarget
  | unknownBuiltin
  | badOperand
  | badTryStructure
deriving DecidableEq, Repr

/-- Refuse with an error unless the condition holds. -/
def demand (c : Prop) [Decidable c] (e : ChunkVerifyError) : Except ChunkVerifyError Unit :=
  if c then .ok () else .error e

theorem demand_eq_ok {c : Prop} [Decidable c] {e : ChunkVerifyError} :
    demand c e = .ok () ↔ c := by
  unfold demand
  split <;> simp_all

/-- The part of `verify_chunk` that looks at one instruction. -/
def verifyOp (chunk : Chunk) (upvalueCount : Nat) : OpCode → Except ChunkVerifyError Unit
  | .loadConst i | .loadConstRaw i => demand (i < chunk.constants.length) .badConstant
  | .getLocal s | .setLocal s | .lenLocal s | .indexLocal s =>
    demand (s < chunk.maxLocals) .badLocalSlot
  | .registerGlobal _ slot => demand (slot < chunk.maxLocals) .badLocalSlot
  | .getUpvalue i | .setUpvalue i => demand (i < upvalueCount) .badUpvalue
  | .setIndex target | .listPushBinding target =>
    match target with
    | .localSlot s => demand (s < chunk.maxLocals) .badLocalSlot
    | .upvalue i => demand (i < upvalueCount) .badUpvalue
    | .globalName _ => .ok ()
  | .jump t | .jumpIfFalse t | .jumpIfFalseKeep t | .jumpIfTrueKeep t | .loop t
  | .jumpIfGlobalDefined _ t | .setupTry t => demand (t ≤ chunk.code.length) .badJumpTarget
  | .callBuiltin id _ => demand (isRegistered id = true) .unknownBuiltin
  | .makeClosure p => demand (p < chunk.prototypes.length) .badCapture
  | _ => .ok ()

/-- The check of one capture descriptor against the enclosing chunk. -/
def verifyCapture (chunk : Chunk) (upvalueCount : Nat) : CaptureDesc → Except ChunkVerifyError Unit
  | .localSlot slot => demand (slot < chunk.maxLocals) .badCapture
  | .upvalue index => demand (index < upvalueCount) .badCapture

/-- Check every member of a list, stopping at the first refusal. -/
def verifyEach {α : Type} (check : α → Except ChunkVerifyError Unit) :
    List α → Except ChunkVerifyError Unit
  | [] => .ok ()
  | a :: rest =>
    match check a with
    | .ok () => verifyEach check rest
    | .error e => .error e

theorem verifyEach_eq_ok {α : Type} {check : α → Except ChunkVerifyError Unit} {l : List α} :
    verifyEach check l = .ok () ↔ ∀ a ∈ l, check a = .ok () := by
  induction l with
  | nil => simp [verifyEach]
  | cons a rest ih =>
    rw [verifyEach, List.forall_mem_cons]
    cases h : check a with
    | ok u => exact ih.trans (by simp)
    | error e => simp

mutual

/-- `verify_chunk`. -/
def verifyChunk (upvalueCount : Nat) : Chunk → Except ChunkVerifyError Unit
  | ⟨name, code, constants, lines, prototypes, maxLocals, boundaries, live⟩ =>
    let chunk : Chunk := ⟨name, code, constants, lines, prototypes, maxLocals, boundaries, live⟩
    if lines.length ≠ code.length then .error .badLineTable
    else
      match verifyEach (verifyOp chunk upvalueCount) code with
      | .ok () => verifyPrototypes chunk upvalueCount prototypes
      | .error e => .error e

/-- The prototypes of a chunk in order: the captures of each, then its body. -/
def verifyPrototypes (chunk : Chunk) (upvalueCount : Nat) :
    List FunctionPrototype → Except ChunkVerifyError Unit
  | [] => .ok ()
  | ⟨_, _, _, body, captures⟩ :: rest =>
    match verifyEach (verifyCapture chunk upvalueCount) captures with
    | .error e => .error e
    | .ok () =>
      match verifyChunk captures.length body with
      | .ok () => verifyPrototypes chunk upvalueCount rest
      | .error e => .error e

end

/-- `verify`. -/
def verify (chunk : Chunk) : Except ChunkVerifyError Unit := verifyChunk 0 chunk

theorem verifyPrototypes_eq_ok {chunk : Chunk} {upvalueCount : Nat}
    {prototypes : List FunctionPrototype} :
    verifyPrototypes chunk upvalueCount prototypes = .ok () ↔
      ∀ p ∈ prototypes, (∀ c ∈ p.captures, verifyCapture chunk upvalueCount c = .ok ()) ∧
        verifyChunk p.captures.length p.chunk = .ok () := by
  induction prototypes with
  | nil => simp [verifyPrototypes]
  | cons p rest ih =>
    obtain ⟨name, arity, params, body, captures⟩ := p
    rw [verifyPrototypes, List.forall_mem_cons, ← verifyEach_eq_ok, ← ih]
    cases hc : verifyEach (verifyCapture chunk upvalueCount) captures with
    | error e => simp
    | ok u =>
      cases hb : verifyChunk captures.length body with
      | error e => simp
      | ok u' => simp

/-- What an accepted chunk has. -/
theorem verifyChunk_eq_ok {chunk : Chunk} {upvalueCount : Nat} :
    verifyChunk upvalueCount chunk = .ok () ↔
      chunk.lines.length = chunk.code.length ∧
      (∀ op ∈ chunk.code, verifyOp chunk upvalueCount op = .ok ()) ∧
      ∀ p ∈ chunk.prototypes, (∀ c ∈ p.captures, verifyCapture chunk upvalueCount c = .ok ()) ∧
        verifyChunk p.captures.length p.chunk = .ok () := by
  obtain ⟨name, code, constants, lines, prototypes, maxLocals, boundaries, live⟩ := chunk
  rw [verifyChunk, ← verifyEach_eq_ok, ← verifyPrototypes_eq_ok]
  by_cases hl : lines.length = code.length
  · simp only [ne_eq, hl, not_true_eq_false, if_false, true_and]
    split <;> simp_all
  · simp [hl]

end Tsumugi.Bytecode
