import Tsumugi.Vm.Rollback

/-!
# Which values a machine holds

A value enters the machine as a constant of a chunk, as the result of an operation on
values, or as a closure; everything else copies values, puts them into collections and
takes them out. So a property of values that the operations on values keep holds of all
values of a machine, if it holds of the constants and of the closures.

Results:
1. `Op.hands_execute`: an instruction that is not `MakeClosure` keeps the property of all
   values, and evaluates no closure.
2. `Op.hands_recover`, `Op.hands_watchdogCheck`: what an iteration does beside it.
-/

namespace Tsumugi.Bytecode

open Budget (Charge ControlStop)
open Proc (Ensures)

variable {W : Type}

/-! ## Properties of values -/

/-- The constants of a chunk and of its prototypes. -/
inductive Chunk.Literals (Lit : Value → Prop) : Chunk → Prop
  | mk {c : Chunk} (constants : ∀ v ∈ c.constants, Lit v)
      (prototypes : ∀ p ∈ c.prototypes, p.chunk.Literals Lit) : c.Literals Lit

theorem Chunk.Literals.constants {Lit : Value → Prop} {c : Chunk} (h : c.Literals Lit) :
    ∀ v ∈ c.constants, Lit v := by
  cases h
  assumption

theorem Chunk.Literals.prototypes {Lit : Value → Prop} {c : Chunk} (h : c.Literals Lit) :
    ∀ p ∈ c.prototypes, p.chunk.Literals Lit := by
  cases h
  assumption

/-- A property of values that the constants have and the operations on values keep. -/
structure Kept (natives : Natives W) (Lit Ok : Value → Prop) : Prop where
  literal : ∀ v, Lit v → Ok v
  null : Ok .null
  bool : ∀ b, Ok (.bool b)
  int : ∀ n, Ok (.int n)
  str : ∀ s, Ok (.str s)
  error : ∀ errorType message line, Ok (.error errorType message line)
  list : ∀ items, Ok (.list items) ↔ ∀ v ∈ items, Ok v
  dict : ∀ entries, Ok (.dict entries) ↔ ∀ e ∈ entries, Ok e.2
  chunk : ∀ f, Ok (.vmFn f) → f.chunk.Literals Lit
  compute : ∀ op a b line v, natives.compute op a b line = .ok v → Ok v
  negate : ∀ a line v, natives.negate a line = .ok v → Ok v
  execBuiltin : ∀ name args line s v t, (∀ a ∈ args, Ok a) →
    (natives.execBuiltin name args line).run s = (.ok v, t) → Ok v

/-- Every value of the machine has the property, also those in the journal, and the next closure
gets the identity `n`. -/
structure Vm.Holds (Lit Ok : Value → Prop) (n : Nat) (s : Vm W) : Prop where
  stack : ∀ e ∈ s.stack, Ok e.value
  cells : ∀ v ∈ s.cells, Ok v
  originals : ∀ cp ∈ s.replStackCheckpoint, ∀ o ∈ cp.originals, Ok o.2.value
  cellOriginals : ∀ cp ∈ s.replStackCheckpoint, ∀ o ∈ cp.cellOriginals, Ok o.2
  frames : ∀ f ∈ s.frames, f.chunk.Literals Lit
  next : s.nextFunctionId = n

/-- The values of a call that waits. -/
structure HostCall.Holds (Ok : Value → Prop) (call : HostCall) : Prop where
  func : Ok call.func
  item : Ok call.item
  rest : ∀ v ∈ call.rest, Ok v
  result : ∀ v ∈ call.result, Ok v

/-- The values of a builtin that is done or waits. -/
def Progress.Holds (Ok : Value → Prop) : Progress → Prop
  | .done v => Ok v
  | .waiting call _ => call.Holds Ok

/-- The values of an outcome. -/
def Outcome.Holds (Ok : Value → Prop) : Outcome → Prop
  | .next => True
  | .returned v => Ok v
  | .suspended call _ => call.Holds Ok

variable {natives : Natives W} {Lit Ok : Value → Prop} {n : Nat}

theorem Vm.Holds.readCell {s : Vm W} (h : s.Holds Lit Ok n) (k : Kept natives Lit Ok) (a : Addr) :
    Ok (Op.readCell s a) := by
  unfold Op.readCell
  rw [List.getD_eq_getElem?_getD]
  cases ha : s.cells[a]? with
  | none => exact k.null
  | some v => exact h.cells v (List.mem_of_getElem? ha)

/-- A value that is found at an index of a list or a dict, or made from a string or an error. -/
theorem Kept.evalIndex (k : Kept natives Lit Ok) {collection index v : Value} {line : Nat}
    (hc : Ok collection) (h : evalIndex collection index line = .ok v) : Ok v := by
  unfold Bytecode.evalIndex at h
  split at h
  · rename_i items
    split at h
    · split at h
      · rename_i hv
        cases h
        obtain ⟨i, -, hi⟩ := Option.bind_eq_some_iff.mp hv
        exact (k.list items).mp hc _ (List.mem_of_getElem? hi)
      · cases h
    · cases h
  · split at h
    · split at h
      · cases h
        exact k.str _
      · cases h
    · cases h
  · rename_i entries
    split at h
    · rename_i key
      cases h
      cases hfind : entries.find? (·.1 = key) with
      | none => exact k.null
      | some e => exact (k.dict entries).mp hc e (List.mem_of_find?_eq_some hfind)
    · cases h
  · split at h <;> cases h
    · exact k.str _
    · exact k.str _
    · exact k.int _
    · exact k.null
  · cases h

theorem mem_insertKey {key : String} {value : Value} {entries : List (String × Value)}
    {e : String × Value} (he : e ∈ insertKey key value entries) :
    e = (key, value) ∨ e ∈ entries := by
  induction entries with
  | nil => exact .inl (List.mem_singleton.mp he)
  | cons head rest ih =>
    obtain ⟨k, v⟩ := head
    unfold insertKey at he
    split at he
    · exact (List.mem_cons.mp he).imp_right (List.mem_cons_of_mem _)
    · split at he
      · exact List.mem_cons.mp he
      · rcases List.mem_cons.mp he with rfl | he
        · exact .inr List.mem_cons_self
        · exact (ih he).imp_right (List.mem_cons_of_mem _)

/-! ## Work in place -/

namespace InPlace

/-- The value is kept. -/
def Holds (Ok : Value → Prop) {α : Type} (m : InPlace W α) : Prop :=
  Proc.Keeps (fun s : Value × Outer W => Ok s.1) m

theorem holds_host {α : Type} (m : Host W α) (line : Nat) : Holds Ok (host m line) := by
  intro s hs
  rcases h : m.run s.2 with ⟨_ | _, _⟩ <;> simp only [InPlace.host, h] <;> exact hs

theorem holds_check {α : Type} (r : Except TsumugiError α) :
    Holds Ok (check r : InPlace W α) := by
  cases r with
  | ok a => exact Proc.keeps_pure a
  | error e => exact Proc.keeps_stop e

theorem holds_resize {old new : Value} {line : Nat} (hnew : Ok new) :
    Holds Ok (resize natives old new line) :=
  Proc.keeps_bind (holds_host _ _) fun _ =>
    Proc.keeps_bind (Proc.keeps_modify fun _ _ => hnew) fun _ => holds_host _ _

/-- The rest of the work may use what the value is. -/
theorem holds_read {α : Type} {f : Value × Outer W → InPlace W α}
    (h : ∀ s, Ok s.1 → Holds Ok (f s)) : Holds Ok (Proc.gets id >>= f) := fun s hs => h s hs s hs

theorem holds_listPushTracked (k : Kept natives Lit Ok) {item : Value} (hitem : Ok item)
    (line : Nat) : Holds Ok (listPushTracked natives item line) := by
  refine holds_read fun s hs => ?_
  split
  · rename_i items heq
    rw [heq, k.list] at hs
    refine holds_resize ((k.list _).mpr fun v hv => ?_)
    rcases List.mem_append.mp hv with hv | hv
    · exact hs v hv
    · exact List.mem_singleton.mp hv ▸ hitem
  · exact Proc.keeps_pure ()

theorem holds_listPopTracked (k : Kept natives Lit Ok) (line : Nat) :
    Holds Ok (listPopTracked natives line) := by
  refine holds_read fun s hs => ?_
  split
  · rename_i items heq
    rw [heq, k.list] at hs
    refine Proc.keeps_ite (Proc.keeps_pure ()) (holds_resize ((k.list _).mpr fun v hv => ?_))
    exact hs v (List.dropLast_subset _ hv)
  · exact Proc.keeps_pure ()

theorem holds_indexSetTracked (k : Kept natives Lit Ok) (target : IndexTarget) {value : Value}
    (hvalue : Ok value) (line : Nat) :
    Holds Ok (indexSetTracked natives target value line) := by
  refine holds_read fun s hs => ?_
  split
  · rename_i items i heq
    rw [heq, k.list] at hs
    refine holds_resize ((k.list _).mpr fun v hv => ?_)
    rcases List.mem_or_eq_of_mem_set hv with hv | rfl
    · exact hs v hv
    · exact hvalue
  · rename_i entries key heq
    rw [heq, k.dict] at hs
    refine holds_resize ((k.dict _).mpr fun e he => ?_)
    rcases mem_insertKey he with rfl | he
    · exact hvalue
    · exact hs e he
  · exact Proc.keeps_pure ()

theorem holds_assignIndex (k : Kept natives Lit Ok) (index : Value) {value : Value}
    (hvalue : Ok value) (line : Nat) : Holds Ok (assignIndex natives index value line) :=
  holds_read fun _ _ =>
    Proc.keeps_bind (holds_check _) fun place =>
      Proc.keeps_bind (holds_check _) fun _ => holds_indexSetTracked k place hvalue line

end InPlace

/-! ## Primitives of the machine -/

namespace Op

/-- Whether the operation returns or stops, all values of the machine keep the property, and so does
what it returns. -/
def Hands (Lit Ok : Value → Prop) (n : Nat) {α : Type} (R : α → Prop) (m : Op W α) : Prop :=
  Ensures (Vm.Holds Lit Ok n) m (fun a s => R a ∧ s.Holds Lit Ok n) fun _ => Vm.Holds Lit Ok n

/-- Nothing is said of the result. -/
def anything {α : Type} (_ : α) : Prop := True

variable {α β : Type} {R : α → Prop} {R' : β → Prop}

theorem hands_pure {a : α} (h : R a) : Hands Lit Ok n R (pure a : Op W α) := fun _ hs => ⟨h, hs⟩

theorem hands_stop (stop : VmStop) : Hands Lit Ok n R (Proc.stop stop : Op W α) := fun _ hs => hs

theorem hands_raise (e : TsumugiError) : Hands Lit Ok n R (raise e : Op W α) := hands_stop _

theorem hands_internalError (line : Nat) (message : String) :
    Hands Lit Ok n R (internalError line message : Op W α) := hands_stop _

theorem hands_modify {f : Vm W → Vm W} (h : ∀ s, s.Holds Lit Ok n → (f s).Holds Lit Ok n) :
    Hands Lit Ok n anything (Proc.modify f : Op W Unit) := fun s hs => ⟨trivial, h s hs⟩

theorem Hands.bind {m : Op W α} {f : α → Op W β} (hm : Hands Lit Ok n R m)
    (hf : ∀ a, R a → Hands Lit Ok n R' (f a)) : Hands Lit Ok n R' (m >>= f) :=
  Proc.ensures_bind hm fun a s hs => hf a hs.1 s hs.2

/-- The rest of an operation may use the state that it reads. -/
theorem hands_read {f : Vm W → Op W β} (h : ∀ s, s.Holds Lit Ok n → Hands Lit Ok n R' (f s)) :
    Hands Lit Ok n R' (Proc.gets id >>= f) := fun s hs => h s hs s hs

theorem Hands.mono {Q : α → Prop} {m : Op W α} (hm : Hands Lit Ok n R m) (h : ∀ a, R a → Q a) :
    Hands Lit Ok n Q m :=
  Proc.Ensures.conseq hm (fun _ hs => hs) (fun _ _ hs => ⟨h _ hs.1, hs.2⟩) fun _ _ hs => hs

theorem hands_ite {c : Prop} [Decidable c] {m m' : Op W α} (hm : Hands Lit Ok n R m)
    (hm' : Hands Lit Ok n R m') : Hands Lit Ok n R (if c then m else m') := by
  split <;> assumption

theorem hands_when {c : Prop} [Decidable c] {m : Op W Unit} (hm : Hands Lit Ok n anything m) :
    Hands Lit Ok n anything (Proc.when c m) := hands_ite hm (hands_pure trivial)

theorem hands_check {r : Except TsumugiError α} (h : ∀ a, r = .ok a → R a) :
    Hands Lit Ok n R (check r : Op W α) := by
  cases r with
  | ok a => exact hands_pure (h a rfl)
  | error e => exact hands_raise e

theorem hands_expect {o : Option α} {line : Nat} {message : String} (h : ∀ a, o = some a → R a) :
    Hands Lit Ok n R (expect o line message : Op W α) := by
  cases o with
  | some a => exact hands_pure (h a rfl)
  | none => exact hands_internalError _ _

/-- A charge or a value operation changes what lies outside of the machine. -/
theorem hands_host {m : Host W α} (line : Nat) : Hands Lit Ok n anything (host m line) := by
  intro s hs
  rcases h : m.run s.outer with ⟨_ | _, _⟩ <;> simp only [host, h]
  · exact { hs with }
  · exact ⟨trivial, { hs with }⟩

theorem hands_native {m : Proc (Outer W) TsumugiError α} (h : ∀ s a t, m.run s = (.ok a, t) → R a) :
    Hands Lit Ok n R (native m) := by
  intro s hs
  rcases hm : m.run s.outer with ⟨_ | a, o⟩ <;> simp only [native, hm]
  · exact { hs with }
  · exact ⟨h _ _ _ hm, { hs with }⟩

theorem hands_frameOr (line : Nat) (message : String) :
    Hands Lit Ok n (fun f => f.chunk.Literals Lit) (frameOr line message : Op W CallFrame) :=
  hands_read fun _ hs => hands_expect fun f hf => hs.frames f (List.mem_of_mem_head? hf)

theorem hands_frame (line : Nat) :
    Hands Lit Ok n (fun f => f.chunk.Literals Lit) (frame line : Op W CallFrame) :=
  hands_frameOr _ _

theorem hands_onFrame (f : CallFrame → CallFrame) (hf : ∀ x, (f x).chunk = x.chunk) :
    Hands Lit Ok n anything (onFrame f : Op W Unit) := by
  refine hands_modify fun s hs => ?_
  cases hframes : s.frames with
  | nil => exact hs
  | cons top rest =>
    refine { hs with frames := fun x hx => ?_ }
    rcases List.mem_cons.mp hx with rfl | hx
    · rw [hf]
      exact hs.frames top (hframes ▸ List.mem_cons_self)
    · exact hs.frames x (hframes ▸ List.mem_cons_of_mem _ hx)

theorem hands_setIp (target line : Nat) : Hands Lit Ok n anything (setIp target line : Op W Unit) :=
  (hands_frame line).bind fun _ _ => hands_onFrame _ fun _ => rfl

theorem hands_push {v : Value} (hv : Ok v) : Hands Lit Ok n anything (push v : Op W Unit) :=
  hands_modify fun s hs => { hs with
    stack := fun e he => by
      rcases List.mem_append.mp he with he | he
      · exact hs.stack e he
      · exact List.mem_singleton.mp he ▸ hv }

theorem holds_setCells {s : Vm W} (hs : s.Holds Lit Ok n) (a : Addr) {v : Value} (hv : Ok v) :
    Vm.Holds Lit Ok n { s with cells := s.cells.set a v } :=
  { hs with
    cells := fun w hw => by
      rcases List.mem_or_eq_of_mem_set hw with hw | rfl
      · exact hs.cells w hw
      · exact hv }

theorem holds_setStack {s : Vm W} (hs : s.Holds Lit Ok n) (index : Nat) (slot : Slot)
    (hslot : Ok slot.value) : Vm.Holds Lit Ok n { s with stack := s.stack.set index slot } :=
  { hs with
    stack := fun e he => by
      rcases List.mem_or_eq_of_mem_set he with he | rfl
      · exact hs.stack e he
      · exact hslot }

theorem hands_writeCell (a : Addr) {v : Value} (hv : Ok v) :
    Hands Lit Ok n anything (writeCell a v : Op W Unit) :=
  hands_modify fun _ hs => holds_setCells hs a hv

/-! ### The journal -/

theorem hands_chargeJournalEntry :
    Hands Lit Ok n anything (chargeJournalEntry natives) := by
  intro s hs
  rcases h : natives.journalEntry.run s.outer with ⟨_ | ⟨⟩, _⟩ <;>
    simp only [chargeJournalEntry, h] <;> exact ⟨trivial, { hs with }⟩

theorem hands_onCheckpoint {f : ReplStackCheckpoint → ReplStackCheckpoint}
    (horiginals : ∀ cp, (∀ o ∈ cp.originals, Ok o.2.value) → ∀ o ∈ (f cp).originals, Ok o.2.value)
    (hcells : ∀ cp, (∀ o ∈ cp.cellOriginals, Ok o.2) → ∀ o ∈ (f cp).cellOriginals, Ok o.2) :
    Hands Lit Ok n anything (onCheckpoint f : Op W Unit) :=
  hands_modify fun s hs => { hs with
    originals := fun cp hcp => by
      obtain ⟨cp', hcp', rfl⟩ := Option.map_eq_some_iff.mp hcp
      exact horiginals cp' (hs.originals cp' hcp')
    cellOriginals := fun cp hcp => by
      obtain ⟨cp', hcp', rfl⟩ := Option.map_eq_some_iff.mp hcp
      exact hcells cp' (hs.cellOriginals cp' hcp') }

theorem hands_checkpointStackSlot (index : Nat) :
    Hands Lit Ok n anything (checkpointStackSlot natives index) := by
  refine hands_read fun s hs => ?_
  split
  · exact hands_pure trivial
  · refine hands_ite ?_ (hands_pure trivial)
    split
    · exact hands_pure trivial
    · rename_i slot hslot
      refine hands_chargeJournalEntry.bind fun _ _ => hands_onCheckpoint (fun cp h o ho => ?_)
        fun _ h => h
      rcases List.mem_cons.mp ho with rfl | ho
      · exact hs.stack _ (List.mem_of_getElem? hslot)
      · exact h o ho

theorem hands_checkpointSlots (indices : List Nat) :
    Hands Lit Ok n anything (checkpointSlots natives indices) := by
  induction indices with
  | nil => exact hands_pure trivial
  | cons index rest ih => exact (hands_checkpointStackSlot index).bind fun _ _ => ih

theorem hands_checkpointStackRange (start stop : Nat) :
    Hands Lit Ok n anything (checkpointStackRange natives start stop) :=
  hands_read fun _ _ => hands_checkpointSlots _

theorem hands_checkpointCell (k : Kept natives Lit Ok) (a : Addr) :
    Hands Lit Ok n anything (checkpointCell natives a) := by
  refine hands_read fun s hs => ?_
  split
  · exact hands_pure trivial
  · refine hands_ite (hands_pure trivial) ?_
    refine hands_chargeJournalEntry.bind fun _ _ => hands_onCheckpoint (fun _ h => h)
      fun cp h o ho => ?_
    rcases List.mem_cons.mp ho with rfl | ho
    · exact hs.readCell k a
    · exact h o ho

theorem hands_truncateStack (len : Nat) : Hands Lit Ok n anything (truncateStack natives len) :=
  hands_read fun _ _ => (hands_when (hands_checkpointStackRange _ _)).bind fun _ _ =>
    hands_modify fun _ hs => { hs with stack := fun e he => hs.stack e (List.mem_of_mem_take he) }

theorem hands_pop (line : Nat) : Hands Lit Ok n Ok (pop natives line) := by
  refine hands_read fun s hs => ?_
  refine (hands_when (hands_checkpointStackSlot _)).bind fun _ _ => ?_
  split
  · exact hands_internalError _ _
  · rename_i slot hslot
    refine Hands.bind (hands_modify fun s hs => ?_) fun _ _ =>
      hands_pure (hs.stack slot (List.mem_of_mem_getLast? hslot))
    exact { hs with stack := fun e he => hs.stack e (List.dropLast_subset _ he) }

theorem hands_popMany (line count : Nat) :
    Hands Lit Ok n (fun values => ∀ v ∈ values, Ok v) (popMany natives line count) := by
  induction count with
  | zero => exact hands_pure nofun
  | succ count ih =>
    exact (hands_pop line).bind fun v hv => ih.bind fun values hvalues =>
      hands_pure (List.forall_mem_cons.mpr ⟨hv, hvalues⟩)

theorem hands_requireStackLen (count line : Nat) :
    Hands Lit Ok n anything (requireStackLen count line : Op W Unit) :=
  hands_read fun _ _ => hands_ite (hands_internalError _ _) (hands_pure trivial)

theorem hands_peek (line : Nat) (message : String) :
    Hands Lit Ok n Ok (peek line message : Op W Value) := by
  refine hands_read fun s hs => ?_
  split
  · rename_i slot hslot
    exact hands_pure (hs.stack slot (List.mem_of_mem_getLast? hslot))
  · exact hands_internalError _ _

theorem hands_atStack (index : Nat) {m : InPlace W Unit} (hm : InPlace.Holds Ok m) :
    Hands Lit Ok n anything (atStack index m) := by
  intro s hs
  cases hslot : s.stack[index]? with
  | none =>
    simp only [atStack, hslot]
    exact hs
  | some slot =>
    have hv := hm (slot.value, s.outer) (hs.stack _ (List.mem_of_getElem? hslot))
    rcases hrun : m.run (slot.value, s.outer) with ⟨_ | ⟨⟩, v, o⟩ <;> rw [hrun] at hv <;>
      simp only [atStack, hslot, hrun]
    · exact { holds_setStack hs index { slot with value := v } hv with }
    · exact ⟨trivial, { holds_setStack hs index { slot with value := v } hv with }⟩

theorem hands_atCell (k : Kept natives Lit Ok) (a : Addr) {m : InPlace W Unit}
    (hm : InPlace.Holds Ok m) : Hands Lit Ok n anything (atCell a m) := by
  intro s hs
  have hv := hm (readCell s a, s.outer) (hs.readCell k a)
  rcases hrun : m.run (readCell s a, s.outer) with ⟨_ | ⟨⟩, v, o⟩ <;> rw [hrun] at hv <;>
    simp only [atCell, hrun]
  · exact { holds_setCells hs a hv with }
  · exact ⟨trivial, { holds_setCells hs a hv with }⟩

/-! ### Fuel, frames and variables -/

theorem hands_surfacePendingHeapStop (line : Nat) :
    Hands Lit Ok n anything (surfacePendingHeapStop line : Op W Unit) := by
  refine hands_read fun s _ => ?_
  split
  · exact hands_pure trivial
  · exact Hands.bind (hands_modify fun _ hs => { hs with }) fun _ _ => hands_raise _

theorem hands_countStep (line : Nat) : Hands Lit Ok n anything (countStep line : Op W Unit) :=
  (hands_surfacePendingHeapStop line).bind fun _ _ => hands_host line

theorem hands_checkCollection (size line : Nat) :
    Hands Lit Ok n anything (checkCollection size line : Op W Unit) := hands_host line

theorem hands_watchdogTick (line : Nat) : Hands Lit Ok n anything (watchdogTick line : Op W Unit) :=
  Hands.bind (hands_modify fun _ hs => { hs with }) fun _ _ =>
    hands_read fun _ _ => hands_ite (hands_stop _) (hands_pure trivial)

theorem hands_pushCallFrame {f : CallFrame} (hf : f.chunk.Literals Lit) (line : Nat) :
    Hands Lit Ok n anything (pushCallFrame f line : Op W Unit) :=
  (hands_watchdogTick line).bind fun _ _ => hands_modify fun _ hs =>
    { hs with frames := List.forall_mem_cons.mpr ⟨hf, hs.frames⟩ }

theorem hands_checkCallDepth (line : Nat) :
    Hands Lit Ok n anything (checkCallDepth line : Op W Unit) :=
  hands_read fun _ _ => hands_ite (hands_raise _) (hands_pure trivial)

theorem hands_constant (k : Kept natives Lit Ok) (index line : Nat) :
    Hands Lit Ok n Ok (constant index line : Op W Value) :=
  (hands_frame line).bind fun _ hf => hands_expect fun v hv =>
    k.literal v (hf.constants v (List.mem_of_getElem? hv))

theorem hands_upvalueCell (index line : Nat) :
    Hands Lit Ok n anything (upvalueCell index line : Op W Addr) :=
  (hands_frame line).bind fun _ _ => hands_expect fun _ _ => trivial

theorem hands_localStackIndex (base slot line : Nat) :
    Hands Lit Ok n anything (localStackIndex base slot line : Op W Nat) :=
  hands_read fun _ _ => hands_ite (hands_internalError _ _) (hands_pure trivial)

theorem hands_readSlot (k : Kept natives Lit Ok) (f : CallFrame) (slot line : Nat)
    (message : String) : Hands Lit Ok n Ok (readSlot f slot line message : Op W Value) := by
  refine hands_read fun s hs => ?_
  split
  · exact hands_pure (hs.readCell k _)
  · split
    · rename_i entry hentry
      exact hands_pure (hs.stack entry (List.mem_of_getElem? hentry))
    · exact hands_internalError _ _

theorem hands_getLocal (k : Kept natives Lit Ok) (slot line : Nat) :
    Hands Lit Ok n Ok (getLocal slot line : Op W Value) :=
  (hands_frame line).bind fun _ _ => hands_readSlot k _ _ _ _

theorem hands_withLocalRef (k : Kept natives Lit Ok) (slot line : Nat) :
    Hands Lit Ok n Ok (withLocalRef slot line : Op W Value) :=
  (hands_frameOr line _).bind fun _ _ => hands_readSlot k _ _ _ _

theorem hands_writeStack (index : Nat) {v : Value} (hv : Ok v) :
    Hands Lit Ok n anything (writeStack index v : Op W Unit) := by
  intro s hs
  cases hslot : s.stack[index]? with
  | none =>
    simp only [writeStack, hslot]
    exact hs
  | some slot =>
    simp only [writeStack, hslot]
    exact ⟨trivial, holds_setStack hs index { slot with value := v } hv⟩

theorem hands_assignCell (k : Kept natives Lit Ok) (a : Addr) {v : Value} (hv : Ok v) :
    Hands Lit Ok n anything (assignCell natives a v) :=
  (hands_checkpointCell k a).bind fun _ _ => hands_writeCell a hv

theorem hands_setLocal (k : Kept natives Lit Ok) (slot : Nat) {v : Value} (hv : Ok v)
    (line : Nat) : Hands Lit Ok n anything (setLocal natives slot v line) := by
  refine (hands_frame line).bind fun f _ => ?_
  split
  · exact hands_assignCell k _ hv
  · exact (hands_localStackIndex _ _ _).bind fun _ _ =>
      (hands_checkpointStackSlot _).bind fun _ _ => hands_writeStack _ hv

theorem hands_ensureLocalCell (slot line : Nat) :
    Hands Lit Ok n anything (ensureLocalCell natives slot line) := by
  refine (hands_frame line).bind fun f _ => (hands_localStackIndex _ _ _).bind fun index _ =>
    Hands.bind (hands_onFrame _ fun _ => rfl) fun _ _ => ?_
  split
  · exact hands_pure trivial
  · refine hands_read fun s hs => (hands_host line).bind fun _ _ => ?_
    split
    · exact hands_stop _
    · rename_i entry hentry
      refine Hands.bind (R := anything) (hands_modify fun t ht => ?_) fun _ _ =>
        Hands.bind (hands_onFrame _ fun _ => rfl) fun _ _ => hands_pure trivial
      refine { ht with cells := fun v hv => ?_ }
      rcases List.mem_append.mp hv with hv | hv
      · exact ht.cells v hv
      · exact List.mem_singleton.mp hv ▸ hs.stack entry (List.mem_of_getElem? hentry)

theorem hands_globalSlot (name : String) (line : Nat) (undefined : TsumugiError)
    (message : String) :
    Hands Lit Ok n anything (globalSlot name line undefined message : Op W (CallFrame × Nat)) := by
  refine hands_read fun s _ => ?_
  split
  · exact hands_raise _
  · exact (hands_expect (R := anything) fun _ _ => trivial).bind fun _ _ => hands_pure trivial

theorem hands_getGlobal (k : Kept natives Lit Ok) (name : String) (line : Nat) :
    Hands Lit Ok n Ok (getGlobal name line : Op W Value) :=
  (hands_globalSlot name line _ _).bind fun _ _ => hands_readSlot k _ _ _ _

theorem hands_requireGlobal (name : String) (line : Nat) :
    Hands Lit Ok n anything (requireGlobal name line : Op W Unit) :=
  hands_read fun _ _ => hands_ite (hands_pure trivial) (hands_raise _)

theorem hands_setGlobal (k : Kept natives Lit Ok) (name : String) {v : Value} (hv : Ok v)
    (line : Nat) : Hands Lit Ok n anything (setGlobal natives name v line) := by
  refine (hands_globalSlot name line _ _).bind fun (f, slot) _ => ?_
  dsimp only
  split
  · exact hands_assignCell k _ hv
  · exact (hands_checkpointStackSlot _).bind fun _ _ => hands_read fun _ _ =>
      hands_ite (hands_writeStack _ hv) (hands_internalError _ _)

theorem hands_registerGlobal (name : String) (slot line : Nat) :
    Hands Lit Ok n anything (registerGlobal name slot line : Op W Unit) := by
  refine hands_read fun s _ => ?_
  split
  · exact hands_ite (hands_internalError _ _) (hands_modify fun _ hs => { hs with })
  · exact hands_internalError _ _

theorem hands_resolveBindingStorage (target : MutationTarget) (line : Nat) :
    Hands Lit Ok n anything (resolveBindingStorage target line : Op W BindingStorage) := by
  cases target with
  | localSlot slot => exact (hands_frameOr line _).bind fun _ _ => hands_pure trivial
  | upvalue index =>
    exact (hands_frameOr line _).bind fun _ _ =>
      (hands_expect (R := anything) fun _ _ => trivial).bind fun _ _ => hands_pure trivial
  | globalName name => exact (hands_globalSlot name line _ _).bind fun _ _ => hands_pure trivial

theorem hands_assignIndexBinding (k : Kept natives Lit Ok) (target : MutationTarget)
    (index : Value) {value : Value} (hvalue : Ok value) (line : Nat) :
    Hands Lit Ok n anything (assignIndexBinding natives target index value line) := by
  refine (hands_resolveBindingStorage target line).bind fun storage _ => ?_
  have hm := InPlace.holds_assignIndex k index hvalue line
  cases storage with
  | cell a => exact (hands_checkpointCell k a).bind fun _ _ => hands_atCell k a hm
  | stack at' =>
    exact (hands_checkpointStackSlot at').bind fun _ _ => hands_read fun _ _ =>
      hands_ite (hands_atStack at' hm) (hands_internalError _ _)

theorem hands_checkPushTarget (target : Value) (line : Nat) :
    Hands Lit Ok n anything (checkPushTarget target line : Op W Unit) := by
  unfold checkPushTarget
  split
  · exact hands_checkCollection _ _
  · exact hands_raise _

theorem hands_checked (r : Except TsumugiError α) :
    Hands Lit Ok n anything (check r : Op W α) := hands_check fun _ _ => trivial

theorem hands_listPushBinding (k : Kept natives Lit Ok) (target : MutationTarget) {value : Value}
    (hvalue : Ok value) (line : Nat) :
    Hands Lit Ok n anything (listPushBinding natives target value line) := by
  refine (hands_resolveBindingStorage target line).bind fun storage _ => ?_
  have hm := InPlace.holds_listPushTracked k hvalue line
  cases storage with
  | cell a =>
    exact hands_read fun _ _ => (hands_checkPushTarget _ _).bind fun _ _ =>
      (hands_checked _).bind fun _ _ => (hands_checkpointCell k a).bind fun _ _ =>
        hands_atCell k a hm
  | stack at' =>
    refine hands_read fun s _ => ?_
    split
    · exact hands_internalError _ _
    · exact (hands_checkPushTarget _ _).bind fun _ _ =>
        (hands_checkpointStackSlot _).bind fun _ _ => (hands_checked _).bind fun _ _ =>
          hands_atStack at' hm

/-! ## Callbacks -/

theorem hands_callFnValue (k : Kept natives Lit Ok) (builtin : String) {func arg : Value}
    (hfunc : Ok func) (harg : Ok arg) (line : Nat) :
    Hands Lit Ok n anything (callFnValue builtin func arg line : Op W Nat) := by
  refine (hands_countStep line).bind fun _ _ => (hands_checkCallDepth line).bind fun _ _ => ?_
  split
  · rename_i f
    refine hands_ite (hands_raise _) (hands_read fun s _ => ?_)
    exact (hands_push hfunc).bind fun _ _ => (hands_push harg).bind fun _ _ =>
      (hands_pushCallFrame (k.chunk f hfunc) line).bind fun _ _ => hands_pure trivial
  · exact hands_raise _

theorem hands_finishCallback (k : Kept natives Lit Ok) (callback : Callback) {result : List Value}
    (hresult : ∀ v ∈ result, Ok v) (line : Nat) :
    Hands Lit Ok n Ok (finishCallback natives callback result line) := by
  have hlist : Hands Lit Ok n Ok (W := W) (host (natives.newList result) line >>= fun _ =>
      pure (.list result)) :=
    (hands_host line).bind fun _ _ => hands_pure ((k.list result).mpr hresult)
  cases callback with
  | map => exact (hands_checked _).bind fun _ _ => hlist
  | filter => exact hlist
  | each => exact hands_pure k.null

theorem hands_advance (k : Kept natives Lit Ok) (callback : Callback) {func : Value}
    {rest result : List Value} (hfunc : Ok func) (hrest : ∀ v ∈ rest, Ok v)
    (hresult : ∀ v ∈ result, Ok v) (line : Nat) :
    Hands Lit Ok n (Progress.Holds Ok) (advance natives callback func rest result line) := by
  cases rest with
  | nil => exact (hands_finishCallback k callback hresult line).bind fun _ hv => hands_pure hv
  | cons item rest =>
    obtain ⟨hitem, hrest⟩ := List.forall_mem_cons.mp hrest
    exact (hands_callFnValue k _ hfunc hitem line).bind fun _ _ =>
      hands_pure ⟨hfunc, hitem, hrest, hresult⟩

theorem hands_collect {call : HostCall} (hcall : call.Holds Ok) {v : Value} (hv : Ok v) :
    Hands Lit Ok n (fun result => ∀ w ∈ result, Ok w) (collect call v : Op W (List Value)) := by
  have happend : ∀ w : Value, Ok w → ∀ x ∈ call.result ++ [w], Ok x := fun w hw x hx =>
    (List.mem_append.mp hx).elim (hcall.result x) fun hx => List.mem_singleton.mp hx ▸ hw
  unfold collect
  split
  · exact (hands_checkCollection _ _).bind fun _ _ => hands_pure (happend v hv)
  · exact hands_ite ((hands_checkCollection _ _).bind fun _ _ =>
      hands_pure (happend _ hcall.item)) (hands_pure hcall.result)
  · exact hands_pure hcall.result

theorem hands_resume (k : Kept natives Lit Ok) {call : HostCall} (hcall : call.Holds Ok)
    {v : Value} (hv : Ok v) : Hands Lit Ok n (Progress.Holds Ok) (resume natives call v) :=
  (hands_collect hcall hv).bind fun _ hresult =>
    hands_advance k _ hcall.func hcall.rest hresult _

theorem hands_execBuiltin (k : Kept natives Lit Ok) (name : String) {args : List Value}
    (hargs : ∀ v ∈ args, Ok v) (line : Nat) :
    Hands Lit Ok n (Progress.Holds Ok) (execBuiltin natives name args line) := by
  unfold execBuiltin
  split
  · refine (hands_checked _).bind fun _ _ => ?_
    split
    · rename_i items func rest
      exact hands_advance k _ (hargs func (List.mem_cons_of_mem _ List.mem_cons_self))
        ((k.list items).mp (hargs _ List.mem_cons_self)) (List.forall_mem_nil _) line
    · exact hands_raise _
    · exact hands_stop _
  · exact Hands.bind (hands_native fun s v t h => k.execBuiltin name args line s v t hargs h)
      fun _ hv => hands_pure hv

/-! ## Instructions -/

theorem hands_trackResult {v : Value} (hv : Ok v) (line : Nat) :
    Hands Lit Ok n Ok (trackResult natives v line) :=
  (hands_host line).bind fun _ _ => hands_pure hv

theorem hands_loadConst (k : Kept natives Lit Ok) (index line : Nat) :
    Hands Lit Ok n anything (loadConst natives index line) := by
  refine (hands_constant k index line).bind fun v hv => ?_
  have htracked : Hands Lit Ok n anything (trackResult natives v line >>= push) :=
    (hands_trackResult hv line).bind fun _ hv => hands_push hv
  cases v with
  | str s => exact htracked
  | list items => exact htracked
  | dict entries => exact htracked
  | _ => exact hands_push hv

theorem hands_binary (k : Kept natives Lit Ok) (op : BinOpKind) (line : Nat) :
    Hands Lit Ok n anything (binary natives op line) := by
  refine (hands_pop line).bind fun right _ => (hands_pop line).bind fun left _ =>
    Hands.bind (hands_check fun v hv => k.compute op left right line v hv) fun v hv => ?_
  refine Hands.bind (R := Ok) ?_ fun _ hv => hands_push hv
  exact hands_ite (hands_trackResult hv line) (hands_pure hv)

theorem hands_equality (k : Kept natives Lit Ok) (negated : Bool) (line : Nat) :
    Hands Lit Ok n anything (equality natives negated line) :=
  (hands_pop line).bind fun _ _ => (hands_pop line).bind fun _ _ =>
    (hands_host line).bind fun _ _ => hands_push (k.bool _)

theorem hands_jumpKeep (whenTrue : Bool) (target line : Nat) :
    Hands Lit Ok n anything (jumpKeep whenTrue target line : Op W Unit) :=
  (hands_peek line _).bind fun _ _ => hands_ite (hands_setIp _ _) (hands_pure trivial)

theorem hands_captureCell (c : CaptureDesc) (line : Nat) :
    Hands Lit Ok n anything (captureCell natives c line) := by
  cases c with
  | localSlot slot =>
    exact (hands_ensureLocalCell slot line).bind fun _ _ => (hands_frame line).bind fun _ _ =>
      hands_read fun _ _ => hands_pure trivial
  | upvalue index =>
    exact (hands_upvalueCell index line).bind fun _ _ => (hands_frame line).bind fun _ _ =>
      hands_pure trivial

theorem hands_captureAll (line : Nat) (captures : List CaptureDesc) :
    Hands Lit Ok n anything (captureAll natives line captures) := by
  induction captures with
  | nil => exact hands_pure trivial
  | cons c rest ih =>
    exact (hands_captureCell c line).bind fun _ _ => ih.bind fun _ _ => hands_pure trivial

theorem hands_validateCall (argCount line : Nat) :
    Hands Lit Ok n anything (validateCall argCount line : Op W Unit) := by
  refine (hands_peek line _).bind fun v _ => ?_
  split
  · exact hands_ite (hands_raise _) (hands_pure trivial)
  · exact hands_raise _

theorem hands_call (k : Kept natives Lit Ok) (argCount line : Nat) :
    Hands Lit Ok n anything (call argCount line : Op W Unit) := by
  refine (hands_checkCallDepth line).bind fun _ _ => hands_read fun s hs =>
    hands_ite (hands_internalError _ _) ?_
  dsimp only
  split
  · exact hands_stop _
  · rename_i entry hentry
    split
    · rename_i f hf
      exact hands_ite (hands_raise _) (hands_pushCallFrame (k.chunk f
        (hf ▸ hs.stack entry (List.mem_of_getElem? hentry))) line)
    · exact hands_raise _

theorem hands_renderAll (line : Nat) (values : List Value) :
    Hands Lit Ok n anything (renderAll natives line values) := by
  induction values with
  | nil => exact hands_pure trivial
  | cons v rest ih =>
    exact (hands_host line).bind fun _ _ => ih.bind fun _ _ => hands_pure trivial

theorem hands_print (argCount line : Nat) : Hands Lit Ok n anything (print natives argCount line) :=
  (hands_requireStackLen _ _).bind fun _ _ => (hands_popMany _ _).bind fun _ _ =>
    (hands_renderAll _ _).bind fun _ _ => hands_native fun _ _ _ _ => trivial

theorem hands_dropCells (count line : Nat) :
    Hands Lit Ok n anything (dropCells count line : Op W Unit) :=
  hands_read fun _ _ => (hands_frame line).bind fun _ _ => hands_onFrame _ fun _ => rfl

theorem hands_popValue (line : Nat) : Hands Lit Ok n anything (popValue natives line) :=
  (hands_dropCells 1 line).bind fun _ _ => (hands_pop line).bind fun _ _ => hands_pure trivial

theorem hands_popN (count line : Nat) : Hands Lit Ok n anything (popN natives count line) :=
  (hands_requireStackLen _ _).bind fun _ _ => (hands_dropCells count line).bind fun _ _ =>
    (hands_popMany line count).bind fun _ _ => hands_pure trivial

theorem hands_listPush (k : Kept natives Lit Ok) (line : Nat) :
    Hands Lit Ok n anything (listPush natives line) := by
  refine (hands_pop line).bind fun value hvalue => hands_read fun s _ =>
    (hands_checkpointStackSlot _).bind fun _ _ => ?_
  split
  · exact hands_internalError _ _
  · split
    · exact (hands_checkCollection _ _).bind fun _ _ => (hands_checked _).bind fun _ _ =>
        hands_atStack _ (InPlace.holds_listPushTracked k hvalue line)
    · exact hands_internalError _ _

theorem hands_dictInsert (k : Kept natives Lit Ok) (line : Nat) :
    Hands Lit Ok n anything (dictInsert natives line) := by
  refine (hands_pop line).bind fun value hvalue => (hands_pop line).bind fun key _ =>
    hands_read fun s _ => (hands_checkpointStackSlot _).bind fun _ _ => ?_
  split
  · split
    · exact hands_internalError _ _
    · split
      · exact (hands_when (hands_checkCollection _ _)).bind fun _ _ =>
          (hands_checked _).bind fun _ _ =>
            hands_atStack _ (InPlace.holds_indexSetTracked k _ hvalue line)
      · exact hands_internalError _ _
  · exact hands_raise _

theorem Kept.iterItems (k : Kept natives Lit Ok) {v : Value} {items : List Value}
    (h : iterItems v = some items) : ∀ w ∈ items, Ok w := by
  unfold Op.iterItems at h
  split at h <;> cases h
  · intro w hw
    obtain ⟨e, -, rfl⟩ := List.mem_map.mp hw
    exact k.str _
  · intro w hw
    obtain ⟨c, -, rfl⟩ := List.mem_map.mp hw
    exact k.str _

theorem hands_toIterList (k : Kept natives Lit Ok) (line : Nat) :
    Hands Lit Ok n anything (toIterList natives line) := by
  refine (hands_pop line).bind fun v hv => ?_
  split
  · exact (hands_checkCollection _ _).bind fun _ _ => hands_push hv
  · split
    · rename_i items hitems
      exact (hands_checkCollection _ _).bind fun _ _ => (hands_host line).bind fun _ _ =>
        hands_push ((k.list items).mpr (Kept.iterItems k hitems))
    · exact hands_raise _

theorem hands_popUpdate (k : Kept natives Lit Ok) (line : Nat) :
    Hands Lit Ok n anything (popUpdate natives line) :=
  (hands_requireStackLen _ _).bind fun _ _ => hands_read fun _ _ =>
    (hands_checkpointStackSlot _).bind fun _ _ =>
      hands_atStack _ (InPlace.holds_listPopTracked k line)

theorem hands_fStrConcat (k : Kept natives Lit Ok) (count line : Nat) :
    Hands Lit Ok n anything (fStrConcat natives count line) := by
  refine (hands_requireStackLen _ _).bind fun _ _ => hands_read fun s _ =>
    (hands_checkpointStackRange _ _).bind fun _ _ => ?_
  refine Hands.bind (hands_modify fun t ht => ?_) fun _ _ => (hands_renderAll _ _).bind fun _ _ =>
    (hands_trackResult (k.str _) line).bind fun _ hv => hands_push hv
  exact { ht with stack := fun e he => ht.stack e (List.mem_of_mem_take he) }

theorem hands_callBuiltin (k : Kept natives Lit Ok) (id : BuiltinId) (argCount line : Nat) :
    Hands Lit Ok n (Progress.Holds Ok) (callBuiltin natives id argCount line) :=
  (hands_requireStackLen _ _).bind fun _ _ => (hands_popMany _ _).bind fun _ hargs =>
    hands_execBuiltin k _ (fun v hv => hargs v (List.mem_reverse.mp hv)) line

theorem hands_plain {m : Op W Unit} (hm : Hands Lit Ok n anything m) :
    Hands Lit Ok n (Outcome.Holds Ok) (plain m) := hm.bind fun _ _ => hands_pure trivial

/-- A value that an operation hands back goes on the stack. -/
theorem Hands.pushed {m : Op W Value} (hm : Hands Lit Ok n Ok m) :
    Hands Lit Ok n (Outcome.Holds Ok) (plain (m >>= push)) :=
  hands_plain (hm.bind fun _ hv => hands_push hv)

/-- `MakeClosure` is the instruction that evaluates a closure. -/
def isMakeClosure : OpCode → Bool
  | .makeClosure _ => true
  | _ => false

theorem hands_dispatch (k : Kept natives Lit Ok) {op : OpCode} (hop : isMakeClosure op = false)
    (line : Nat) : Hands Lit Ok n (Outcome.Holds Ok) (dispatch natives op line) := by
  cases op with
  | loadConst index => exact hands_plain (hands_loadConst k index line)
  | loadConstRaw index => exact (hands_constant k index line).pushed
  | add | sub | mul | div | mod | lt | gt | ltEq | gtEq =>
    exact hands_plain (hands_binary k _ line)
  | eq => exact hands_plain (hands_equality k _ line)
  | notEq => exact hands_plain (hands_equality k _ line)
  | not => exact hands_plain ((hands_pop line).bind fun _ _ => hands_push (k.bool _))
  | negate =>
    exact hands_plain ((hands_pop line).bind fun v _ =>
      (hands_check (k.negate v line)).bind fun _ hr => hands_push hr)
  | getLocal slot => exact (hands_getLocal k slot line).pushed
  | setLocal slot =>
    exact hands_plain ((hands_peek line _).bind fun _ hv => hands_setLocal k slot hv line)
  | getGlobal name => exact (hands_getGlobal k name line).pushed
  | getGlobalForCall name => exact (hands_getGlobal k name line).pushed
  | setGlobal name =>
    exact hands_plain ((hands_peek line _).bind fun _ hv => hands_setGlobal k name hv line)
  | registerGlobal name slot => exact hands_plain (hands_registerGlobal name slot line)
  | jumpIfGlobalDefined name target =>
    exact hands_plain (hands_read fun _ _ => hands_ite (hands_setIp _ _) (hands_pure trivial))
  | requireGlobal name => exact hands_plain (hands_requireGlobal name line)
  | jump target => exact hands_plain (hands_setIp target line)
  | jumpIfFalse target =>
    exact hands_plain ((hands_pop line).bind fun _ _ =>
      hands_ite (hands_pure trivial) (hands_setIp _ _))
  | jumpIfFalseKeep target => exact hands_plain (hands_jumpKeep _ target line)
  | jumpIfTrueKeep target => exact hands_plain (hands_jumpKeep _ target line)
  | loop target =>
    exact hands_plain ((hands_countStep line).bind fun _ _ => hands_setIp target line)
  | getUpvalue index =>
    exact hands_plain ((hands_upvalueCell index line).bind fun _ _ =>
      hands_read fun _ hs => hands_push (hs.readCell k _))
  | setUpvalue index =>
    exact hands_plain ((hands_peek line _).bind fun _ hv =>
      (hands_upvalueCell index line).bind fun _ _ => hands_assignCell k _ hv)
  | makeClosure index => cases hop
  | prepareCall =>
    exact hands_plain ((hands_countStep line).bind fun _ _ => hands_checkCallDepth line)
  | validateCall argCount => exact hands_plain (hands_validateCall argCount line)
  | call argCount => exact hands_plain (hands_call k argCount line)
  | print argCount => exact hands_plain (hands_print argCount line)
  | pop => exact hands_plain (hands_popValue line)
  | popN count => exact hands_plain (hands_popN count line)
  | lenLocal slot =>
    refine hands_plain ((hands_withLocalRef k slot line).bind fun v _ =>
      (hands_check (R := Ok) fun r hr => ?_).bind fun _ hr => hands_push hr)
    unfold builtinLen at hr
    split at hr <;> cases hr <;> exact k.int _
  | index =>
    exact hands_plain ((hands_pop line).bind fun _ _ => (hands_pop line).bind fun _ hc =>
      (hands_check fun _ hr => k.evalIndex hc hr).bind fun _ hr => hands_push hr)
  | indexLocal slot =>
    exact hands_plain ((hands_pop line).bind fun _ _ => (hands_withLocalRef k slot line).bind
      fun _ hc => (hands_check fun _ hr => k.evalIndex hc hr).bind fun _ hr => hands_push hr)
  | listPush => exact hands_plain (hands_listPush k line)
  | dictInsert => exact hands_plain (hands_dictInsert k line)
  | setIndex target =>
    exact hands_plain ((hands_pop line).bind fun _ hv => (hands_pop line).bind fun index _ =>
      hands_assignIndexBinding k target index hv line)
  | listPushBinding target =>
    exact hands_plain ((hands_pop line).bind fun _ hv => hands_listPushBinding k target hv line)
  | toIterList => exact hands_plain (hands_toIterList k line)
  | validateBuiltinCall name argCount firstArgIsIdentifier => exact hands_plain (hands_checked _)
  | callBuiltin id argCount =>
    refine (hands_callBuiltin k id argCount line).bind fun progress hp => ?_
    cases progress with
    | done v => exact hands_plain (hands_push hp)
    | waiting call depth => exact hands_pure hp
  | popUpdate => exact hands_plain (hands_popUpdate k line)
  | fStrConcat count => exact hands_plain (hands_fStrConcat k count line)
  | returnValue | «return» | setupTry _ | teardownTry => exact hands_internalError _ _

/-! ## One iteration -/

theorem hands_leaveFrame (line : Nat) : Hands Lit Ok n anything (leaveFrame natives line) := by
  refine hands_read fun s hs => ?_
  split
  · exact hands_internalError _ _
  · rename_i f callers hframes
    refine Hands.bind (hands_modify fun t ht => ?_) fun _ _ =>
      (hands_truncateStack f.base).bind fun _ _ => hands_modify fun _ hs => { hs with }
    exact { ht with frames := fun x hx => hs.frames x (hframes ▸ List.mem_cons_of_mem _ hx) }

theorem hands_execute (k : Kept natives Lit Ok) {op : OpCode} (hop : isMakeClosure op = false)
    (stopDepth line : Nat) :
    Hands Lit Ok n (Outcome.Holds Ok) (execute natives op stopDepth line) := by
  cases op with
  | returnValue =>
    exact (hands_pop line).bind fun _ hv => (hands_leaveFrame line).bind fun _ _ =>
      hands_read fun _ _ => hands_ite (hands_pure hv)
        ((hands_push hv).bind fun _ _ => hands_pure trivial)
  | «return» =>
    exact hands_read fun _ _ => hands_ite (hands_pure k.null) ((hands_leaveFrame line).bind
      fun _ _ => (hands_push k.null).bind fun _ _ => hands_pure trivial)
  | setupTry catchIp =>
    exact Hands.bind (hands_modify fun _ hs => { hs with }) fun _ _ => hands_pure trivial
  | teardownTry =>
    exact Hands.bind (hands_modify fun _ hs => { hs with }) fun _ _ => hands_pure trivial
  | _ => exact hands_dispatch k hop line

theorem hands_abandon (stop : VmStop) : Hands Lit Ok n R (abandon stop : Op W α) :=
  hands_read fun _ _ => hands_stop _

theorem hands_watchdogCheck (it : Iteration) :
    Hands Lit Ok n anything (watchdogCheck it : Op W Unit) := by
  refine hands_read fun s _ => hands_ite ?_ (hands_pure trivial)
  refine Hands.bind (R := anything) ?_ fun r _ => ?_
  · exact Proc.ensures_attempt (hands_watchdogTick _) (fun _ _ hs => ⟨trivial, hs.2⟩)
      (fun _ _ _ _ hs => ⟨trivial, hs⟩) fun _ _ _ hs => hs
  · cases r with
    | ok => exact hands_pure trivial
    | error stop => exact hands_abandon stop

theorem hands_enterCatch (k : Kept natives Lit Ok) (h : TryHandler) (handlers : List TryHandler)
    (e : TsumugiError) (line : Nat) :
    Hands Lit Ok n anything (enterCatch natives h handlers e line) := by
  refine Hands.bind (hands_modify fun s hs => ?_) fun _ _ =>
    Hands.bind (hands_onFrame _ fun _ => rfl) fun _ _ => (hands_truncateStack _).bind fun _ _ =>
      (hands_push (k.error _ _ _)).bind fun _ _ => hands_setIp _ _
  exact { hs with frames := fun f hf => hs.frames f (List.mem_of_mem_drop hf) }

theorem hands_recover (k : Kept natives Lit Ok) (it : Iteration) (stop : VmStop) :
    Hands Lit Ok n anything (recover natives it stop) := by
  refine hands_read fun s _ => ?_
  split
  · exact hands_stop _
  · refine hands_ite (hands_abandon _) ?_
    split
    · exact hands_abandon _
    · exact hands_ite ((hands_enterCatch k _ _ _ _).bind fun _ _ => hands_watchdogCheck it)
        (hands_abandon _)

end Op

end Tsumugi.Bytecode
