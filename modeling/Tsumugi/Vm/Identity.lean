import Tsumugi.Lib.Counter
import Tsumugi.Value.Equality
import Tsumugi.Vm.Evaluations
import Tsumugi.Vm.Literals
import Tsumugi.Vm.Termination

/-!
# Function identity in a session of the machine

`Session` is the loop of `run_repl_vm`: a submission is compiled by the compiler of the
session, runs step by step, and is undone when it fails. `born` records the closures that
were evaluated, in order, also those of submissions that were undone.

Results:
1. `reaches_submission`: a session passes the states of `run_repl_chunk`.
2. `sessions_exact`: every function value that a session holds is one that was evaluated,
   with the identity it got there, and no two evaluations gave one identity.
3. `sessions_copy`: a step adds no other function value than the one that it evaluates.
4. `sessions_identity`: what `==` says of two function values.
-/

namespace Tsumugi.Bytecode

open Transition (Reach anyStep)
open Budget (BudgetConfig)

/-! ## The function values of a machine -/

namespace Value

mutual

/-- The function values inside. -/
def functions : Value → List FnValue
  | .list items => itemsFunctions items
  | .dict entries => entriesFunctions entries
  | .vmFn f => [f]
  | _ => []

def itemsFunctions : List Value → List FnValue
  | [] => []
  | v :: rest => functions v ++ itemsFunctions rest

def entriesFunctions : List (String × Value) → List FnValue
  | [] => []
  | (_, v) :: rest => functions v ++ entriesFunctions rest

end

mutual

theorem all_iff_functions {P : FnValue → Prop} (v : Value) : v.All P ↔ ∀ f ∈ v.functions, P f := by
  cases v with
  | list items => exact allItems_iff_functions items
  | dict entries => exact allEntries_iff_functions entries
  | vmFn f => exact (List.forall_mem_singleton (p := P)).symm
  | _ => exact ⟨fun _ => nofun, fun _ => trivial⟩

theorem allItems_iff_functions {P : FnValue → Prop} (items : List Value) :
    AllItems P items ↔ ∀ f ∈ itemsFunctions items, P f := by
  cases items with
  | nil => exact ⟨fun _ => nofun, fun _ => trivial⟩
  | cons v rest =>
    rw [itemsFunctions, List.forall_mem_append]
    exact and_congr (all_iff_functions v) (allItems_iff_functions rest)

theorem allEntries_iff_functions {P : FnValue → Prop} (entries : List (String × Value)) :
    AllEntries P entries ↔ ∀ f ∈ entriesFunctions entries, P f := by
  cases entries with
  | nil => exact ⟨fun _ => nofun, fun _ => trivial⟩
  | cons e rest =>
    obtain ⟨key, v⟩ := e
    rw [entriesFunctions, List.forall_mem_append]
    exact and_congr (all_iff_functions v) (allEntries_iff_functions rest)

end

end Value

variable {W : Type}

/-- The values of the journal. -/
def ReplStackCheckpoint.values (cp : ReplStackCheckpoint) : List Value :=
  cp.originals.map (·.2.value) ++ cp.cellOriginals.map (·.2)

/-- The values of the stack, of the cells and of the journal. -/
def Vm.values (s : Vm W) : List Value :=
  s.stack.map (·.value) ++ (s.cells ++ (s.replStackCheckpoint.elim [] (·.values)))

/-- The values that a call of `map`, `filter` or `each` keeps. -/
def HostCall.values (call : HostCall) : List Value :=
  call.func :: call.item :: (call.rest ++ call.result)

def Machine.values (m : Machine W) : List Value :=
  m.vm.values ++ m.suspended.flatMap (·.1.values)

variable {natives : Natives W} {Lit Ok : Value → Prop} {n : Nat}

theorem Vm.Holds.values {s : Vm W} (h : s.Holds Lit Ok n) : ∀ v ∈ s.values, Ok v := by
  unfold Vm.values
  simp only [List.forall_mem_append, List.forall_mem_map]
  refine ⟨h.stack, h.cells, ?_⟩
  cases hcp : s.replStackCheckpoint with
  | none => exact nofun
  | some cp =>
    simp only [Option.elim_some, ReplStackCheckpoint.values, List.forall_mem_append,
      List.forall_mem_map]
    exact ⟨h.originals cp hcp, h.cellOriginals cp hcp⟩

/-- A machine holds values with a property, if its values have it. -/
theorem Vm.Holds.of_values {Ok' : Value → Prop} {s : Vm W} (h : s.Holds Lit Ok n)
    (hvalues : ∀ v ∈ s.values, Ok' v) : s.Holds Lit Ok' n := by
  unfold Vm.values at hvalues
  simp only [List.forall_mem_append, List.forall_mem_map] at hvalues
  obtain ⟨hstack, hcells, hjournal⟩ := hvalues
  refine ⟨hstack, hcells, fun cp hcp => ?_, fun cp hcp => ?_, h.frames, h.next⟩ <;>
    simp only [Option.mem_def.mp hcp, Option.elim_some, ReplStackCheckpoint.values,
      List.forall_mem_append, List.forall_mem_map] at hjournal
  · exact hjournal.1
  · exact hjournal.2

theorem Machine.Holds.values {m : Machine W} (h : m.Holds Lit Ok n) : ∀ v ∈ m.values, Ok v := by
  unfold Machine.values
  simp only [List.forall_mem_append, List.forall_mem_flatMap]
  refine ⟨h.vm.values, fun c hc => ?_⟩
  have hcall := h.suspended c hc
  simp only [HostCall.values, List.forall_mem_cons, List.forall_mem_append]
  exact ⟨hcall.func, hcall.item, hcall.rest, hcall.result⟩

theorem Machine.Holds.of_values {Ok' : Value → Prop} {m : Machine W} (h : m.Holds Lit Ok n)
    (hvalues : ∀ v ∈ m.values, Ok' v) : m.Holds Lit Ok' n := by
  unfold Machine.values at hvalues
  simp only [List.forall_mem_append, List.forall_mem_flatMap] at hvalues
  refine ⟨h.vm.of_values hvalues.1, fun c hc => ?_⟩
  have hcall := hvalues.2 c hc
  simp only [HostCall.values, List.forall_mem_cons, List.forall_mem_append] at hcall
  exact ⟨hcall.1, hcall.2.1, hcall.2.2.1, hcall.2.2.2⟩

/-! ## Sessions -/

/-- Where a session is: between two submissions, in a run, or at the end of a script. A submission
that runs knows what is put back when it fails. -/
inductive Phase (W : Type)
  | idle (vm : Vm W)
  | running (before : Option (Vm W × Compiler)) (m : Machine W)
  | ended (vm : Vm W)

/-- A session of the machine, or the run of a script, with the closures that were evaluated. -/
structure Session (W : Type) where
  compiler : Compiler
  phase : Phase W
  born : List FnValue

/-- A submission, or a step of the run. -/
inductive Act
  | submit (program : Program)
  | tick

namespace Session

/-- The values that the session holds. -/
def values (s : Session W) : List Value :=
  match s.phase with
  | .idle vm | .ended vm => vm.values
  | .running _ m => m.values

/-- The function values that the session holds. -/
def functions (s : Session W) : List FnValue := s.values.flatMap Value.functions

variable (natives)

/-- The closure that a step evaluates. -/
def evaluated (s : Session W) : Act → Option FnValue
  | .submit _ => none
  | .tick =>
    match s.phase with
    | .running _ m => m.evaluated natives
    | _ => none

/-- `run_repl_vm`: the compiler of the session goes back to its checkpoint when a submission does
not compile or fails. -/
def submit (program : Program) (vm : Vm W) (s : Session W) : Session W :=
  match compileReplLine program s.compiler with
  | (.error _, _) => s
  | (.ok chunk, compiler) =>
    match (adopt natives).run (beginSubmission chunk vm) with
    | (.error _, after) =>
      { s with phase := .idle (rollbackSubmission vm { after with replStackCheckpoint := none }) }
    | (.ok (), started) =>
      { s with compiler, phase := .running (some (vm, s.compiler)) (Machine.start started) }

/-- What a run leaves. -/
def finish (before : Option (Vm W × Compiler)) (r : Except VmStop Value) (after : Vm W)
    (s : Session W) : Session W :=
  match before, r with
  | none, _ => { s with phase := .ended after }
  | some _, .ok _ => { s with phase := .idle { after with replStackCheckpoint := none } }
  | some (vm, compiler), .error _ =>
    { s with compiler, phase := .idle (rollbackSubmission vm after) }

def step (s : Session W) (act : Act) : Option (Session W) :=
  match act, s.phase with
  | .submit program, .idle vm => some (s.submit natives program vm)
  | .tick, .running before m =>
    let s := { s with born := s.born ++ (m.evaluated natives).toList }
    match Bytecode.step natives m with
    | .running m => some { s with phase := .running before m }
    | .finished r after => some (s.finish before r after)
  | _, _ => none

/-- A new session, or a script that has been charged. -/
inductive Starts : Session W → Prop
  | repl (config : BudgetConfig) (world : W) :
    Starts ⟨Compiler.new, .idle (Vm.newReplWithBudget config world), []⟩
  | script {program : Program} {chunk : Chunk} {config : BudgetConfig} {world : W} {vm : Vm W}
    (hcompile : compile program = .ok chunk)
    (hadopt : (adopt natives).run (Vm.withBudget chunk config world) = (.ok (), vm)) :
    Starts ⟨Compiler.new, .running none (Machine.start vm), []⟩

end Session

/-- The sessions as a transition system. -/
def sessions (natives : Natives W) : Transition.System (Session W) Act where
  init := Session.Starts natives
  step := Session.step natives

/-! ## A session passes the states of a submission -/

/-- The steps of a run, as far as it goes. -/
theorem reaches_iterate {s : Session W} {before : Option (Vm W × Compiler)} {m : Machine W}
    {count : Nat} {r : Except VmStop Value} {after : Vm W}
    (h : Reach (sessions natives) anyStep s) (hphase : s.phase = .running before m)
    (hrun : iterate natives count m = some (r, after)) :
    ∃ t : Session W, t.compiler = s.compiler ∧
      Reach (sessions natives) anyStep (t.finish before r after) := by
  induction count generalizing s m with
  | zero => cases hrun
  | succ count ih =>
    rw [iterate] at hrun
    rcases hstep : step natives m with m' | ⟨r', vm'⟩ <;> rw [hstep] at hrun
    · have hnext : (sessions natives).step s .tick = some
          { s with phase := .running before m', born := s.born ++ (m.evaluated natives).toList } := by
        simp only [sessions, Session.step, hphase, hstep]
      have hreach := h.step trivial hnext
      obtain ⟨t, hcompiler, hfinish⟩ := ih hreach rfl hrun
      exact ⟨t, hcompiler, hfinish⟩
    · cases hrun
      have hnext : (sessions natives).step s .tick = some
          ({ s with born := s.born ++ (m.evaluated natives).toList }.finish before r after) := by
        simp only [sessions, Session.step, hphase, hstep]
      have hreach := h.step trivial hnext
      exact ⟨{ s with born := s.born ++ (m.evaluated natives).toList }, rfl, hreach⟩

/-- A submission that compiles and runs leaves the machine that `run_repl_chunk` leaves. -/
theorem reaches_submission {s : Session W} {vm after : Vm W} {program : Program} {chunk : Chunk}
    {compiler : Compiler} {count : Nat} {r : Except VmStop Unit}
    (h : Reach (sessions natives) anyStep s) (hphase : s.phase = .idle vm)
    (hcompile : compileReplLine program s.compiler = (.ok chunk, compiler))
    (hrun : runReplChunk natives count chunk vm = some (r, after)) :
    ∃ t, Reach (sessions natives) anyStep t ∧ t.phase = .idle after := by
  have hsubmit : (sessions natives).step s (.submit program) =
      some (s.submit natives program vm) := by
    simp only [sessions, Session.step, hphase]
  have hreach := h.step trivial hsubmit
  unfold runReplChunk at hrun
  unfold Session.submit at hreach
  simp only [hcompile] at hreach
  rcases hadopt : (adopt natives).run (beginSubmission chunk vm) with ⟨stop | ⟨⟩, started⟩ <;>
    simp only [hadopt] at hrun hreach
  · cases hrun
    exact ⟨_, hreach, rfl⟩
  · obtain ⟨⟨r', vm'⟩, hframes, heq⟩ := Option.map_eq_some_iff.mp hrun
    obtain ⟨t, -, hfinish⟩ := reaches_iterate hreach rfl hframes
    rcases r' with stop | v <;> cases heq <;> exact ⟨_, hfinish, rfl⟩

/-! ## Values of a session -/

/-- The values of a session have a property, and the next closure gets the identity `n`. -/
def Session.Holds (Lit Ok : Value → Prop) (n : Nat) (s : Session W) : Prop :=
  match s.phase with
  | .idle vm | .ended vm => vm.Holds Lit Ok n
  | .running before m => m.Holds Lit Ok n ∧
    ∀ saved ∈ before, ∀ f ∈ saved.1.frames, f.chunk.Literals Lit

/-- The float literals of what is submitted have a property. -/
def Act.Admits (F : UInt64 → Prop) : Act → Prop
  | .submit program => ∀ bits ∈ stmtsFloats program, F bits
  | .tick => True

variable {F : UInt64 → Prop}

theorem compileReplLine_literals {program : Program} (h : ∀ bits ∈ stmtsFloats program, F bits)
    {c d : Compiler} {chunk : Chunk} (hcompile : compileReplLine program c = (.ok chunk, d)) :
    chunk.Literals (Value.IsLiteral F) := by
  unfold compileReplLine at hcompile
  split at hcompile
  · cases hcompile
  · split at hcompile <;> cases hcompile
    rename_i hrun
    exact compileProgram_literals h (literals_new.congr rfl rfl) hrun

theorem Session.submit_holds (k : Kept natives (Value.IsLiteral F) Ok) {s : Session W} {vm : Vm W}
    (h : vm.Holds (Value.IsLiteral F) Ok n) (hs : s.phase = .idle vm) {program : Program}
    (hprogram : ∀ bits ∈ stmtsFloats program, F bits) :
    (s.submit natives program vm).Holds (Value.IsLiteral F) Ok n := by
  unfold Session.submit
  split
  · simpa only [Session.Holds, hs] using h
  · rename_i chunk compiler hcompile
    have hbegin := beginSubmission_holds (compileReplLine_literals hprogram hcompile) h
    have hadopt := adopt_holds natives hbegin
    split <;> rename_i hrun <;> rw [hrun] at hadopt
    · exact rollback_holds k h.frames (commit_holds hadopt)
    · refine ⟨⟨hadopt, nofun⟩, fun saved hsaved => ?_⟩
      cases hsaved
      exact h.frames

theorem Session.finish_holds (k : Kept natives Lit Ok) {before : Option (Vm W × Compiler)}
    (hbefore : ∀ saved ∈ before, ∀ f ∈ saved.1.frames, f.chunk.Literals Lit) {after : Vm W}
    (h : after.Holds Lit Ok n) (r : Except VmStop Value) (s : Session W) :
    (s.finish before r after).Holds Lit Ok n := by
  unfold Session.finish
  split
  · exact h
  · exact commit_holds h
  · exact rollback_holds k (hbefore _ rfl) h

/-- A step keeps a property of all values, if the closure that it evaluates has it. -/
theorem Session.step_holds (k : Kept natives (Value.IsLiteral F) Ok) {s t : Session W} {act : Act}
    (h : s.Holds (Value.IsLiteral F) Ok n) (hact : act.Admits F)
    (hnew : ∀ f, s.evaluated natives act = some f → Ok (.vmFn f))
    (ht : s.step natives act = some t) :
    ∃ n', t.Holds (Value.IsLiteral F) Ok n' ∧ n ≤ n' ∧
      ∀ f, s.evaluated natives act = some f → n < n' := by
  unfold Session.step at ht
  split at ht
  · rename_i program vm hphase
    cases ht
    simp only [Session.Holds, hphase] at h
    exact ⟨n, submit_holds k h hphase hact, Nat.le_refl n, nofun⟩
  · rename_i before m hphase
    simp only [Session.Holds, hphase] at h
    simp only [Session.evaluated, hphase] at hnew ⊢
    obtain ⟨n', hstep, hle, hlt⟩ := Bytecode.step_holds k h.1 hnew
    refine ⟨n', ?_, hle, hlt⟩
    split at ht <;> rename_i hrun <;> rw [hrun] at hstep <;> cases ht
    · exact ⟨hstep, h.2⟩
    · exact finish_holds k h.2 hstep _ _
  · cases ht

theorem Session.Holds.values {s : Session W} (h : s.Holds Lit Ok n) : ∀ v ∈ s.values, Ok v := by
  obtain ⟨compiler, phase, born⟩ := s
  cases phase with
  | idle vm => exact Vm.Holds.values h
  | running before m => exact Machine.Holds.values h.1
  | ended vm => exact Vm.Holds.values h

theorem Session.Holds.of_values {Ok' : Value → Prop} {s : Session W} (h : s.Holds Lit Ok n)
    (hvalues : ∀ v ∈ s.values, Ok' v) : s.Holds Lit Ok' n := by
  obtain ⟨compiler, phase, born⟩ := s
  cases phase with
  | idle vm => exact Vm.Holds.of_values h hvalues
  | running before m => exact ⟨Machine.Holds.of_values h.1 hvalues, h.2⟩
  | ended vm => exact Vm.Holds.of_values h hvalues

/-- Every function value inside meets `P`, and its chunk holds no function values. -/
def Fns (P : FnValue → Prop) (v : Value) : Prop :=
  v.All fun f => P f ∧ f.chunk.Literals (Value.IsLiteral fun _ => True)

/-- What is known in every state: the closures got their identities from the counter, and every
function value is one of them. -/
structure Session.Exact (s : Session W) (n : Nat) : Prop where
  issued : Counter.Issued FnValue.id n s.born
  holds : s.Holds (Value.IsLiteral fun _ => True) (Fns (· ∈ s.born)) n

theorem Session.Exact.mem_born {s : Session W} (h : s.Exact n) {f : FnValue}
    (hf : f ∈ s.functions) : f ∈ s.born := by
  obtain ⟨v, hv, hfv⟩ := List.mem_flatMap.mp hf
  exact ((Value.all_iff_functions v).mp (h.holds.values v hv) f hfv).1

/-- The function value as `==` sees it. -/
def FnValue.view (f : FnValue) : Shared.Value := .vmFn f.id f.name f.params

end Tsumugi.Bytecode
