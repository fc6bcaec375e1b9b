import Tsumugi.Vm.Termination

/-!
# The rollback of a submission is exact

While a submission runs, the journal and the present contents of the machine together
hold the contents from before it (`Journaled`); every operation keeps that. The rollback
puts the journal back.

Results:
1. `iterate_journaled`: the journal is complete in every state of a run.
2. `restoreReplStack_exact`: a complete journal restores the stack and the cells.
3. `run_repl_chunk_rolls_back`: after an error the machine is what it was.
-/

namespace Tsumugi.Bytecode

variable {W : Type} (natives : Natives W)

/-! ## Restoring -/

/-- Entries that are put back where they were make the list what it was, when the positions that
are not put back have kept their entries. -/
theorem getElem?_foldl_set {α : Type} (entries : List (Nat × α)) (l : List α) (i : Nat)
    (hlt : i < l.length) (a : α) (hentries : ∀ e ∈ entries, e.1 = i → e.2 = a)
    (hkept : (∃ x, (i, x) ∈ entries) ∨ l[i]? = some a) :
    (entries.foldl (fun l e => l.set e.1 e.2) l)[i]? = some a := by
  induction entries generalizing l with
  | nil => exact hkept.resolve_left fun ⟨x, hx⟩ => by cases hx
  | cons e rest ih =>
    obtain ⟨j, x⟩ := e
    refine ih (l.set j x) (by simpa using hlt) (fun e he => hentries e (List.mem_cons_of_mem _ he)) ?_
    by_cases hij : j = i
    · subst hij
      right
      rw [List.getElem?_set_self hlt, show x = a from hentries (j, x) List.mem_cons_self rfl]
    · refine hkept.imp (fun ⟨y, hy⟩ => ?_) fun h => (List.getElem?_set_ne hij).trans h
      rcases List.mem_cons.mp hy with heq | hy
      · exact absurd (Prod.mk.inj heq).1.symm hij
      · exact ⟨y, hy⟩

theorem length_foldl_set {α : Type} (entries : List (Nat × α)) (l : List α) :
    (entries.foldl (fun l e => l.set e.1 e.2) l).length = l.length := by
  induction entries generalizing l with
  | nil => rfl
  | cons e rest ih => exact (ih _).trans (List.length_set ..)

/-- A complete journal restores the stack and the cells that were there. -/
theorem restoreReplStack_exact {before s : Vm W} {cp : ReplStackCheckpoint}
    (h : Covers before cp s) :
    (restoreReplStack cp s).stack = before.stack ∧
    ∀ (a : Addr) (v : Value), before.cells[a]? = some v →
      (restoreReplStack cp s).cells[a]? = some v := by
  constructor
  · let filled := s.stack.take cp.stackLen ++
      List.replicate (cp.stackLen - (s.stack.take cp.stackLen).length) ⟨.null, 0⟩
    have hlen : filled.length = before.stack.length := by
      rw [← h.stackLen]
      simp only [filled, List.length_append, List.length_replicate, List.length_take]
      omega
    refine List.ext_getElem? fun i => ?_
    show (cp.originals.foldl (fun stack o => stack.set o.1 o.2) filled)[i]? = before.stack[i]?
    by_cases hi : i < before.stack.length
    · have hbefore := List.getElem?_eq_getElem hi
      rw [hbefore]
      refine getElem?_foldl_set _ _ _ (hlen ▸ hi) _ (fun e he heq => ?_) ?_
      · subst heq
        exact Option.some.inj ((h.originals e he).symm.trans hbefore)
      · refine (h.slots i _ hbefore).imp_right fun hs => ?_
        have hlt : i < cp.stackLen := h.stackLen ▸ hi
        exact (List.getElem?_append_left (List.getElem?_eq_some_iff.mp
          ((List.getElem?_take_of_lt hlt).trans hs)).1).trans
          ((List.getElem?_take_of_lt hlt).trans hs)
    · rw [List.getElem?_eq_none (Nat.not_lt.mp hi), List.getElem?_eq_none]
      rw [length_foldl_set, hlen]
      exact Nat.not_lt.mp hi
  · intro a v ha
    refine getElem?_foldl_set _ _ _ ?_ _ (fun e he heq => ?_) ?_
    · exact Nat.lt_of_lt_of_le (List.getElem?_eq_some_iff.mp ha).1 h.cellsLen
    · subst heq
      exact h.cellOriginals e he v ha
    · exact h.cells a v ha

/-! ## Runs -/

/-- The journal is complete in every state of a run. -/
theorem iterate_journaled {before : Vm W} {n : Nat} {m : Machine W} {r : Except VmStop Value}
    {vm : Vm W} (h : iterate natives n m = some (r, vm)) (hj : Journaled before m.vm) :
    Journaled before vm := by
  induction n generalizing m with
  | zero => cases h
  | succ n ih =>
    have hstep := step_lands natives m
    rw [iterate] at h
    rcases hnext : step natives m with m' | ⟨r', vm'⟩ <;> rw [hnext] at hstep h
    · exact ih h (hstep.1.journal before hj)
    · cases h
      exact hstep.2 before hj

/-- A submission begins with a complete journal, which is empty. -/
theorem journaled_beginSubmission (chunk : Chunk) (vm : Vm W) :
    Journaled vm (beginSubmission chunk vm) :=
  ⟨{ stackLen := vm.stack.length }, rfl, rfl, nofun, fun _ _ h => .inr h, Nat.le_refl _, nofun,
    fun _ _ h => .inr h⟩

/-- What a failed submission leaves behind: the stack, the globals, the frames with their cells, the
handlers and the contents of the cells are those from before. -/
structure RolledBack (before after : Vm W) : Prop where
  stack : after.stack = before.stack
  globals : after.globals = before.globals
  frames : after.frames = before.frames
  tryHandlers : after.tryHandlers = before.tryHandlers
  cells : ∀ (a : Addr) (v : Value), before.cells[a]? = some v → after.cells[a]? = some v

theorem rolledBack_of_journaled {before after : Vm W} (h : Journaled before after) :
    RolledBack before (rollbackSubmission before after) := by
  obtain ⟨cp, hcp, hcov⟩ := h
  obtain ⟨hstack, hcells⟩ := restoreReplStack_exact hcov
  simp only [rollbackSubmission, Option.mem_def.mp hcp]
  exact ⟨hstack, rfl, rfl, rfl, hcells⟩

/-- The charge of a chunk happens outside of the machine. -/
theorem adopt_run (s : Vm W) : ∃ o adopted,
    ((adopt natives).run s).2 = { s with outer := o, adopted } := by
  unfold adopt
  rw [Proc.bind_run_ok (Proc.gets_run _ _)]
  rcases hadopted : s.adopted with - | -
  · rcases hroot : s.frames.getLast? with _ | root
    · refine ⟨s.outer, false, ?_⟩
      simp only [id, hadopted, hroot]
      rw [← hadopted]
      rfl
    · simp only [id, hadopted, hroot]
      rcases hcharge : (natives.chargeChunkTree root.chunk).run s.outer with ⟨e | ⟨⟩, o⟩
      · refine ⟨o, s.adopted, ?_⟩
        simp only [Proc.bind_run, Op.host, hcharge]
      · refine ⟨o, true, ?_⟩
        simp only [Proc.bind_run, Op.host, hcharge, Proc.modify_run]
  · refine ⟨s.outer, true, ?_⟩
    simp only [id, hadopted]
    rw [← hadopted]
    rfl

/-- After an error the machine is what it was before the submission. -/
theorem run_repl_chunk_rolls_back {n : Nat} {chunk : Chunk} {before after : Vm W} {stop : VmStop}
    (h : runReplChunk natives n chunk before = some (.error stop, after)) :
    RolledBack before after := by
  unfold runReplChunk at h
  obtain ⟨o, adopted, hadopt⟩ := adopt_run natives (beginSubmission chunk before)
  rcases hrun : (adopt natives).run (beginSubmission chunk before) with ⟨e | ⟨⟩, started⟩ <;>
    rw [hrun] at h hadopt <;> replace hadopt : started = _ := hadopt
  · -- the chunk is refused before its first instruction
    cases h
    exact ⟨by rw [hadopt]; rfl, rfl, rfl, rfl, fun a v ha => by rw [hadopt]; exact ha⟩
  · obtain ⟨⟨r, vm⟩, hframes, hr⟩ := Option.map_eq_some_iff.mp h
    rcases r with e | v
    · cases hr
      refine rolledBack_of_journaled (iterate_journaled natives hframes ?_)
      show Journaled before started
      rw [hadopt]
      exact (journaled_beginSubmission chunk before).congr rfl rfl rfl
    · cases hr

/-- A session whose first submission declared `x`. -/
def oneVariable : Vm Unit :=
  { Vm.withBudget Chunk.new endlessBudget () with
    stack := [⟨.int 1, 0⟩], globals := [("x", 0)], nextBirth := 1 }

/-- `x = 5` and then a name that is not defined. -/
def assignThenFail : Chunk :=
  { Chunk.new with
    code := [.loadConstRaw 0, .setGlobal "x", .pop, .getGlobal "y"]
    constants := [.int 5]
    lines := [1, 1, 1, 2]
    live := [1, 1, 1, 1] }

/-- The assignment is undone. -/
theorem assignThenFail_rolls_back : ∃ stop after,
    runReplChunk Natives.free 5 assignThenFail oneVariable = some (.error stop, after) ∧
    RolledBack oneVariable after := by
  obtain ⟨stop, after, hrun⟩ : ∃ stop after,
      runReplChunk Natives.free 5 assignThenFail oneVariable = some (.error stop, after) :=
    ⟨_, _, rfl⟩
  exact ⟨stop, after, hrun, run_repl_chunk_rolls_back Natives.free hrun⟩

end Tsumugi.Bytecode
