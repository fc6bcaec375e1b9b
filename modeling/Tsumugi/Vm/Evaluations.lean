import Tsumugi.Vm.ValueFlow

/-!
# The closures that a run evaluates

`Machine.evaluated` is the closure that the next step of a machine evaluates: the step
executes a `MakeClosure`, and it does not stop. Nothing else makes a function value.

Results:
1. `evaluated_spec`: the closure has the next identity of the session.
2. `step_holds`: a step keeps a property of all values that the closure has, and the next
   identity does not go back.
3. `rollback_holds`: neither does it when a submission is undone.
-/

namespace Tsumugi.Bytecode

open Proc (Ensures)

variable {W : Type} {natives : Natives W} {Lit Ok : Value → Prop} {n : Nat}

/-! ## `MakeClosure` -/

namespace Op

theorem ensures_allocateFunctionId (line : Nat) :
    Ensures (Vm.Holds Lit Ok n) (allocateFunctionId line : Op W Nat)
      (fun id s => id = n ∧ s.Holds Lit Ok (n + 1)) fun _ => Vm.Holds Lit Ok n := by
  intro s hs
  cases h : Word.checkedAdd s.nextFunctionId 1 with
  | none =>
    simp only [allocateFunctionId, Proc.bind_run, Proc.gets_run, id, h]
    exact hs
  | some next =>
    obtain ⟨-, rfl⟩ := Word.checkedAdd_eq_some.mp h
    simp only [allocateFunctionId, Proc.bind_run, Proc.gets_run, id, h]
    exact ⟨hs.next, { hs with next := congrArg (· + 1) hs.next }⟩

/-- A closure is pushed, with the next identity and with a prototype of the running chunk. An
identity may be used up without a closure, when the charge of the closure is refused. -/
theorem ensures_makeClosure (index line : Nat) :
    Ensures (Vm.Holds Lit Ok n) (makeClosure natives index line)
      (fun _ t => ∃ (f : FnValue) (s : Vm W), f.id = n ∧ f.chunk.Literals Lit ∧
        s.Holds Lit Ok (n + 1) ∧ t = ((push (.vmFn f)).run s).2)
      fun _ t => t.Holds Lit Ok n ∨ t.Holds Lit Ok (n + 1) := by
  have hweak : ∀ {α : Type} {Q : α → Prop} {m : Op W α}, Hands Lit Ok n Q m →
      Ensures (Vm.Holds Lit Ok n) m (fun a s => Q a ∧ s.Holds Lit Ok n)
        fun _ t => t.Holds Lit Ok n ∨ t.Holds Lit Ok (n + 1) := fun h =>
    Proc.Ensures.conseq h (fun _ hs => hs) (fun _ _ hs => hs) fun _ _ hs => .inl hs
  refine Proc.ensures_bind (hweak (hands_frame line)) fun f s hf => ?_
  refine Proc.ensures_bind (hweak (hands_expect (R := fun p => p.chunk.Literals Lit) fun p hp =>
    hf.1.prototypes p (List.mem_of_getElem? hp))) (fun p s hp => ?_) s hf.2
  refine Proc.ensures_bind (hweak (hands_captureAll line p.captures)) (fun cells s hs => ?_) s hp.2
  refine Proc.ensures_bind (Proc.Ensures.conseq (ensures_allocateFunctionId line) (fun _ hs => hs)
    (fun _ _ hs => hs) fun _ _ hs => .inl hs) (fun fnId s hid => ?_) s hs.2
  refine Proc.ensures_bind (Proc.Ensures.conseq (hands_host (n := n + 1) line) (fun _ hs => hs)
    (fun _ _ hs => hs) fun _ _ hs => .inr hs) (fun _ s hs => ?_) s hid.2
  exact ⟨_, s, hid.1, hp.1, hs.2, rfl⟩

end Op

/-! ## A step -/

/-- The values of a machine, with those of the calls that wait. -/
structure Machine.Holds (Lit Ok : Value → Prop) (n : Nat) (m : Machine W) : Prop where
  vm : m.vm.Holds Lit Ok n
  suspended : ∀ c ∈ m.suspended, c.1.Holds Ok

/-- The values that a step leaves. -/
def Next.Holds (Lit Ok : Value → Prop) (n : Nat) : Next W → Prop
  | .running m => m.Holds Lit Ok n
  | .finished _ vm => vm.Holds Lit Ok n

/-- The instruction that the next step executes, what the step has noted, and the state in which it
executes it. -/
def Machine.fetch (m : Machine W) : Option (OpCode × Iteration × Vm W) :=
  match m.vm.frames with
  | [] => none
  | f :: callers =>
    match f.chunk.code[f.ip]?, f.chunk.lines[f.ip]? with
    | some op, some line =>
      some (op, ⟨m.stopDepth, m.vm.frames.length, f.ip, line⟩,
        { m.vm with frames := { f with ip := f.ip + 1 } :: callers })
    | _, _ => none

variable (natives) in
/-- The closure that the next step evaluates, if it evaluates one. -/
def Machine.evaluated (m : Machine W) : Option FnValue :=
  match m.fetch with
  | some (.makeClosure index, it, vm) =>
    match (Op.surfacePendingHeapStop it.line >>= fun _ =>
        Op.makeClosure natives index it.line).run vm with
    | (.ok (), t) =>
      match t.stack.getLast? with
      | some ⟨.vmFn f, _⟩ => some f
      | _ => none
    | (.error _, _) => none
  | _ => none

theorem escape_holds (k : Kept natives Lit Ok) {suspended : List (HostCall × Iteration)}
    (hs : ∀ c ∈ suspended, c.1.Holds Ok) (stop : VmStop) {vm : Vm W} (h : vm.Holds Lit Ok n) :
    (escape natives suspended stop vm).Holds Lit Ok n := by
  induction suspended generalizing stop vm with
  | nil => exact h
  | cons c rest ih =>
    obtain ⟨-, hrest⟩ := List.forall_mem_cons.mp hs
    have hrecover := Op.hands_recover k c.2 stop vm h
    rw [escape]
    rcases hrun : (Op.recover natives c.2 stop).run vm with ⟨stop' | ⟨⟩, t⟩ <;>
      simp only [hrun] at hrecover ⊢
    · exact ih hrest stop' hrecover
    · exact ⟨hrecover.2, hrest⟩

theorem settle_holds (k : Kept natives Lit Ok) {suspended : List (HostCall × Iteration)}
    (hs : ∀ c ∈ suspended, c.1.Holds Ok) (it : Iteration) (r : Except VmStop Unit) {vm : Vm W}
    (h : vm.Holds Lit Ok n) : (settle natives suspended it (r, vm)).Holds Lit Ok n := by
  have hafter : ∀ m : Op W Unit, Op.Hands Lit Ok n Op.anything m →
      Next.Holds Lit Ok n (match m.run vm with
        | (.ok (), vm) => .running ⟨vm, it.stopDepth, suspended⟩
        | (.error stop, vm) => escape natives suspended stop vm) := by
    intro m hm
    have hm := hm vm h
    rcases hrun : m.run vm with ⟨stop | ⟨⟩, t⟩ <;> simp only [hrun] at hm ⊢
    · exact escape_holds k hs stop hm
    · exact ⟨hm.2, hs⟩
  cases r with
  | ok => exact hafter _ (Op.hands_watchdogCheck it)
  | error stop => exact hafter _ (Op.hands_recover k it stop)

theorem deliver_holds (k : Kept natives Lit Ok) {suspended : List (HostCall × Iteration)}
    (hs : ∀ c ∈ suspended, c.1.Holds Ok) {v : Value} (hv : Ok v) {vm : Vm W}
    (h : vm.Holds Lit Ok n) : (deliver natives suspended v vm).Holds Lit Ok n := by
  cases suspended with
  | nil => exact h
  | cons c rest =>
    obtain ⟨hcall, hrest⟩ := List.forall_mem_cons.mp hs
    have hresume := Op.hands_resume k hcall hv vm h
    rw [deliver]
    rcases hrun : (Op.resume natives c.1 v).run vm with ⟨stop | _ | ⟨call, depth⟩, t⟩ <;>
      simp only [hrun] at hresume ⊢
    · exact settle_holds k hrest _ _ hresume
    · exact settle_holds k hrest _ (.ok ()) (Op.hands_push hresume.1 t hresume.2).2
    · exact ⟨hresume.2, List.forall_mem_cons.mpr ⟨hresume.1, hrest⟩⟩

theorem implicitReturn_holds (k : Kept natives Lit Ok) {m : Machine W} (h : m.Holds Lit Ok n) :
    (implicitReturn natives m).Holds Lit Ok n := by
  unfold implicitReturn
  split
  · exact deliver_holds k h.suspended k.null h.vm
  · have hpops : Op.Hands Lit Ok n Op.anything
        (Op.leaveFrame natives 0 >>= fun _ => Op.push .null) :=
      (Op.hands_leaveFrame 0).bind fun _ _ => Op.hands_push k.null
    have hleave := hpops m.vm h.vm
    rcases hrun : (Op.leaveFrame natives 0 >>= fun _ => Op.push .null).run m.vm with
      ⟨stop | ⟨⟩, t⟩ <;> simp only [hrun] at hleave ⊢
    · exact escape_holds k h.suspended stop hleave
    · exact ⟨hleave.2, h.suspended⟩

/-- An iteration of an instruction that evaluates no closure. -/
theorem runInstruction_holds (k : Kept natives Lit Ok) {op : OpCode}
    (hop : Op.isMakeClosure op = false) (it : Iteration)
    {suspended : List (HostCall × Iteration)} (hs : ∀ c ∈ suspended, c.1.Holds Ok) {vm : Vm W}
    (h : vm.Holds Lit Ok n) : (runInstruction natives op it suspended vm).Holds Lit Ok n := by
  unfold runInstruction
  have hsurface := Op.hands_surfacePendingHeapStop it.line vm h
  rcases hrun : (Op.surfacePendingHeapStop it.line).run vm with ⟨stop | ⟨⟩, t⟩ <;>
    simp only [hrun] at hsurface ⊢
  · exact settle_holds k hs it _ hsurface
  · have hexecute := Op.hands_execute k hop it.stopDepth it.line t hsurface.2
    rcases hrun' : (Op.execute natives op it.stopDepth it.line).run t with
      ⟨stop | _ | _ | ⟨call, depth⟩, u⟩ <;> simp only [hrun'] at hexecute ⊢
    · split
      · exact escape_holds k hs stop hexecute
      · exact settle_holds k hs it _ hexecute
    · exact settle_holds k hs it _ hexecute.2
    · exact deliver_holds k hs hexecute.1 hexecute.2
    · exact ⟨hexecute.2, List.forall_mem_cons.mpr ⟨hexecute.1, hs⟩⟩

/-- What is executed comes from the frames, which lose no chunk by it. -/
theorem Machine.Holds.fetched {m : Machine W} (h : m.Holds Lit Ok n) {op : OpCode}
    {it : Iteration} {vm : Vm W} (hfetch : m.fetch = some (op, it, vm)) : vm.Holds Lit Ok n := by
  unfold Machine.fetch at hfetch
  split at hfetch
  · cases hfetch
  · rename_i f callers hframes
    split at hfetch <;> cases hfetch
    refine { h.vm with frames := fun x hx => ?_ }
    rcases List.mem_cons.mp hx with rfl | hx
    · exact h.vm.frames f (hframes ▸ List.mem_cons_self)
    · exact h.vm.frames x (hframes ▸ List.mem_cons_of_mem _ hx)

/-- A step executes the instruction that is fetched, if there is one. -/
theorem step_eq (m : Machine W) :
    step natives m = match m.fetch with
      | some (op, it, vm) => runInstruction natives op it m.suspended vm
      | none => step natives m := by
  unfold Machine.fetch step
  cases m.vm.frames with
  | nil => rfl
  | cons f callers =>
    dsimp only
    by_cases hip : f.chunk.code.length ≤ f.ip
    · rw [List.getElem?_eq_none hip]
    · rw [if_neg hip]
      cases f.chunk.code[f.ip]? <;> cases f.chunk.lines[f.ip]? <;> rfl

theorem step_holds_of_fetch_none (k : Kept natives Lit Ok) {m : Machine W} (h : m.Holds Lit Ok n)
    (hfetch : m.fetch = none) : (step natives m).Holds Lit Ok n := by
  unfold step
  split
  · exact escape_holds k h.suspended _ h.vm
  · rename_i f callers hframes
    split
    · exact implicitReturn_holds k h
    · split
      · exact escape_holds k h.suspended _ h.vm
      · exact escape_holds k h.suspended _ h.vm
      · rename_i hop hline
        simp only [Machine.fetch, hframes, hop, hline] at hfetch
        cases hfetch

variable (natives) in
/-- The state after the checks that come before a `MakeClosure`, and after the instruction. -/
theorem evaluation_ends {vm : Vm W} (h : vm.Holds Lit Ok n) (index line : Nat) :
    Ensures (· = vm)
      (Op.surfacePendingHeapStop line >>= fun _ => Op.makeClosure natives index line)
      (fun _ t => ∃ (f : FnValue) (s : Vm W), f.id = n ∧ f.chunk.Literals Lit ∧
        s.Holds Lit Ok (n + 1) ∧ t = ((Op.push (.vmFn f)).run s).2)
      fun _ t => t.Holds Lit Ok n ∨ t.Holds Lit Ok (n + 1) := by
  rintro _ rfl
  refine Proc.ensures_bind (Q := fun _ => Vm.Holds Lit Ok n)
    (Proc.Ensures.conseq (Op.hands_surfacePendingHeapStop line) (fun _ hs => hs)
      (fun _ _ hs => hs.2) fun _ _ hs => .inl hs) (fun _ => Op.ensures_makeClosure index line) _ h

/-- A step keeps a property of all values, if the closure that it evaluates has it. -/
theorem step_holds (k : Kept natives Lit Ok) {m : Machine W} (h : m.Holds Lit Ok n)
    (hnew : ∀ f, m.evaluated natives = some f → Ok (.vmFn f)) :
    ∃ n', (step natives m).Holds Lit Ok n' ∧ n ≤ n' ∧
      ∀ f, m.evaluated natives = some f → n < n' := by
  rw [step_eq]
  rcases hfetch : m.fetch with _ | ⟨op, it, vm⟩
  · refine ⟨n, step_holds_of_fetch_none k h hfetch, Nat.le_refl n, fun f hf => ?_⟩
    simp only [Machine.evaluated, hfetch] at hf
    cases hf
  cases hop : Op.isMakeClosure op with
  | false =>
    refine ⟨n, runInstruction_holds k hop it h.suspended (h.fetched hfetch), Nat.le_refl n,
      fun f hf => ?_⟩
    unfold Machine.evaluated at hf
    split at hf
    · rename_i index it' vm' hfetch'
      rw [hfetch] at hfetch'
      cases hfetch'
      cases hop
    · cases hf
  | true =>
    obtain ⟨index, rfl⟩ : ∃ index, op = .makeClosure index := by
      cases op <;> first | exact ⟨_, rfl⟩ | cases hop
    have hends := evaluation_ends natives (h.fetched hfetch) index it.line vm rfl
    simp only [Machine.evaluated, hfetch] at hnew ⊢
    unfold runInstruction
    rw [Proc.bind_run] at hends hnew ⊢
    rcases hsurface : (Op.surfacePendingHeapStop it.line).run vm with ⟨stop | ⟨⟩, t⟩ <;>
      simp only [hsurface] at hends hnew ⊢
    · rcases hends with hends | hends
      · exact ⟨n, settle_holds k h.suspended it _ hends, Nat.le_refl n, nofun⟩
      · exact ⟨n + 1, settle_holds k h.suspended it _ hends, Nat.le_succ n, nofun⟩
    · have hexecute : (Op.execute natives (.makeClosure index) it.stopDepth it.line).run t =
          match (Op.makeClosure natives index it.line).run t with
          | (.ok (), u) => (.ok .next, u)
          | (.error stop, u) => (.error stop, u) := by
        show (Op.makeClosure natives index it.line >>= fun _ => pure Outcome.next).run t = _
        rw [Proc.bind_run]
        rcases (Op.makeClosure natives index it.line).run t with ⟨_ | _, _⟩ <;> rfl
      rw [hexecute]
      rcases hmake : (Op.makeClosure natives index it.line).run t with ⟨stop | ⟨⟩, u⟩ <;>
        simp only [hmake] at hends hnew ⊢
      · rw [if_neg (show ¬ OpCode.isReturn (.makeClosure index) = true from nofun)]
        rcases hends with hends | hends
        · exact ⟨n, settle_holds k h.suspended it _ hends, Nat.le_refl n, nofun⟩
        · exact ⟨n + 1, settle_holds k h.suspended it _ hends, Nat.le_succ n, nofun⟩
      · obtain ⟨f, s, -, -, hs, rfl⟩ := hends
        refine ⟨n + 1, settle_holds k h.suspended it (.ok ()) ?_, Nat.le_succ n,
          fun _ _ => Nat.lt_succ_self n⟩
        refine (Op.hands_push (hnew f ?_) s hs).2
        simp only [Op.push, Proc.modify_run, List.getLast?_append, List.getLast?_singleton,
          Option.some_or]

/-! ## Submissions -/

variable (natives) in
/-- The charge of a chunk moves no value. -/
theorem adopt_holds {vm : Vm W} (h : vm.Holds Lit Ok n) :
    ((adopt natives).run vm).2.Holds Lit Ok n := by
  obtain ⟨o, adopted, hrun⟩ := adopt_run natives vm
  rw [hrun]
  exact { h with }

/-- A submission begins with the values that the session holds. -/
theorem beginSubmission_holds {chunk : Chunk} (hchunk : chunk.Literals Lit) {vm : Vm W}
    (h : vm.Holds Lit Ok n) : (beginSubmission chunk vm).Holds Lit Ok n :=
  { h with
    originals := fun cp hcp => by
      cases hcp
      exact nofun
    cellOriginals := fun cp hcp => by
      cases hcp
      exact nofun
    frames := fun f hf => List.mem_singleton.mp hf ▸ hchunk }

/-- A submission that is done leaves no journal. -/
theorem commit_holds {vm : Vm W} (h : vm.Holds Lit Ok n) :
    Vm.Holds Lit Ok n { vm with replStackCheckpoint := none } :=
  { h with originals := nofun, cellOriginals := nofun }

/-- Members of a list with some entries replaced. -/
theorem mem_foldl_set {α : Type} {entries : List (Nat × α)} {l : List α} {a : α}
    (h : a ∈ entries.foldl (fun l e => l.set e.1 e.2) l) : a ∈ l ∨ ∃ e ∈ entries, e.2 = a := by
  induction entries generalizing l with
  | nil => exact .inl h
  | cons e rest ih =>
    rcases ih h with h | ⟨e', he', rfl⟩
    · rcases List.mem_or_eq_of_mem_set h with h | rfl
      · exact .inl h
      · exact .inr ⟨e, List.mem_cons_self, rfl⟩
    · exact .inr ⟨e', List.mem_cons_of_mem _ he', rfl⟩

theorem restoreReplStack_holds (k : Kept natives Lit Ok) {cp : ReplStackCheckpoint} {vm : Vm W}
    (hcp : cp ∈ vm.replStackCheckpoint) (h : vm.Holds Lit Ok n) :
    (restoreReplStack cp vm).Holds Lit Ok n := by
  refine { h with stack := fun e he => ?_, cells := fun v hv => ?_ }
  · rcases mem_foldl_set he with he | ⟨o, ho, rfl⟩
    · rcases List.mem_append.mp he with he | he
      · exact h.stack e (List.mem_of_mem_take he)
      · rw [List.eq_of_mem_replicate he]
        exact k.null
    · exact h.originals cp hcp o ho
  · rcases mem_foldl_set hv with hv | ⟨o, ho, rfl⟩
    · exact h.cells v hv
    · exact h.cellOriginals cp hcp o ho

/-- What a submission that is undone leaves: the values that the machine held, and the next
identity of the machine. -/
theorem rollback_holds (k : Kept natives Lit Ok) {before after : Vm W}
    (hbefore : ∀ f ∈ before.frames, f.chunk.Literals Lit) (h : after.Holds Lit Ok n) :
    (rollbackSubmission before after).Holds Lit Ok n := by
  unfold rollbackSubmission
  cases hcp : after.replStackCheckpoint with
  | none =>
    exact { h with frames := hbefore, originals := nofun, cellOriginals := nofun }
  | some cp =>
    have hr := restoreReplStack_holds k (Option.mem_def.mpr hcp) h
    exact { hr with frames := hbefore, originals := nofun, cellOriginals := nofun }

/-- The property may be weakened. -/
theorem Vm.Holds.mono {Ok' : Value → Prop} {vm : Vm W} (h : vm.Holds Lit Ok n)
    (hOk : ∀ v, Ok v → Ok' v) : vm.Holds Lit Ok' n where
  stack e he := hOk _ (h.stack e he)
  cells v hv := hOk _ (h.cells v hv)
  originals cp hcp o ho := hOk _ (h.originals cp hcp o ho)
  cellOriginals cp hcp o ho := hOk _ (h.cellOriginals cp hcp o ho)
  frames := h.frames
  next := h.next

theorem HostCall.Holds.mono {Ok' : Value → Prop} {call : HostCall} (h : call.Holds Ok)
    (hOk : ∀ v, Ok v → Ok' v) : call.Holds Ok' :=
  ⟨hOk _ h.func, hOk _ h.item, fun v hv => hOk v (h.rest v hv),
    fun v hv => hOk v (h.result v hv)⟩

theorem Machine.Holds.mono {Ok' : Value → Prop} {m : Machine W} (h : m.Holds Lit Ok n)
    (hOk : ∀ v, Ok v → Ok' v) : m.Holds Lit Ok' n :=
  ⟨h.vm.mono hOk, fun c hc => (h.suspended c hc).mono hOk⟩

end Tsumugi.Bytecode
