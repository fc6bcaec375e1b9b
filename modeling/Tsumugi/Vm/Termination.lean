import Mathlib.Data.Prod.Lex
import Tsumugi.Vm.DispatchLaw

/-!
# The machine terminates on any chunk

No assumption is made about the code. An iteration that leaves the machine running makes
its rank smaller: the ticks that are left of the watchdog, then the frames with the
calls that wait, then the instructions that are left in the running frame.

Results:
1. `step_lands`: what an iteration does, and that it descends.
2. `iterate_returns`: a machine whose watchdog can pass its limit returns, without a panic.
3. `run_frames_returns_iff`: a budget bounds every run exactly when the limit of the
   watchdog does not saturate.
-/

namespace Tsumugi.Bytecode

open Budget (BudgetConfig)
open Word

variable {W : Type} (natives : Natives W)

/-! ## Parts of an iteration -/

/-- How the machine goes on from `s`: still running, in a machine of which `Q` holds, or with a
result. -/
def Lands (s : Vm W) (Q : Machine W → Prop) : Next W → Prop
  | .running m => Does none s m.vm ∧ (Paced s → Q m)
  | .finished r vm => r ≠ .error .panic ∧ ∀ before, Journaled before s → Journaled before vm

theorem Lands.mono {s : Vm W} {Q R : Machine W → Prop} {n : Next W} (h : Lands s Q n)
    (hQR : ∀ m, Does none s m.vm → Paced s → Q m → R m) : Lands s R n := by
  cases n with
  | running m => exact ⟨h.1, fun hs => hQR m h.1 hs (h.2 hs)⟩
  | finished r vm => exact h

/-- What comes before does not matter when the watchdog has not reached its limit. -/
theorem Lands.after {s t : Vm W} {Q R : Machine W → Prop} {n : Next W} (hst : Does none s t)
    (h : Lands t Q n) (hQR : ∀ m, Paced s → Q m → R m) : Lands s R n := by
  cases n with
  | running m => exact ⟨hst.trans h.1, fun hs => hQR m hs (h.2 (hst.advance hs).1)⟩
  | finished r vm => exact ⟨h.1, fun before hj => h.2 before (hst.journal before hj)⟩

/-- A trace does not change what a stop is. -/
theorem Does.traced {stop : VmStop} {s t : Vm W} (h : Does (some stop) s t)
    (frames : List CallFrame) : Does (some (stop.traced frames)) s t where
  config := h.config
  advance hs := (h.advance hs).imp_right fun ha => ha.imp_right fun ⟨hlt, hle⟩ =>
    ⟨hlt, hle.imp_right fun ⟨e, he, hkind⟩ => by
      cases he
      exact ⟨_, rfl, by simpa using hkind⟩⟩
  journal := h.journal
  safe heq := Op.traced_ne_panic (fun hp => h.safe (congrArg some hp)) (Option.some.inj heq)

/-- `run_frames` returns an error: a call that waits may catch it. -/
theorem lands_escape {suspended : List (HostCall × Iteration)} {stop : VmStop} {s vm : Vm W}
    (h : Does (some stop) s vm) :
    Lands s (fun m => m.suspended.length < suspended.length)
      (escape natives suspended stop vm) := by
  induction suspended generalizing stop vm with
  | nil => exact ⟨fun heq => h.safe (congrArg some (Except.error.inj heq)), h.journal⟩
  | cons waiting rest ih =>
    obtain ⟨call, it⟩ := waiting
    unfold escape
    by_cases hcaught : Op.Caught stop
    · obtain ⟨e, he, hkind⟩ := hcaught
      have hsafe : stop ≠ .panic := fun heq => h.safe (congrArg some heq)
      have hrecover := Op.moves_recover natives it hsafe vm
      rcases hrun : (Op.recover natives it stop).run vm with ⟨stop' | ⟨⟩, t⟩ <;>
        rw [hrun] at hrecover
      · refine (ih ((h.caught he hkind).trans hrecover.1)).mono fun m _ _ hm => ?_
        exact Nat.lt_succ_of_lt hm
      · exact ⟨(h.caught he hkind).trans hrecover.1, fun _ => Nat.lt_succ_self _⟩
    · obtain ⟨frames, hrun⟩ := Op.recover_uncaught natives it hcaught vm
      rw [hrun]
      exact (ih (h.traced frames)).mono fun m _ _ hm => Nat.lt_succ_of_lt hm

/-- What `settle` runs last, the watchdog or the handler, decides how it goes on. -/
theorem lands_moves {suspended : List (HostCall × Iteration)} {it : Iteration} {m : Op W Unit}
    {s vm : Vm W} {n : Next W} (hvm : Does none s vm)
    (hm : Op.Moves it (m.run vm).1 vm (m.run vm).2)
    (hok : ∀ t, m.run vm = (.ok (), t) → n = .running ⟨t, it.stopDepth, suspended⟩)
    (hstop : ∀ stop t, m.run vm = (.error stop, t) → n = escape natives suspended stop t) :
    Lands s (fun m => m.suspended.length < suspended.length ∨ m.suspended = suspended ∧
      (Ticked none s m.vm ∨ Op.stalled it m.vm = false)) n := by
  rcases hrun : m.run vm with ⟨stop | ⟨⟩, t⟩ <;> rw [hrun] at hm
  · rw [hstop stop t hrun]
    exact (lands_escape natives (hvm.trans hm.1)).mono fun m _ _ hm => .inl hm
  · rw [hok t hrun]
    refine ⟨hvm.trans hm.1, fun hs => .inr ⟨rfl, ?_⟩⟩
    exact (hm.2 rfl (hvm.advance hs).1).imp_left fun ht => hvm.ticked hs ht

/-- The end of an iteration. -/
theorem lands_settle {suspended : List (HostCall × Iteration)} {it : Iteration}
    {r : Except VmStop Unit} {s vm : Vm W} (h : Does (Proc.stopOf r) s vm) :
    Lands s (fun m => m.suspended.length < suspended.length ∨ m.suspended = suspended ∧
        (Ticked none s m.vm ∨ Op.stalled it m.vm = false))
      (settle natives suspended it (r, vm)) := by
  cases r with
  | ok _ =>
    refine lands_moves natives h (Op.moves_watchdogCheck it vm) (fun t ht => ?_) fun stop t ht => ?_
    · simp only [settle, ht]
    · simp only [settle, ht]
  | error stop =>
    by_cases hcaught : Op.Caught stop
    · obtain ⟨e, he, hkind⟩ := hcaught
      have hsafe : stop ≠ .panic := fun heq => h.safe (congrArg some heq)
      refine lands_moves natives (h.caught he hkind) (Op.moves_recover natives it hsafe vm)
        (fun t ht => ?_) fun stop t ht => ?_
      · simp only [settle, ht]
      · simp only [settle, ht]
    · obtain ⟨frames, hrun⟩ := Op.recover_uncaught natives it hcaught vm
      have heq : settle natives suspended it (.error stop, vm) =
          escape natives suspended (stop.traced frames) vm := by
        simp only [settle, hrun]
      rw [heq]
      exact (lands_escape natives (h.traced frames)).mono fun m _ _ hm => .inl hm

/-- `run_frames` returns a value: the call that waits goes on or ends. -/
theorem lands_deliver {suspended : List (HostCall × Iteration)} (v : Value) (s : Vm W) :
    Lands s (fun m => Ticked none s m.vm ∨ m.suspended.length < suspended.length)
      (deliver natives suspended v s) := by
  cases suspended with
  | nil => exact ⟨nofun, fun _ hj => hj⟩
  | cons waiting rest =>
    obtain ⟨call, it⟩ := waiting
    have hsettle : ∀ {r : Except VmStop Unit} {vm : Vm W}, Does (Proc.stopOf r) s vm →
        Lands s (fun m => Ticked none s m.vm ∨ m.suspended.length < ((call, it) :: rest).length)
          (settle natives rest it (r, vm)) := fun h =>
      (lands_settle natives h).mono fun m _ _ hm => .inr <| by
        rcases hm with hm | ⟨hm, -⟩
        · exact Nat.lt_succ_of_lt hm
        · exact hm ▸ Nat.lt_succ_self _
    obtain ⟨hdoes, hwaits⟩ := Op.waits_resume natives call v s
    rcases hrun : (Op.resume natives call v).run s with ⟨stop | progress, t⟩ <;>
      rw [hrun] at hdoes hwaits
    · simp only [deliver, hrun]
      exact hsettle (r := .error stop) hdoes
    · cases progress with
      | done w =>
        simp only [deliver, hrun]
        exact hsettle (Does.trans hdoes (Op.meets_push w t))
      | waiting call depth =>
        simp only [deliver, hrun]
        exact ⟨hdoes, fun hs => .inl (hwaits _ rfl trivial hs)⟩

/-! ## The rank -/

namespace Machine

/-- The frames, and the calls that wait. -/
def load (m : Machine W) : Nat := m.vm.frames.length + m.suspended.length

/-- The instructions that are left in the running frame. -/
def left (m : Machine W) : Nat := (m.vm.frames.head?.map fun f => f.chunk.code.length - f.ip).getD 0

/-- What an iteration makes smaller. -/
def rank (m : Machine W) : Nat ×ₗ Nat ×ₗ Nat :=
  toLex (Op.watchdogLimit m.vm + 1 - m.vm.watchdogTicks, toLex (m.load, m.left))

end Machine

/-- An iteration has ticked, or it has given up a frame or a call, or it has moved forward. -/
def Descends (m m' : Machine W) : Prop :=
  Ticked none m.vm m'.vm ∨ m'.vm.watchdogTicks = m.vm.watchdogTicks ∧
    (m'.load < m.load ∨ m'.load = m.load ∧ m'.left < m.left)

theorem rank_lt {m m' : Machine W} (hdoes : Does none m.vm m'.vm) (h : Descends m m') :
    m'.rank < m.rank := by
  have hlimit := watchdogLimit_congr hdoes.config
  unfold Machine.rank
  rw [hlimit]
  rcases h with ⟨hlt, hle⟩ | ⟨hticks, hless⟩
  · have hle := hle.resolve_right nofun
    exact Prod.Lex.toLex_lt_toLex.mpr (.inl (by show _ < _; omega))
  · refine Prod.Lex.toLex_lt_toLex.mpr (.inr ⟨by rw [hticks], ?_⟩)
    exact Prod.Lex.toLex_lt_toLex.mpr hless

/-- Without a tick, a machine with as many frames as before runs the same chunk. -/
theorem descends_of_advance {m m' : Machine W} (hdoes : Does none m.vm m'.vm) (hs : Paced m.vm)
    (h : m'.vm.frames.length ≤ m.vm.frames.length → m'.vm.chunks <:+ m.vm.chunks →
      ¬ Ticked none m.vm m'.vm → m'.load < m.load ∨ m'.load = m.load ∧ m'.left < m.left) :
    Descends m m' := by
  by_cases hticked : Ticked none m.vm m'.vm
  · exact .inl hticked
  · obtain ⟨hticks, hchunks⟩ := (hdoes.advance hs).2.resolve_right hticked
    have hlen := hchunks.length_le
    simp only [Vm.chunks, List.length_map] at hlen
    exact .inr ⟨hticks, h hlen hchunks hticked⟩

/-- A frame or a call has been given up. -/
theorem lands_of_fewer {m : Machine W} {n : Next W} (h : Lands m.vm (fun m' =>
      Ticked none m.vm m'.vm ∨ m'.suspended.length < m.suspended.length) n) :
    Lands m.vm (Descends m) n :=
  h.mono fun m' hdoes hs hm => descends_of_advance hdoes hs fun hlen _ hno => by
    have := hm.resolve_left hno
    exact .inl (by unfold Machine.load; omega)

/-- A frame that has been left is gone. -/
theorem length_leaveFrame {line : Nat} {s t : Vm W}
    (h : (Op.leaveFrame natives line).run s = (.ok (), t)) :
    t.frames.length < s.frames.length := by
  unfold Op.leaveFrame at h
  rw [Proc.bind_run_ok (Proc.gets_run _ _)] at h
  rcases hframes : s.frames with _ | ⟨f, callers⟩
  · simp only [id, hframes] at h
    cases h
  · obtain ⟨u, hrun, hnotes⟩ := Op.truncateStack_run natives f.base { s with frames := callers }
    simp only [id, hframes, Proc.bind_run, Proc.modify_run, hrun] at h
    cases h
    show u.frames.length < _
    rw [hnotes.frames]
    exact Nat.lt_succ_self _

theorem lands_implicitReturn (m : Machine W) :
    Lands m.vm (Descends m) (implicitReturn natives m) := by
  unfold implicitReturn
  split
  · exact lands_of_fewer (lands_deliver natives .null m.vm)
  · have hleave := Op.meets_leaveFrame natives 0 m.vm
    rcases hrun : (Op.leaveFrame natives 0).run m.vm with ⟨stop | ⟨⟩, t⟩ <;> rw [hrun] at hleave
    · rw [Proc.bind_run_error hrun]
      exact lands_of_fewer ((lands_escape natives hleave).mono fun _ _ _ hm => .inr hm)
    · rw [Proc.bind_run_ok hrun]
      have hdoes := hleave.trans (Op.meets_push .null t)
      refine ⟨hdoes, fun hs => descends_of_advance hdoes hs fun _ _ _ => .inl ?_⟩
      have := length_leaveFrame natives hrun
      show t.frames.length + m.suspended.length < m.vm.frames.length + m.suspended.length
      omega

/-- An instruction that has been fetched. -/
theorem lands_runInstruction {op : OpCode} {it : Iteration}
    {suspended : List (HostCall × Iteration)} (s : Vm W) :
    Lands s (fun m => Ticked none s m.vm ∨ m.suspended.length < suspended.length ∨
        m.suspended = suspended ∧ Op.stalled it m.vm = false)
      (runInstruction natives op it suspended s) := by
  have hsettle : ∀ {r : Except VmStop Unit} {vm : Vm W}, Does (Proc.stopOf r) s vm →
      Lands s (fun m => Ticked none s m.vm ∨ m.suspended.length < suspended.length ∨
          m.suspended = suspended ∧ Op.stalled it m.vm = false)
        (settle natives suspended it (r, vm)) := fun h =>
    (lands_settle natives h).mono fun m _ _ hm => by tauto
  have hescape : ∀ {stop : VmStop} {vm : Vm W}, Does (some stop) s vm →
      Lands s (fun m => Ticked none s m.vm ∨ m.suspended.length < suspended.length ∨
          m.suspended = suspended ∧ Op.stalled it m.vm = false)
        (escape natives suspended stop vm) := fun h =>
    (lands_escape natives h).mono fun m _ _ hm => .inr (.inl hm)
  have hsurface := Op.meets_surfacePendingHeapStop it.line s
  rcases hrun : (Op.surfacePendingHeapStop it.line).run s with ⟨stop | ⟨⟩, t⟩ <;>
    rw [hrun] at hsurface <;> simp only [runInstruction, hrun]
  · exact hsettle (r := .error stop) hsurface
  obtain ⟨hdoes, hwaits⟩ := Op.waits_execute natives op it.stopDepth it.line t
  rcases hrun' : (Op.execute natives op it.stopDepth it.line).run t with ⟨stop | outcome, u⟩ <;>
    rw [hrun'] at hdoes hwaits
  · simp only
    split
    · exact hescape (hsurface.trans hdoes)
    · exact hsettle (r := .error stop) (hsurface.trans hdoes)
  cases outcome with
  | next => exact hsettle (r := .ok ()) (hsurface.trans hdoes)
  | returned v =>
    refine (lands_deliver natives v u).after (hsurface.trans hdoes) fun m hs hm => ?_
    exact hm.imp (fun ht => (hsurface.trans hdoes).ticked hs ht) .inl
  | suspended call depth =>
    refine ⟨hsurface.trans hdoes, fun hs => .inl (hsurface.ticked hs ?_)⟩
    exact hwaits _ rfl trivial (hsurface.advance hs).1

/-- An iteration does what an operation does, and a machine that goes on has descended. -/
theorem step_lands (m : Machine W) : Lands m.vm (Descends m) (step natives m) := by
  have hguard : ∀ line message, Lands m.vm (Descends m)
      (escape natives m.suspended (guardStop line message) m.vm) := fun line message =>
    have hstop : Does (some (guardStop line message)) m.vm m.vm :=
      .refl fun h => by cases Option.some.inj h
    lands_of_fewer ((lands_escape natives hstop).mono fun _ _ _ hm => .inr hm)
  unfold step
  rcases hframes : m.vm.frames with _ | ⟨f, callers⟩
  · exact hguard _ _
  simp only
  by_cases hend : f.chunk.code.length ≤ f.ip
  · rw [if_pos hend]
    exact lands_implicitReturn natives m
  rw [if_neg hend]
  rcases f.chunk.code[f.ip]? with _ | op
  · exact hguard _ _
  rcases f.chunk.lines[f.ip]? with _ | line
  · exact hguard _ _
  -- the fetched instruction runs with the next position in the frame
  let s : Vm W := { m.vm with frames := { f with ip := f.ip + 1 } :: callers }
  have hfetch : Does none m.vm s := by
    refine .still no_panic rfl rfl ?_ rfl rfl rfl
    show f.chunk :: callers.map (·.chunk) <:+ m.vm.frames.map (·.chunk)
    rw [hframes]
    exact List.suffix_refl _
  let it : Iteration := ⟨m.stopDepth, m.vm.frames.length, f.ip, line⟩
  have hrun : Lands m.vm (fun m' => Ticked none m.vm m'.vm ∨
      m'.suspended.length < m.suspended.length ∨
        m'.suspended = m.suspended ∧ Op.stalled it m'.vm = false)
      (runInstruction natives op it m.suspended s) :=
    (lands_runInstruction natives s).after hfetch fun m' hs hm =>
      hm.imp_left fun ht => hfetch.ticked hs ht
  have hdescends : Lands m.vm (Descends m) (runInstruction natives op it m.suspended s) := by
    refine hrun.mono fun m' hdoes hs hm => ?_
    refine descends_of_advance hdoes hs fun hlen hchunks hno => ?_
    rcases hm.resolve_left hno with hless | ⟨hsame, hmoved⟩
    · exact .inl (by unfold Machine.load; omega)
    · have hsame := congrArg List.length hsame
      by_cases hfewer : m'.vm.frames.length < m.vm.frames.length
      · exact .inl (by unfold Machine.load; omega)
      · have hlen' : m'.vm.frames.length = m.vm.frames.length := by omega
        refine .inr ⟨by unfold Machine.load; omega, ?_⟩
        -- as many frames as before: they run the same chunks
        have hchunks' : m'.vm.chunks = m.vm.chunks :=
          hchunks.eq_of_length (by simpa [Vm.chunks] using hlen')
        rcases hframes' : m'.vm.frames with _ | ⟨f', callers'⟩
        · rw [hframes', hframes] at hlen'
          cases hlen'
        · have hchunk : f'.chunk = f.chunk := by
            simp only [Vm.chunks, hframes', hframes, List.map_cons, List.cons.injEq] at hchunks'
            exact hchunks'.1
          have hip : f.ip < f'.ip := by
            have hno : ¬ (m'.vm.frames.length = m.vm.frames.length ∧
                m'.vm.frames.head?.any (fun x => decide (x.ip ≤ f.ip)) = true) :=
              of_decide_eq_false hmoved
            rw [hframes', List.head?_cons, Option.any_some, decide_eq_true_eq, ← hframes'] at hno
            exact Nat.not_le.mp fun hle => hno ⟨hlen', hle⟩
          show (m'.vm.frames.head?.map _).getD 0 < (m.vm.frames.head?.map _).getD 0
          simp only [hframes, hframes', List.head?_cons, Option.map_some, Option.getD_some, hchunk]
          omega
  rwa [show it = ⟨m.stopDepth, (f :: callers).length, f.ip, line⟩ by rw [← hframes]] at hdescends

/-! ## Runs -/

/-- A machine whose watchdog can pass its limit returns, without a panic. -/
theorem iterate_returns (m : Machine W) (hm : Paced m.vm) :
    ∃ n r vm, iterate natives n m = some (r, vm) ∧ r ≠ .error .panic := by
  induction hrank : m.rank using WellFoundedLT.induction generalizing m with
  | ind rank ih =>
    subst hrank
    have hstep := step_lands natives m
    rcases hnext : step natives m with m' | ⟨r, vm⟩ <;> rw [hnext] at hstep
    · obtain ⟨n, r, vm, hrun, hr⟩ := ih m'.rank (rank_lt hstep.1 (hstep.2 hm)) m'
        (hstep.1.advance hm).1 rfl
      exact ⟨n + 1, r, vm, by rw [iterate, hnext]; exact hrun, hr⟩
    · exact ⟨1, r, vm, by rw [iterate, hnext], hstep.1⟩

/-- Whatever a machine returns, it does not panic. -/
theorem iterate_ne_panic {n : Nat} {m : Machine W} {r : Except VmStop Value} {vm : Vm W}
    (h : iterate natives n m = some (r, vm)) : r ≠ .error .panic := by
  induction n generalizing m with
  | zero => cases h
  | succ n ih =>
    have hstep := step_lands natives m
    rw [iterate] at h
    rcases hnext : step natives m with m' | ⟨r', vm'⟩ <;> rw [hnext] at hstep h
    · exact ih h
    · cases h
      exact hstep.1

/-- The limit of the watchdog is in the range of its counter exactly when it does not saturate. -/
theorem watchdogLimit_lt_iff (s : Vm W) :
    Op.watchdogLimit s < maxU64 ↔ s.outer.budget.config.totalFuel < 2 ^ 63 - 8 := by
  unfold Op.watchdogLimit satAdd satMul maxU64
  omega

/-! ## A budget that does not end a run -/

/-- A chunk that jumps to itself. -/
def selfLoop : Chunk := { Chunk.new with code := [.jump 0], lines := [1], live := [0] }

/-- The state after some jumps. -/
def looping (config : BudgetConfig) (world : W) (ticks : Nat) : Vm W :=
  { Vm.withBudget selfLoop config world with watchdogTicks := ticks }

theorem step_looping {config : BudgetConfig} {world : W} {ticks : Nat}
    (hconfig : 2 ^ 63 - 8 ≤ config.totalFuel) :
    step natives (Machine.start (looping config world ticks)) =
      .running (Machine.start (looping config world (satAdd ticks 1))) := by
  let s : Vm W := looping config world ticks
  have hlimit : Op.watchdogLimit s = maxU64 := by
    show satAdd (satMul config.totalFuel 2) 16 = maxU64
    unfold satAdd satMul maxU64
    omega
  have htick : (Op.watchdogTick 1).run s =
      (.ok (), looping config world (satAdd ticks 1)) := by
    rw [Op.watchdogTick_run, hlimit, if_neg (Nat.not_lt.mpr (satAdd_le _ _))]
    rfl
  have hcheck : (Op.watchdogCheck ⟨0, 1, 0, 1⟩).run s =
      (.ok (), looping config world (satAdd ticks 1)) := by
    unfold Op.watchdogCheck
    have hstalled : Op.stalled ⟨0, 1, 0, 1⟩ s = true := rfl
    rw [Proc.bind_run_ok (Proc.gets_run _ _), id, if_pos hstalled,
      Proc.bind_run_ok (Proc.attempt_run_ok htick)]
    rfl
  show settle natives [] ⟨0, 1, 0, 1⟩ (.ok (), s) = _
  simp only [settle, hcheck]
  rfl

/-- With a limit that saturates the machine goes round forever. -/
theorem looping_never_returns {config : BudgetConfig} (world : W)
    (hconfig : 2 ^ 63 - 8 ≤ config.totalFuel) (n ticks : Nat) :
    runFrames natives n (looping config world ticks) = none := by
  induction n generalizing ticks with
  | zero => rfl
  | succ n ih =>
    unfold runFrames
    rw [iterate, step_looping natives hconfig]
    exact ih _

/-- The largest budget of fuel, and one of every other resource. -/
def endlessBudget : BudgetConfig :=
  ⟨1, maxU64, 1, 1, 1, 1, 1, 1, 1, 1, 1, 1, 1, 1, 1, 1, 1, 1, 1, 1, ⟨1, 1000⟩, by decide, by decide⟩

/-- A run that never returns. -/
theorem self_loop_never_returns : ¬ ∃ n r vm,
    runFrames Natives.free n (Vm.withBudget selfLoop endlessBudget ()) = some (r, vm) := by
  rintro ⟨n, r, vm, hrun⟩
  have hnone := looping_never_returns Natives.free () (by decide : _ ≤ endlessBudget.totalFuel) n 0
  rw [show runFrames Natives.free n (looping endlessBudget () 0) = some (r, vm) from hrun] at hnone
  cases hnone

/-- Every run of a chunk with the budget returns, without a panic, exactly when the limit of the
watchdog does not saturate. -/
theorem run_frames_returns_iff (config : BudgetConfig) (world : W) :
    (∀ chunk, ∃ n r vm, runFrames natives n (Vm.withBudget chunk config world) = some (r, vm) ∧
      r ≠ .error .panic) ↔ config.totalFuel < 2 ^ 63 - 8 := by
  constructor
  · intro h
    by_contra hconfig
    obtain ⟨n, r, vm, hrun, -⟩ := h selfLoop
    have hnone := looping_never_returns natives world (Nat.not_lt.mp hconfig) n 0
    rw [show runFrames natives n (looping config world 0) = some (r, vm) from hrun] at hnone
    cases hnone
  · intro hconfig chunk
    refine iterate_returns natives _ ⟨?_, Nat.zero_le _⟩
    exact (watchdogLimit_lt_iff _).mpr hconfig

end Tsumugi.Bytecode
