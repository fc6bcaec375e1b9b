import Tsumugi.Audit.Reentry

/-!
# What a re-entrant call gets and what it changes

Results:
1. `step_effect`: what a step does to the stack, and to the frames with it.
2. `Host.Reachable.inv`: the stack holds the engines of the open callbacks, each one once.
3. `During.marked`: the mark of an engine says whether it was attempted in its callback.
4. `During.unmarked`: while the callback is open, the run does not depend on the mark.
5. `sink_reentry_exact`: re-entrant calls are detected exactly.
-/

namespace Tsumugi.Audit.Reentry

variable {X H Q L G : Type}

/-! ## What a step does to the stack -/

/-- What a step does to the stack. -/
inductive StackOp
  | keep
  | attempt (engine : EngineId)
  | enter (engine : EngineId)
  | leave

def StackOp.apply (stack : SinkCallbackStack) : StackOp → SinkCallbackStack
  | .keep => stack
  | .attempt engine => (stack.rejectSinkCallbackReentry engine).2
  | .enter engine => stack.enter engine
  | .leave => stack.dropLast

def HostMove.op : HostMove H Q → StackOp
  | .goOn _ => .keep
  | .call _ engine _ _ _ => .attempt engine
  | .ends _ => .leave

def ExecMove.op (engine : EngineId) : ExecMove X → StackOp
  | .submit _ _ => .enter engine
  | .goOn _ | .ends _ | .unwinds => .keep

/-- What the next step does to the stack. -/
def Host.stackOp (w : Host X H Q L G) (c : Config X H L G) : StackOp :=
  match c.control with
  | .host h => (w.hostMove h c.memory).1.op
  | .exec engine context x =>
    (w.execMove engine x (c.contexts context).language c.memory).1.op engine

/-! ## Marks -/

namespace SinkCallbackStack

/-- The engines on a stack. -/
def engines (stack : SinkCallbackStack) : List EngineId := stack.map (·.engine)

theorem mark_eq_none {engine : EngineId} {stack : SinkCallbackStack} :
    mark engine stack = none ↔ engine ∉ stack.engines := by
  induction stack with
  | nil => simp [mark, engines]
  | cons entry rest ih =>
    by_cases h : entry.engine = engine
    · simp [mark, engines, h]
    · simpa [mark, engines, h, Ne.symm h] using ih

theorem reject_iff (engine : EngineId) (stack : SinkCallbackStack) :
    (stack.rejectSinkCallbackReentry engine).1 = true ↔ engine ∈ stack.engines := by
  unfold rejectSinkCallbackReentry
  cases h : mark engine stack with
  | none => simpa using mark_eq_none.mp h
  | some marked =>
    simp only [true_iff]
    by_contra hno
    rw [mark_eq_none.mpr hno] at h
    cases h

/-- The stack after an attempt. -/
def attempted (engine : EngineId) (stack : SinkCallbackStack) : SinkCallbackStack :=
  (stack.rejectSinkCallbackReentry engine).2

theorem attempted_cons (engine : EngineId) (entry : SinkCallbackEntry)
    (rest : SinkCallbackStack) :
    attempted engine (entry :: rest : SinkCallbackStack) =
      if entry.engine = engine then { entry with reentered := true } :: rest
      else entry :: attempted engine rest := by
  unfold attempted rejectSinkCallbackReentry
  by_cases h : entry.engine = engine
  · simp [mark, h]
  · rw [if_neg h, mark, if_neg h]
    cases mark engine rest <;> rfl

theorem engines_attempted (engine : EngineId) (stack : SinkCallbackStack) :
    (attempted engine stack).engines = stack.engines := by
  induction stack with
  | nil => rfl
  | cons entry rest ih =>
    rw [attempted_cons]
    unfold engines at ih ⊢
    split
    · rfl
    · rw [List.map_cons, List.map_cons, ih]

theorem mem_attempted_other {engine : EngineId} {entry : SinkCallbackEntry}
    {stack : SinkCallbackStack} (h : entry.engine ≠ engine) (hmem : entry ∈ stack) :
    entry ∈ attempted engine stack := by
  induction stack with
  | nil => cases hmem
  | cons e rest ih =>
    rw [attempted_cons]
    rcases List.mem_cons.mp hmem with rfl | hmem
    · rw [if_neg h]
      exact List.mem_cons_self
    · split
      · exact List.mem_cons_of_mem _ hmem
      · exact List.mem_cons_of_mem _ (ih hmem)

theorem mem_attempted_self {engine : EngineId} {stack : SinkCallbackStack}
    (h : engine ∈ stack.engines) : ⟨engine, true⟩ ∈ attempted engine stack := by
  induction stack with
  | nil => cases h
  | cons e rest ih =>
    rw [attempted_cons]
    by_cases he : e.engine = engine
    · rw [if_pos he, ← he]
      exact List.mem_cons_self
    · rw [if_neg he]
      rcases List.mem_cons.mp h with heq | hmem
      · exact absurd heq.symm he
      · exact List.mem_cons_of_mem _ (ih hmem)

/-- A stack without the mark of an engine. -/
def unmark (engine : EngineId) (stack : SinkCallbackStack) : SinkCallbackStack :=
  stack.map fun entry ↦ if entry.engine = engine then { entry with reentered := false } else entry

theorem unmark_attempted_self (engine : EngineId) (stack : SinkCallbackStack) :
    unmark engine (attempted engine stack) = unmark engine stack := by
  induction stack with
  | nil => rfl
  | cons entry rest ih =>
    rw [attempted_cons]
    unfold unmark at ih ⊢
    by_cases h : entry.engine = engine
    · simp [h]
    · rw [if_neg h, List.map_cons, List.map_cons, ih]

theorem unmark_attempted_other {engine other : EngineId} (hne : other ≠ engine)
    (stack : SinkCallbackStack) :
    unmark engine (attempted other stack) = attempted other (unmark engine stack) := by
  induction stack with
  | nil => rfl
  | cons entry rest ih =>
    unfold unmark at ih ⊢
    rw [attempted_cons, List.map_cons, attempted_cons]
    by_cases h : entry.engine = other
    · simp [h, hne]
    · by_cases h' : entry.engine = engine
      · simp [h', Ne.symm hne, ih]
      · simp [h, h', ih]

/-- Attempts keep stacks alike that differ in one engine's mark. -/
theorem unmark_attempted {engine : EngineId} {stack stack' : SinkCallbackStack}
    (h : unmark engine stack = unmark engine stack') (other : EngineId) :
    unmark engine (attempted other stack) = unmark engine (attempted other stack') := by
  by_cases hother : other = engine
  · subst hother
    rw [unmark_attempted_self, unmark_attempted_self, h]
  · rw [unmark_attempted_other hother, unmark_attempted_other hother, h]

theorem engines_unmark (engine : EngineId) (stack : SinkCallbackStack) :
    (unmark engine stack).engines = stack.engines := by
  unfold engines unmark
  rw [List.map_map]
  apply List.map_congr_left
  intro entry _
  by_cases h : entry.engine = engine <;> simp [h]

end SinkCallbackStack

open SinkCallbackStack

/-! ## The invariant -/

/-- The stack holds the engines of the open callbacks, and an engine whose callback is open
does not execute. -/
structure Inv (c : Config X H L G) : Prop where
  engines : c.stack.engines = (openCallbacks c.frames).reverse
  nodup : (openCallbacks c.frames).Nodup
  executing : ∀ engine context x, c.control = .exec engine context x →
    engine ∉ openCallbacks c.frames

namespace Host

variable {w : Host X H Q L G}

theorem admission_reentry (stack : SinkCallbackStack) (contexts : Nat → Context L)
    (entry : Entry) (engine : EngineId) (context : Nat) :
    admission stack contexts entry engine context = some .reentry ↔ engine ∈ stack.engines := by
  unfold admission
  rw [← reject_iff]
  split_ifs <;> simp_all

/-- An execution that is not audited ends at once. -/
theorem execute_cases (w : Host X H Q L G) (entry : Entry) (engine : EngineId) (context : Nat)
    (request : Q) (next : CallEnd → H) (c : Config X H L G) :
    ∃ contexts memory,
      (∃ h, w.execute entry engine context request next c =
        { c with control := .host h, contexts, memory }) ∨
      (∃ x, w.execute entry engine context request next c =
        { c with
          control := .exec engine context x
          frames := .calling entry engine context next :: c.frames
          contexts, memory }) := by
  unfold execute
  split
  · exact ⟨_, c.memory, .inr ⟨_, rfl⟩⟩
  · exact ⟨_, _, .inl ⟨_, rfl⟩⟩

/-- What a call does: the attempt is noted on the stack, and the host goes on or an execution
begins. -/
theorem call_cases (w : Host X H Q L G) (entry : Entry) (engine : EngineId) (context : Nat)
    (request : Q) (next : CallEnd → H) (c : Config X H L G) :
    ∃ contexts memory,
      (∃ h, w.call entry engine context request next c =
        { c with control := .host h, contexts, memory, stack := c.stack.attempted engine }) ∨
      (engine ∉ c.stack.engines ∧ ∃ x, w.call entry engine context request next c =
        { c with
          control := .exec engine context x
          frames := .calling entry engine context next :: c.frames
          contexts, memory, stack := c.stack.attempted engine }) := by
  unfold call
  cases hadmission : admission c.stack c.contexts entry engine context with
  | some reason => exact ⟨c.contexts, c.memory, .inl ⟨_, rfl⟩⟩
  | none =>
    by_cases hexecutes : entry.executes
    · have hfree : engine ∉ c.stack.engines := by
        rw [← admission_reentry c.stack c.contexts entry engine context, hadmission]
        nofun
      simp only [hexecutes, if_true]
      obtain ⟨contexts, memory, ⟨h, heq⟩ | ⟨x, heq⟩⟩ :=
        execute_cases w entry engine context request next
          { c with stack := c.stack.attempted engine }
      · exact ⟨contexts, memory, .inl ⟨h, heq⟩⟩
      · exact ⟨contexts, memory, .inr ⟨hfree, x, heq⟩⟩
    · simp only [hexecutes]
      exact ⟨c.contexts, c.memory, .inl ⟨_, rfl⟩⟩

/-- On another stack a call does the same, if it is admitted alike. -/
theorem call_stack {entry : Entry} {engine : EngineId} {context : Nat} {c : Config X H L G}
    {stack : SinkCallbackStack}
    (h : engine ∈ stack.engines ↔ engine ∈ c.stack.engines) (request : Q)
    (next : CallEnd → H) :
    w.call entry engine context request next { c with stack } =
      { w.call entry engine context request next c with
        stack := stack.attempted engine } := by
  have hadmission : admission stack c.contexts entry engine context =
      admission c.stack c.contexts entry engine context := by
    have hreject : (stack.rejectSinkCallbackReentry engine).1 =
        (c.stack.rejectSinkCallbackReentry engine).1 := by
      rw [Bool.eq_iff_iff, reject_iff, reject_iff, h]
    unfold admission
    rw [hreject]
  unfold call
  simp only [hadmission]
  cases admission c.stack c.contexts entry engine context with
  | some reason => rfl
  | none =>
    cases entry.executes with
    | false => rfl
    | true =>
      by_cases haudited : entry ≠ .runForRepl ∧ w.hasSink engine
      · simp only [if_true, execute, if_pos haudited]
        rfl
      · simp only [if_true, execute, if_neg haudited]
        rfl

/-- The result of a callback that returns. -/
theorem submitEnds_fst {answer : AuditSubmit} (h : answer ≠ .unwinds)
    (stack : SinkCallbackStack) :
    (submitEnds answer stack).1 = if stack.finish.1 then .failed .reentrant else answer := by
  cases answer with
  | unwinds => exact absurd rfl h
  | pending ticket => by_cases hre : stack.finish.1 <;> simp [submitEnds, hre]
  | ack ack => rfl
  | failed error => rfl

/-- Every end of a callback takes the last entry off. -/
theorem submitEnds_stack (answer : AuditSubmit) (stack : SinkCallbackStack) :
    (submitEnds answer stack).2.1 = stack.dropLast := by
  cases answer with
  | unwinds => rfl
  | pending ticket => by_cases hre : stack.finish.1 <;> simp only [submitEnds, hre] <;> rfl
  | ack ack => rfl
  | failed error => rfl

/-- What a step does to the frames and to the code that runs. -/
inductive Effect (c d : Config X H L G) : StackOp → Prop
  | keep
      (hopen : openCallbacks d.frames = openCallbacks c.frames)
      (hexec : ∀ engine context x, d.control = .exec engine context x →
        ∃ y, c.control = .exec engine context y) :
      Effect c d .keep
  | attempt {engine : EngineId}
      (hopen : openCallbacks d.frames = openCallbacks c.frames)
      (hexec : ∀ other context x, d.control = .exec other context x →
        other ∉ c.stack.engines) :
      Effect c d (.attempt engine)
  | enter {engine : EngineId} {context : Nat} {x : X} {h : H} {next : AuditSubmit → X}
      (hexec : c.control = .exec engine context x) (hhost : d.control = .host h)
      (hframes : d.frames = .submitting engine context next :: c.frames) :
      Effect c d (.enter engine)
  | leave {engine : EngineId} {context : Nat} {x : X} {h : H} {next : AuditSubmit → X}
      (hhost : c.control = .host h) (hexec : d.control = .exec engine context x)
      (hframes : c.frames = .submitting engine context next :: d.frames) :
      Effect c d .leave

theorem leaveCallback_effect {answer : AuditSubmit} {c d : Config X H L G} {h : H}
    (hhost : c.control = .host h) (hd : leaveCallback answer c = some d) :
    d.stack = c.stack.dropLast ∧ Effect c d .leave := by
  unfold leaveCallback at hd
  cases hframes : c.frames with
  | nil => simp [hframes] at hd
  | cons frame frames =>
    cases frame with
    | calling entry engine context next => simp [hframes] at hd
    | submitting engine context next =>
      rw [hframes] at hd
      obtain rfl := Option.some.inj hd
      exact ⟨submitEnds_stack answer c.stack, .leave hhost rfl hframes⟩

theorem execStep_effect {engine : EngineId} {context : Nat} {x : X} {c d : Config X H L G}
    {move : ExecMove X} (hexec : c.control = .exec engine context x)
    (hd : w.execStep engine context c move = some d) :
    d.stack = (move.op engine).apply c.stack ∧ Effect c d (move.op engine) := by
  -- an execution that ends takes its call with it
  have hends {frame : Frame X H} {frames : List (Frame X H)} {d : Config X H L G} {h : H}
      (hframes : c.frames = frame :: frames)
      (hcalling : openCallbacks (frame :: frames) = openCallbacks frames)
      (hstack : d.stack = c.stack) (hhost : d.control = .host h) (hd : d.frames = frames) :
      d.stack = c.stack ∧ Effect c d .keep := by
    refine ⟨hstack, .keep (by rw [hframes, hcalling, hd]) fun other context' z hz ↦ ?_⟩
    rw [hhost] at hz
    cases hz
  cases move with
  | goOn y =>
    obtain rfl := Option.some.inj hd
    refine ⟨rfl, .keep rfl fun other context' z hz ↦ ?_⟩
    cases hz
    exact ⟨x, hexec⟩
  | submit batch next =>
    obtain rfl := Option.some.inj hd
    exact ⟨rfl, .enter hexec rfl rfl⟩
  | ends audited =>
    cases hframes : c.frames with
    | nil => simp [execStep, hframes] at hd
    | cons frame frames =>
      cases frame with
      | submitting _ _ _ => simp [execStep, hframes] at hd
      | calling _ _ _ _ =>
        simp only [execStep, hframes] at hd
        obtain rfl := Option.some.inj hd
        exact hends hframes rfl rfl rfl rfl
  | unwinds =>
    cases hframes : c.frames with
    | nil => simp [execStep, hframes] at hd
    | cons frame frames =>
      cases frame with
      | submitting _ _ _ => simp [execStep, hframes] at hd
      | calling _ _ _ _ =>
        simp only [execStep, hframes] at hd
        obtain rfl := Option.some.inj hd
        exact hends hframes rfl rfl rfl rfl

theorem step_host {c : Config X H L G} {h : H} (hcontrol : c.control = .host h) :
    w.step c = w.hostStep { c with memory := (w.hostMove h c.memory).2 }
      (w.hostMove h c.memory).1 := by
  unfold step
  rw [hcontrol]

theorem step_exec {c : Config X H L G} {engine : EngineId} {context : Nat} {x : X}
    (hcontrol : c.control = .exec engine context x) :
    w.step c = w.execStep engine context (w.written engine context x c)
      (w.execMove engine x (c.contexts context).language c.memory).1 := by
  unfold step
  rw [hcontrol]

theorem hostStep_effect {h : H} {c d : Config X H L G} {move : HostMove H Q}
    (hcontrol : c.control = .host h) (hd : w.hostStep c move = some d) :
    d.stack = move.op.apply c.stack ∧ Effect c d move.op := by
  cases move with
  | goOn h' =>
    obtain rfl := Option.some.inj hd
    exact ⟨rfl, .keep rfl fun _ _ _ hz ↦ by cases hz⟩
  | call entry engine context request next =>
    obtain rfl := Option.some.inj hd
    obtain ⟨contexts, memory', ⟨h', heq⟩ | ⟨hfree, x, heq⟩⟩ :=
      call_cases w entry engine context request next c
    · rw [heq]
      exact ⟨rfl, .attempt rfl fun _ _ _ hz ↦ by cases hz⟩
    · rw [heq]
      refine ⟨rfl, .attempt rfl fun other _ _ hz ↦ ?_⟩
      cases hz
      exact hfree
  | ends answer => exact leaveCallback_effect hcontrol hd

/-- Each step changes the stack by its operation, and the frames with it. -/
theorem step_effect {c d : Config X H L G} (hd : w.step c = some d) :
    d.stack = (w.stackOp c).apply c.stack ∧ Effect c d (w.stackOp c) := by
  cases hcontrol : c.control with
  | host h =>
    rw [step_host hcontrol] at hd
    obtain ⟨hstack, heffect⟩ := hostStep_effect (by exact hcontrol) hd
    have hop : w.stackOp c = (w.hostMove h c.memory).1.op := by
      unfold stackOp
      rw [hcontrol]
    rw [hop]
    refine ⟨hstack, ?_⟩
    generalize (w.hostMove h c.memory).1.op = op at heffect
    cases heffect with
    | keep h₁ h₂ => exact .keep h₁ h₂
    | attempt h₁ h₂ => exact .attempt h₁ h₂
    | enter h₁ h₂ h₃ => exact .enter h₁ h₂ h₃
    | leave h₁ h₂ h₃ => exact .leave h₁ h₂ h₃
  | exec engine context x =>
    rw [step_exec hcontrol] at hd
    obtain ⟨hstack, heffect⟩ := execStep_effect (by exact hcontrol) hd
    have hop : w.stackOp c =
        (w.execMove engine x (c.contexts context).language c.memory).1.op engine := by
      unfold stackOp
      rw [hcontrol]
    rw [hop]
    refine ⟨hstack, ?_⟩
    generalize (w.execMove engine x (c.contexts context).language c.memory).1.op engine = op
      at heffect
    cases heffect with
    | keep h₁ h₂ => exact .keep h₁ h₂
    | attempt h₁ h₂ => exact .attempt h₁ h₂
    | enter h₁ h₂ h₃ => exact .enter h₁ h₂ h₃
    | leave h₁ h₂ h₃ => exact .leave h₁ h₂ h₃

end Host

/-! ## Runs -/

open Host

variable {w : Host X H Q L G}

theorem Inv.step {c d : Config X H L G} (hinv : Inv c) (hd : w.step c = some d) : Inv d := by
  obtain ⟨hstack, heffect⟩ := step_effect hd
  obtain ⟨hengines, hnodup, hexecuting⟩ := hinv
  generalize w.stackOp c = op at hstack heffect
  cases heffect with
  | keep hopen hexec =>
    constructor
    · rw [hstack, hopen]
      exact hengines
    · rwa [hopen]
    · intro engine context x hx
      obtain ⟨y, hy⟩ := hexec engine context x hx
      rw [hopen]
      exact hexecuting engine context y hy
  | attempt hopen hexec =>
    constructor
    · rw [hstack, hopen, ← hengines]
      exact engines_attempted _ c.stack
    · rwa [hopen]
    · intro engine context x hx hmem
      apply hexec engine context x hx
      rw [hengines, List.mem_reverse, ← hopen]
      exact hmem
  | @enter engine context x h next hexec hhost hframes =>
    have hopen : openCallbacks d.frames = engine :: openCallbacks c.frames := by
      rw [hframes]
      rfl
    constructor
    · rw [hstack, hopen, List.reverse_cons, ← hengines]
      simp [StackOp.apply, SinkCallbackStack.enter, SinkCallbackStack.engines]
    · rw [hopen]
      exact List.nodup_cons.mpr ⟨hexecuting engine context x hexec, hnodup⟩
    · intro other context' y hy
      rw [hhost] at hy
      cases hy
  | @leave engine context x h next hhost hexec hframes =>
    have hopen : openCallbacks c.frames = engine :: openCallbacks d.frames := by
      rw [hframes]
      rfl
    rw [hopen] at hengines hnodup
    constructor
    · rw [hstack, StackOp.apply, SinkCallbackStack.engines, List.map_dropLast]
      rw [SinkCallbackStack.engines] at hengines
      rw [hengines, List.reverse_cons, List.dropLast_concat]
    · exact (List.nodup_cons.mp hnodup).2
    · intro other context' y hy
      rw [hexec] at hy
      cases hy
      exact (List.nodup_cons.mp hnodup).1

theorem Host.Reachable.inv {c : Config X H L G} (h : w.Reachable c) : Inv c := by
  refine Transition.Reach.invariant ?_ ?_ h
  · rintro c ⟨⟨h, hhost⟩, hframes, hstack⟩
    refine ⟨by rw [hframes, hstack]; rfl, by rw [hframes]; exact List.nodup_nil, ?_⟩
    intro engine context x hx
    rw [hhost] at hx
    cases hx
  · intro c _ d hinv _ hd
    exact Inv.step hinv hd

/-- The next step is a call of an entry of the engine. -/
def Host.attempts (w : Host X H Q L G) (engine : EngineId) (c : Config X H L G) : Bool :=
  match c.control with
  | .host h =>
    match (w.hostMove h c.memory).1 with
    | .call _ called _ _ _ => called == engine
    | _ => false
  | .exec .. => false

/-- A run during which some frames stay where they are. `tried` says whether an entry of the
engine was called. -/
inductive During (w : Host X H Q L G) (engine : EngineId) (base : List (Frame X H)) :
    Config X H L G → (tried : Bool) → Config X H L G → Prop
  | start {c : Config X H L G} (h : base <:+ c.frames) : During w engine base c false c
  | step {c d e : Config X H L G} {tried : Bool} (hrun : During w engine base c tried d)
      (hstep : w.step d = some e) (hframes : base <:+ e.frames) :
      During w engine base c (tried || w.attempts engine d) e

theorem attempts_iff {engine : EngineId} {c : Config X H L G} :
    w.attempts engine c = true ↔ w.stackOp c = .attempt engine := by
  unfold attempts stackOp
  cases c.control with
  | host h =>
    simp only
    generalize (w.hostMove h c.memory).1 = move
    cases move <;> simp [HostMove.op]
  | exec e context x =>
    simp only
    generalize (w.execMove e x (c.contexts context).language c.memory).1 = move
    cases move <;> simp [ExecMove.op]

theorem open_of_suffix {engine : EngineId} {context : Nat} {next : AuditSubmit → X}
    {rest frames : List (Frame X H)} (h : .submitting engine context next :: rest <:+ frames) :
    engine ∈ openCallbacks frames := by
  obtain ⟨above, rfl⟩ := h
  induction above with
  | nil => exact List.mem_cons_self
  | cons frame above ih =>
    cases frame with
    | submitting e _ _ => exact List.mem_cons_of_mem _ ih
    | calling _ _ _ _ => exact ih

/-- At the end of a callback its engine is the last one of the stack. -/
theorem Inv.stack_split {c d : Config X H L G} {engine : EngineId} {context : Nat}
    {next : AuditSubmit → X} (hinv : Inv c)
    (hframes : c.frames = .submitting engine context next :: d.frames) :
    ∃ below reentered, c.stack = below ++ [⟨engine, reentered⟩] ∧
      engine ∉ SinkCallbackStack.engines below ∧
      SinkCallbackStack.engines below = (openCallbacks d.frames).reverse := by
  have hengines := hinv.engines
  have hnodup := hinv.nodup
  rw [hframes, openCallbacks] at hengines hnodup
  rw [List.reverse_cons] at hengines
  obtain ⟨below, last, hsplit, hbelow, hlast⟩ := List.map_eq_append_iff.mp hengines
  obtain ⟨entry, rfl, hentry⟩ := List.map_eq_singleton_iff.mp hlast
  refine ⟨below, entry.reentered, ?_, ?_, hbelow⟩
  · rw [hsplit, ← hentry]
  · intro hmem
    rw [SinkCallbackStack.engines, hbelow, List.mem_reverse] at hmem
    exact (List.nodup_cons.mp hnodup).1 hmem

/-- Until its callback ends, the mark of an engine says whether the engine was attempted. -/
theorem During.marked {engine : EngineId} {context : Nat} {next : AuditSubmit → X}
    {rest : List (Frame X H)} {c d : Config X H L G} {tried before : Bool}
    (hrun : During w engine (.submitting engine context next :: rest) c tried d)
    (hinv : Inv c) (hmark : (⟨engine, before⟩ : SinkCallbackEntry) ∈ c.stack) :
    Inv d ∧ (⟨engine, before || tried⟩ : SinkCallbackEntry) ∈ d.stack := by
  induction hrun with
  | start h => exact ⟨hinv, by rwa [Bool.or_false]⟩
  | @step d e tried hrun hstep hframes ih =>
    obtain ⟨hinv', hmark'⟩ := ih
    refine ⟨hinv'.step hstep, ?_⟩
    obtain ⟨hstack, heffect⟩ := step_effect hstep
    have hattempts : w.attempts engine d = true ↔ w.stackOp d = .attempt engine := attempts_iff
    rw [hstack]
    rw [← Bool.or_assoc]
    generalize w.stackOp d = op at hstack heffect hattempts
    generalize w.attempts engine d = trying at hattempts
    cases heffect with
    | keep _ _ =>
      obtain rfl : trying = false := by simpa using hattempts
      rwa [Bool.or_false]
    | @attempt called _ _ =>
      by_cases hcalled : called = engine
      · subst hcalled
        obtain rfl : trying = true := by simpa using hattempts
        rw [Bool.or_true]
        exact mem_attempted_self (List.mem_map_of_mem hmark')
      · obtain rfl : trying = false := by simpa [hcalled] using hattempts
        rw [Bool.or_false]
        exact mem_attempted_other (Ne.symm hcalled) hmark'
    | enter _ _ _ =>
      obtain rfl : trying = false := by simpa using hattempts
      rw [Bool.or_false]
      exact List.mem_append_left _ hmark'
    | @leave other _ _ _ _ _ _ hleave =>
      obtain rfl : trying = false := by simpa using hattempts
      rw [Bool.or_false]
      -- another engine's callback has ended, for this one is still open
      obtain ⟨below, reentered, hsplit, hfree, hbelow⟩ := hinv'.stack_split hleave
      rw [hsplit] at hmark' ⊢
      rw [StackOp.apply, List.dropLast_concat]
      have hopen : engine ∈ SinkCallbackStack.engines below := by
        rw [hbelow, List.mem_reverse]
        exact open_of_suffix hframes
      rcases List.mem_append.mp hmark' with hmem | hmem
      · exact hmem
      · have heq := congrArg (·.engine) (List.mem_singleton.mp hmem)
        obtain rfl : engine = other := by simpa using heq
        exact absurd hopen hfree

/-! ## Runs with and without the mark -/

/-- The last entries of stacks that differ in one engine's mark. -/
theorem unmark_split {engine other : EngineId} {below stack : SinkCallbackStack}
    {reentered : Bool}
    (h : unmark engine stack = unmark engine (below ++ [⟨other, reentered⟩])) :
    ∃ below' reentered', stack = below' ++ [⟨other, reentered'⟩] ∧
      unmark engine below' = unmark engine below ∧
      (other ≠ engine → reentered' = reentered) := by
  unfold unmark at h ⊢
  rw [List.map_append] at h
  obtain ⟨below', last, rfl, hbelow, hlast⟩ := List.map_eq_append_iff.mp h
  rw [List.map_singleton] at hlast
  obtain ⟨⟨e, mark⟩, rfl, hentry⟩ := List.map_eq_singleton_iff.mp hlast
  by_cases he : e = engine <;> by_cases ho : other = engine <;> simp_all

theorem engines_eq_of_unmark {engine : EngineId} {stack stack' : SinkCallbackStack}
    (h : unmark engine stack = unmark engine stack') : stack.engines = stack'.engines := by
  rw [← engines_unmark engine stack, h, engines_unmark]

theorem unmark_of_notMem {engine : EngineId} {stack : SinkCallbackStack}
    (h : engine ∉ stack.engines) : unmark engine stack = stack := by
  unfold unmark
  rw [List.map_congr_left (g := id), List.map_id]
  intro entry hentry
  have hne : entry.engine ≠ engine := fun heq ↦ h (heq ▸ List.mem_map_of_mem hentry)
  exact if_neg hne

theorem leaveCallback_stack {answer : AuditSubmit} {c : Config X H L G}
    {stack : SinkCallbackStack} (h : stack.finish.1 = c.stack.finish.1) :
    leaveCallback answer { c with stack } =
      (leaveCallback answer c).map fun d ↦ { d with stack := stack.dropLast } := by
  unfold leaveCallback
  cases c.frames with
  | nil => rfl
  | cons frame frames =>
    cases frame with
    | calling _ _ _ _ => rfl
    | submitting engine context next =>
      cases answer with
      | unwinds => rfl
      | ack ack => simp only [submitEnds, h]; rfl
      | failed error => simp only [submitEnds, h]; rfl
      | pending ticket =>
        by_cases hre : c.stack.finish.1
        · simp only [submitEnds, h, hre]
          rfl
        · simp only [submitEnds, h, hre]
          rfl

/-- On another stack a step does the same, if calls are admitted and a submit ends alike. -/
theorem step_stack {c : Config X H L G} {stack : SinkCallbackStack}
    (hengines : stack.engines = c.stack.engines)
    (hleave : w.stackOp c = .leave → stack.finish.1 = c.stack.finish.1) :
    w.step { c with stack } =
      (w.step c).map fun d ↦ { d with stack := (w.stackOp c).apply stack } := by
  obtain ⟨control, frames, stack₀, contexts, memory, cancelled⟩ := c
  cases control with
  | host h =>
    rw [step_host rfl, step_host rfl]
    simp only [stackOp] at hleave ⊢
    generalize w.hostMove h memory = moved at hleave ⊢
    obtain ⟨move, memory⟩ := moved
    cases move with
    | goOn h' => rfl
    | call entry engine context request next =>
      refine congrArg some (call_stack (c := ⟨_, _, _, _, _, _⟩) ?_ request next)
      rw [hengines]
    | ends answer => exact leaveCallback_stack (c := ⟨_, _, _, _, _, _⟩) (hleave rfl)
  | exec engine context x =>
    rw [step_exec rfl, step_exec rfl]
    simp only [stackOp]
    generalize hmove : (w.execMove engine x (contexts context).language memory).1 = move
    cases move with
    | goOn y => rfl
    | submit batch next => rfl
    | ends audited =>
      cases frames with
      | nil => rfl
      | cons frame frames => cases frame <;> rfl
    | unwinds =>
      cases frames with
      | nil => rfl
      | cons frame frames => cases frame <;> rfl

/-- While its callback is open, a run does not depend on the mark of an engine. -/
theorem During.unmarked {engine : EngineId} {context : Nat} {next : AuditSubmit → X}
    {rest : List (Frame X H)} {c d : Config X H L G} {tried : Bool} {stack : SinkCallbackStack}
    (hrun : During w engine (.submitting engine context next :: rest) c tried d)
    (hinv : Inv c) (hsame : unmark engine stack = unmark engine c.stack) :
    ∃ stack', During w engine (.submitting engine context next :: rest)
        { c with stack } tried { d with stack := stack' } ∧
      unmark engine stack' = unmark engine d.stack ∧ Inv d := by
  induction hrun with
  | start h => exact ⟨stack, .start h, hsame, hinv⟩
  | @step d e tried hrun hstep hframes ih =>
    obtain ⟨stack', hrun', hsame', hinv'⟩ := ih
    obtain ⟨hstack, heffect⟩ := step_effect hstep
    have hleave (hop : w.stackOp d = .leave) : stack'.finish.1 = d.stack.finish.1 := by
      rw [hop] at heffect
      cases heffect with
      | @leave other _ _ _ _ _ _ hleave =>
        obtain ⟨below, reentered, hsplit, hfree, hbelow⟩ := hinv'.stack_split hleave
        -- this callback is still open, so that another one ends
        have hne : other ≠ engine := by
          rintro rfl
          apply hfree
          rw [hbelow, List.mem_reverse]
          exact open_of_suffix hframes
        rw [hsplit] at hsame' ⊢
        obtain ⟨below', reentered', rfl, _, hmark⟩ := unmark_split hsame'
        rw [hmark hne]
        simp [SinkCallbackStack.finish]
    have hstep' := step_stack (w := w) (c := d) (engines_eq_of_unmark hsame') hleave
    rw [hstep, Option.map_some] at hstep'
    refine ⟨(w.stackOp d).apply stack', hrun'.step hstep' hframes, ?_, hinv'.step hstep⟩
    rw [hstack]
    cases hop : w.stackOp d with
    | keep => exact hsame'
    | attempt other => exact unmark_attempted hsame' other
    | enter other =>
      simp only [StackOp.apply, SinkCallbackStack.enter, unmark, List.map_append] at hsame' ⊢
      rw [hsame']
    | leave =>
      simp only [StackOp.apply, unmark, List.map_dropLast] at hsame' ⊢
      rw [hsame']

/-- The end of a callback, for two stacks that differ in the mark of its engine: only what the
submit gives may differ. -/
theorem callback_end {engine : EngineId} {context : Nat} {next : AuditSubmit → X}
    {rest : List (Frame X H)} {d : Config X H L G} {stack : SinkCallbackStack} {h : H}
    {answer : AuditSubmit} (hinv : Inv d)
    (hframes : d.frames = .submitting engine context next :: rest)
    (hhost : d.control = .host h) (hends : (w.hostMove h d.memory).1 = .ends answer)
    (hsame : unmark engine stack = unmark engine d.stack) :
    ∃ (e : Config X H L G) (result result' : AuditSubmit) (cancelled : List Nat),
      w.step d = some { e with control := .exec engine context (next result) } ∧
      w.step { d with stack } =
        some { e with control := .exec engine context (next result'), cancelled } ∧
      result = (submitEnds answer d.stack).1 ∧ result' = (submitEnds answer stack).1 := by
  obtain ⟨below, reentered, hsplit, hfree, _⟩ :=
    hinv.stack_split (d := { d with frames := rest }) hframes
  obtain ⟨below', reentered', rfl, hbelow, _⟩ := unmark_split (hsplit ▸ hsame)
  have hfree' : engine ∉ SinkCallbackStack.engines below' := by
    rw [engines_eq_of_unmark hbelow]
    exact hfree
  rw [unmark_of_notMem hfree, unmark_of_notMem hfree'] at hbelow
  subst hbelow
  have hdrop := submitEnds_stack answer d.stack
  have hdrop' := submitEnds_stack answer (below' ++ [⟨engine, reentered'⟩])
  rw [List.dropLast_concat] at hdrop'
  rw [congrArg List.dropLast hsplit, List.dropLast_concat] at hdrop
  refine ⟨{ d with
      frames := rest, stack := below', memory := (w.hostMove h d.memory).2
      cancelled := d.cancelled ++ (submitEnds answer d.stack).2.2 },
    _, _, d.cancelled ++ (submitEnds answer (below' ++ [⟨engine, reentered'⟩])).2.2,
    ?_, ?_, rfl, rfl⟩
  · rw [step_host hhost, hends]
    simp only [hostStep, leaveCallback, hframes, hdrop]
  · rw [step_host (by exact hhost)]
    simp only [hends, hostStep, leaveCallback, hframes, hdrop']

/-- A step that brings a frame of a submit enters the engine. -/
theorem submit_pushes {engine : EngineId} {context : Nat} {next : AuditSubmit → X}
    {b c : Config X H L G} (hstep : w.step b = some c)
    (hc : c.frames = .submitting engine context next :: b.frames) :
    (⟨engine, false⟩ : SinkCallbackEntry) ∈ c.stack := by
  obtain ⟨hstack, heffect⟩ := step_effect hstep
  have hopen : openCallbacks c.frames = engine :: openCallbacks b.frames := by
    rw [hc]
    rfl
  generalize w.stackOp b = op at hstack heffect
  cases heffect with
  | keep h _ => exact absurd (h.symm.trans hopen) (List.cons_ne_self _ _).symm
  | attempt h _ => exact absurd (h.symm.trans hopen) (List.cons_ne_self _ _).symm
  | enter _ _ hframes =>
    obtain ⟨rfl, _⟩ : engine = _ ∧ _ := by simpa using (hc.symm.trans hframes)
    rw [hstack]
    exact List.mem_append_right _ List.mem_cons_self
  | leave _ _ hframes =>
    have := congrArg List.length hc
    rw [hframes] at this
    simp at this
    omega

/-! ## The law -/

/-- What a submit gives when the callback returns: a failure if its engine was attempted, and
what the sink has answered otherwise. -/
theorem submit_result {engine : EngineId} {context : Nat} {next : AuditSubmit → X}
    {b c d : Config X H L G} {tried : Bool} {h : H} {answer : AuditSubmit} (hinv : Inv b)
    (hstep : w.step b = some c) (hc : c.frames = .submitting engine context next :: b.frames)
    (hrun : During w engine c.frames c tried d) (hd : d.frames = c.frames)
    (hhost : d.control = .host h) (hends : (w.hostMove h d.memory).1 = .ends answer)
    (hanswer : answer ≠ .unwinds) :
    ∃ e, w.step d = some e ∧
      e.control = .exec engine context
        (next (if tried then .failed .reentrant else answer)) := by
  have hpushed := submit_pushes hstep hc
  rw [hc] at hrun hd
  obtain ⟨hinv', hmark⟩ := hrun.marked (hinv.step hstep) hpushed
  rw [Bool.false_or] at hmark
  obtain ⟨e, result, _, _, hend, _, hresult, _⟩ :=
    callback_end hinv' hd hhost hends (Eq.refl (unmark engine d.stack))
  refine ⟨_, hend, ?_⟩
  obtain ⟨below, reentered, hsplit, hfree, _⟩ :=
    hinv'.stack_split (d := { d with frames := b.frames }) hd
  have hlast : reentered = tried := by
    rw [hsplit] at hmark
    rcases List.mem_append.mp hmark with hmem | hmem
    · exact absurd (List.mem_map_of_mem hmem) hfree
    · simpa using (congrArg (·.reentered) (List.mem_singleton.mp hmem)).symm
  rw [hresult, submitEnds_fst hanswer, hsplit]
  simp [SinkCallbackStack.finish, hlast]

/-- The refusal of a call from a callback of its own engine, with all that it changes. -/
theorem refused_step {c : Config X H L G} {h : H} {entry : Entry} {engine : EngineId}
    {context : Nat} {request : Q} {next : CallEnd → H} (hinv : Inv c)
    (hhost : c.control = .host h)
    (hcall : (w.hostMove h c.memory).1 = .call entry engine context request next)
    (hopen : engine ∈ openCallbacks c.frames) :
    w.step c = some { c with
      control := .host (next (.returned (.refused Refusal.reentry.safeMessage)))
      memory := (w.hostMove h c.memory).2
      stack := c.stack.attempted engine } := by
  have hrefused : admission c.stack c.contexts entry engine context = some .reentry := by
    rw [admission_reentry, hinv.engines, List.mem_reverse]
    exact hopen
  rw [step_host hhost, hcall]
  simp only [hostStep, call, hrefused]
  rfl

/-- A call is refused as re-entrant exactly when a callback of its engine is open, and then
changes nothing but the mark. A submit fails as re-entrant when its engine was attempted during
its callback, and otherwise gives what the sink has answered. Without the mark the run up to
the end of the callback is the same, and so is the state after it but for what the submit gives.
The stack holds the engines of the open callbacks, and nothing when none is open. -/
theorem sink_reentry_exact (w : Host X H Q L G) :
    (∀ c, w.Reachable c → ∀ entry engine context,
      admission c.stack c.contexts entry engine context = some .reentry ↔
        engine ∈ openCallbacks c.frames) ∧
    (∀ c h entry engine context request next, w.Reachable c → c.control = .host h →
      (w.hostMove h c.memory).1 = .call entry engine context request next →
      engine ∈ openCallbacks c.frames →
      w.step c = some { c with
        control := .host (next (.returned (.refused Refusal.reentry.safeMessage)))
        memory := (w.hostMove h c.memory).2
        stack := c.stack.attempted engine }) ∧
    (∀ b c d engine context next tried h answer, w.Reachable b → w.step b = some c →
      c.frames = .submitting engine context next :: b.frames →
      During w engine c.frames c tried d → d.frames = c.frames →
      d.control = .host h → (w.hostMove h d.memory).1 = .ends answer → answer ≠ .unwinds →
      ∃ e, w.step d = some e ∧
        e.control = .exec engine context
          (next (if tried then .failed .reentrant else answer))) ∧
    (∀ b c d engine context next rest tried, w.Reachable b → w.attempts engine b →
      w.step b = some c →
      During w engine (.submitting engine context next :: rest) c tried d →
      ∃ stack, During w engine (.submitting engine context next :: rest)
          { c with stack := b.stack } tried { d with stack } ∧
        unmark engine stack = unmark engine d.stack ∧
        ∀ h answer, d.frames = .submitting engine context next :: rest →
          d.control = .host h → (w.hostMove h d.memory).1 = .ends answer →
          ∃ (e : Config X H L G) (result result' : AuditSubmit) (cancelled : List Nat),
            w.step d = some { e with control := .exec engine context (next result) } ∧
            w.step { d with stack } =
              some { e with control := .exec engine context (next result'), cancelled }) ∧
    (∀ c, w.Reachable c → c.stack.engines = (openCallbacks c.frames).reverse ∧
      (openCallbacks c.frames = [] → c.stack = [])) := by
  refine ⟨?_, ?_, ?_, ?_, ?_⟩
  · intro c hreach entry engine context
    rw [admission_reentry, hreach.inv.engines, List.mem_reverse]
  · intro c h entry engine context request next hreach
    exact refused_step hreach.inv
  · intro b c d engine context next tried h answer hreach
    exact submit_result hreach.inv
  · intro b c d engine context next rest tried hreach hattempts hstep hrun
    obtain ⟨hstack, -⟩ := step_effect hstep
    rw [attempts_iff.mp hattempts] at hstack
    have hsame : unmark engine b.stack = unmark engine c.stack := by
      rw [hstack]
      exact (unmark_attempted_self engine b.stack).symm
    obtain ⟨stack, hrun', hsame', hinv⟩ := hrun.unmarked (hreach.inv.step hstep) hsame
    refine ⟨stack, hrun', hsame', fun h answer hframes hhost hends ↦ ?_⟩
    obtain ⟨e, result, result', cancelled, hend, hend', -, -⟩ :=
      callback_end hinv hframes hhost hends hsame'
    exact ⟨e, result, result', cancelled, hend, hend'⟩
  · intro c hreach
    refine ⟨hreach.inv.engines, fun hopen ↦ ?_⟩
    have hengines := hreach.inv.engines
    rw [hopen] at hengines
    exact List.map_eq_nil_iff.mp hengines

/-! ## A sink that answers as if it had been re-entered -/

/-- The code of a host: its main program calls an engine once, whose sink answers
`Failed(Reentrant)` at once. -/
inductive AnsweringCode
  | main
  | sink
  | stop

/-- An execution submits once, and remembers what it gets. -/
def answeringHost : Host (Option AuditSubmit) AnsweringCode Unit Unit Unit where
  hasSink _ := true
  sink _ _ := .sink
  hostMove code _ :=
    match code with
    | .main => (.call .runAudited 0 0 () fun _ ↦ .stop, ())
    | .sink => (.ends (.failed .reentrant), ())
    | .stop => (.goOn .stop, ())
  guarded _ _ _ _ _ := (none, (), ())
  audited _ _ := none
  execMove _ x _ _ :=
    match x with
    | none => (.submit [] some, (), ())
    | some _ => (.ends (.auditFailed .auditFailure .sink), (), ())
  usage _ := {}

/-- A submit may fail as re-entrant without an attempt: the sink may say so itself. -/
theorem submit_reentrant_not_iff :
    ¬ ∀ (b c d e : Config (Option AuditSubmit) AnsweringCode Unit Unit) engine context next
        tried, answeringHost.Reachable b → answeringHost.step b = some c →
      c.frames = .submitting engine context next :: b.frames →
      During answeringHost engine c.frames c tried d → d.frames = c.frames →
      answeringHost.stackOp d = .leave → answeringHost.step d = some e →
      (e.control = .exec engine context (next (.failed .reentrant)) ↔ tried = true) := by
  intro h
  let main : Config (Option AuditSubmit) AnsweringCode Unit Unit :=
    ⟨.host .main, [], [], fun _ ↦ ⟨false, false, ()⟩, (), []⟩
  have hmain : answeringHost.Reachable main := .init ⟨⟨_, rfl⟩, rfl, rfl⟩
  let submitting := (answeringHost.step main).get rfl
  let callback := (answeringHost.step submitting).get rfl
  have hsubmitting : answeringHost.Reachable submitting :=
    hmain.step (a := ()) trivial (Option.some_get rfl).symm
  have hiff := h submitting callback callback ((answeringHost.step callback).get rfl) 0 0 some
    false hsubmitting (Option.some_get rfl).symm rfl (.start (List.suffix_refl _)) rfl rfl
    (Option.some_get rfl).symm
  exact Bool.false_ne_true (hiff.mp rfl)

end Tsumugi.Audit.Reentry
