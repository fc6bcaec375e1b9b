import Tsumugi.Audit.PanicBoundary
import Tsumugi.Lib.Transition

/-!
# Calls of an engine from the callbacks of its sink (`audit.rs`, `embedding.rs`)

While a sink is called, its engine stands on a stack of the thread, and the entries of the
engine are refused. One thread is embedded: the host, its sinks and the executions are any code
that moves by steps; a callback may call any engine, and an execution that it starts may call
its own sink. A frame stands for what waits below the code that runs.
-/

namespace Tsumugi.Audit.Reentry

open Budget Word

abbrev EngineId := Nat

/-! ## The stack of the thread -/

/-- `SinkCallbackEntry`. -/
structure SinkCallbackEntry where
  engine : EngineId
  reentered : Bool
deriving DecidableEq

/-- `SINK_CALLBACK_STACK`, in the order of entering. -/
abbrev SinkCallbackStack := List SinkCallbackEntry

namespace SinkCallbackStack

/-- `SinkCallbackGuard::enter`. -/
def enter (engine : EngineId) (stack : SinkCallbackStack) : SinkCallbackStack :=
  stack ++ [⟨engine, false⟩]

/-- `SinkCallbackGuard::finish`. -/
def finish (stack : SinkCallbackStack) : Bool × SinkCallbackStack :=
  (stack.getLast?.any (·.reentered), stack.dropLast)

/-- `Drop for SinkCallbackGuard`, of a guard that was not finished. -/
def drop (stack : SinkCallbackStack) : SinkCallbackStack := stack.dropLast

/-- The first entry of an engine marked, if there is one. -/
def mark (engine : EngineId) : SinkCallbackStack → Option SinkCallbackStack
  | [] => none
  | entry :: rest =>
    if entry.engine = engine then some ({ entry with reentered := true } :: rest)
    else (mark engine rest).map (entry :: ·)

/-- `reject_sink_callback_reentry`. -/
def rejectSinkCallbackReentry (engine : EngineId) (stack : SinkCallbackStack) :
    Bool × SinkCallbackStack :=
  match mark engine stack with
  | some stack => (true, stack)
  | none => (false, stack)

end SinkCallbackStack

/-! ## Entries and replies -/

/-- The entries of the facade that look at the stack. -/
inductive Entry
  | compile
  | link
  | linkForRepl
  | run
  | runForRepl
  | runAudited
deriving DecidableEq

/-- The entries that take a context and execute. -/
def Entry.executes : Entry → Bool
  | .run | .runForRepl | .runAudited => true
  | .compile | .link | .linkForRepl => false

/-- Why an entry does nothing, with the message of its internal failure. -/
inductive Refusal
  | reentry
  | poisoned
  | running
deriving DecidableEq

def Refusal.safeMessage : Refusal → String
  | .reentry => "sink callback の中から同じ Engine は呼べません（再入は許可されません）"
  | .poisoned => "poison 済みの実行コンテキストは再利用できません"
  | .running => "実行コンテキストが実行中です（再入は許可されません）"

/-- What an entry returns: an internal failure with a message, or what it is for. The message
of the links names a fault instead; what they and `compile` return otherwise is left out. -/
inductive Reply
  | refused (safeMessage : String)
  | prepared
  | outcome (outcome : ExecutionOutcome)
  | audited (outcome : AuditedOutcome)

/-- How a call ends for the code that made it. -/
inductive CallEnd
  | returned (reply : Reply)
  | unwound

/-! ## The thread -/

section Thread

-- `X` is the code of executions, `H` that of the host and its sinks, `Q` a request with its
-- script, `L` the language state of a context, `G` the memory of the host
variable (X H Q L G : Type)

/-- What the code of the host does next. A callback ends with the answer of the sink, and
with `unwinds` by a panic. -/
inductive HostMove
  | goOn (h : H)
  | call (entry : Entry) (engine : EngineId) (context : Nat) (request : Q) (next : CallEnd → H)
  | ends (answer : AuditSubmit)

/-- What an audited execution does next. -/
inductive ExecMove
  | goOn (x : X)
  | submit (batch : List AuditEnvelope) (next : AuditSubmit → X)
  | ends (audited : AuditedOutcome)
  | unwinds

/-- The host with its engines and sinks. `guarded` is `run_inner`, without a result where it
panics; `audited` is `run_audited_inner` at its beginning. -/
structure Host where
  hasSink : EngineId → Bool
  sink : EngineId → List AuditEnvelope → H
  hostMove : H → G → HostMove H Q × G
  guarded : EngineId → (repl : Bool) → Q → L → G → Option ExecutionOutcome × L × G
  audited : EngineId → Q → X
  execMove : EngineId → X → L → G → ExecMove X × L × G
  usage : L → BudgetUsage

/-- `ExecutionContext`. -/
structure Context where
  poisoned : Bool
  running : Bool
  language : L

/-- An execution that waits for its sink, or a call that waits for its execution. -/
inductive Frame
  | submitting (engine : EngineId) (context : Nat) (next : AuditSubmit → X)
  | calling (entry : Entry) (engine : EngineId) (context : Nat) (next : CallEnd → H)

inductive Control
  | host (h : H)
  | exec (engine : EngineId) (context : Nat) (x : X)

/-- The thread. `cancelled` holds the tickets that were cancelled. -/
structure Config where
  control : Control X H
  frames : List (Frame X H)
  stack : SinkCallbackStack
  contexts : Nat → Context L
  memory : G
  cancelled : List Nat

end Thread

variable {X H Q L G : Type}

/-- The engines whose sinks are being called, the last one first. -/
def openCallbacks : List (Frame X H) → List EngineId
  | [] => []
  | .submitting engine _ _ :: frames => engine :: openCallbacks frames
  | .calling .. :: frames => openCallbacks frames

namespace Config

/-- Replace a context. -/
def setContext (c : Config X H L G) (context : Nat) (state : Context L) : Config X H L G :=
  { c with contexts := Function.update c.contexts context state }

def returnTo (c : Config X H L G) (next : CallEnd → H) (reply : Reply) : Config X H L G :=
  { c with control := .host (next (.returned reply)) }

end Config

namespace Host

variable (w : Host X H Q L G)

/-- The checks at the beginning of an entry: the stack, then the context. -/
def admission (stack : SinkCallbackStack) (contexts : Nat → Context L) (entry : Entry)
    (engine : EngineId) (context : Nat) : Option Refusal :=
  if (stack.rejectSinkCallbackReentry engine).1 then some .reentry
  else if entry.executes = false then none
  else if (contexts context).poisoned then some .poisoned
  else if (contexts context).running then some .running
  else none

/-- The end of an entry: the context is free again, and poisoned by an internal failure. -/
def leaveEntry (entry : Entry) (context : Nat) (next : CallEnd → H) (audited : AuditedOutcome)
    (c : Config X H L G) : Config X H L G :=
  let state := { c.contexts context with running := false }
  let state := if audited.isInternalFailure then { state with poisoned := true } else state
  (c.setContext context state).returnTo next
    (if entry = .runAudited then .audited audited else .outcome audited.intoExecutionOutcome)

/-- `run_guarded`: a panic is an internal failure. -/
def runGuarded (entry : Entry) (engine : EngineId) (context : Nat) (request : Q)
    (next : CallEnd → H) (c : Config X H L G) : Config X H L G :=
  let state := c.contexts context
  match w.guarded engine (entry == .runForRepl) request state.language c.memory with
  | (outcome, language, memory) =>
    let outcome := outcome.getD (.internalFailure (w.usage language))
    leaveEntry entry context next (.outcome outcome)
      { c.setContext context { state with language } with memory }

/-- `run`, `run_for_repl` and `run_audited` after the checks. -/
def execute (entry : Entry) (engine : EngineId) (context : Nat) (request : Q)
    (next : CallEnd → H) (c : Config X H L G) : Config X H L G :=
  let c := c.setContext context { c.contexts context with running := true }
  if entry ≠ .runForRepl ∧ w.hasSink engine then
    { c with
      control := .exec engine context (w.audited engine request)
      frames := .calling entry engine context next :: c.frames }
  else w.runGuarded entry engine context request next c

/-- A call of an entry. -/
def call (entry : Entry) (engine : EngineId) (context : Nat) (request : Q)
    (next : CallEnd → H) (c : Config X H L G) : Config X H L G :=
  let refusal := admission c.stack c.contexts entry engine context
  let c := { c with stack := (c.stack.rejectSinkCallbackReentry engine).2 }
  match refusal with
  | some reason => c.returnTo next (.refused reason.safeMessage)
  | none =>
    if entry.executes then w.execute entry engine context request next c
    else c.returnTo next .prepared

/-- `submit_guarded` when the sink has returned or panicked: the result, the stack and the
ticket that is cancelled. -/
def submitEnds (answer : AuditSubmit) (stack : SinkCallbackStack) :
    AuditSubmit × SinkCallbackStack × List Nat :=
  match answer with
  | .unwinds => (.unwinds, stack.drop, [])
  | .pending ticket =>
    if stack.finish.1 then (.failed .reentrant, stack.finish.2, [ticket])
    else (.pending ticket, stack.finish.2, [])
  | answer => (if stack.finish.1 then .failed .reentrant else answer, stack.finish.2, [])

/-- The end of a callback. -/
def leaveCallback (answer : AuditSubmit) (c : Config X H L G) : Option (Config X H L G) :=
  match c.frames with
  | .submitting engine context next :: frames =>
    match submitEnds answer c.stack with
    | (result, stack, tickets) =>
      some { c with
        control := .exec engine context (next result)
        frames, stack, cancelled := c.cancelled ++ tickets }
  | _ => none

/-- A step of an execution. -/
def execStep (engine : EngineId) (context : Nat) (c : Config X H L G) :
    ExecMove X → Option (Config X H L G)
  | .goOn x => some { c with control := .exec engine context x }
  | .submit batch next =>
    some { c with
      control := .host (w.sink engine batch)
      frames := .submitting engine context next :: c.frames
      stack := c.stack.enter engine }
  | .ends audited =>
    match c.frames with
    | .calling entry _ _ next :: frames =>
      some (leaveEntry entry context next audited { c with frames })
    | _ => none
  | .unwinds =>
    -- the panic leaves the entry, whose context stays marked as running
    match c.frames with
    | .calling _ _ _ next :: frames => some { c with control := .host (next .unwound), frames }
    | _ => none

/-- A step in the code of the host. -/
def hostStep (c : Config X H L G) : HostMove H Q → Option (Config X H L G)
  | .goOn h => some { c with control := .host h }
  | .call entry engine context request next =>
    some (w.call entry engine context request next c)
  | .ends answer => leaveCallback answer c

/-- The state in which an execution moves: its context and the memory are written back. -/
def written (engine : EngineId) (context : Nat) (x : X) (c : Config X H L G) :
    Config X H L G :=
  let state := c.contexts context
  let moved := (w.execMove engine x state.language c.memory).2
  { c.setContext context { state with language := moved.1 } with memory := moved.2 }

/-- A step of the thread; there is none when the code at the bottom has ended. -/
def step (c : Config X H L G) : Option (Config X H L G) :=
  match c.control with
  | .host h =>
    w.hostStep { c with memory := (w.hostMove h c.memory).2 } (w.hostMove h c.memory).1
  | .exec engine context x =>
    w.execStep engine context (w.written engine context x c)
      (w.execMove engine x (c.contexts context).language c.memory).1

/-- The thread as a transition system; it begins in the code of the host. -/
def system : Transition.System (Config X H L G) Unit where
  init c := (∃ h, c.control = .host h) ∧ c.frames = [] ∧ c.stack = []
  step c _ := w.step c

/-- The states that the thread reaches. -/
abbrev Reachable (c : Config X H L G) : Prop :=
  Transition.Reach w.system Transition.anyStep c

end Host

end Tsumugi.Audit.Reentry
