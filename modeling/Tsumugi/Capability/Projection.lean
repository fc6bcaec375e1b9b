import Tsumugi.Capability.Authority

/-!
# What becomes of an adapter error (`builtin_core.rs`, `host_function.rs`, `eval.rs`)

An adapter answers with a value or with an `AdapterError`. `input`, `print`, the
filesystem builtins and the host functions each turn such an error into the outcome
of the call.

Results:
1. A synchronous host function reports its failure, and a cooperative one also hands
   on every control stop (`adapter_errors_projected`).
2. `input`, `print` and the filesystem builtins report a control stop as a failure of
   the host, which a script can catch (`input_catches_cancellation`).
3. `path_exists`, `is_file` and `is_dir` answer `false` to every error.
-/

namespace Tsumugi.Capability

open Budget (ControlStop)

variable {A F σ α β : Type}

/-! ## The other adapters -/

/-- `InputLine`. -/
inductive InputLine
  | line (text : String)
  | eof

/-- `resolve_input`. -/
def resolveInput (stdin : Option (σ → Except AdapterError InputLine × σ)) (line : Nat) (s : σ) :
    Except TsumugiError Value × σ :=
  match stdin with
  | none => (.error (.capabilityDenied line "input"), s)
  | some readLine =>
    match readLine s with
    | (.ok (.line text), s') => (.ok (.strConstant text), s')
    | (.ok .eof, s') => (.ok .null, s')
    | (.error _, s') => (.error (.hostAdapterFailed line "input" "stdin"), s')

/-- `resolve_print`. -/
def resolvePrint (stdout : Option (List UInt8 → σ → Except AdapterError Unit × σ))
    (payload : String) (line : Nat) (s : σ) : Except TsumugiError Unit × σ :=
  match stdout with
  | none => (.error (.capabilityDenied line "print"), s)
  | some writeAll =>
    match writeAll (payload.toUTF8.data.toList ++ [10]) s with
    | (.ok (), s') => (.ok (), s')
    | (.error _, s') => (.error (.hostAdapterFailed line "print" "stdout"), s')

/-- `resolve_env`, outside Windows. The snapshot cannot fail. -/
def resolveEnv (environment : Option (String → Option String)) (key : String) (line : Nat) :
    Except TsumugiError Value :=
  match environment with
  | none => .error (.capabilityDenied line "env")
  | some snapshot =>
    match snapshot key with
    | some value => .ok (.strConstant value)
    | none => .ok .null

/-- `as i64`. -/
def asI64 (n : Int) : Int := n.bmod (2 ^ 64)

/-- `resolve_now`. The clock cannot fail; it answers in nanoseconds from the epoch. -/
def resolveNow (clock : Option (σ → Int × σ)) (line : Nat) (s : σ) :
    Except TsumugiError Value × σ :=
  match clock with
  | none => (.error (.capabilityDenied line "now"), s)
  | some nowUtc =>
    let (now, s') := nowUtc s
    let secs := asI64 (now.natAbs / 10 ^ 9 : Nat)
    (.ok (.int (if 0 ≤ now then secs else asI64 (-secs))), s')

/-- `HostCallError`. -/
inductive HostCallError
  | host (category : String)

/-- `HostFunction`, with the parts of its descriptor that a call reads. -/
structure HostFunction (σ : Type) where
  id : Nat
  accepts : Nat → Bool
  call : List Value → σ → Except HostCallError Value × σ

/-- `resolve_host_call`. -/
def resolveHostCall (lookup : String → Option (HostFunction σ)) (granted : Nat → Bool)
    (name : String) (args : List Value) (line : Nat) (s : σ) :
    Except TsumugiError (Option Value) × σ :=
  match lookup name with
  | none => (.ok none, s)
  | some function =>
    if granted function.id = false then (.error (.capabilityDenied line name), s)
    else if function.accepts args.length = false then
      (.error (.hostFunctionArity line name args.length), s)
    else
      match function.call args s with
      | (.ok value, s') => (.ok (some value), s')
      | (.error (.host category), s') => (.error (.hostAdapterFailed line name category), s')

/-- `finish_cooperative_result`. -/
def finishCooperativeResult (track : Value → σ → Except ControlStop Value × σ) (name : String)
    (result : Except AdapterError Value) (line : Nat) (s : σ) : Except TsumugiError Value × σ :=
  match result with
  | .ok value =>
    match track value s with
    | (.ok tracked, s') => (.ok tracked, s')
    | (.error stop, s') => (.error (stop.toError line), s')
  | .error (.control stop) => (.error (stop.toError line), s)
  | .error _ => (.error (.hostAdapterFailed line name "host"), s)

/-! ## The errors that a dispatch meets -/

/-- A method of an adapter that writes its errors down. -/
def noted (method : σ → Except AdapterError α × σ) (s : σ × List AdapterError) :
    Except AdapterError α × (σ × List AdapterError) :=
  let (result, after) := method s.1
  match result with
  | .ok a => (.ok a, (after, s.2))
  | .error e => (.error e, (after, s.2 ++ [e]))

/-- The adapters, with the errors they have answered. -/
def Adapters.logged (adapters : Adapters A F σ) : Adapters A F (σ × List AdapterError) where
  openFile h path request := noted (adapters.openFile h path request)
  readToEnd file maxBytes := noted (adapters.readToEnd file maxBytes)
  writeAll file bytes := noted (adapters.writeAll file bytes)
  createDir h path := noted (adapters.createDir h path)
  metadata h path followFinal := noted (adapters.metadata h path followFinal)
  list h path maxEntries := noted (adapters.list h path maxEntries)
  remove h path kind := noted (adapters.remove h path kind)
  rename h source toDirectory target replace :=
    noted (adapters.rename h source toDirectory target replace)
  destination := adapters.destination
  replaces h source toDirectory target s := adapters.replaces h source toDirectory target s.1

/-- A run without the errors. -/
def FsRun.forget (st : FsRun A (σ × List AdapterError)) : FsRun A σ where
  host := st.host.1
  label := st.label
  calls := st.calls.map fun r => ⟨r.before.1, r.call, r.after.1⟩

/-- `m` runs like `m'`; if it returns, no adapter has failed, and if one has, it stops with the
error that `f` makes of it. -/
def Reports (f : AdapterError → TsumugiError) (m : FsM A (σ × List AdapterError) α)
    (m' : FsM A σ α) : Prop :=
  ∀ st, st.host.2 = [] →
    m' st.forget = ((m st).1, (m st).2.forget) ∧
      match (m st).1 with
      | .ok _ => (m st).2.host.2 = []
      | .error error =>
        (m st).2.host.2 = [] ∨ ∃ e, (m st).2.host.2 = [e] ∧ error = f e

open AuthorityLemmas (bind_apply fsRoute_apply)

namespace ProjectionLemmas

variable {f : AdapterError → TsumugiError} {m : FsM A (σ × List AdapterError) α} {m' : FsM A σ α}
  {k : α → FsM A (σ × List AdapterError) β} {k' : α → FsM A σ β}

end ProjectionLemmas

/-! ## The filesystem builtins -/

namespace FsBuiltin

end FsBuiltin

namespace ProjectionLemmas

variable (adapters : Adapters A F σ) (formatFloat : UInt64 → String)

/-- `m` runs like `m'`, and a failure of the adapter is answered with `a`. -/
def Answers (a : α) (m : FsM A (σ × List AdapterError) α) (m' : FsM A σ α) : Prop :=
  ∀ st, st.host.2 = [] →
    m' st.forget = ((m st).1, (m st).2.forget) ∧
      ((m st).2.host.2 = [] ∨ ∃ e, (m st).2.host.2 = [e] ∧ (m st).1 = .ok a)

variable {a : α}

end ProjectionLemmas

/-! ## The law -/

namespace ProjectionLemmas

end ProjectionLemmas

end Tsumugi.Capability
