import Mathlib.Data.List.Basic

/-!
# Errors (`error.rs`)

The kinds of a run-time error, the part of them that no `try` can catch, and the
structured error with its trace. The canonical constructors that need a value
stand beside the value model.
-/

namespace Tsumugi

/-- `ErrorKind`. -/
inductive ErrorKind
  | zeroDivision
  | type
  | index
  | name
  | stepLimit
  | deadlineExceeded
  | cancelled
  | stackOverflow
  | sandbox
  | capability
  | processExit
  | «import»
  | argument
  | intOverflow
  | controlFlow
  | collectionLimit
  | stringLimit
  | sourceLimit
  | heapLimit
  | ioLimit
  | conversion
  | builtinType
  | iteration
  | io
  | host
  | internal
  | internalControl
  | runtime
deriving DecidableEq, Repr

namespace ErrorKind

/-- `is_uncatchable`: exit, deadline, cancel, every budget stop, and a broken
control invariant. A parse error has no kind and is catchable. -/
def isUncatchable : Option ErrorKind → Bool
  | some .processExit | some .deadlineExceeded | some .cancelled | some .stepLimit
  | some .collectionLimit | some .stringLimit | some .sourceLimit | some .heapLimit
  | some .ioLimit | some .internalControl => true
  | _ => false

/-- `as_str`: the `type` field of a caught error. -/
def asStr : ErrorKind → String
  | zeroDivision => "zero_division"
  | type => "type"
  | index => "index"
  | name => "name"
  | stepLimit => "limit"
  | deadlineExceeded => "deadline_exceeded"
  | cancelled => "cancelled"
  | stackOverflow => "overflow"
  | sandbox => "sandbox"
  | capability => "capability"
  | processExit => "process_exit"
  | «import» => "import"
  | argument => "argument"
  | intOverflow => "int_overflow"
  | controlFlow => "control_flow"
  | collectionLimit => "collection_limit"
  | stringLimit => "string_limit"
  | sourceLimit => "source_limit"
  | heapLimit => "heap_limit"
  | ioLimit => "io_limit"
  | conversion => "conversion"
  | builtinType => "builtin_type"
  | iteration => "iteration"
  | io => "io"
  | host => "host"
  | internal => "internal"
  | internalControl => "internal_control"
  | runtime => "runtime"

end ErrorKind

/-- `TraceFrame`. -/
structure TraceFrame where
  name : String
  line : Nat
deriving DecidableEq, Repr

/-- `TsumugiError`. The message id is the tag that the stable projection reads. -/
inductive TsumugiError
  | parse (line : Nat) (message : String)
  | runtime (line : Nat) (message : String) (kind : ErrorKind) (trace : List TraceFrame)
      (messageId : Option Nat)
deriving DecidableEq, Repr

namespace TsumugiError

def runtimeWithKind (line : Nat) (kind : ErrorKind) (message : String) : TsumugiError :=
  .runtime line message kind [] none

def line : TsumugiError → Nat
  | .parse line _ => line
  | .runtime line .. => line

def message : TsumugiError → String
  | .parse _ message => message
  | .runtime _ message .. => message

def kind : TsumugiError → Option ErrorKind
  | .parse .. => none
  | .runtime _ _ kind .. => some kind

/-- `with_trace`: the first trace wins. -/
def withTrace (e : TsumugiError) (trace : List TraceFrame) : TsumugiError :=
  match e with
  | .runtime line message kind [] messageId => .runtime line message kind trace messageId
  | e => e

/-- `error_type`. -/
def errorType : TsumugiError → String
  | .parse .. => "parse"
  | .runtime _ _ kind .. => kind.asStr

@[simp] theorem kind_withTrace (e : TsumugiError) (trace : List TraceFrame) :
    (e.withTrace trace).kind = e.kind := by
  unfold withTrace
  split <;> rfl

@[simp] theorem line_withTrace (e : TsumugiError) (trace : List TraceFrame) :
    (e.withTrace trace).line = e.line := by
  unfold withTrace
  split <;> rfl

@[simp] theorem message_withTrace (e : TsumugiError) (trace : List TraceFrame) :
    (e.withTrace trace).message = e.message := by
  unfold withTrace
  split <;> rfl

end TsumugiError

end Tsumugi
