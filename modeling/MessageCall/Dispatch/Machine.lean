import MessageCall.Chain.Rules
import MessageCall.Environment
import MessageCall.Limits
import MessageCall.Trace

/-!
# The dispatcher's state and what it works with

A `Setting` is what stays the same while operations run: the store, the chain, the block and the
limits. A `Machine` is what changes: the ledger behind its view, the trace, the nesting level of the
frame that is running, whether someone has asked for a stop, and what was observed on the way.

Operations are steps over the machine (`Exec`). Running code is a step over the machine and the
code's own frame (`Running`), because code pays for itself from its frame.

`Operation`s are what code may ask for, and a `Host` carries them out. A `Runner` runs the code of
a frame, and an `Interpreter` is a runner for every host.
-/

namespace MessageCall

/-- What stays the same while operations run. -/
structure Setting where
  store : Store
  chain : ChainConfig
  env : Environment := {}
  limits : Limits := {}

/-- The fork-dependent rules at the block. -/
def Setting.rules (s : Setting) : ForkRules := .atBlock s.chain s.env.blockNumber

/-! ### Observations -/

/-- A nested operation and how it ended, as seen by the code that issued it. -/
structure ObservedCall where
  callType : CallType
  /-- The depth of the frame that issued the operation. -/
  depth : Nat
  verdict : Verdict
  gasLimit : Gas
  gasLeft : Gas
  /-- The address of a created account. -/
  address : Option Address
  deriving DecidableEq

/-- What running code saw of its own frame. -/
structure ObservedFrame where
  sender : Address
  account : Address
  codeAddress : Address
  value : Word
  depth : Nat
  /-- The nesting level that the host reported. -/
  hostDepth : Nat
  callType : CallType
  isDelegate : Bool
  deriving DecidableEq

/-- The surroundings of a frame just before its code runs. -/
structure FrameEntry where
  frame : CallFrame
  input : Bytes
  hostDepth : Nat
  cancelled : Bool
  fork : Fork
  block : UInt64
  parentHash : Hash
  /-- The balance of the account that the frame acts on. -/
  balance : Except InternalError Word

/-- What was observed while code ran, newest first. -/
structure Observations where
  calls : List ObservedCall := []
  frames : List ObservedFrame := []
  entries : List FrameEntry := []

/-! ### State -/

/-- What changes while operations run. -/
structure Machine where
  view : View := {}
  tracer : Tracer := .disabled
  /-- The nesting level of the running frame, zero when none runs. -/
  depth : Nat := 0
  /-- Whether running code has been asked to stop. -/
  cancelled : Bool := false
  observed : Observations := {}

/-- A step of the dispatcher. -/
abbrev Exec := Attempt Machine CallError

/-- A step on the ledger. Its errors abort the operation. -/
def Exec.view {α : Type} (m : View.Step α) : Exec α :=
  (m.inside Machine.view fun machine view => { machine with view }).mapError .internal

/-- Code that is running: its frame and the machine. -/
structure Active where
  frame : CallFrame
  machine : Machine

/-- A step of running code. -/
abbrev Running := Attempt Active CallError

/-- A step of the dispatcher while code is running. The frame does not change. -/
def Running.exec {α : Type} (m : Exec α) : Running α :=
  m.inside Active.machine fun a machine => { a with machine }

/-! ### Operations -/

/-- What code may ask for. -/
inductive Operation
  /-- Run the code of `target` on its own account, after moving the value to it. -/
  | call (caller target : Address) (input : Bytes) (gas : Gas) (value : Word)
  /-- Run the code of `target` on the caller's account. The value stays where it is. -/
  | callCode (caller target : Address) (input : Bytes) (gas : Gas) (value : Word)
  /-- Run the code of `target` as if it were the parent's own. -/
  | delegateCall (parent : CallFrame) (target : Address) (input : Bytes) (gas : Gas)
  /-- Run `initCode` at a fresh address and store what it returns as the code there. -/
  | create (caller : Address) (initCode : Bytes) (gas : Gas) (value : Word)

namespace Operation

/-- The kind of an operation. -/
def callType : Operation → CallType
  | call .. => .call
  | callCode .. => .callCode
  | delegateCall .. => .delegateCall
  | create .. => .create

/-- The gas that an operation is given. -/
def gas : Operation → Gas
  | call _ _ _ gas _ | callCode _ _ _ gas _ | delegateCall _ _ _ gas | create _ _ gas _ => gas

/-- How an operation is traced before it has done anything. A creation does not know its address
yet. -/
def record : Operation → TraceRecord
  | call caller target input gas value =>
    { callType := .call, sender := caller, target, value, gas, input }
  | callCode caller target input gas value =>
    { callType := .callCode, sender := caller, target, value, gas, input }
  | delegateCall parent target input gas =>
    { callType := .delegateCall, sender := parent.account, target, value := parent.value, gas,
      input }
  | create caller initCode gas value =>
    { callType := .create, sender := caller, target := 0, value, gas, input := initCode }

end Operation

/-- Carries out operations. -/
abbrev Host := Operation → Exec Outcome

/-- Runs the code of the active frame on an input. -/
abbrev Runner := (input : Bytes) → Running Bytes

/-- Runs code that issues its operations to a host. -/
abbrev Interpreter := Setting → Host → Runner

end MessageCall
