import MessageCall.Dispatch.Call
import MessageCall.Dispatch.Create

/-!
# The dispatcher

Every operation has the same three parts. It is opened, which either ends it at once or prepares a
frame and says which snapshot the frame stands on; the frame's code runs; and the operation is
closed according to how the run ended. All of this happens inside a trace node.

A `Dispatcher` carries out operations: it is a host whose frames run code that issues operations to
the same host one level deeper. The levels are counted down. `Dispatcher.within floor n` is the host
that has `n` levels left and hands over to `floor` below the last one.

An operation is refused as soon as the nesting exceeds the limit, so a frame runs at a level of at
most the limit, and an operation that it issues at most one below that. With two levels more than
the limit, as in `Dispatcher.perform`, no operation ever gets to the floor.
-/

namespace MessageCall

namespace Operation

/-- The entry check of an operation. -/
def refusal? (s : Setting) : Operation → Exec (Option CallResult)
  | .call caller _ _ gas value => Exec.refusal? s caller (some value) gas false
  | .callCode caller _ _ gas value => Exec.refusal? s caller (some value) gas true
  | .delegateCall parent _ _ gas => Exec.refusal? s parent.account none gas false
  | .create caller _ gas value => Exec.refusal? s caller (some value) gas false

/-- What an operation that is not refused does before its code runs. -/
def prepare (s : Setting) : Operation → Exec Opening
  | .call caller target _ gas value => Exec.prepareCall s caller target gas value
  | .callCode caller target _ gas value => Exec.prepareCallCode s caller target gas value
  | .delegateCall parent target _ gas => Exec.prepareDelegateCall s parent target gas
  | .create caller initCode gas value => Exec.prepareCreation s caller initCode gas value

/-- The input that an operation's code gets. -/
def codeInput : Operation → Bytes
  | .call _ _ input _ _ | .callCode _ _ input _ _ | .delegateCall _ _ input _ => input
  | .create .. => []

/-- The first part of an operation. -/
def opening (s : Setting) (op : Operation) : Exec Opening := do
  match ← op.refusal? s with
  | some result => return .finished result
  | none => op.prepare s

/-- The frame's run and the last part of an operation. -/
def closing (s : Setting) (run : Runner) (op : Operation) (frame : CallFrame)
    (snapshot : Ledger.Snapshot) : Exec Outcome :=
  match op with
  | .create .. => Exec.finishCreation s run frame snapshot
  | _ => do return { result := ← Exec.execute run frame op.codeInput snapshot }

/-- The parts of an operation, with its trace node open. -/
def body (s : Setting) (run : Runner) (op : Operation) : Exec Outcome := do
  match ← op.opening s with
  | .finished result => return { result }
  | .started frame snapshot => op.closing s run frame snapshot

/-- Carries out an operation whose frame is run by `run`. -/
def perform (s : Setting) (run : Runner) (op : Operation) : Exec Outcome :=
  Exec.traced op.record (op.body s run)

end Operation

/-- A setting with an interpreter for the code in it. -/
structure Dispatcher where
  setting : Setting
  interpreter : Interpreter

namespace Dispatcher

/-- The **host with a budget** of levels above the floor. An operation at the top one runs code
whose own operations have one level less. -/
def within (d : Dispatcher) (floor : Host) : (levels : Nat) → Host
  | 0 => floor
  | levels + 1 => fun op =>
    op.perform d.setting fun input => d.interpreter d.setting (d.within floor levels) input

/-- The host that refuses everything. -/
def closed : Host := fun _ => throw (.internal (.custom "no level of nesting is left"))

/-- The host with all the levels that the limit on the nesting can reach. -/
def host (d : Dispatcher) : Host :=
  d.within closed (d.setting.limits.maxCallDepth.toNat + 2)

/-- Carries out an operation. -/
def perform (d : Dispatcher) (op : Operation) : Exec Outcome := d.host op

/-- Runs a frame's code directly, without an operation around it. -/
def runFrame (d : Dispatcher) : Runner := d.interpreter d.setting d.host

end Dispatcher

end MessageCall
