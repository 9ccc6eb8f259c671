import MessageCall.Dispatch.Machine
import MessageCall.Script.Instruction

/-!
# Running scripted code

A frame's code is decoded and its instructions are executed one after the other. Before each of
them, and before the end, the run looks whether a stop has been asked for.

A nested operation is given at most what the frame has left. The amount is charged first, and what
the operation does not use comes back.
-/

namespace MessageCall

namespace Script

/-- Stops a run if someone has asked for it. -/
def checkStop : Running Unit := do
  if (← get).machine.cancelled then throw (.fault .cancelled)

/-- Notes how a nested operation ended. -/
def observeCall (callType : CallType) (outcome : Outcome) : Running Unit :=
  modify fun a =>
    let call : ObservedCall := {
      callType
      depth := a.frame.depth
      verdict := outcome.result.verdict
      gasLimit := outcome.result.gasLimit
      gasLeft := outcome.result.gasLeft
      address := outcome.address }
    let observed := { a.machine.observed with calls := call :: a.machine.observed.calls }
    { a with machine := { a.machine with observed } }

/-- Notes the active frame. -/
def observeFrame : Running Unit :=
  modify fun a =>
    let frame : ObservedFrame := {
      sender := a.frame.sender
      account := a.frame.account
      codeAddress := a.frame.codeAddress
      value := a.frame.value
      depth := a.frame.depth
      hostDepth := a.machine.depth
      callType := a.frame.callType
      isDelegate := a.frame.isDelegate }
    let observed := { a.machine.observed with frames := frame :: a.machine.observed.frames }
    { a with machine := { a.machine with observed } }

/-- Pays from the active frame. -/
def pay (gas : Gas) : Running Unit := do
  let frame ← Attempt.ofExcept ((← get).frame.charge gas)
  modify fun a => { a with frame }

/-- Issues an operation with at most the given gas, and takes back what it does not use. -/
def issue (host : Host) (gas : Gas) (operation : CallFrame → Gas → Operation) : Running Unit := do
  -- The frame can pay for this, so an operation never starts with a fault.
  let gas := min gas (← get).frame.gasLeft
  pay gas
  let operation := operation (← get).frame gas
  let outcome ← Running.exec (host operation)
  modify fun a => { a with frame := a.frame.refund outcome.result.gasLeft }
  observeCall operation.callType outcome

/-- How deep an input tells a recursion to go: the number in its first eight bytes. -/
def targetDepth (input : Bytes) : Nat :=
  if 8 ≤ input.length then ofBigEndian (input.take 8) else 0

/-- Executes an instruction. The answer is the output that it ends the run with, if it does.
`linked` says whether a stop asked for by code reaches the host. -/
def step (linked : Bool) (s : Setting) (host : Host) (input : Bytes) :
    Instruction → Running (Option Bytes)
  | .stop => return some []
  | .output data => return some data
  | .outputZeros count => return some (List.replicate count.toNat 0)
  -- These go on with the frame, and may change it.
  | .burn gas => do
    pay gas
    return none
  | .store key value => do
    Running.exec (Exec.view (View.setSlot s.store (← get).frame.account key value))
    return none
  -- These hand an operation to the host.
  | .call target gas value => do
    issue host gas fun frame gas => .call frame.account target [] gas value
    return none
  | .callCode target gas value => do
    issue host gas fun frame gas => .callCode frame.account target [] gas value
    return none
  | .delegateCall target gas => do
    issue host gas fun frame gas => .delegateCall frame target input gas
    return none
  | .create gas value initCode => do
    issue host gas fun frame gas => .create frame.account initCode gas value
    return none
  -- Downwards only until the depth of the input is reached.
  | .recurse => do
    if (← get).frame.depth < targetDepth input then
      issue host allGas fun frame gas => .call frame.account frame.account input gas 0
    return none
  | .observe => do
    observeFrame
    return none
  | .cancel => do
    if linked then modify fun a => { a with machine := { a.machine with cancelled := true } }
    return none
  -- These end the run with a fault.
  | .revert => throw (.fault .revert)
  | .invalid => throw (.fault (.invalidOpcode 0xfe))

/-- Executes instructions to their end, or to the fault behind them. -/
def runAll (linked : Bool) (s : Setting) (host : Host) (input : Bytes)
    (fault : Option ExecutionFault) : List Instruction → Running Bytes
  | [] => do
    checkStop
    match fault with
    | none => return []
    | some fault => throw (.fault fault)
  | instruction :: rest => do
    checkStop
    match ← step linked s host input instruction with
    | some output => return output
    | none => runAll linked s host input fault rest

/-- Runs the active frame's code. -/
def interpreter (linked : Bool) : Interpreter := fun s host input => do
  let (instructions, fault) := decode (← get).frame.code
  runAll linked s host input fault instructions

end Script

end MessageCall
