import MessageCall.Chain.Precompile
import MessageCall.Dispatch.Entry

/-!
# Calls

The three kinds of calls run the code of a target. They differ in the account that the code acts
on, in the sender and the value that it sees, and in whether value moves.

Only a plain call can bring an account into existence. Under the rules for empty accounts a call
without value to an absent account does nothing at all, unless the address is a native contract's.
-/

namespace MessageCall

/-! ### Frames -/

namespace Operation

/-- The frame of a call of the target on its own account. -/
def callFrame (caller target : Address) (gas : Gas) (value : Word) (code : Bytes)
    (codeHash : Hash) (depth : Nat) : CallFrame where
  sender := caller
  account := target
  codeAddress := target
  code
  codeHash
  value
  gasLimit := gas
  depth
  callType := .call

/-- The frame of a call of the target's code on the caller's account. -/
def callCodeFrame (caller target : Address) (gas : Gas) (value : Word) (code : Bytes)
    (codeHash : Hash) (depth : Nat) : CallFrame where
  sender := caller
  account := caller
  codeAddress := target
  code
  codeHash
  value
  gasLimit := gas
  depth
  callType := .callCode

/-- The frame of a call of the target's code as the parent's own. -/
def delegateFrame (parent : CallFrame) (target : Address) (gas : Gas) (code : Bytes)
    (codeHash : Hash) (depth : Nat) : CallFrame :=
  let frame : CallFrame := {
    sender := parent.account
    account := parent.account
    codeAddress := target
    code
    codeHash
    value := parent.value
    gasLimit := gas
    depth
    callType := .delegateCall }
  frame.asDelegate parent

end Operation

/-! ### Preparing a call -/

namespace Exec

/-- The frame that runs the code of an account. -/
def frameFor (s : Setting) (codeAddress : Address) (frameOf : Bytes → Hash → Nat → CallFrame) :
    Exec CallFrame := do
  let code ← Exec.view (View.code s.store codeAddress)
  let codeHash ← Exec.view (View.codeHash s.store codeAddress)
  return frameOf code codeHash (← get).depth

/-- Makes sure that the target of a call exists. The answer is whether the call is to be skipped
instead. -/
def prepareTarget (s : Setting) (target : Address) (value : Word) : Exec Bool := do
  if ← Exec.view (View.accountExists s.store target) then return false
  else if ¬ Precompile.isAt target s.rules.fork ∧ s.rules.skipsEmptyCalls ∧ value = 0 then
    return true
  else
    Exec.view (View.createAccount s.store target)
    return false

/-- Prepares a call of the target on its own account. The target is created and the value is moved
after the snapshot, so both are undone if the call fails. -/
def prepareCall (s : Setting) (caller target : Address) (gas : Gas) (value : Word) :
    Exec Opening := do
  let snapshot ← Exec.view View.snapshot
  if ← Exec.prepareTarget s target value then return .finished (.noOp gas)
  else
    Exec.view (s.env.transfers.transfer s.store caller target value)
    let frame ← Exec.frameFor s target (Operation.callFrame caller target gas value)
    return .started frame snapshot

/-- Prepares a call of the target's code on the caller's account. -/
def prepareCallCode (s : Setting) (caller target : Address) (gas : Gas) (value : Word) :
    Exec Opening := do
  let snapshot ← Exec.view View.snapshot
  let frame ← Exec.frameFor s target (Operation.callCodeFrame caller target gas value)
  return .started frame snapshot

/-- Prepares a call of the target's code as the parent's own. -/
def prepareDelegateCall (s : Setting) (parent : CallFrame) (target : Address) (gas : Gas) :
    Exec Opening := do
  let snapshot ← Exec.view View.snapshot
  let frame ← Exec.frameFor s target (Operation.delegateFrame parent target gas)
  return .started frame snapshot

end Exec

end MessageCall
