import MessageCall.ContractAddress
import MessageCall.Dispatch.Entry

/-!
# Creations

A creation counts the caller's nonce up, derives the new address from the nonce before, puts a fresh
account there, moves the value to it and runs the given code on it. What the code returns becomes
the account's code, at a price per byte.

The nonce is counted up before the snapshot is taken, so a creation that fails still uses up its
nonce and its address. Where the code is too large the creation fails; where it cannot be paid for
the rules decide whether the creation fails or the account stays behind without code.
-/

namespace MessageCall

/-! ### Preparing a creation -/

/-- The frame of a creation, for the address that it derives. -/
def Operation.creationFrame (caller address : Address) (initCode : Bytes) (gas : Gas)
    (value : Word) (depth : Nat) : CallFrame where
  sender := caller
  account := address
  codeAddress := address
  code := initCode
  codeHash := keccak initCode
  value
  gasLimit := gas
  depth
  callType := .create

namespace Exec

/-- The nonce of a creation's caller, which is counted up. -/
def countUp (s : Setting) (caller : Address) : Exec UInt64 := do
  let nonce ← Exec.view (View.nonce s.store caller)
  match succ? nonce with
  | none => throw (.internal .overflow)
  | some next =>
    Exec.view (View.setNonce s.store caller next)
    return nonce

/-- Puts a creation's fresh account in place, with its value. -/
def found (s : Setting) (caller address : Address) (value : Word) : Exec Unit := do
  Exec.view (View.createAccount s.store address)
  if s.rules.createdNonce ≠ 0 then
    Exec.view (View.setNonce s.store address s.rules.createdNonce)
  Exec.view (s.env.transfers.transfer s.store caller address value)

/-- Prepares a creation. -/
def prepareCreation (s : Setting) (caller : Address) (initCode : Bytes) (gas : Gas)
    (value : Word) : Exec Opening := do
  let nonce ← Exec.countUp s caller
  -- From here on everything is undone if the creation fails, but not the nonce.
  let snapshot ← Exec.view View.snapshot
  let address := contractAddress caller nonce
  modify fun m => { m with tracer := m.tracer.setTarget address (m.depth = 0) }
  Exec.found s caller address value
  return .started (Operation.creationFrame caller address initCode gas value (← get).depth) snapshot

end Exec

/-! ### Ending a creation -/

/-- The price of storing code, if it is an amount of gas. -/
def codeDepositCost (length : Nat) (perByte : UInt64) : Except InternalError Gas :=
  if length * perByte.toNat < UInt64.size then .ok (UInt64.ofNat (length * perByte.toNat))
  else .error .overflow

/-- Stores the code that a creation returned, at its price. The answer is the error that keeps it
from being stored, if any. -/
def Running.deposit (s : Setting) (address : Address) (code : Bytes) :
    Running (Option CallError) := do
  let frame := (← get).frame
  if s.limits.maxCodeSize.toNat < code.length then return some .codeSizeExceeded
  else
    -- A price that is no amount of gas is more than any frame has left.
    let paid := match codeDepositCost code.length s.limits.createDataGas with
      | .ok cost => frame.charge? cost
      | .error _ => none
    match paid with
    | none => return some .codeStoreOutOfGas
    | some frame =>
      modify fun a => { a with frame }
      Running.exec (Exec.view (View.setCode s.store address code))
      return none

/-- Runs a creation's code and stores what it returns. The answer is the error that the creation
ends with, if any; an error while storing the code aborts the creation. -/
def Running.install (s : Setting) (run : Runner) (address : Address) :
    Running (Option CallError) := do
  match ← (Running.nested run []).outcome with
  | .ok code => Running.deposit s address code
  | .error e => return some e

/-- The end of a creation whose code has run. -/
def Exec.settleCreation (s : Setting) (address : Address) (snapshot : Ledger.Snapshot)
    (frame : CallFrame) : Option CallError → Exec Outcome
  | none => return { result := .success frame [], address := some address }
  | some error =>
    -- The account stays with its balance and its storage, only the code is missing.
    if error = .codeStoreOutOfGas ∧ ¬ s.rules.codeStoreReverts then
      return {
        result := .success frame []
        address := some address
        depositError := some .codeStoreOutOfGas }
    else do
      let result ← Exec.settle frame snapshot error
      return { result, address := some address }

/-- Runs the code of a creation's frame and ends the creation. -/
def Exec.finishCreation (s : Setting) (run : Runner) (frame : CallFrame)
    (snapshot : Ledger.Snapshot) : Exec Outcome := fun m =>
  match Running.install s run frame.account { frame, machine := m } with
  | (.ok error, a) => Exec.settleCreation s frame.account snapshot a.frame error a.machine
  | (.error e, a) => (.error e, a.machine)

end MessageCall
