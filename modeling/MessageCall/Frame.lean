import MessageCall.Fault

/-!
# Call frames

A `CallFrame` is the context in which one piece of code runs: on whose account it acts, on whose
behalf, with which value, and how much gas it has. The dispatcher builds it, code runs in it, and
it is gone when the code has ended.

Gas is charged all or nothing (`CallFrame.charge?`). What is left of it never goes below zero, not
even where more is noted as used than there was.
-/

namespace MessageCall

/-- The kinds of operations that run code. -/
inductive CallType
  | call
  | callCode
  | delegateCall
  | create
  deriving DecidableEq, Repr, Inhabited

/-- The name of a kind of operation. -/
def CallType.name : CallType → String
  | call => "CALL"
  | callCode => "CALLCODE"
  | delegateCall => "DELEGATECALL"
  | create => "CREATE"

/-- The context in which a piece of code runs. -/
structure CallFrame where
  /-- The account seen as the sender of the message. -/
  sender : Address
  /-- The account on whose balance and storage the code acts. -/
  account : Address
  /-- The account that the code was taken from. -/
  codeAddress : Address
  code : Bytes
  codeHash : Hash
  /-- The value that the message carries. -/
  value : Word
  gasLimit : Gas
  gasUsed : Gas := 0
  /-- How many frames are open around this one. -/
  depth : Nat
  callType : CallType
  /-- Whether the frame acts on behalf of its parent's sender. -/
  isDelegate : Bool := false
  isCreate : Bool := callType = .create
  deriving DecidableEq

namespace CallFrame

/-- The frame acting on behalf of a parent: with the sender and the value that the parent
received. -/
def asDelegate (frame parent : CallFrame) : CallFrame :=
  { frame with sender := parent.sender, value := parent.value, isDelegate := true }

/-- The gas that a frame has left. -/
def gasLeft (frame : CallFrame) : Gas := Gas.left frame.gasLimit frame.gasUsed

/-- The frame after paying for something, if it can pay for it. The sum does not wrap, since what is
paid is at most what is left. -/
def charge? (gas : Gas) (frame : CallFrame) : Option CallFrame :=
  if gas ≤ frame.gasLeft then some { frame with gasUsed := frame.gasUsed + gas } else none

/-- The frame after paying for something. Failing to pay is a fault. -/
def charge (gas : Gas) (frame : CallFrame) : Except CallError CallFrame :=
  match frame.charge? gas with
  | some frame => .ok frame
  | none => .error (.fault .outOfGas)

/-- The frame after getting back gas that a nested operation did not use. -/
def refund (gas : Gas) (frame : CallFrame) : CallFrame :=
  { frame with gasUsed := Gas.left frame.gasUsed gas }

/-- The frame after losing all of its gas. -/
def exhaust (frame : CallFrame) : CallFrame := { frame with gasUsed := frame.gasLimit }

end CallFrame

end MessageCall
