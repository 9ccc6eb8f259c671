import MessageCall.Frame

/-!
# How an operation ends

The issuer of an operation gets a `CallResult`: whether it succeeded, was skipped or was reverted,
the gas it was given, the gas it did not give back, and its output. A creation has an `Outcome`
with two more parts, the address of the new account and the reason why its code could not be
stored although the account stays. They are empty for the other operations.
-/

namespace MessageCall

/-- Whether an operation succeeded. -/
inductive Verdict
  | success
  /-- The operation was skipped before it did any work. -/
  | noOp
  | revert (error : CallError)
  deriving DecidableEq, Repr

/-- The error of an operation that was reverted. -/
def Verdict.error? : Verdict → Option CallError
  | .success | .noOp => none
  | .revert error => some error

/-- Whether an operation was not reverted. -/
def Verdict.isSuccess (v : Verdict) : Bool := v.error?.isNone

/-- What the issuer of an operation gets back. -/
structure CallResult where
  verdict : Verdict
  /-- The gas that the operation was given. -/
  gasLimit : Gas
  /-- The gas that it did not give back. -/
  gasUsed : Gas := 0
  output : Bytes := []
  deriving DecidableEq

namespace CallResult

/-- A frame that ran to its end. -/
def success (frame : CallFrame) (output : Bytes) : CallResult where
  verdict := .success
  gasLimit := frame.gasLimit
  gasUsed := frame.gasUsed
  output

/-- An operation that did nothing. All gas goes back. -/
def noOp (gas : Gas) : CallResult where
  verdict := .noOp
  gasLimit := gas

/-- An operation that was refused before it touched anything. All gas goes back. -/
def refused (gas : Gas) (error : CallError) : CallResult where
  verdict := .revert error
  gasLimit := gas

/-- A frame that failed after it had started. -/
def failure (frame : CallFrame) (error : CallError) : CallResult where
  verdict := .revert error
  gasLimit := frame.gasLimit
  gasUsed := frame.gasUsed

/-- The gas that goes back to the issuer. -/
def gasLeft (r : CallResult) : Gas := Gas.left r.gasLimit r.gasUsed

/-- Whether the operation was not reverted. -/
def isSuccess (r : CallResult) : Bool := r.verdict.isSuccess

/-- The error of an operation that was reverted. -/
def error? (r : CallResult) : Option CallError := r.verdict.error?

end CallResult

/-- The end of an operation of any kind. -/
structure Outcome where
  result : CallResult
  /-- The address of a created account. A creation that was refused has none. -/
  address : Option Address := none
  /-- Why the code of a created account could not be stored although the account stays. -/
  depositError : Option CallError := none
  deriving DecidableEq

/-- The error of a creation: that of its run, or else that of storing its code. -/
def Outcome.error? (o : Outcome) : Option CallError := o.result.error?.or o.depositError

end MessageCall
