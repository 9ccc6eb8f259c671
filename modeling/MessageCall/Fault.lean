import MessageCall.Text.Hex

/-!
# What can go wrong

A message call ends in a `CallError`. All but the internal ones are settled inside the frame that
met them: the frame's changes are undone and its gas is gone. An `InternalError` means that the
state or the machinery around it is broken, and it aborts the whole operation.

Every error has one message, given by the `message` functions. Amounts are written in decimal,
addresses and hashes with all their digits.
-/

namespace MessageCall

/-- Why a backing store could not answer. -/
inductive StoreError
  | custom (text : String)
  deriving DecidableEq, Repr

/-- Why an operation was aborted. -/
inductive InternalError
  | overflow
  | underflow
  /-- A snapshot that lies beyond the journal. -/
  | invalidSnapshot (position : UInt64)
  | accountNotFound (address : Address)
  | codeNotFound (codeHash : Hash)
  /-- A trace frame was closed that was never opened. -/
  | couldNotPopFrame
  | store (error : StoreError)
  | custom (text : String)
  deriving DecidableEq, Repr

/-- Why running code stopped. -/
inductive ExecutionFault
  | outOfGas
  | invalidOpcode (opcode : UInt8)
  | stackUnderflow
  | stackOverflow
  | revert
  | cancelled
  | custom (text : String)
  deriving DecidableEq, Repr

/-- What a caller asked for and what it has. -/
structure InsufficientFunds where
  requested : Word
  available : Word
  deriving DecidableEq, Repr

/-- Why a message call or a creation failed. -/
inductive CallError
  | depthExceeded
  | insufficientBalance (detail : Option InsufficientFunds)
  | codeSizeExceeded
  | codeStoreOutOfGas
  | fault (fault : ExecutionFault)
  | internal (error : InternalError)
  deriving DecidableEq, Repr

/-- Whether an error aborts the operation instead of ending its frame. -/
def CallError.propagates : CallError → Bool
  | .internal _ => true
  | _ => false

/-! ### Messages -/

/-- The message of a store's error. -/
def StoreError.message : StoreError → String
  | .custom text => text

/-- The message of an internal error. -/
def InternalError.message : InternalError → String
  | .overflow => "Arithmetic operation overflowed"
  | .underflow => "Arithmetic operation underflowed"
  | .invalidSnapshot position =>
    "Snapshot " ++ decimal position.toNat ++ " is not part of the journal"
  | .accountNotFound address => "Account " ++ Hex.address address ++ " not found in cache"
  | .codeNotFound codeHash => "Code with hash " ++ Hex.hash codeHash ++ " not found"
  | .couldNotPopFrame => "Could not pop callframe"
  | .store error => "Database error: " ++ error.message
  | .custom text => text

/-- The message of a fault. An opcode is written with two digits. -/
def ExecutionFault.message : ExecutionFault → String
  | .outOfGas => "Out of gas"
  | .invalidOpcode opcode => "Invalid opcode " ++ Hex.bytes [opcode]
  | .stackUnderflow => "Stack underflow"
  | .stackOverflow => "Stack overflow"
  | .revert => "Execution reverted"
  | .cancelled => "Execution cancelled"
  | .custom text => text

/-- The words on what was asked for and what is there. -/
def InsufficientFunds.message (funds : InsufficientFunds) : String :=
  "requested " ++ decimal funds.requested.toNat ++ ", has " ++ decimal funds.available.toNat

/-- The message of an error. -/
def CallError.message : CallError → String
  | .depthExceeded => "Max call depth exceeded"
  | .insufficientBalance none => "Insufficient balance for transfer"
  | .insufficientBalance (some funds) => "Insufficient balance for transfer: " ++ funds.message
  | .codeSizeExceeded => "Contract code size exceeds the limit"
  | .codeStoreOutOfGas => "Contract creation code storage out of gas"
  | .fault f => "Execution fault: " ++ f.message
  | .internal e => "Internal error: " ++ e.message

end MessageCall
