import MessageCall.Fault
import MessageCall.Json.Fields

/-!
# Documents of errors

An error is written as the name of its case, or as an object from that name to what the case
carries. A case that carries nothing may also be read from an object with `null`.
-/

namespace MessageCall

open Json

instance : Document StoreError where
  toJson
    | .custom text => ofVariant "Custom" (.text text)
  ofJson? j := do
    let ("Custom", some payload) ← variant? j | none
    return .custom (← text? payload)

instance : Document InternalError where
  toJson
    | .overflow => .text "Overflow"
    | .underflow => .text "Underflow"
    | .invalidSnapshot position => ofVariant "InvalidSnapshot" (ofCount position)
    | .accountNotFound address => ofVariant "AccountNotFound" (ofAddress address)
    | .codeNotFound codeHash => ofVariant "CodeNotFound" (ofHash codeHash)
    | .couldNotPopFrame => .text "CouldNotPopCallframe"
    | .store error => ofVariant "Database" (Document.toJson error)
    | .custom text => ofVariant "Custom" (.text text)
  ofJson? j := do
    match ← variant? j with
    | ("Overflow", payload) => if isUnit payload then some .overflow else none
    | ("Underflow", payload) => if isUnit payload then some .underflow else none
    | ("InvalidSnapshot", some payload) => return .invalidSnapshot (← count? payload)
    | ("AccountNotFound", some payload) => return .accountNotFound (← address? payload)
    | ("CodeNotFound", some payload) => return .codeNotFound (← hash? payload)
    | ("CouldNotPopCallframe", payload) => if isUnit payload then some .couldNotPopFrame else none
    | ("Database", some payload) => return .store (← Document.ofJson? payload)
    | ("Custom", some payload) => return .custom (← text? payload)
    | _ => none

instance : Document ExecutionFault where
  toJson
    | .outOfGas => .text "OutOfGas"
    | .invalidOpcode opcode => ofVariant "InvalidOpcode" (natural opcode.toNat)
    | .stackUnderflow => .text "StackUnderflow"
    | .stackOverflow => .text "StackOverflow"
    | .revert => .text "Revert"
    | .cancelled => .text "Cancelled"
    | .custom text => ofVariant "Custom" (.text text)
  ofJson? j := do
    match ← variant? j with
    | ("OutOfGas", payload) => if isUnit payload then some .outOfGas else none
    | ("InvalidOpcode", some payload) => return .invalidOpcode (← byte? payload)
    | ("StackUnderflow", payload) => if isUnit payload then some .stackUnderflow else none
    | ("StackOverflow", payload) => if isUnit payload then some .stackOverflow else none
    | ("Revert", payload) => if isUnit payload then some .revert else none
    | ("Cancelled", payload) => if isUnit payload then some .cancelled else none
    | ("Custom", some payload) => return .custom (← text? payload)
    | _ => none

instance : Document InsufficientFunds where
  toJson f := .record [
    ("requested", ofWord f.requested),
    ("available", ofWord f.available)]
  ofJson? j := do
    let [requested, available] ← fields? ["requested", "available"] j | none
    return {
      requested := ← requested.required word?
      available := ← available.required word? }

instance : Document CallError where
  toJson
    | .depthExceeded => .text "DepthExceeded"
    | .insufficientBalance detail =>
      ofVariant "InsufficientBalance" (ofOption Document.toJson detail)
    | .codeSizeExceeded => .text "CodeSizeExceeded"
    | .codeStoreOutOfGas => .text "CodeStoreOutOfGas"
    | .fault f => ofVariant "ExecutionFault" (Document.toJson f)
    | .internal e => ofVariant "Internal" (Document.toJson e)
  ofJson? j := do
    match ← variant? j with
    | ("DepthExceeded", payload) => if isUnit payload then some .depthExceeded else none
    | ("InsufficientBalance", some payload) =>
      return .insufficientBalance (← nullable? Document.ofJson? payload)
    | ("CodeSizeExceeded", payload) => if isUnit payload then some .codeSizeExceeded else none
    | ("CodeStoreOutOfGas", payload) => if isUnit payload then some .codeStoreOutOfGas else none
    | ("ExecutionFault", some payload) => return .fault (← Document.ofJson? payload)
    | ("Internal", some payload) => return .internal (← Document.ofJson? payload)
    | _ => none

end MessageCall
