/-!
# Limits of the dispatcher

The limits and switches that do not depend on the block.
-/

namespace MessageCall

/-- Limits and switches of the dispatcher. -/
structure Limits where
  /-- The deepest nesting at which a call or creation may start. -/
  maxCallDepth : UInt64 := 1024
  /-- The largest code that a creation may store, in bytes. -/
  maxCodeSize : UInt64 := 24576
  /-- Gas per byte of stored code. -/
  createDataGas : UInt64 := 200
  /-- When set, only the outermost frame runs, and nested operations do nothing. -/
  noRecursion : Bool := false
  deriving DecidableEq, Repr

instance : Inhabited Limits := ⟨{}⟩

end MessageCall
