import MessageCall.Dispatch.Machine

/-!
# Before and after a frame

Every operation is checked before it touches anything (`Exec.refusal?`). A refused operation is
skipped or reverted with all of its gas given back. One that is not refused prepares a frame, over a
snapshot of the ledger (`Opening`).

A frame runs one nesting level below the present one, and the level is restored however the frame
ends (`Running.nested`). A frame that fails loses all of its gas, and the ledger goes back to the
snapshot taken for it (`Exec.settle`), unless the error is an internal one, which passes through
and leaves the ledger as it is.
-/

namespace MessageCall

/-- The **entry check**: the result to hand back when an operation must not proceed. Nested
operations may be switched off, the nesting may be too deep, and the caller may not be allowed to
send the value; the first of these that applies decides. With `detailed` the last one reports the
caller's balance. -/
def Exec.refusal? (s : Setting) (caller : Address) (value : Option Word) (gas : Gas)
    (detailed : Bool) : Exec (Option CallResult) := do
  let depth := (← get).depth
  if s.limits.noRecursion ∧ 0 < depth then return some (.noOp gas)
  else if s.limits.maxCallDepth.toNat < depth then return some (.refused gas .depthExceeded)
  else match value with
    | none => return none
    | some value =>
      if ← Exec.view (s.env.transfers.allows s.store caller value) then return none
      else if detailed then
        let available ← Exec.view (View.balance s.store caller)
        return some (.refused gas (.insufficientBalance (some { requested := value, available })))
      else return some (.refused gas (.insufficientBalance none))

/-- What comes of **opening** an operation. -/
inductive Opening
  /-- It ends without running any code. -/
  | finished (result : CallResult)
  /-- A frame is ready to run, over a snapshot. -/
  | started (frame : CallFrame) (snapshot : Ledger.Snapshot)

/-- The **nested run** of the active frame's code, one level deeper than the host is now. If a stop
has been asked for, the code does not even start. -/
def Running.nested (run : Runner) : Runner := fun input a =>
  if a.machine.cancelled then (.error (.fault .cancelled), a)
  else if a.machine.depth + 1 < UInt64.size then
    let (result, after) :=
      run input { a with machine := { a.machine with depth := a.machine.depth + 1 } }
    (result, { after with machine := { after.machine with depth := a.machine.depth } })
  else (.error (.internal .overflow), a)

/-- The **settlement** of a frame that failed: it loses its gas, and the ledger goes back to the
snapshot. An internal error passes through instead. -/
def Exec.settle (frame : CallFrame) (snapshot : Ledger.Snapshot) (error : CallError) :
    Exec CallResult := do
  if error.propagates then throw error
  else
    Exec.view (View.revertTo snapshot)
    return .failure frame.exhaust error

/-- Runs a frame and ends it. -/
def Exec.execute (run : Runner) (frame : CallFrame) (input : Bytes)
    (snapshot : Ledger.Snapshot) : Exec CallResult := fun m =>
  match Running.nested run input { frame, machine := m } with
  | (.ok output, a) => (.ok (.success a.frame output), a.machine)
  | (.error e, a) => Exec.settle a.frame snapshot e a.machine

/-- Opens a trace node for an operation, carries it out, and closes the node with its result. -/
def Exec.traced (record : TraceRecord) (body : Exec Outcome) : Exec Outcome := fun m =>
  let (result, m) := body { m with tracer := m.tracer.enter record (m.depth = 0) }
  -- The node is the one opened above, since every operation in between has closed its own.
  let (closed, tracer) := m.tracer.exit (result.map Outcome.result) (m.depth = 0)
  match closed with
  | .ok () => (result, { m with tracer })
  | .error e => (.error (.internal e), { m with tracer })

end MessageCall
