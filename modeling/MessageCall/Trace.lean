import MessageCall.Outcome

/-!
# Tracing calls

A `Tracer` turns the operations of an execution into a tree. Entering an operation opens a node,
leaving it closes the node and hangs it under the one that is now innermost, in order. An operation
at the outermost level clears what was there before, so after it the tracer holds one tree, the
tree of that operation (`Tracer.root?`).

A tracer may be switched off, or may look at outermost operations only.
-/

namespace MessageCall

/-- An operation and how it ended. -/
structure TraceRecord where
  callType : CallType
  sender : Address
  /-- The account that was called, or the one that was created. -/
  target : Address
  value : Word
  gas : Gas
  gasUsed : Gas := 0
  input : Bytes
  output : Bytes := []
  /-- The message of the error it ended with. -/
  error : Option String := none
  deriving DecidableEq

/-- An operation with the operations that its code issued, in order. -/
inductive Trace
  | node (record : TraceRecord) (calls : List Trace)

/-- The operation at the root of a tree. -/
def Trace.record : Trace → TraceRecord
  | .node record _ => record

/-- The trees of the operations that the root's code issued. -/
def Trace.calls : Trace → List Trace
  | .node _ calls => calls

/-- The tree with its root changed. -/
def Trace.mapRecord (f : TraceRecord → TraceRecord) : Trace → Trace
  | .node record calls => .node (f record) calls

/-- The tree with one more operation issued by the root's code. -/
def Trace.push : (parent child : Trace) → Trace
  | .node record calls, child => .node record (calls ++ [child])

/-- A recorder of operations. -/
structure Tracer where
  /-- The nodes that are open, innermost first, or the tree of the last outermost operation. -/
  frames : List Trace := []
  /-- Whether only outermost operations are recorded. -/
  onlyTop : Bool := false
  /-- Whether anything is recorded at all. -/
  active : Bool := false

namespace Tracer

/-- A tracer that records nothing. -/
def disabled : Tracer := {}

/-- A tracer of all operations. -/
def full : Tracer := { active := true }

/-- A tracer of outermost operations. -/
def top : Tracer := { active := true, onlyTop := true }

/-- Whether an operation is recorded. -/
def records (t : Tracer) (isTop : Bool) : Bool := t.active && (isTop || !t.onlyTop)

/-- Opens a node for an operation. An outermost operation discards what was recorded before. -/
def enter (record : TraceRecord) (isTop : Bool) (t : Tracer) : Tracer :=
  if t.records isTop then
    { t with frames := .node record [] :: if isTop then [] else t.frames }
  else t

/-- Sets the target of the innermost node. A creation learns its address only after it has been
entered. -/
def setTarget (target : Address) (isTop : Bool) (t : Tracer) : Tracer :=
  if t.records isTop then
    match t.frames with
    | [] => t
    | frame :: rest => { t with frames := frame.mapRecord ({ · with target }) :: rest }
  else t

/-- Closes a list's innermost node: it hangs under the next one, or stands alone. -/
def close (finished : Trace) : List Trace → List Trace
  | [] => [finished]
  | parent :: rest => parent.push finished :: rest

/-- The **end of the innermost operation**, with its result or with the error that passed through
it. An operation that was never entered cannot be ended. -/
def exit (result : Except CallError CallResult) (isTop : Bool) (t : Tracer) :
    Except InternalError Unit × Tracer :=
  if t.records isTop then
    match t.frames with
    | [] => (.error .couldNotPopFrame, t)
    | frame :: rest =>
      -- An error that passed through leaves no result, so nothing counts as used.
      let finished := frame.mapRecord fun record =>
        match result with
        | .ok r =>
          { record with
            gasUsed := r.gasUsed
            output := r.output
            error := r.error?.map CallError.message }
        | .error e => { record with gasUsed := 0, output := [], error := some e.message }
      (.ok (), { t with frames := close finished rest })
  else (.ok (), t)

/-- The tree of the last outermost operation, when it is complete or just begun. -/
def root? (t : Tracer) : Option Trace :=
  match t.frames with
  | [root] => some root
  | _ => none

end Tracer

end MessageCall
