import MessageCall.Dispatch.Machine

/-!
# Interpreters that are watched and overruled

Two ways to stand between the dispatcher and an interpreter. `Interpreter.probed` notes the
surroundings of every frame before its code runs. `Interpreter.amended` overrules how a run ends:
for chosen code addresses a run that has succeeded fails after all, gives another output, or has
used another amount of gas.
-/

namespace MessageCall

/-- What becomes of a run that has succeeded. -/
inductive Amendment
  /-- It fails with an error. -/
  | fail (error : CallError)
  /-- It has another output. -/
  | output (data : Bytes)
  /-- It has used another amount of gas. -/
  | gasUsed (gas : Gas)

namespace Interpreter

/-- Notes the surroundings of the active frame. Reading the balance is an access like any other. -/
def noteEntry (s : Setting) (input : Bytes) : Running Unit := do
  let balance ← Running.exec (Exec.view (View.balance s.store (← get).frame.account).outcome)
  modify fun a =>
    let entry : FrameEntry := {
      frame := a.frame
      input
      hostDepth := a.machine.depth
      cancelled := a.machine.cancelled
      fork := s.rules.fork
      block := s.env.blockNumber
      parentHash := s.env.blockHash (s.env.blockNumber - 1)
      balance }
    let observed := { a.machine.observed with entries := entry :: a.machine.observed.entries }
    { a with machine := { a.machine with observed } }

/-- The interpreter that notes the surroundings of every frame first. -/
def probed (i : Interpreter) : Interpreter := fun s host input => do
  noteEntry s input
  i s host input

/-- The interpreter whose runs end as it is laid down for their code addresses. -/
def amended (amendment : Address → Option Amendment) (i : Interpreter) : Interpreter :=
  fun s host input => do
    let output ← i s host input
    match amendment (← get).frame.codeAddress with
    | none => return output
    | some (.fail error) => throw error
    | some (.output data) => return data
    | some (.gasUsed gas) =>
      modify fun a => { a with frame := { a.frame with gasUsed := gas } }
      return output

end Interpreter

end MessageCall
